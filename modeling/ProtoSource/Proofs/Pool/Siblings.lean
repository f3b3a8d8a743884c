import Mathlib.Data.List.Nodup
import ProtoSource.Proofs.Pool.Entering
import ProtoSource.Proofs.Text.Names

/-!
# Names of siblings

If the declarations of every scope of a file have different identifiers for names,
all entries of the file are apart: a full name says which declaration of a scope it
lies below.  The same argument keeps files of one package apart whose outermost
declarations have different names, and files of packages that are not around each
other.
-/

namespace ProtoSource.Text.Name

/-- Different identifiers; they can name the declarations of one scope. -/
def AreDistinct (names : List String) : Prop :=
  names.Nodup ∧ ∀ name ∈ names, IsIdentifier name

instance (names : List String) : Decidable (AreDistinct names) :=
  inferInstanceAs (Decidable (_ ∧ _))

theorem prefix_of_mem_packages {name package : String} (hname : name ∈ packages package) :
    name.toList <+: package.toList := by
  obtain ⟨-, rfl | ⟨rest, hchars⟩⟩ := mem_packages.1 hname
  · exact List.prefix_rfl
  · exact ⟨_, hchars.symm⟩

/-- What a declaration is around is below its scope. -/
theorem mem_packages_of_join {scope name fullName : String} (hscope : scope ≠ "")
    (hjoin : join scope name ∈ packages fullName) : scope ∈ packages fullName := by
  obtain ⟨hempty, rfl | ⟨rest, hchars⟩⟩ := mem_packages.1 hjoin
  · exact mem_packages.2 ⟨hempty, Or.inr ⟨_, toList_join hscope name⟩⟩
  · rw [toList_join hscope, List.append_assoc] at hchars
    exact mem_packages.2 ⟨hempty, Or.inr ⟨_, hchars⟩⟩

/-- What lies below a declaration is not around its scope. -/
theorem notMem_packages_of_join {scope name fullName : String}
    (hjoin : join scope name ∈ packages fullName) : fullName ∉ packages scope := by
  intro hmem
  have hscope : scope ≠ "" := (mem_packages.1 hmem).1
  have hlength := (prefix_of_mem_packages hjoin).length_le
  have hlength' := (prefix_of_mem_packages hmem).length_le
  rw [toList_join hscope, List.length_append, List.length_cons] at hlength
  omega

/-- A full name tells the declaration of a scope that is around it. -/
theorem eq_of_join_mem_packages {scope name other fullName : String} (hname : IsIdentifier name)
    (hother : IsIdentifier other) (hmem : join scope name ∈ packages fullName)
    (hmem' : join scope other ∈ packages fullName) : name = other := by
  have htail {name : String} (hmem : join scope name ∈ packages fullName) :
      ∃ tail, fullName.toList = (join scope name).toList ++ tail ∧
        tail.takeWhile (· != '.') = [] := by
    obtain ⟨-, rfl | ⟨rest, hchars⟩⟩ := mem_packages.1 hmem
    · exact ⟨[], by simp, rfl⟩
    · exact ⟨_, hchars, by simp⟩
  have hfirst {name : String} (hname : IsIdentifier name) {tail : List Char}
      (htail : tail.takeWhile (· != '.') = []) :
      (name.toList ++ tail).takeWhile (· != '.') = name.toList := by
    rw [List.takeWhile_append_of_pos, htail, List.append_nil]
    intro char hchar
    simp only [bne_iff_ne, ne_eq]
    rintro rfl
    exact hname.2 hchar
  obtain ⟨tail, hchars, hends⟩ := htail hmem
  obtain ⟨tail', hchars', hends'⟩ := htail hmem'
  have hsame : name.toList ++ tail = other.toList ++ tail' := by
    rw [hchars] at hchars'
    by_cases hempty : scope = ""
    · simpa [hempty] using hchars'
    · simpa [toList_join hempty] using hchars'
  apply String.toList_injective
  rw [← hfirst hname hends, hsame, hfirst hother hends']

end ProtoSource.Text.Name

namespace ProtoSource.Pool

open ProtoSource.Descriptor
open ProtoSource.Text

/-- A declaration of `scope`, given by its name and the full names that it enters:
they are different, and the declaration is around them. -/
structure IsBlock (scope : String) (block : String × List String) : Prop where
  nodup : block.2.Nodup
  within : ∀ name ∈ block.2, Name.join scope block.1 ∈ Name.packages name

/-- The declarations of `scope`: they have different names. -/
structure Siblings (scope : String) (blocks : List (String × List String)) : Prop where
  areDistinct : Name.AreDistinct (blocks.map Prod.fst)
  isBlock : ∀ block ∈ blocks, IsBlock scope block

namespace Siblings

variable {scope : String} {blocks : List (String × List String)}

theorem nodup_flatMap (hblocks : Siblings scope blocks) : (blocks.flatMap Prod.snd).Nodup := by
  rw [List.nodup_flatMap]
  refine ⟨fun block hblock => (hblocks.isBlock block hblock).nodup, ?_⟩
  have hidentifier {block : String × List String} (hblock : block ∈ blocks) :
      Name.IsIdentifier block.1 :=
    hblocks.areDistinct.2 _ (List.mem_map_of_mem hblock)
  have hnames := List.pairwise_map.1 hblocks.areDistinct.1
  apply hnames.imp_of_mem
  intro block other hblock hother hne name hname hname'
  apply hne
  exact Name.eq_of_join_mem_packages (hidentifier hblock) (hidentifier hother)
    ((hblocks.isBlock block hblock).within name hname)
    ((hblocks.isBlock other hother).within name hname')

/-- A declaration that enters its own name and those of the declarations in it. -/
theorem isBlock_cons {outer name : String} (hname : Name.IsIdentifier name)
    (hblocks : Siblings (Name.join outer name) blocks) :
    IsBlock outer (name, Name.join outer name :: blocks.flatMap Prod.snd) := by
  have hscope : Name.join outer name ≠ "" := Name.join_ne_empty hname.1 outer
  constructor
  · refine List.nodup_cons.2 ⟨fun hmem => ?_, hblocks.nodup_flatMap⟩
    obtain ⟨block, hblock, hmem⟩ := List.mem_flatMap.1 hmem
    exact Name.notMem_packages_of_join ((hblocks.isBlock block hblock).within _ hmem)
      (Name.mem_packages.2 ⟨hscope, Or.inl rfl⟩)
  · rw [List.forall_mem_cons]
    refine ⟨Name.mem_packages.2 ⟨hscope, Or.inl rfl⟩, fun fullName hmem => ?_⟩
    obtain ⟨block, hblock, hmem⟩ := List.mem_flatMap.1 hmem
    exact Name.mem_packages_of_join hscope ((hblocks.isBlock block hblock).within _ hmem)

end Siblings

/-- A declaration that enters its own name only. -/
def single (scope name : String) : String × List String :=
  (name, [Name.join scope name])

theorem isBlock_single {scope name : String} (hname : Name.IsIdentifier name) :
    IsBlock scope (single scope name) := by
  refine ⟨List.nodup_singleton _, ?_⟩
  rw [single, List.forall_mem_singleton]
  exact Name.mem_packages.2 ⟨Name.join_ne_empty hname.1 scope, Or.inl rfl⟩

theorem siblings_single {scope : String} {names : List String} (hnames : Name.AreDistinct names) :
    Siblings scope (names.map (single scope)) := by
  constructor
  · rw [List.map_map]
    exact (List.map_id names).symm ▸ hnames
  · rw [List.forall_mem_map]
    exact fun name hname => isBlock_single (hnames.2 name hname)

namespace Step

/-- The names that steps enter. -/
def names (steps : List Step) : List String :=
  (entries steps).map Prod.fst

@[simp]
theorem names_append (steps others : List Step) :
    names (steps ++ others) = names steps ++ names others := by
  simp [names]

@[simp]
theorem names_enter (name : String) (kind : SymbolKind) (steps : List Step) :
    names (.enter name kind :: steps) = name :: names steps := rfl

theorem names_flatMap {α : Type} (steps : α → List Step) (values : List α) :
    names (values.flatMap steps) = values.flatMap fun value => names (steps value) := by
  induction values with
  | nil => rfl
  | cons value rest ih => simp [ih]

theorem names_map_refuse (faults : List Fault) : names (faults.map .refuse) = [] := by
  induction faults with
  | nil => rfl
  | cons fault rest ih => exact ih

theorem names_closeNames (dialect : Dialect) (fieldNames : List String) :
    names (closeNames dialect fieldNames) = [] := by
  cases dialect with
  | proto2 => rfl
  | proto3 => exact names_map_refuse _

theorem names_members (scope : String) (memberNames : List String) :
    names (members scope memberNames) = (memberNames.map (single scope)).flatMap Prod.snd := by
  induction memberNames with
  | nil => rfl
  | cons name rest ih =>
      change Name.join scope name :: names (members scope rest) = _
      simp [ih, single]

/-- The names of an enum and of its values, which stand beside it. -/
def enumNames (enumeration : Enumeration) : List String :=
  enumeration.name :: enumeration.values.map EnumValue.name

theorem names_ofEnum (dialect : Dialect) (scope : String) (enumeration : Enumeration) :
    names (ofEnum dialect scope enumeration) =
      ((enumNames enumeration).map (single scope)).flatMap Prod.snd := by
  unfold ofEnum enumNames
  rw [names_append, names_append, names_members]
  cases hvalues : enumeration.values with
  | nil => simp [names, single, entries, entry?]
  | cons first rest =>
      dsimp only
      split <;> simp [names, single, entries, entry?]

theorem ofMessages_eq_flatMap (dialect : Dialect) (scope : String) (messages : List Message) :
    ofMessages dialect scope messages = messages.flatMap (ofMessage dialect scope) := by
  induction messages with
  | nil => simp [ofMessages]
  | cons message rest ih => simp [ofMessages, ih]

/-- A message declared in `scope` with the names below it. -/
def messageBlock (dialect : Dialect) (scope : String) (message : Message) : String × List String :=
  (message.name, names (ofMessage dialect scope message))

/-- The declarations in a message with the full name `scope`. -/
def blocksIn (dialect : Dialect) (scope : String) (body : MessageBody) (nested : List Message) :
    List (String × List String) :=
  (body.oneofs.map Oneof.name ++ body.fields.map Field.name).map (single scope) ++
    nested.map (messageBlock dialect scope) ++
    (body.enums.flatMap enumNames ++ body.extensions.map Field.name).map (single scope)

theorem names_ofMessage (dialect : Dialect) (scope : String) (body : MessageBody)
    (nested : List Message) :
    names (ofMessage dialect scope (.mk body nested)) =
      Name.join scope body.name ::
        (blocksIn dialect (Name.join scope body.name) body nested).flatMap Prod.snd := by
  unfold ofMessage ofFields blocksIn
  simp only [names_append, names_members, names_closeNames, names_flatMap, names_ofEnum,
    ofMessages_eq_flatMap, List.flatMap_append, List.map_append, List.map_flatMap,
    List.flatMap_assoc, List.flatMap_map, names_enter, messageBlock]
  simp [names, entries]

end Step

/-- The names of the declarations in a message. -/
def siblingsIn (body : MessageBody) (nested : List Message) : List String :=
  body.oneofs.map Oneof.name ++ body.fields.map Field.name ++ nested.map Message.name ++
    (body.enums.flatMap Step.enumNames ++ body.extensions.map Field.name)

mutual

/-- The declarations in a message, at every depth, have different names. -/
def hasDistinctNames : Message → Bool
  | .mk body nested => decide (Name.AreDistinct (siblingsIn body nested)) &&
    haveDistinctNames nested

def haveDistinctNames : List Message → Bool
  | [] => true
  | message :: rest => hasDistinctNames message && haveDistinctNames rest

end

theorem siblings_blocksIn {dialect : Dialect} {scope : String} {body : MessageBody}
    {nested : List Message} (hnames : Name.AreDistinct (siblingsIn body nested))
    (hnested : ∀ message ∈ nested, IsBlock scope (Step.messageBlock dialect scope message)) :
    Siblings scope (Step.blocksIn dialect scope body nested) := by
  have hfst : (Step.blocksIn dialect scope body nested).map Prod.fst = siblingsIn body nested := by
    simp [Step.blocksIn, siblingsIn, single, Step.messageBlock, Function.comp_def]
  refine ⟨by rwa [hfst], ?_⟩
  have hidentifiers := hnames.2
  unfold siblingsIn at hidentifiers
  rw [List.forall_mem_append, List.forall_mem_append] at hidentifiers
  obtain ⟨⟨hbefore, -⟩, hafter⟩ := hidentifiers
  unfold Step.blocksIn
  rw [List.forall_mem_append, List.forall_mem_append, List.forall_mem_map, List.forall_mem_map,
    List.forall_mem_map]
  exact ⟨⟨fun name hname => isBlock_single (hbefore name hname), hnested⟩,
    fun name hname => isBlock_single (hafter name hname)⟩

mutual

theorem isBlock_messageBlock {dialect : Dialect} {scope : String} {message : Message}
    (hname : Name.IsIdentifier message.name) (hmessage : hasDistinctNames message = true) :
    IsBlock scope (Step.messageBlock dialect scope message) := by
  obtain ⟨body, nested⟩ := message
  rw [hasDistinctNames, Bool.and_eq_true, decide_eq_true_eq] at hmessage
  rw [Step.messageBlock, Step.names_ofMessage]
  apply Siblings.isBlock_cons hname
  apply siblings_blocksIn hmessage.1
  apply isBlock_messageBlocks ?_ hmessage.2
  intro message hmem
  apply hmessage.1.2
  simp only [siblingsIn, List.mem_append]
  exact Or.inl (Or.inr (List.mem_map_of_mem hmem))

theorem isBlock_messageBlocks {dialect : Dialect} {scope : String} {messages : List Message}
    (hnames : ∀ message ∈ messages, Name.IsIdentifier message.name)
    (hmessages : haveDistinctNames messages = true) :
    ∀ message ∈ messages, IsBlock scope (Step.messageBlock dialect scope message) := by
  cases messages with
  | nil => simp
  | cons message rest =>
      rw [haveDistinctNames, Bool.and_eq_true] at hmessages
      rw [List.forall_mem_cons] at hnames ⊢
      exact ⟨isBlock_messageBlock hnames.1 hmessages.1, isBlock_messageBlocks hnames.2 hmessages.2⟩

end

/-- The names of the outermost declarations of a file. -/
def topNames (file : File) : List String :=
  file.messages.map Message.name ++ file.enums.flatMap Step.enumNames ++
    file.services.map Service.name ++ file.extensions.map Field.name

/-- The declarations of every scope of a file have different names. -/
structure HasDistinctNames (file : File) : Prop where
  top : Name.AreDistinct (topNames file)
  messages : haveDistinctNames file.messages = true
  services : ∀ service ∈ file.services, Name.AreDistinct (service.methods.map Method.name)

instance (file : File) : Decidable (HasDistinctNames file) :=
  decidable_of_iff
    (Name.AreDistinct (topNames file) ∧ haveDistinctNames file.messages = true ∧
      ∀ service ∈ file.services, Name.AreDistinct (service.methods.map Method.name))
    ⟨fun ⟨htop, hmessages, hservices⟩ => ⟨htop, hmessages, hservices⟩,
      fun hfile => ⟨hfile.top, hfile.messages, hfile.services⟩⟩

def serviceBlock (scope : String) (service : Service) : String × List String :=
  (service.name, Step.names (Step.ofService scope service))

/-- The outermost declarations of a file. -/
def topBlocks (dialect : Dialect) (file : File) : List (String × List String) :=
  file.messages.map (Step.messageBlock dialect file.package) ++
    (file.enums.flatMap Step.enumNames).map (single file.package) ++
    file.services.map (serviceBlock file.package) ++
    (file.extensions.map Field.name).map (single file.package)

/-- The entries of a file that are not packages. -/
def declarationsOf (dialect : Dialect) (file : File) : List Step :=
  Step.ofMessages dialect file.package file.messages ++
    file.enums.flatMap (Step.ofEnum dialect file.package) ++
    file.services.flatMap (Step.ofService file.package) ++
    Step.members file.package (file.extensions.map Field.name)

theorem map_fst_topBlocks (dialect : Dialect) (file : File) :
    (topBlocks dialect file).map Prod.fst = topNames file := by
  simp [topBlocks, topNames, single, serviceBlock, Step.messageBlock, Function.comp_def]

theorem names_declarationsOf (dialect : Dialect) (file : File) :
    Step.names (declarationsOf dialect file) = (topBlocks dialect file).flatMap Prod.snd := by
  unfold declarationsOf topBlocks
  simp only [Step.names_append, Step.names_members, Step.names_flatMap, Step.names_ofEnum,
    Step.ofMessages_eq_flatMap, List.flatMap_append, List.map_flatMap, List.flatMap_assoc,
    List.flatMap_map, Step.messageBlock, serviceBlock]

theorem entriesOf_eq (dialect : Dialect) (file : File) :
    entriesOf (dialect, file) = (Name.packages file.package).map (·, .package) ++
      Step.entries (declarationsOf dialect file) := by
  have hpackages (names : List String) :
      Step.entries (names.map (.enter · .package)) = names.map (·, .package) := by
    induction names with
    | nil => rfl
    | cons name rest ih => rw [List.map_cons, Step.entries_enter, ih, List.map_cons]
  unfold entriesOf Step.ofFile declarationsOf
  simp only [Step.entries_append, hpackages, List.append_assoc]

namespace HasDistinctNames

variable {dialect : Dialect} {file : File}

theorem siblings_topBlocks (hfile : HasDistinctNames file) :
    Siblings file.package (topBlocks dialect file) := by
  refine ⟨by rw [map_fst_topBlocks]; exact hfile.top, ?_⟩
  have hnames := hfile.top.2
  unfold topNames at hnames
  rw [List.forall_mem_append, List.forall_mem_append, List.forall_mem_append, List.forall_mem_map,
    List.forall_mem_map] at hnames
  obtain ⟨⟨⟨hmessages, henums⟩, hservices⟩, hextensions⟩ := hnames
  unfold topBlocks
  simp only [List.forall_mem_append, List.forall_mem_map] at hextensions ⊢
  refine ⟨⟨⟨isBlock_messageBlocks hmessages hfile.messages,
    fun name hname => isBlock_single (henums name hname)⟩, fun service hservice => ?_⟩,
    fun field hfield => isBlock_single (hextensions field hfield)⟩
  rw [serviceBlock, Step.ofService, Step.names_enter, Step.names_members]
  exact (siblings_single (hfile.services service hservice)).isBlock_cons
    (hservices service hservice)

/-- What a file declares lies below its outermost declarations. -/
theorem within_declarationsOf (hfile : HasDistinctNames file) :
    ∀ entry ∈ Step.entries (declarationsOf dialect file),
      ∃ name ∈ topNames file, Name.join file.package name ∈ Name.packages entry.1 := by
  intro entry hentry
  have hname : entry.1 ∈ Step.names (declarationsOf dialect file) := List.mem_map_of_mem hentry
  rw [names_declarationsOf, List.mem_flatMap] at hname
  obtain ⟨block, hblock, hname⟩ := hname
  refine ⟨block.1, ?_, (hfile.siblings_topBlocks.isBlock block hblock).within _ hname⟩
  rw [← map_fst_topBlocks dialect]
  exact List.mem_map_of_mem hblock

/-- All entries of a file are apart. -/
theorem pairwise_entriesOf (hfile : HasDistinctNames file) :
    (entriesOf (dialect, file)).Pairwise Apart := by
  rw [entriesOf_eq, List.pairwise_append]
  refine ⟨?_, ?_, ?_⟩
  · rw [List.pairwise_map]
    exact List.pairwise_of_forall fun _ _ _ => ⟨rfl, rfl⟩
  · have hnodup : (Step.names (declarationsOf dialect file)).Nodup := by
      rw [names_declarationsOf]
      exact hfile.siblings_topBlocks.nodup_flatMap
    exact (List.pairwise_map.1 hnodup).imp Apart.of_ne
  · intro package hpackage entry hentry
    obtain ⟨name, hname, rfl⟩ := List.mem_map.1 hpackage
    obtain ⟨top, -, hwithin⟩ := hfile.within_declarationsOf entry hentry
    apply Apart.of_ne
    rintro rfl
    exact Name.notMem_packages_of_join hwithin hname

/-- What a file enters are the packages around it and what lies below its outermost
declarations. -/
theorem mem_entriesOf (hfile : HasDistinctNames file) {entry : Entered}
    (hentry : entry ∈ entriesOf (dialect, file)) :
    (entry.2 = .package ∧ entry.1 ∈ Name.packages file.package) ∨
      ∃ name ∈ topNames file, Name.join file.package name ∈ Name.packages entry.1 := by
  rw [entriesOf_eq, List.mem_append, List.mem_map] at hentry
  obtain ⟨package, hpackage, rfl⟩ | hentry := hentry
  · exact Or.inl ⟨rfl, hpackage⟩
  · exact Or.inr (hfile.within_declarationsOf entry hentry)

variable {dialect' : Dialect} {other : File}

/-- Files of one package are apart if their outermost declarations are. -/
theorem apart_of_topNames (hfile : HasDistinctNames file) (hother : HasDistinctNames other)
    (hpackage : file.package = other.package)
    (hnames : ∀ name ∈ topNames file, name ∉ topNames other) :
    ∀ entry ∈ entriesOf (dialect, file), ∀ entry' ∈ entriesOf (dialect', other),
      Apart entry entry' := by
  intro entry hentry entry' hentry' heq
  obtain ⟨hkind, hname⟩ | ⟨name, hname, hwithin⟩ := hfile.mem_entriesOf hentry
  · obtain ⟨hkind', -⟩ | ⟨name', -, hwithin'⟩ := hother.mem_entriesOf hentry'
    · exact ⟨hkind, hkind'⟩
    · rw [← heq, ← hpackage] at hwithin'
      exact absurd hname (Name.notMem_packages_of_join hwithin')
  · obtain ⟨-, hname'⟩ | ⟨name', hname', hwithin'⟩ := hother.mem_entriesOf hentry'
    · rw [← heq, ← hpackage] at hname'
      exact absurd hname' (Name.notMem_packages_of_join hwithin)
    · rw [← heq, ← hpackage] at hwithin'
      obtain rfl := Name.eq_of_join_mem_packages (hfile.top.2 name hname)
        (hother.top.2 name' hname') hwithin hwithin'
      exact absurd hname' (hnames name hname)

/-- Files are apart if neither package starts with the other. -/
theorem apart_of_package (hfile : HasDistinctNames file) (hother : HasDistinctNames other)
    (hpackage : ¬ file.package.toList <+: other.package.toList)
    (hpackage' : ¬ other.package.toList <+: file.package.toList) :
    ∀ entry ∈ entriesOf (dialect, file), ∀ entry' ∈ entriesOf (dialect', other),
      Apart entry entry' := by
  have hstarts {package name fullName : String}
      (hwithin : Name.join package name ∈ Name.packages fullName) :
      package.toList <+: fullName.toList := by
    by_cases hempty : package = ""
    · simp [hempty]
    · exact Name.prefix_of_mem_packages (Name.mem_packages_of_join hempty hwithin)
  intro entry hentry entry' hentry' heq
  obtain ⟨hkind, hname⟩ | ⟨name, -, hwithin⟩ := hfile.mem_entriesOf hentry
  · obtain ⟨hkind', -⟩ | ⟨name', -, hwithin'⟩ := hother.mem_entriesOf hentry'
    · exact ⟨hkind, hkind'⟩
    · rw [← heq] at hwithin'
      exact absurd ((hstarts hwithin').trans (Name.prefix_of_mem_packages hname)) hpackage'
  · have hbelow := hstarts hwithin
    rw [heq] at hbelow
    obtain ⟨-, hname'⟩ | ⟨name', -, hwithin'⟩ := hother.mem_entriesOf hentry'
    · exact absurd (hbelow.trans (Name.prefix_of_mem_packages hname')) hpackage
    · obtain hle | hle := List.prefix_or_prefix_of_prefix hbelow (hstarts hwithin')
      · exact absurd hle hpackage
      · exact absurd hle hpackage'

end HasDistinctNames

end ProtoSource.Pool
