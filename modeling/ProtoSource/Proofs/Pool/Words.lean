import ProtoSource.Proofs.Pool.Outline

/-!
# Files named by words

The names of a language are words: letters, digits and underscores.  In a file whose
declarations are named by words every full name is a path of words, and in a pool of
such files so is what every reference leads to.
-/

namespace ProtoSource.Text.Name

def isWordChar (char : Char) : Bool :=
  char.isAlphanum || char == '_'

/-- The name is a word. -/
def IsWord (name : String) : Prop :=
  name ≠ "" ∧ ∀ char ∈ name.toList, isWordChar char = true

instance (name : String) : Decidable (IsWord name) :=
  inferInstanceAs (Decidable (_ ∧ _))

/-- The name is made of words with dots between them. -/
structure IsPath (name : String) : Prop where
  isDotted : IsDotted name
  chars : ∀ char ∈ name.toList, isWordChar char = true ∨ char = '.'

instance (name : String) : Decidable (IsPath name) :=
  decidable_of_iff (IsDotted name ∧ ∀ char ∈ name.toList, isWordChar char = true ∨ char = '.')
    ⟨fun ⟨hdotted, hchars⟩ => ⟨hdotted, hchars⟩, fun hname => ⟨hname.isDotted, hname.chars⟩⟩

theorem IsWord.isIdentifier {name : String} (hname : IsWord name) : IsIdentifier name :=
  ⟨hname.1, fun hdot => absurd (hname.2 _ hdot) (by decide)⟩

theorem IsPath.join {scope name : String} (hscope : IsPath scope) (hname : IsWord name) :
    IsPath (join scope name) where
  isDotted := hscope.isDotted.join hname.isIdentifier
  chars := by
    by_cases hempty : scope = ""
    · subst hempty
      rw [join_empty]
      exact fun char hchar => Or.inl (hname.2 char hchar)
    · rw [toList_join hempty, List.forall_mem_append, List.forall_mem_cons]
      exact ⟨hscope.chars, Or.inr rfl, fun char hchar => Or.inl (hname.2 char hchar)⟩

/-- The absolute name of something on a path of words. -/
def IsReference (typeName : String) : Prop :=
  ∃ fullName ∈ absolute? typeName, fullName ≠ "" ∧ IsPath fullName

instance (typeName : String) : Decidable (IsReference typeName) :=
  inferInstanceAs (Decidable (∃ _ ∈ absolute? typeName, _))

end ProtoSource.Text.Name

namespace ProtoSource.Pool

open ProtoSource.Descriptor
open ProtoSource.Related
open ProtoSource.Success
open ProtoSource.Text

/-- Every declaration of a file is named by a word, and its package by a path. -/
structure DeclaresWords (file : File) : Prop where
  package : Name.IsPath file.package
  messages : ∀ entry ∈ messagesOf file, Name.IsWord entry.2.name
  fields : ∀ entry ∈ messagesOf file, ∀ field ∈ entry.2.body.fields, Name.IsWord field.name
  oneofs : ∀ entry ∈ messagesOf file, ∀ oneof ∈ entry.2.body.oneofs, Name.IsWord oneof.name
  enums : ∀ entry ∈ enumsOf file, Name.IsWord entry.2.name
  values : ∀ entry ∈ enumsOf file, ∀ value ∈ entry.2.values, Name.IsWord value.name
  services : ∀ service ∈ file.services, Name.IsWord service.name
  methods : ∀ service ∈ file.services, ∀ method ∈ service.methods, Name.IsWord method.name

theorem declaresWords_iff {file : File} :
    DeclaresWords file ↔ Name.IsPath file.package ∧
      (∀ entry ∈ messagesOf file, Name.IsWord entry.2.name ∧
        (∀ field ∈ entry.2.body.fields, Name.IsWord field.name) ∧
        ∀ oneof ∈ entry.2.body.oneofs, Name.IsWord oneof.name) ∧
      (∀ entry ∈ enumsOf file, Name.IsWord entry.2.name ∧
        ∀ value ∈ entry.2.values, Name.IsWord value.name) ∧
      ∀ service ∈ file.services, Name.IsWord service.name ∧
        ∀ method ∈ service.methods, Name.IsWord method.name := by
  constructor
  · intro hfile
    exact ⟨hfile.package,
      fun entry hentry => ⟨hfile.messages entry hentry, hfile.fields entry hentry,
        hfile.oneofs entry hentry⟩,
      fun entry hentry => ⟨hfile.enums entry hentry, hfile.values entry hentry⟩,
      fun service hservice => ⟨hfile.services service hservice, hfile.methods service hservice⟩⟩
  · rintro ⟨hpackage, hmessages, henums, hservices⟩
    exact ⟨hpackage, fun entry hentry => (hmessages entry hentry).1,
      fun entry hentry => (hmessages entry hentry).2.1,
      fun entry hentry => (hmessages entry hentry).2.2, fun entry hentry => (henums entry hentry).1,
      fun entry hentry => (henums entry hentry).2,
      fun service hservice => (hservices service hservice).1,
      fun service hservice => (hservices service hservice).2⟩

instance (file : File) : Decidable (DeclaresWords file) :=
  decidable_of_iff _ declaresWords_iff.symm

/-- The types that a file refers to lie on paths of words.  A field may have none. -/
abbrev RefersByWords (file : File) : Prop :=
  RefersBy (fun typeName => typeName = "" ∨ Name.IsReference typeName) Name.IsReference file

instance (file : File) : Decidable (RefersByWords file) :=
  decidable_of_iff
    ((∀ entry ∈ messagesOf file, ∀ field ∈ entry.2.body.fields,
        field.typeName = "" ∨ Name.IsReference field.typeName) ∧
      ∀ service ∈ file.services, ∀ method ∈ service.methods,
        Name.IsReference method.inputType ∧ Name.IsReference method.outputType)
    ⟨fun ⟨hfields, hmethods⟩ => ⟨hfields, hmethods⟩, fun hfile => ⟨hfile.fields, hfile.methods⟩⟩

/-! ## Full names -/

mutual

/-- A message is declared in a scope.  What holds of the outermost scope and goes over
to the messages below holds of that scope. -/
theorem exists_scope_of_mem_messageIn {holds : String → Prop} {scope : String} {message : Message}
    (hscope : holds scope)
    (hjoin : ∀ outer, holds outer → ∀ entry ∈ messageIn scope message,
      holds (Name.join outer entry.2.name)) :
    ∀ entry ∈ messageIn scope message, ∃ outer, holds outer ∧
      entry.1 = Name.join outer entry.2.name := by
  obtain ⟨body, nested⟩ := message
  simp only [messageIn, List.forall_mem_cons] at hjoin ⊢
  have hfull : holds (Name.join scope body.name) := (hjoin scope hscope).1
  exact ⟨⟨scope, hscope, rfl⟩,
    exists_scope_of_mem_messagesIn hfull fun outer houter => (hjoin outer houter).2⟩

theorem exists_scope_of_mem_messagesIn {holds : String → Prop} {scope : String}
    {messages : List Message} (hscope : holds scope)
    (hjoin : ∀ outer, holds outer → ∀ entry ∈ messagesIn scope messages,
      holds (Name.join outer entry.2.name)) :
    ∀ entry ∈ messagesIn scope messages, ∃ outer, holds outer ∧
      entry.1 = Name.join outer entry.2.name := by
  cases messages with
  | nil => simp [messagesIn]
  | cons message rest =>
      simp only [messagesIn, List.forall_mem_append] at hjoin ⊢
      exact ⟨exists_scope_of_mem_messageIn hscope fun outer houter => (hjoin outer houter).1,
        exists_scope_of_mem_messagesIn hscope fun outer houter => (hjoin outer houter).2⟩

end

namespace DeclaresWords

variable {file : File}

theorem wellNamed (hfile : DeclaresWords file) : WellNamed file where
  package := hfile.package.isDotted
  messages := fun entry hentry => (hfile.messages entry hentry).isIdentifier
  enums := fun entry hentry => (hfile.enums entry hentry).isIdentifier
  services := by
    intro entry hentry
    obtain ⟨service, hservice, rfl⟩ := List.mem_map.1 hentry
    exact (hfile.services service hservice).isIdentifier

/-- A message is declared in a scope that is a path. -/
theorem exists_scope_of_mem_messagesOf (hfile : DeclaresWords file) {entry : String × Message}
    (hentry : entry ∈ messagesOf file) :
    ∃ scope, Name.IsPath scope ∧ entry.1 = Name.join scope entry.2.name :=
  exists_scope_of_mem_messagesIn hfile.package
    (fun _ houter entry hentry => houter.join (hfile.messages entry hentry)) entry hentry

/-- The full name of a message is a path, and not empty. -/
theorem isPath_of_mem_messagesOf (hfile : DeclaresWords file) {entry : String × Message}
    (hentry : entry ∈ messagesOf file) : entry.1 ≠ "" ∧ Name.IsPath entry.1 := by
  obtain ⟨scope, hscope, hfull⟩ := hfile.exists_scope_of_mem_messagesOf hentry
  rw [hfull]
  exact ⟨Name.join_ne_empty (hfile.messages entry hentry).1 scope,
    hscope.join (hfile.messages entry hentry)⟩

/-- An enum is declared in a scope that is a path. -/
theorem exists_scope_of_mem_enumsOf (hfile : DeclaresWords file) {entry : String × Enumeration}
    (hentry : entry ∈ enumsOf file) :
    ∃ scope, Name.IsPath scope ∧ entry.1 = Name.join scope entry.2.name := by
  rw [enumsOf, List.mem_append, List.mem_flatMap] at hentry
  obtain htop | ⟨outer, houter, hnested⟩ := hentry
  · obtain ⟨_, -, rfl⟩ := List.mem_map.1 htop
    exact ⟨file.package, hfile.package, rfl⟩
  · obtain ⟨_, -, rfl⟩ := List.mem_map.1 hnested
    exact ⟨outer.1, (hfile.isPath_of_mem_messagesOf houter).2, rfl⟩

theorem isPath_of_mem_enumsOf (hfile : DeclaresWords file) {entry : String × Enumeration}
    (hentry : entry ∈ enumsOf file) : entry.1 ≠ "" ∧ Name.IsPath entry.1 := by
  obtain ⟨scope, hscope, hfull⟩ := hfile.exists_scope_of_mem_enumsOf hentry
  rw [hfull]
  exact ⟨Name.join_ne_empty (hfile.enums entry hentry).1 scope,
    hscope.join (hfile.enums entry hentry)⟩

/-- The full name of a type is a path, and not empty. -/
theorem isPath_of_mem_typesOf (hfile : DeclaresWords file) {fullName : String}
    (hmem : fullName ∈ typesOf file) : fullName ≠ "" ∧ Name.IsPath fullName := by
  rw [typesOf, List.mem_append] at hmem
  obtain hmessage | henum := hmem
  · obtain ⟨entry, hentry, rfl⟩ := List.mem_map.1 hmessage
    exact hfile.isPath_of_mem_messagesOf hentry
  · obtain ⟨entry, hentry, rfl⟩ := List.mem_map.1 henum
    exact hfile.isPath_of_mem_enumsOf hentry

/-- The last component of the full name of a message is its name. -/
theorem last_of_mem_messagesOf (hfile : DeclaresWords file) {entry : String × Message}
    (hentry : entry ∈ messagesOf file) : Name.last entry.1 = entry.2.name := by
  obtain ⟨scope, -, hfull⟩ := hfile.exists_scope_of_mem_messagesOf hentry
  rw [hfull, Name.last_join scope (hfile.messages entry hentry).isIdentifier.2]

theorem last_of_mem_enumsOf (hfile : DeclaresWords file) {entry : String × Enumeration}
    (hentry : entry ∈ enumsOf file) : Name.last entry.1 = entry.2.name := by
  obtain ⟨scope, -, hfull⟩ := hfile.exists_scope_of_mem_enumsOf hentry
  rw [hfull, Name.last_join scope (hfile.enums entry hentry).isIdentifier.2]

end DeclaresWords

/-! ## References of a pool -/

theorem isType_of_beq_message {kind : SymbolKind} (hkind : (kind == .message) = true) :
    kind.isType = true := by
  rw [beq_iff_eq.1 hkind]
  rfl

/-- The type name is the absolute name of a symbol of such a kind. -/
def SymbolTable.PointsAt (table : SymbolTable) (among : SymbolKind → Bool)
    (typeName : String) : Prop :=
  ∃ symbol, table.find? symbol.name = some symbol ∧ among symbol.kind = true ∧
    typeName = "." ++ symbol.name

theorem Outlook.pointsAt_of_resolve {outlook : Outlook} {wanted : Wanted} {scope name : String}
    {symbol : Symbol} (hresolve : outlook.resolve wanted scope name = .ok symbol) :
    outlook.table.PointsAt wanted.admits ("." ++ symbol.name) := by
  obtain ⟨hfind, -, hadmits⟩ := Outlook.lookUp_eq_found.1 (Outlook.resolve_eq_ok hresolve)
  exact ⟨symbol, hfind, hadmits, rfl⟩

theorem pointsAt_of_resolveField {context : Context} {ownerName : String} {owner : MessageBody}
    {path : List Nat} {earlier : List Field} {field resolved : Field}
    (hresolve : resolveField context ownerName owner path earlier field = .ok resolved) :
    resolved.typeName = "" ∨ context.outlook.table.PointsAt SymbolKind.isType
      resolved.typeName := by
  simp only [resolveField, bind_eq_ok, pure_eq_ok] at hresolve
  obtain ⟨-, -, target, htarget, -, -, -, -, -, -, -, -, rfl⟩ := hresolve
  change (withTarget target field).typeName = "" ∨
    context.outlook.table.PointsAt SymbolKind.isType (withTarget target field).typeName
  by_cases hempty : field.typeName = ""
  · obtain ⟨type, rfl⟩ := plain_of_fieldTarget hempty htarget
    exact Or.inl hempty
  · rw [fieldTarget, if_neg (by simpa using hempty)] at htarget
    obtain ⟨symbol, hsymbol, htarget⟩ := bind_eq_ok.1 htarget
    have hpoints := Outlook.pointsAt_of_resolve hsymbol
    split at htarget <;> obtain rfl := pure_eq_ok.1 htarget <;> exact Or.inr hpoints

section Built

variable {files : List (Dialect × File)} {symbols : SymbolTable} {resolved : List File}
    {pool : Pool}
  (hbuilds : Builds files symbols resolved pool)

include hbuilds

/-- The fields of a pool refer to types, if to anything, and its methods to messages. -/
theorem Builds.refersByNames {file : File} (hfile : file ∈ pool.files) :
    RefersBy (fun typeName => typeName = "" ∨ symbols.PointsAt SymbolKind.isType typeName)
      (symbols.PointsAt (· == .message)) file := by
  refine hbuilds.refersBy hfile ?_ ?_
  · rintro context _ _ _ _ _ _ rfl hone
    exact pointsAt_of_resolveField hone
  · rintro outlook _ _ _ rfl hone
    exact Outlook.pointsAt_of_resolve hone

/-- Apart from members, the symbols are what the files of the pool declare. -/
theorem Builds.kind_eq_some_iff {name : String} {kind : SymbolKind} (hkind : kind ≠ .member)
    (dialect : Dialect) :
    (symbols.find? name).map Symbol.kind = some kind ↔
      ∃ file ∈ pool.files, (name, kind) ∈ entriesOf (dialect, file) := by
  have hentries {source file : File} (hkeeps : KeepsNames source file) (dialect' : Dialect) :
      (name, kind) ∈ entriesOf (dialect', source) ↔ (name, kind) ∈ entriesOf (dialect, file) := by
    have hservices : (servicesOf file).map Prod.fst = (servicesOf source).map Prod.fst :=
      hkeeps.services
    rw [mem_entriesOf_iff hkind, mem_entriesOf_iff hkind, hkeeps.package, hkeeps.messages,
      hkeeps.enums, hservices]
  rw [SymbolTable.keeps_ofFiles hbuilds.enters name kind, List.mem_flatMap]
  constructor
  · rintro ⟨source, hsource, hentry⟩
    obtain ⟨file, hfile, hkeeps⟩ :=
      forall₂_exists_of_mem hbuilds.keepsNames (List.mem_map_of_mem hsource)
    exact ⟨file, hfile, (hentries hkeeps source.1).1 hentry⟩
  · rintro ⟨file, hfile, hentry⟩
    obtain ⟨_, hsource, hkeeps⟩ := forall₂_exists_of_mem hbuilds.keepsNames.flip hfile
    obtain ⟨source, hmem, rfl⟩ := List.mem_map.1 hsource
    exact ⟨source, hmem, (hentries hkeeps source.1).2 hentry⟩

/-- A type that the symbols name is declared by a file of the pool. -/
theorem Builds.exists_mem_typesOf_pool {symbol : Symbol}
    (hfind : symbols.find? symbol.name = some symbol) (hkind : symbol.kind.isType = true) :
    ∃ file ∈ pool.files, symbol.name ∈ typesOf file := by
  have hmember : symbol.kind ≠ .member := by
    intro hmember
    simp [hmember, SymbolKind.isType] at hkind
  obtain ⟨file, hfile, hentry⟩ :=
    (hbuilds.kind_eq_some_iff hmember .proto3).1 (by rw [hfind, Option.map_some])
  exact ⟨file, hfile, (mem_typesOf_iff .proto3).2 ⟨_, hkind, hentry⟩⟩

/-- Written anywhere, a reference to a type leads to the type. -/
theorem Builds.lookUp_reference_of_pointsAt (hnames : ∀ file ∈ pool.files, WellNamed file)
    {among : SymbolKind → Bool} (hamong : ∀ kind, among kind = true → kind.isType = true)
    {target : String} (hpoints : symbols.PointsAt among ("." ++ target)) {scope : Render.Scope}
    (hscope : scope.files = pool.files) :
    Render.lookUp pool.files scope.name (scope.reference ("." ++ target)) = some target := by
  obtain ⟨symbol, hfind, hkind, hname⟩ := hpoints
  obtain rfl : target = symbol.name := by simpa using hname
  obtain ⟨other, hother, hmem⟩ := hbuilds.exists_mem_typesOf_pool hfind (hamong _ hkind)
  refine Render.lookUp_reference ?_ ?_ hother hmem
  · rwa [hscope]
  · rw [hscope]
    exact List.Subset.refl _

/-- The services of a file that declares words are listed as they are declared. -/
theorem Builds.services_eq_of_declaresWords {file : File} (hfile : file ∈ pool.files)
    (hwords : DeclaresWords file) : pool.services file = (servicesOf file).map .ok := by
  refine hbuilds.services_eq hfile fun name hname => Name.bare_eq_self ?_
  exact (hwords.wellNamed.isDotted_of_mem_holdersOf (List.mem_append_right _ hname)).head

theorem Builds.isReference_of_pointsAt (hwords : ∀ file ∈ pool.files, DeclaresWords file)
    {among : SymbolKind → Bool} (hamong : ∀ kind, among kind = true → kind.isType = true)
    {typeName : String} (hpoints : symbols.PointsAt among typeName) :
    Name.IsReference typeName := by
  obtain ⟨symbol, hfind, hkind, rfl⟩ := hpoints
  obtain ⟨other, hother, hmem⟩ := hbuilds.exists_mem_typesOf_pool hfind (hamong _ hkind)
  obtain ⟨hne, hpath⟩ := (hwords other hother).isPath_of_mem_typesOf hmem
  exact ⟨symbol.name, by simp, hne, hpath⟩

/-- If the files of a pool declare words they refer by words. -/
theorem Builds.refersByWords (hwords : ∀ file ∈ pool.files, DeclaresWords file) {file : File}
    (hfile : file ∈ pool.files) : RefersByWords file := by
  refine (hbuilds.refersByNames hfile).imp ?_ ?_
  · exact fun _ => Or.imp_right (hbuilds.isReference_of_pointsAt hwords fun _ htype => htype)
  · exact fun _ => hbuilds.isReference_of_pointsAt hwords fun _ => isType_of_beq_message

end Built

end ProtoSource.Pool
