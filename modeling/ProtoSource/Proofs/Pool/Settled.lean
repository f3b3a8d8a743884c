import ProtoSource.Proofs.Pool.Describing
import ProtoSource.Proofs.Pool.Outline

/-!
# Files that resolution leaves alone

A file whose references are absolute names of the right kind, and whose fields
have their JSON names, is the same after resolution.
-/

namespace ProtoSource.Pool

open ProtoSource.Descriptor
open ProtoSource.Related
open ProtoSource.Success
open ProtoSource.Text

/-- The field has no type name, or the absolute name of a message or enum and the
type to go with it. -/
def HasSettledType (messages enums : List String) (field : Field) : Prop :=
  field.typeName = "" ∨
    (∃ name ∈ messages, field.typeName? = some ("." ++ name) ∧
      field.typeCode? = some FieldType.message.code) ∨
    ∃ name ∈ enums, field.typeName? = some ("." ++ name) ∧
      field.typeCode? = some FieldType.enumeration.code

instance (messages enums : List String) (field : Field) :
    Decidable (HasSettledType messages enums field) := by
  unfold HasSettledType
  infer_instance

/-- Resolution does not change the file if the names in `messages` and `enums` are
names of such. -/
structure IsSettled (messages enums : List String) (file : File) : Prop where
  fields : ∀ entry ∈ messagesOf file, ∀ field ∈ entry.2.body.fields,
    HasSettledType messages enums field ∧ field.jsonName?.isSome
  nested : ∀ entry ∈ messagesOf file, entry.2.body.extensions = []
  extensions : ∀ field ∈ file.extensions, HasSettledType messages enums field ∧
    ∃ name ∈ messages, field.extendee? = some ("." ++ name)
  services : file.services = []

instance (messages enums : List String) (file : File) :
    Decidable (IsSettled messages enums file) :=
  decidable_of_iff
    ((∀ entry ∈ messagesOf file, ∀ field ∈ entry.2.body.fields,
        HasSettledType messages enums field ∧ field.jsonName?.isSome) ∧
      (∀ entry ∈ messagesOf file, entry.2.body.extensions = []) ∧
      (∀ field ∈ file.extensions, HasSettledType messages enums field ∧
        ∃ name ∈ messages, field.extendee? = some ("." ++ name)) ∧ file.services = [])
    ⟨fun ⟨hfields, hnested, hextensions, hservices⟩ => ⟨hfields, hnested, hextensions, hservices⟩,
      fun hfile => ⟨hfile.fields, hfile.nested, hfile.extensions, hfile.services⟩⟩

theorem HasSettledType.mono {messages messages' enums enums' : List String}
    (hmessages : messages ⊆ messages') (henums : enums ⊆ enums') {field : Field}
    (hfield : HasSettledType messages enums field) : HasSettledType messages' enums' field := by
  obtain hempty | ⟨name, hname, htype⟩ | ⟨name, hname, htype⟩ := hfield
  · exact Or.inl hempty
  · exact Or.inr (Or.inl ⟨name, hmessages hname, htype⟩)
  · exact Or.inr (Or.inr ⟨name, henums hname, htype⟩)

theorem IsSettled.mono {messages messages' enums enums' : List String}
    (hmessages : messages ⊆ messages') (henums : enums ⊆ enums') {file : File}
    (hsettled : IsSettled messages enums file) : IsSettled messages' enums' file where
  fields entry hentry field hfield :=
    ⟨(hsettled.fields entry hentry field hfield).1.mono hmessages henums,
      (hsettled.fields entry hentry field hfield).2⟩
  nested := hsettled.nested
  extensions field hfield := by
    obtain ⟨htype, name, hname, hextendee⟩ := hsettled.extensions field hfield
    exact ⟨htype.mono hmessages henums, name, hmessages hname, hextendee⟩
  services := hsettled.services

/-- The names are entered as messages and enums. -/
structure SymbolTable.Names (table : SymbolTable) (messages enums : List String) : Prop where
  messages : ∀ name ∈ messages, ∀ symbol, table.find? name = some symbol → symbol.kind = .message
  enums : ∀ name ∈ enums, ∀ symbol, table.find? name = some symbol → symbol.kind = .enumeration

section Settled

variable {context : Context} {messages enums : List String}
  (hnames : context.outlook.table.Names messages enums)

include hnames

theorem withTarget_eq_self {field : Field} (hfield : HasSettledType messages enums field)
    {scope : String} {path : List Nat} {target : Target}
    (htarget : fieldTarget context scope path field = .ok target) :
    withTarget target field = field := by
  have hfound {name : String} (htype : field.typeName? = some ("." ++ name)) :
      ∃ symbol, context.outlook.table.find? name = some symbol ∧
        (symbol.kind = .message → target = .message name) ∧
        (symbol.kind = .enumeration → target = .enumeration name) := by
    have hempty : ("." ++ name).isEmpty = false := by simp
    simp only [fieldTarget, Field.typeName, htype, Option.getD_some, hempty, Bool.false_eq_true,
      if_false, bind_eq_ok] at htarget
    obtain ⟨symbol, hsymbol, hkind⟩ := htarget
    rw [Outlook.resolve, Name.absolute?_dot] at hsymbol
    have hfind := (Outlook.lookUp_eq_found.1 (Outlook.settle_eq_ok.1 hsymbol)).1
    obtain rfl : symbol.name = name := by simpa using List.find?_some hfind
    refine ⟨symbol, hfind, fun hmessage => ?_, fun henumeration => ?_⟩
    · rw [hmessage] at hkind
      exact (pure_eq_ok.1 hkind).symm
    · rw [henumeration] at hkind
      exact (pure_eq_ok.1 hkind).symm
  obtain hempty | ⟨name, hname, htype, hcode⟩ | ⟨name, hname, htype, hcode⟩ := hfield
  · obtain ⟨type, rfl⟩ := plain_of_fieldTarget hempty htarget
    rfl
  · obtain ⟨symbol, hfind, hmessage, -⟩ := hfound htype
    rw [hmessage (hnames.messages name hname symbol hfind)]
    obtain ⟨⟩ := field
    simp_all [withTarget]
  · obtain ⟨symbol, hfind, -, henumeration⟩ := hfound htype
    rw [henumeration (hnames.enums name hname symbol hfind)]
    obtain ⟨⟩ := field
    simp_all [withTarget]

theorem eq_of_resolveField {field : Field} (hfield : HasSettledType messages enums field)
    (hjson : field.jsonName?.isSome) {ownerName : String} {owner : MessageBody} {path : List Nat}
    {earlier : List Field} {resolved : Field}
    (hresolve : resolveField context ownerName owner path earlier field = .ok resolved) :
    resolved = field := by
  simp only [resolveField, bind_eq_ok, pure_eq_ok] at hresolve
  obtain ⟨-, -, target, htarget, -, -, -, -, -, -, -, -, rfl⟩ := hresolve
  rw [withTarget_eq_self hnames hfield htarget]
  obtain ⟨json, hjson⟩ := Option.isSome_iff_exists.1 hjson
  obtain ⟨⟩ := field
  simp_all [jsonName]

theorem eq_of_resolveExtension {field : Field} (hfield : HasSettledType messages enums field)
    (hextendee : ∃ name ∈ messages, field.extendee? = some ("." ++ name)) {scope : String}
    {path : List Nat} {resolved : Field}
    (hresolve : resolveExtension context scope path field = .ok resolved) : resolved = field := by
  obtain ⟨extendee, target, hfound, htarget, rfl⟩ := resolveExtension_eq_ok hresolve
  obtain ⟨name, -, hname⟩ := hextendee
  rw [hname, Option.getD_some, Outlook.resolve, Name.absolute?_dot] at hfound
  have hfind := (Outlook.lookUp_eq_found.1 (Outlook.settle_eq_ok.1 hfound)).1
  obtain rfl : extendee.name = name := by simpa using List.find?_some hfind
  rw [withTarget_eq_self hnames hfield htarget]
  obtain ⟨⟩ := field
  simp_all

end Settled

mutual

theorem eq_of_resolveMessage {context : Context} {messages enums : List String}
    (hnames : context.outlook.table.Names messages enums) {scope : String} {path : List Nat}
    {message resolved : Message}
    (hfields : ∀ entry ∈ messageIn scope message, ∀ field ∈ entry.2.body.fields,
      HasSettledType messages enums field ∧ field.jsonName?.isSome)
    (hnested : ∀ entry ∈ messageIn scope message, entry.2.body.extensions = [])
    (hresolve : resolveMessage context scope path message = .ok resolved) : resolved = message := by
  obtain ⟨body, nested⟩ := message
  rw [messageIn, List.forall_mem_cons] at hfields hnested
  have hnone : body.extensions = [] := hnested.1
  simp only [resolveMessage, bind_eq_ok, pure_eq_ok, hnone] at hresolve
  obtain ⟨fields, hresolved, inner, hinner, -, -, extensions, hextensions, rfl⟩ := hresolve
  obtain ⟨_, rfl, hlater⟩ := forall₂_of_resolveFields hresolved
  obtain rfl := Except.ok.inj hextensions
  have hsame : fields = body.fields := eq_of_forall₂ hlater fun field hfield _ ⟨_, _, hone⟩ =>
    eq_of_resolveField hnames (hfields.1 field hfield).1 (hfields.1 field hfield).2 hone
  rw [eq_of_resolveMessages hnames hfields.2 hnested.2 hinner, hsame, ← hnone]

theorem eq_of_resolveMessages {context : Context} {messages enums : List String}
    (hnames : context.outlook.table.Names messages enums) {scope : String} {path : List Nat}
    {tag index : Nat} {declared resolved : List Message}
    (hfields : ∀ entry ∈ messagesIn scope declared, ∀ field ∈ entry.2.body.fields,
      HasSettledType messages enums field ∧ field.jsonName?.isSome)
    (hnested : ∀ entry ∈ messagesIn scope declared, entry.2.body.extensions = [])
    (hresolve : resolveMessages context scope path tag index declared = .ok resolved) :
    resolved = declared := by
  cases declared with
  | nil =>
      rw [resolveMessages] at hresolve
      exact (Except.ok.inj hresolve).symm
  | cons message rest =>
      rw [messagesIn, List.forall_mem_append] at hfields hnested
      simp only [resolveMessages, bind_eq_ok, pure_eq_ok] at hresolve
      obtain ⟨first, hfirst, others, hothers, rfl⟩ := hresolve
      rw [eq_of_resolveMessage hnames hfields.1 hnested.1 hfirst,
        eq_of_resolveMessages hnames hfields.2 hnested.2 hothers]

end

/-- A settled file is resolved to itself. -/
theorem IsSettled.eq_of_resolveFile {messages enums : List String} {file : File}
    (hsettled : IsSettled messages enums file) {symbols : SymbolTable}
    (hnames : symbols.Names messages enums) {files : List File}
    {allMessages : List (String × Message)} {allEnums : List (String × Enumeration)}
    {resolved : File}
    (hresolve : resolveFile symbols files allMessages allEnums file = .ok resolved) :
    resolved = file := by
  obtain ⟨-, -, resolvedMessages, services, extensions, hmessages, hservices, hextensions, rfl⟩ :=
    resolveFile_eq_ok.1 hresolve
  have hcontext : (contextOf symbols files allMessages allEnums file).outlook.table.Names
      messages enums := hnames
  rw [hsettled.services] at hservices
  obtain rfl := List.forall₂_nil_left_iff.1 hservices
  have hsame : extensions = file.extensions :=
    eq_of_forall₂ (forall₂_of_resolveExtensions hextensions) fun field hfield _ ⟨_, hone⟩ =>
      eq_of_resolveExtension hcontext (hsettled.extensions field hfield).1
        (hsettled.extensions field hfield).2 hone
  rw [eq_of_resolveMessages hcontext hsettled.fields hsettled.nested hmessages, hsame,
    ← hsettled.services]

/-! ## Settled files in front -/

/-- The files lead to each other only, by absolute names. -/
def SettledTogether (files : List (Dialect × File)) : Prop :=
  ∀ file ∈ files, IsSettled ((declaredMessages files).map Prod.fst) ((allEnums files).map Prod.fst)
    file.2

instance (files : List (Dialect × File)) : Decidable (SettledTogether files) := by
  unfold SettledTogether
  infer_instance

/-- Files behind others may lead to these too. -/
theorem SettledTogether.append {front back : List (Dialect × File)} (hfront : SettledTogether front)
    (hback : ∀ file ∈ back, IsSettled ((declaredMessages (front ++ back)).map Prod.fst)
      ((allEnums (front ++ back)).map Prod.fst) file.2) : SettledTogether (front ++ back) := by
  refine List.forall_mem_append.2 ⟨fun file hfile => (hfront file hfile).mono ?_ ?_, hback⟩
  · rw [declaredMessages_append, List.map_append]
    exact List.subset_append_left _ _
  · rw [allEnums_append, List.map_append]
    exact List.subset_append_left _ _

theorem SymbolTable.names_of_ofFiles {added own : List (Dialect × File)} {table : SymbolTable}
    (henter : ofFiles (added ++ own) = .ok table) :
    table.Names ((declaredMessages added).map Prod.fst) ((allEnums added).map Prod.fst) := by
  have hkind {name : String} {kind : SymbolKind} {file : Dialect × File} (hfile : file ∈ added)
      (hentry : (name, kind) ∈ entriesOf file) {symbol : Symbol}
      (hfind : table.find? name = some symbol) : symbol.kind = kind := by
    have hkept := (keeps_ofFiles henter name kind).2
      (List.mem_flatMap.2 ⟨file, List.mem_append_left _ hfile, hentry⟩)
    rw [hfind, Option.map_some] at hkept
    exact Option.some.inj hkept
  constructor
  · intro name hname symbol hfind
    obtain ⟨⟨_, dialect, message⟩, hmem, rfl⟩ := List.mem_map.1 hname
    obtain ⟨file, hfile, -, hmessage⟩ := mem_declaredMessages hmem
    refine hkind hfile ((mem_entriesOf_iff (by simp)).2 ?_) hfind
    exact Or.inr (Or.inl ⟨rfl, List.mem_map_of_mem hmessage⟩)
  · intro name hname symbol hfind
    obtain ⟨entry, hentry, rfl⟩ := List.mem_map.1 hname
    obtain ⟨file, hfile, henum⟩ := List.mem_flatMap.1 hentry
    refine hkind hfile ((mem_entriesOf_iff (by simp)).2 ?_) hfind
    exact Or.inr (Or.inr (Or.inl ⟨rfl, List.mem_map_of_mem henum⟩))

/-- With settled files in front a set resolves to these files and what it resolved
to without them. -/
theorem Widened.resolved_eq {added own : List (Dialect × File)} {table wider : SymbolTable}
    (hwidened : Widened added own table wider) (hsettled : SettledTogether added)
    {resolved resolved' : List File} {pool pool' : Pool} (hbuilds : Builds own table resolved pool)
    (hbuilds' : Builds (added ++ own) wider resolved' pool') :
    resolved' = added.map Prod.snd ++ resolved := by
  obtain ⟨front, rfl, hfront⟩ := hwidened.exists_resolved hbuilds hbuilds'
  have hnames := SymbolTable.names_of_ofFiles hbuilds'.enters
  refine congrArg (· ++ resolved) (eq_of_forall₂ hfront fun file hfile resolved hresolve => ?_)
  obtain ⟨dialected, hmem, rfl⟩ := List.mem_map.1 hfile
  exact (hsettled dialected hmem).eq_of_resolveFile hnames hresolve

/-- The table of the wider set is that of the files in front and of the resolved set
behind them. -/
theorem Widened.table_eq {added own : List (Dialect × File)} {table wider : SymbolTable}
    (hwidened : Widened added own table wider) (hsettled : SettledTogether added)
    {resolved resolved' : List File} {pool pool' : Pool} (hbuilds : Builds own table resolved pool)
    (hbuilds' : Builds (added ++ own) wider resolved' pool') :
    pool'.table = messageTable (added ++ (own.map Prod.fst).zip resolved) := by
  have hfront : (added.map Prod.fst).zip (added.map Prod.snd) = added := by
    rw [List.zip_map', List.map_id'']
    exact fun _ => rfl
  rw [hbuilds'.table_eq, hwidened.resolved_eq hsettled hbuilds hbuilds', List.map_append,
    List.zip_append (by simp), hfront]

/-! ## Types of a resolved set -/

/-- No type of the files in front is declared in the set. -/
theorem Widened.notMem_typesOf {added own : List (Dialect × File)} {table wider : SymbolTable}
    (hwidened : Widened added own table wider) {front : Dialect × File} (hfront : front ∈ added)
    {name : String} (hname : name ∈ typesOf front.2) : ∀ file ∈ own, name ∉ typesOf file.2 := by
  intro file hfile hmem
  obtain ⟨kind, hkind, hentry⟩ := (mem_typesOf_iff front.1).1 hname
  obtain ⟨kind', -, hentry'⟩ := (mem_typesOf_iff file.1).1 hmem
  have hpackage := (hwidened.apart front hfront file hfile _ hentry _ hentry' rfl).1
  dsimp only at hpackage
  rw [hpackage] at hkind
  simp [SymbolKind.isType] at hkind

/-- A message of the resolved set is declared in the set. -/
theorem Builds.exists_mem_typesOf {own : List (Dialect × File)} {table : SymbolTable}
    {resolved : List File} {pool : Pool} (hbuilds : Builds own table resolved pool) {name : String}
    (hname : name ∈ (declaredMessages ((own.map Prod.fst).zip resolved)).map Prod.fst) :
    ∃ file ∈ own, name ∈ typesOf file.2 := by
  obtain ⟨⟨_, dialect, message⟩, hmem, rfl⟩ := List.mem_map.1 hname
  obtain ⟨⟨_, file⟩, hfile, -, hmessage⟩ := mem_declaredMessages hmem
  obtain ⟨source, hsource, hresolve⟩ :=
    forall₂_exists_of_mem hbuilds.resolves.flip (List.of_mem_zip hfile).2
  obtain ⟨dialected, hdialected, rfl⟩ := List.mem_map.1 hsource
  refine ⟨dialected, hdialected, List.mem_append_left _ ?_⟩
  rw [← (keepsNames_of_resolveFile hresolve).messages]
  exact List.mem_map_of_mem hmessage

/-- A resolved set extends only types of its own. -/
theorem Builds.leavesAlone {own : List (Dialect × File)} {table : SymbolTable}
    {resolved : List File} {pool : Pool} (hbuilds : Builds own table resolved pool) {name : String}
    (hname : ∀ file ∈ own, name ∉ typesOf file.2) :
    LeavesAlone ((own.map Prod.fst).zip resolved) name := by
  rintro ⟨dialect, file⟩ hfile field hfield rfl
  have hmem : file ∈ resolved := (List.of_mem_zip hfile).2
  obtain ⟨source, -, hresolve⟩ := forall₂_exists_of_mem hbuilds.resolves.flip hmem
  obtain ⟨symbol, hfind, hkind, hextendee⟩ := extendee_of_resolveFile hresolve field hfield
  obtain ⟨other, hother, hmem⟩ := SymbolTable.exists_mem_typesOf hbuilds.enters hfind hkind
  refine hname other hother ?_
  rwa [hextendee, Option.getD_some, Name.bare, Name.absolute?_dot, Option.getD_some]

end ProtoSource.Pool
