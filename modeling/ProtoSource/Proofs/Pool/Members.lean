import ProtoSource.Proofs.Pool.Words

/-!
# Members

Fields, oneofs, enum values, extensions and methods are the members of a file: they
have full names and hold nothing.  In a pool a full name says which kind of declaration
it is of, so that nothing lies below a method and only methods lie in a service.
-/

namespace ProtoSource.Pool

open ProtoSource.Descriptor
open ProtoSource.Related
open ProtoSource.Text

/-! ## Members of files -/

def valueNames (enums : List Enumeration) : List String :=
  enums.flatMap fun enumeration => enumeration.values.map EnumValue.name

/-- The names of the oneofs, fields, enum values and extensions of a message. -/
def memberNames (body : MessageBody) : List String :=
  body.oneofs.map Oneof.name ++ body.fields.map Field.name ++ valueNames body.enums ++
    body.extensions.map Field.name

/-- The full names of the members of a file.  Values stand beside their enum. -/
def membersOf (file : File) : List String :=
  (messagesOf file).flatMap (fun entry => (memberNames entry.2.body).map (Name.join entry.1)) ++
    (valueNames file.enums ++ file.extensions.map Field.name).map (Name.join file.package) ++
    methodNames file

/-- Extensions are named by words. -/
structure ExtendsWords (file : File) : Prop where
  nested : ∀ entry ∈ messagesOf file, ∀ field ∈ entry.2.body.extensions, Name.IsWord field.name
  top : ∀ field ∈ file.extensions, Name.IsWord field.name

instance (file : File) : Decidable (ExtendsWords file) :=
  decidable_of_iff
    ((∀ entry ∈ messagesOf file, ∀ field ∈ entry.2.body.extensions, Name.IsWord field.name) ∧
      ∀ field ∈ file.extensions, Name.IsWord field.name)
    ⟨fun ⟨hnested, htop⟩ => ⟨hnested, htop⟩, fun hfile => ⟨hfile.nested, hfile.top⟩⟩

/-- A member stands in a message, in the package or in a service of its file. -/
theorem exists_join_of_mem_membersOf {file : File} (hwords : DeclaresWords file)
    (hextends : ExtendsWords file) {fullName : String} (hmem : fullName ∈ membersOf file) :
    ∃ scope name, fullName = Name.join scope name ∧ Name.IsWord name ∧
      (scope ∈ (messagesOf file).map Prod.fst ∨ scope = file.package ∨
        ∃ service, (scope, service) ∈ servicesOf file ∧
          ∃ method ∈ service.methods, method.name = name) := by
  have hvalues {enums : List Enumeration} (henums : ∀ enumeration ∈ enums, ∃ scope,
      (scope, enumeration) ∈ enumsOf file) : ∀ name ∈ valueNames enums, Name.IsWord name := by
    intro name hname
    obtain ⟨enumeration, henum, hname⟩ := List.mem_flatMap.1 hname
    obtain ⟨value, hvalue, rfl⟩ := List.mem_map.1 hname
    obtain ⟨_, hentry⟩ := henums enumeration henum
    exact hwords.values _ hentry value hvalue
  rw [membersOf, List.mem_append, List.mem_append, List.mem_flatMap, List.mem_map] at hmem
  obtain (⟨entry, hentry, hmember⟩ | ⟨name, hname, rfl⟩) | hnamed := hmem
  · obtain ⟨name, hname, rfl⟩ := List.mem_map.1 hmember
    refine ⟨entry.1, name, rfl, ?_, Or.inl (List.mem_map_of_mem hentry)⟩
    have hnames : ∀ name ∈ memberNames entry.2.body, Name.IsWord name := by
      simp only [memberNames, List.forall_mem_append, List.forall_mem_map]
      exact ⟨⟨⟨hwords.oneofs entry hentry, hwords.fields entry hentry⟩,
        hvalues fun enumeration henum => ⟨_, mem_enumsOf_of_nested hentry henum⟩⟩,
        hextends.nested entry hentry⟩
    exact hnames name hname
  · refine ⟨file.package, name, rfl, ?_, Or.inr (Or.inl rfl)⟩
    have hnames : ∀ name ∈ valueNames file.enums ++ file.extensions.map Field.name,
        Name.IsWord name := by
      rw [List.forall_mem_append, List.forall_mem_map]
      exact ⟨hvalues fun enumeration henum =>
        ⟨_, List.mem_append_left _ (List.mem_map_of_mem henum)⟩, hextends.top⟩
    exact hnames name hname
  · obtain ⟨entry, hentry, hname⟩ := List.mem_flatMap.1 hnamed
    obtain ⟨service, hservice, rfl⟩ := List.mem_map.1 hentry
    obtain ⟨method, hmethod, rfl⟩ := List.mem_map.1 hname
    exact ⟨_, method.name, rfl, hwords.methods service hservice method hmethod,
      Or.inr (Or.inr ⟨service, hentry, method, hmethod, rfl⟩)⟩

/-! ## Members of pools -/

theorem mem_entriesOf_of_mem_methodNames (dialect : Dialect) {file : File} {name : String}
    (hname : name ∈ methodNames file) : (name, .member) ∈ entriesOf (dialect, file) := by
  obtain ⟨entry, hentry, hnamed⟩ := List.mem_flatMap.1 hname
  obtain ⟨service, hservice, rfl⟩ := List.mem_map.1 hentry
  obtain ⟨method, hmethod, rfl⟩ := List.mem_map.1 hnamed
  have hentered : (Name.join (Name.join file.package service.name) method.name, SymbolKind.member) ∈
      Step.entries (file.services.flatMap (Step.ofService file.package)) := by
    rw [Step.entries_flatMap]
    refine List.mem_flatMap.2 ⟨service, hservice, List.mem_cons_of_mem _ ?_⟩
    refine List.mem_filterMap.2 ⟨_, List.mem_map_of_mem (List.mem_map_of_mem hmethod), rfl⟩
  rw [entriesOf, Step.ofFile, Step.entries_append, Step.entries_append]
  exact List.mem_append_left _ (List.mem_append_right _ hentered)

section Built

variable {files : List (Dialect × File)} {symbols : SymbolTable} {resolved : List File}
    {pool : Pool}
  (hbuilds : Builds files symbols resolved pool) {file other : File} (hfile : file ∈ pool.files)
  (hother : other ∈ pool.files)

include hbuilds hfile hother

/-- Nothing of a pool that can hold something has the name of a method. -/
theorem Builds.notMem_holdersOf_of_mem_methodNames {name : String}
    (hname : name ∈ methodNames file) :
    name ∉ holdersOf other := by
  intro hholder
  obtain ⟨source, hsource, hkeeps⟩ := forall₂_exists_of_mem hbuilds.keepsNames.flip hfile
  obtain ⟨dialected, hdialected, rfl⟩ := List.mem_map.1 hsource
  have hmember : (symbols.find? name).map Symbol.kind = some .member := by
    refine (SymbolTable.keeps_ofFiles hbuilds.enters name .member).2
      (List.mem_flatMap.2 ⟨dialected, hdialected, ?_⟩)
    rw [hkeeps.methods] at hname
    exact mem_entriesOf_of_mem_methodNames dialected.1 hname
  obtain ⟨kind, haggregate, hentry⟩ := (mem_holdersOf_iff .proto3).1 hholder
  have hkind : kind ≠ .member := by
    rintro rfl
    simp [SymbolKind.isAggregate] at haggregate
  have hfound := (hbuilds.kind_eq_some_iff hkind .proto3).2 ⟨other, hother, hentry⟩
  rw [hmember, Option.some.injEq] at hfound
  exact hkind hfound.symm

/-- No package and no message of a pool has the name of a service. -/
theorem Builds.notMem_scopes_of_mem_serviceNames {name : String}
    (hname : name ∈ serviceNames file) :
    name ∉ Name.packages other.package ∧ name ∉ (messagesOf other).map Prod.fst := by
  have hservice : (symbols.find? name).map Symbol.kind = some .service :=
    (hbuilds.kind_eq_some_iff (by decide) .proto3).2
      ⟨file, hfile, (mem_entriesOf_iff (by decide)).2 (Or.inr (Or.inr (Or.inr ⟨rfl, hname⟩)))⟩
  constructor
  · intro hpackage
    have hfound := (hbuilds.kind_eq_some_iff (by decide) .proto3).2
      ⟨other, hother, (mem_entriesOf_iff (by decide)).2 (Or.inl ⟨rfl, hpackage⟩)⟩
    simp [hservice] at hfound
  · intro hmessage
    have hfound := (hbuilds.kind_eq_some_iff (by decide) .proto3).2
      ⟨other, hother, (mem_entriesOf_iff (by decide)).2 (Or.inr (Or.inl ⟨rfl, hmessage⟩))⟩
    simp [hservice] at hfound

end Built

end ProtoSource.Pool
