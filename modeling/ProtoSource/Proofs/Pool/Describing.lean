import Mathlib.Data.List.Basic
import ProtoSource.Proofs.Descriptor.Described

/-!
# Tables of files with more files behind them

What a table says of a message depends on the message, on the enums that its fields
lead to and on the extensions of it.  So files behind others say nothing new of the
messages of those others, unless they extend them.
-/

namespace ProtoSource.Pool

open ProtoSource.Descriptor
open ProtoSource.Text
open ProtoSource.Wire

/-! ## Look-up in a table -/

/-- The messages of `files` by full name, each with the dialect of its file. -/
def declaredMessages (files : List (Dialect × File)) : List (String × Dialect × Message) :=
  files.flatMap fun file => (messagesOf file.2).map fun entry => (entry.1, file.1, entry.2)

def allEnums (files : List (Dialect × File)) : List (String × Enumeration) :=
  files.flatMap fun file => enumsOf file.2

/-- The extensions of `files`; `enums` are those that they may refer to. -/
def allExtensions (enums : List (String × Enumeration)) (files : List (Dialect × File)) :
    List (String × Int × FieldSpec String) :=
  files.flatMap fun file => extensionTable ⟨file.1, enums⟩ file.2

/-- What a table says of the message `name`, given all enums and extensions. -/
def messageSpec (enums : List (String × Enumeration))
    (extensions : List (String × Int × FieldSpec String)) (name : String)
    (declared : Dialect × Message) : MessageSpec where
  fields :=
    declared.2.body.fields.map
        (fun field => (field.number, fieldSpec ⟨declared.1, enums⟩ field)) ++
      (extensions.filter (·.1 == name)).map Prod.snd
  isEntry := declared.2.isMapEntry

theorem lookup_map_snd {α β : Type} (entries : List (String × α)) (f : String → α → β)
    (name : String) :
    (entries.map fun entry => (entry.1, f entry.1 entry.2)).lookup name =
      (entries.lookup name).map (f name) := by
  induction entries with
  | nil => rfl
  | cons entry rest ih =>
      obtain ⟨found, value⟩ := entry
      rw [List.map_cons, List.lookup_cons, List.lookup_cons]
      by_cases hname : name = found
      · subst hname
        simp
      · have hne : (name == found) = false := beq_eq_false_iff_ne.2 hname
        simpa only [hne] using ih

theorem lookup_messageTable (files : List (Dialect × File)) (name : String) :
    (messageTable files).lookup name = ((declaredMessages files).lookup name).map
      (messageSpec (allEnums files) (allExtensions (allEnums files) files) name) := by
  rw [← lookup_map_snd (declaredMessages files)
    (messageSpec (allEnums files) (allExtensions (allEnums files) files)) name]
  unfold declaredMessages
  rw [List.map_flatMap]
  simp only [List.map_map]
  rfl

/-- A name is looked up without success exactly if there is no entry of it. -/
theorem lookup_eq_none_iff_notMem {α : Type} {entries : List (String × α)} {name : String} :
    entries.lookup name = none ↔ name ∉ entries.map Prod.fst := by
  rw [List.lookup_eq_none_iff, List.mem_map]
  constructor
  · rintro hall ⟨entry, hentry, rfl⟩
    simpa using hall entry hentry
  · intro hnone entry hentry
    rw [bne_iff_ne]
    rintro rfl
    exact hnone ⟨entry, hentry, rfl⟩

/-! ## Files behind others -/

/-- If the field holds an enum it is one of `enums`. -/
def FindsEnum (enums : List (String × Enumeration)) (field : Field) : Prop :=
  field.type?.getD .double = .enumeration → (enums.lookup (Name.bare field.typeName)).isSome

instance (enums : List (String × Enumeration)) (field : Field) :
    Decidable (FindsEnum enums field) := by
  unfold FindsEnum
  infer_instance

/-- The enums that the fields of `files` hold are among those of `files`. -/
structure HoldsEnums (files : List (Dialect × File)) : Prop where
  fields : ∀ file ∈ files, ∀ entry ∈ messagesOf file.2, ∀ field ∈ entry.2.body.fields,
    FindsEnum (allEnums files) field
  extensions : ∀ file ∈ files, ∀ field ∈ extensionsOf file.2, FindsEnum (allEnums files) field

instance (files : List (Dialect × File)) : Decidable (HoldsEnums files) :=
  decidable_of_iff
    ((∀ file ∈ files, ∀ entry ∈ messagesOf file.2, ∀ field ∈ entry.2.body.fields,
        FindsEnum (allEnums files) field) ∧
      ∀ file ∈ files, ∀ field ∈ extensionsOf file.2, FindsEnum (allEnums files) field)
    ⟨fun ⟨hfields, hextensions⟩ => ⟨hfields, hextensions⟩,
      fun hfiles => ⟨hfiles.fields, hfiles.extensions⟩⟩

theorem FindsEnum.append_left {enums : List (String × Enumeration)} {field : Field}
    (hfinds : FindsEnum enums field) (others : List (String × Enumeration)) :
    FindsEnum (others ++ enums) field := fun htype => by
  rw [List.lookup_append, Option.isSome_or, hfinds htype, Bool.or_true]

theorem FindsEnum.append_right {enums : List (String × Enumeration)} {field : Field}
    (hfinds : FindsEnum enums field) (others : List (String × Enumeration)) :
    FindsEnum (enums ++ others) field := fun htype => by
  rw [List.lookup_append, Option.isSome_or, hfinds htype, Bool.true_or]

theorem fieldSpec_append {enums : List (String × Enumeration)} {field : Field}
    (hfinds : FindsEnum enums field) (dialect : Dialect) (others : List (String × Enumeration)) :
    fieldSpec ⟨dialect, enums ++ others⟩ field = fieldSpec ⟨dialect, enums⟩ field := by
  have hdefault : defaultOf (enums ++ others) field = defaultOf enums field := by
    unfold defaultOf
    split
    · next htype =>
        obtain ⟨enumeration, hlookup⟩ := Option.isSome_iff_exists.1 (hfinds htype)
        rw [List.lookup_append, hlookup, Option.some_or]
    · rfl
  simp only [fieldSpec, hdefault]

section Append

variable {front own : List (Dialect × File)} {name : String}

theorem allExtensions_append_left (hholds : HoldsEnums front)
    (others : List (String × Enumeration)) :
    allExtensions (allEnums front ++ others) front = allExtensions (allEnums front) front := by
  refine List.flatMap_congr fun file hfile => List.map_congr_left fun field hfield => ?_
  simp only [extensionSpec, fieldSpec_append (hholds.extensions file hfile field hfield)]

/-- No file extends the message `name`. -/
def LeavesAlone (files : List (Dialect × File)) (name : String) : Prop :=
  ∀ file ∈ files, ∀ field ∈ extensionsOf file.2, Name.bare (field.extendee?.getD "") ≠ name

theorem LeavesAlone.filter_allExtensions (halone : LeavesAlone own name)
    (enums : List (String × Enumeration)) :
    (allExtensions enums own).filter (·.1 == name) = [] := by
  rw [List.filter_eq_nil_iff]
  intro entry hentry
  obtain ⟨file, hfile, hentry⟩ := List.mem_flatMap.1 hentry
  obtain ⟨field, hfield, rfl⟩ := List.mem_map.1 hentry
  simpa using halone file hfile field hfield

theorem declaredMessages_append :
    declaredMessages (front ++ own) = declaredMessages front ++ declaredMessages own :=
  List.flatMap_append

theorem allEnums_append : allEnums (front ++ own) = allEnums front ++ allEnums own :=
  List.flatMap_append

theorem HoldsEnums.append (hfront : HoldsEnums front) (hown : HoldsEnums own) :
    HoldsEnums (front ++ own) where
  fields := by
    rw [allEnums_append]
    refine List.forall_mem_append.2 ⟨fun file hfile entry hentry field hfield => ?_,
      fun file hfile entry hentry field hfield => ?_⟩
    · exact (hfront.fields file hfile entry hentry field hfield).append_right _
    · exact (hown.fields file hfile entry hentry field hfield).append_left _
  extensions := by
    rw [allEnums_append]
    refine List.forall_mem_append.2 ⟨fun file hfile field hfield => ?_,
      fun file hfile field hfield => ?_⟩
    · exact (hfront.extensions file hfile field hfield).append_right _
    · exact (hown.extensions file hfile field hfield).append_left _

theorem mem_declaredMessages {dialect : Dialect} {message : Message}
    (hmem : (name, dialect, message) ∈ declaredMessages front) :
    ∃ file ∈ front, file.1 = dialect ∧ (name, message) ∈ messagesOf file.2 := by
  obtain ⟨file, hfile, hentry⟩ := List.mem_flatMap.1 hmem
  obtain ⟨entry, hmessage, heq⟩ := List.mem_map.1 hentry
  simp only [Prod.mk.injEq] at heq
  obtain ⟨rfl, rfl, rfl⟩ := heq
  exact ⟨file, hfile, rfl, hmessage⟩

/-- Files behind others add nothing to a message of these that they do not extend. -/
theorem lookup_messageTable_append (hholds : HoldsEnums front)
    (hname : name ∈ (declaredMessages front).map Prod.fst) (halone : LeavesAlone own name) :
    (messageTable (front ++ own)).lookup name = (messageTable front).lookup name := by
  obtain ⟨declared, hdeclared⟩ := Option.ne_none_iff_exists'.1
    fun hnone => lookup_eq_none_iff_notMem.1 hnone hname
  have hextensions : (allExtensions (allEnums (front ++ own)) (front ++ own)).filter (·.1 == name) =
      (allExtensions (allEnums front) front).filter (·.1 == name) := by
    have hsplit (enums : List (String × Enumeration)) : allExtensions enums (front ++ own) =
        allExtensions enums front ++ allExtensions enums own := List.flatMap_append
    rw [hsplit, List.filter_append, halone.filter_allExtensions, List.append_nil, allEnums_append,
      allExtensions_append_left hholds]
  have hfields : declared.2.body.fields.map (fun field =>
        (field.number, fieldSpec ⟨declared.1, allEnums (front ++ own)⟩ field)) =
      declared.2.body.fields.map fun field =>
        (field.number, fieldSpec ⟨declared.1, allEnums front⟩ field) := by
    obtain ⟨file, hfile, -, hmem⟩ := mem_declaredMessages (mem_of_lookup hdeclared)
    refine List.map_congr_left fun field hfield => ?_
    rw [allEnums_append, fieldSpec_append (hholds.fields file hfile _ hmem field hfield)]
  rw [lookup_messageTable, lookup_messageTable, declaredMessages_append, List.lookup_append,
    hdeclared, Option.some_or, Option.map_some, Option.map_some, messageSpec, messageSpec,
    hextensions,
    hfields]

end Append

end ProtoSource.Pool
