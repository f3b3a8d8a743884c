import ProtoSource.Proofs.Load.Supplements
import ProtoSource.Proofs.Load.Options
import ProtoSource.Proofs.Pool.Settled

/-!
# Tables of completed sets

A set that lacks the descriptors and the HTTP option gets the well-known description
of options.  One that has both gets at most the empty message, which no option leads
to.
-/

namespace ProtoSource.Load

open ProtoSource.Descriptor
open ProtoSource.Http (httpTable)
open ProtoSource.Pool
open ProtoSource.WellKnown
open ProtoSource.Wire

/-- The files in front of a set that lacks the descriptors and the HTTP option; the
empty message is missing or not. -/
def optionsFront (empty : List File) : List (Dialect × File) :=
  ([descriptorFile] ++ empty ++ [annotationsWithRules]).map withDialect

theorem optionsFront_eq (empty : List File) : optionsFront empty =
    [withDialect descriptorFile] ++ (empty ++ [annotationsWithRules]).map withDialect := by
  simp [optionsFront]

theorem eq_emptyFile_of_mem {empty : List File} (hempty : empty ∈ [[], [emptyFile]]) {file : File}
    (hfile : file ∈ empty) : file = emptyFile := by
  simp only [List.mem_cons, List.not_mem_nil, or_false] at hempty
  obtain rfl | rfl := hempty <;> simp_all

/-- The messages that options are made of with the HTTP option. -/
def allOptionTypes : List String :=
  optionTypes ++
    [optionsName .method, Http.Part.rule.typeName, Http.Part.customPattern.typeName]

theorem mem_declaredMessages_descriptorFile : ∀ name ∈ optionsName .method :: optionTypes,
    name ∈ (declaredMessages [withDialect descriptorFile]).map Prod.fst := by
  decide

theorem mem_declaredMessages_annotationsWithRules : ∀ name ∈ httpTypes,
    name ∈ (declaredMessages [withDialect annotationsWithRules]).map Prod.fst := by
  decide

theorem mem_declaredMessages_of_mem {empty : List File} {name : String}
    (hname : name ∈ optionsName .method :: optionTypes ∨ name ∈ httpTypes) :
    name ∈ (declaredMessages (optionsFront empty)).map Prod.fst := by
  rw [optionsFront_eq, List.map_append, declaredMessages_append, declaredMessages_append,
    List.map_append, List.map_append]
  obtain hname | hname := hname
  · exact List.mem_append_left _ (mem_declaredMessages_descriptorFile name hname)
  · exact List.mem_append_right _
      (List.mem_append_right _ (mem_declaredMessages_annotationsWithRules name hname))

theorem mem_declaredMessages_optionsFront (empty : List File) {name : String}
    (hname : name ∈ allOptionTypes) :
    name ∈ (declaredMessages (optionsFront empty)).map Prod.fst := by
  apply mem_declaredMessages_of_mem
  obtain hname | hname := List.mem_append.1 hname
  · exact Or.inl (List.mem_cons_of_mem _ hname)
  · obtain rfl | hname := List.mem_cons.1 hname
    · exact Or.inl List.mem_cons_self
    · exact Or.inr (List.mem_cons_of_mem _ hname)

theorem settledTogether_descriptorFile : SettledTogether [withDialect descriptorFile] := by
  decide

theorem isSettled_emptyFile (messages enums : List String) : IsSettled messages enums emptyFile :=
  (by decide : IsSettled [] [] emptyFile).mono (List.nil_subset _) (List.nil_subset _)

theorem isSettled_annotationsWithRules :
    IsSettled (optionsName .method :: httpTypes) [] annotationsWithRules := by
  decide

theorem settledTogether_optionsFront {empty : List File} (hempty : empty ∈ [[], [emptyFile]]) :
    SettledTogether (optionsFront empty) := by
  rw [optionsFront_eq]
  refine settledTogether_descriptorFile.append (List.forall_mem_map.2 fun file hfile => ?_)
  rw [← optionsFront_eq]
  obtain hfile | hfile := List.mem_append.1 hfile
  · obtain rfl := eq_emptyFile_of_mem hempty hfile
    exact isSettled_emptyFile _ _
  · obtain rfl := List.mem_singleton.1 hfile
    refine isSettled_annotationsWithRules.mono (fun name hname => ?_) (List.nil_subset _)
    obtain rfl | hname := List.mem_cons.1 hname
    · exact mem_declaredMessages_of_mem (Or.inl List.mem_cons_self)
    · exact mem_declaredMessages_of_mem (Or.inr hname)

theorem holdsEnums_descriptorFile : HoldsEnums [withDialect descriptorFile] := by
  decide

theorem holdsEnums_optionsFront {empty : List File} (hempty : empty ∈ [[], [emptyFile]]) :
    HoldsEnums (optionsFront empty) := by
  have hannotations : HoldsEnums [withDialect annotationsWithRules] := by
    decide
  have hrest : HoldsEnums (empty.map withDialect) := by
    simp only [List.mem_cons, List.not_mem_nil, or_false] at hempty
    obtain rfl | rfl := hempty <;> decide
  rw [optionsFront_eq, List.map_append]
  exact holdsEnums_descriptorFile.append (hrest.append hannotations)

theorem leavesAlone_optionsFront {empty : List File} (hempty : empty ∈ [[], [emptyFile]])
    {name : String} (hname : name ∈ optionTypes) :
    LeavesAlone ((empty ++ [annotationsWithRules]).map withDialect) name := by
  have hextendee : ∀ field ∈ extensionsOf annotationsWithRules,
      Text.Name.bare (field.extendee?.getD "") = optionsName .method := by
    decide
  have hne : ∀ name ∈ optionTypes, optionsName .method ≠ name := by
    decide
  refine List.forall_mem_map.2 fun file hfile field hfield => ?_
  obtain hfile | hfile := List.mem_append.1 hfile
  · obtain rfl := eq_emptyFile_of_mem hempty hfile
    cases hfield
  · obtain rfl := List.mem_singleton.1 hfile
    rw [hextendee field hfield]
    exact hne name hname

/-- The well-known files alone describe options. -/
theorem describesOptions_optionsFront : ∀ empty ∈ [[], [emptyFile]],
    DescribesOptions (messageTable (optionsFront empty)) := by
  intro empty hempty
  have hoptions : ∀ name ∈ optionTypes,
      (messageTable (optionsFront empty)).lookup name = descriptorTable.lookup name := by
    intro name hname
    rw [optionsFront_eq, lookup_messageTable_append holdsEnums_descriptorFile
      (mem_declaredMessages_descriptorFile name (List.mem_cons_of_mem _ hname))
      (leavesAlone_optionsFront hempty hname)]
    rfl
  simp only [List.mem_cons, List.not_mem_nil, or_false] at hempty
  obtain rfl | rfl := hempty
  · exact ⟨hoptions, by with_unfolding_all rfl, by with_unfolding_all rfl,
      by with_unfolding_all rfl⟩
  · exact ⟨hoptions, by with_unfolding_all rfl, by with_unfolding_all rfl,
      by with_unfolding_all rfl⟩

/-- Files behind them that extend none of their messages change nothing. -/
theorem describesOptions_append {empty : List File} (hempty : empty ∈ [[], [emptyFile]])
    {own : List (Dialect × File)}
    (halone : ∀ name ∈ allOptionTypes, LeavesAlone own name) :
    DescribesOptions (messageTable (optionsFront empty ++ own)) := by
  have hlookup : ∀ name ∈ allOptionTypes, (messageTable (optionsFront empty ++ own)).lookup name =
      (messageTable (optionsFront empty)).lookup name := fun name hname =>
    lookup_messageTable_append (holdsEnums_optionsFront hempty)
      (mem_declaredMessages_optionsFront empty hname) (halone name hname)
  obtain ⟨hoptions, hmethod, hrule, hcustom⟩ := describesOptions_optionsFront empty hempty
  refine ⟨fun name hname => ?_, ?_, ?_, ?_⟩
  · rw [hlookup name (List.mem_append_left _ hname), hoptions name hname]
  · rw [hlookup _ (by simp [allOptionTypes]), hmethod]
  · rw [hlookup _ (by simp [allOptionTypes]), hrule]
  · rw [hlookup _ (by simp [allOptionTypes]), hcustom]

/-! ## The descriptors in front -/

/-- The files in front of a set that lacks the descriptors but has the HTTP option. -/
def descriptorFront (empty : List File) : List (Dialect × File) :=
  ([descriptorFile] ++ empty).map withDialect

theorem descriptorFront_eq (empty : List File) : descriptorFront empty =
    [withDialect descriptorFile] ++ empty.map withDialect := by
  simp [descriptorFront]

theorem settledTogether_descriptorFront {empty : List File} (hempty : empty ∈ [[], [emptyFile]]) :
    SettledTogether (descriptorFront empty) := by
  rw [descriptorFront_eq]
  refine settledTogether_descriptorFile.append (List.forall_mem_map.2 fun file hfile => ?_)
  obtain rfl := eq_emptyFile_of_mem hempty hfile
  exact isSettled_emptyFile _ _

/-- Files that extend no options leave all options as the descriptors have them. -/
theorem lookup_descriptorFront {empty : List File} (hempty : empty ∈ [[], [emptyFile]])
    {own : List (Dialect × File)} {name : String}
    (hname : name ∈ optionsName .method :: optionTypes)
    (halone : LeavesAlone own name) :
    (messageTable (descriptorFront empty ++ own)).lookup name = descriptorTable.lookup name := by
  have hempties : LeavesAlone (empty.map withDialect) name :=
    List.forall_mem_map.2 fun file hfile field hfield => by
      obtain rfl := eq_emptyFile_of_mem hempty hfile
      cases hfield
  rw [descriptorFront_eq, List.append_assoc, lookup_messageTable_append holdsEnums_descriptorFile
    (mem_declaredMessages_descriptorFile name hname) (List.forall_mem_append.2 ⟨hempties, halone⟩)]
  rfl

/-! ## The empty message in front -/

theorem declaredMessages_emptyFile : declaredMessages [withDialect emptyFile] =
    [("google.protobuf.Empty", .proto3, .mk { name? := some "Empty" } [])] := by
  with_unfolding_all rfl

section Empty

variable {own : List (Dialect × File)}

theorem lookup_messageTable_emptyFile (name : String) :
    (messageTable (withDialect emptyFile :: own)).lookup name =
      if name = "google.protobuf.Empty" then
        some (messageSpec (allEnums own) (allExtensions (allEnums own) own) name
          (.proto3, .mk { name? := some "Empty" } []))
      else (messageTable own).lookup name := by
  have hmessages : declaredMessages (withDialect emptyFile :: own) =
      ("google.protobuf.Empty", .proto3, .mk { name? := some "Empty" } []) ::
        declaredMessages own := by
    rw [← List.singleton_append, declaredMessages_append, declaredMessages_emptyFile]
    rfl
  have henums : allEnums (withDialect emptyFile :: own) = allEnums own := rfl
  have hextensions (enums : List (String × Enumeration)) :
      allExtensions enums (withDialect emptyFile :: own) = allExtensions enums own := rfl
  rw [lookup_messageTable, lookup_messageTable, hmessages, henums, hextensions, List.lookup_cons]
  split_ifs with hname
  · simp [hname]
  · rw [beq_eq_false_iff_ne.2 hname]

/-- The empty message has no fields that an option could set. -/
theorem recodeOptions_emptyFile
    (hname : "google.protobuf.Empty" ∉ (declaredMessages own).map Prod.fst)
    (halone : LeavesAlone own "google.protobuf.Empty") {kind : OptionsKind}
    (options : Options kind) :
    recodeOptions (messageTable (withDialect emptyFile :: own)) options =
      recodeOptions (messageTable own) options := by
  have hnone : (messageTable own).lookup "google.protobuf.Empty" = none := by
    rw [lookup_messageTable, lookup_eq_none_iff_notMem.2 hname, Option.map_none]
  have hschema : schemaOf (messageTable (withDialect emptyFile :: own)) =
      schemaOf (messageTable own) := by
    unfold schemaOf
    simp only [lookup_messageTable_emptyFile, Schema.mk.injEq, true_and]
    refine ⟨?_, ?_⟩
    · funext name number
      split_ifs with hempty
      · subst hempty
        rw [hnone, Option.bind_some, messageSpec, halone.filter_allExtensions]
        rfl
      · rfl
    · funext name
      split_ifs with hempty
      · subst hempty
        rw [hnone]
        rfl
      · rfl
  have hkind : optionsName kind ≠ "google.protobuf.Empty" := by
    cases kind <;> decide
  have htable : schemaOf (optionsTable (messageTable (withDialect emptyFile :: own)) kind) =
      schemaOf (optionsTable (messageTable own) kind) := by
    unfold optionsTable
    rw [lookup_messageTable_emptyFile, if_neg hkind]
    split_ifs
    · exact hschema
    · rfl
  unfold recodeOptions recode
  rw [htable]

end Empty

end ProtoSource.Load
