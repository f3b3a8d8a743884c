import ProtoSource.Pool.Basic
import ProtoSource.Proofs.Descriptor.Described
import ProtoSource.Proofs.Http.Rules

/-!
# Descriptions of the HTTP option

A pool may know the HTTP option of methods or not.  If it does not, the option is
kept as it is; if it knows it as the well-known files declare it, the option is
written so that the rule in it stays the same.
-/

namespace ProtoSource.Http

open ProtoSource.Descriptor (isGroup ne_group mem_of_lookup)
open ProtoSource.Pool
open ProtoSource.Related
open ProtoSource.Wire
open ProtoSource.WellKnown (annotationsWithRules httpExtension httpNumber)

namespace Part

/-- The full name of the message. -/
def typeName : Part → String
  | .methodOptions => optionsName .method
  | .rule => "google.api.HttpRule"
  | .customPattern => "google.api.CustomHttpPattern"

/-- The numbers of the fields of rules and patterns. -/
def numbers : Part → List Nat
  | .methodOptions => []
  | .rule => [1, 2, 3, 4, 5, 6, 7, 8, 11, 12]
  | .customPattern => [1, 2]

end Part

/-- The messages that the well-known annotations describe. -/
def httpTable : MessageTable :=
  messageTable [(.proto3, annotationsWithRules)]

/-- Rules, and the option that carries one, are described as the well-known files
do it. -/
structure DescribesRules (table : MessageTable) : Prop where
  option : (schemaOf table).field? Part.methodOptions.typeName httpNumber =
    some (extensionSpec ⟨.proto3, []⟩ httpExtension)
  rule : table.lookup Part.rule.typeName = httpTable.lookup Part.rule.typeName
  customPattern : table.lookup Part.customPattern.typeName =
    httpTable.lookup Part.customPattern.typeName

/-- What the well-known files say of a field fits how it is read. -/
def isDescribed (part : Part) (number : Nat) : Bool :=
  match schema.field? part number, (schemaOf httpTable).field? part.typeName number with
  | some spec, some written =>
      written.kind = spec.kind.map Part.typeName && written.repeated == spec.repeated &&
        (spec.repeated || written.presence ||
          (!spec.presence && spec.default?.isNone && written.default?.isNone)) &&
        written.choice == spec.choice
  | _, _ => false

theorem isDescribed_numbers : ∀ part ∈ [Part.rule, .customPattern], ∀ number ∈ part.numbers,
    isDescribed part number := by
  decide

theorem plain_httpTable : ∀ part ∈ [Part.rule, .customPattern],
    ∀ message ∈ httpTable.lookup part.typeName, message.isEntry = false ∧
      ∀ field ∈ message.fields, field.1 ∈ part.numbers.map Int.ofNat ∧
        isGroup field.2.kind = false := by
  decide

/-- The messages of the HTTP option itself. -/
def Part.isRule (part : Part) : Prop :=
  part ∈ [Part.rule, .customPattern]

theorem field?_eq_none {part : Part} (hpart : part.isRule) {number : Nat}
    (hnumber : number ∉ part.numbers) : schema.field? part number = none := by
  obtain rfl | rfl : part = .rule ∨ part = .customPattern := by simpa [Part.isRule] using hpart
  · simp only [Part.numbers, List.mem_cons, List.not_mem_nil, or_false, not_or] at hnumber
    simp [schema, Part.field?, Part.kind?, hnumber]
  · simp only [Part.numbers, List.mem_cons, List.not_mem_nil, or_false, not_or] at hnumber
    simp [schema, Part.field?, Part.kind?, hnumber]

theorem isRule_of_message {part type : Part} {number : Nat} {spec : FieldSpec Part}
    (hfield : schema.field? part number = some spec) (hkind : spec.kind = .message type) :
    type.isRule := by
  cases type with
  | rule => simp [Part.isRule]
  | customPattern => simp [Part.isRule]
  | methodOptions =>
      obtain ⟨kind, hfound, rfl⟩ := Option.map_eq_some_iff.1 hfield
      simp only at hkind
      subst hkind
      unfold Part.kind? at hfound
      split at hfound
      · split_ifs at hfound
        simp at hfound
      · split at hfound
        · simp at hfound
        · simp at hfound
        · split_ifs at hfound
          simp at hfound
      · split_ifs at hfound
        simp at hfound

/-- Of the options of a method only the HTTP option is read. -/
theorem methodOptions_of_not_isRule {part : Part} (hpart : ¬ part.isRule) {number : Nat}
    {spec : FieldSpec Part} (hfield : schema.field? part number = some spec) :
    part = .methodOptions ∧ number = httpNumber ∧ spec = { kind := .message .rule } := by
  obtain rfl : part = .methodOptions := by
    cases part <;> simp_all [Part.isRule]
  have hnumber : number = httpNumber := by
    by_contra hother
    rw [field?_methodOptions hother] at hfield
    contradiction
  subst hnumber
  exact ⟨rfl, rfl, (Option.some.inj (hfield.symm.trans field?_httpNumber))⟩

theorem fits_httpExtension : FieldSpec.Fits Part.typeName { kind := .message .rule }
    (extensionSpec ⟨.proto3, []⟩ httpExtension) where
  kind := by decide
  repeated := by decide
  presence := Or.inr (Or.inl (by decide))

section Described

variable {table : MessageTable} (hdescribes : DescribesRules table)

include hdescribes

theorem DescribesRules.lookup_eq {part : Part} (hpart : part.isRule) :
    table.lookup part.typeName = httpTable.lookup part.typeName := by
  obtain rfl | rfl : part = .rule ∨ part = .customPattern := by simpa [Part.isRule] using hpart
  · exact hdescribes.rule
  · exact hdescribes.customPattern

theorem DescribesRules.field?_eq {part : Part} (hpart : part.isRule) (number : Nat) :
    (schemaOf table).field? part.typeName number =
      (schemaOf httpTable).field? part.typeName number := by
  simp only [schemaOf, hdescribes.lookup_eq hpart]

theorem DescribesRules.isEntry_eq_false {part : Part} (hpart : part.isRule) :
    (schemaOf table).isEntry part.typeName = false := by
  simp only [schemaOf, hdescribes.lookup_eq hpart]
  cases hmessage : httpTable.lookup part.typeName with
  | none => rfl
  | some message => exact (plain_httpTable part hpart message hmessage).1

/-- A field of a rule is described if it is read, and then it fits. -/
theorem DescribesRules.field?_cases {part : Part} (hpart : part.isRule) (number : Nat) :
    (schema.field? part number = none ∧ (schemaOf table).field? part.typeName number = none) ∨
      ∃ spec written, schema.field? part number = some spec ∧
        (schemaOf table).field? part.typeName number = some written ∧
        spec.Fits Part.typeName written ∧ written.choice = spec.choice := by
  rw [hdescribes.field?_eq hpart]
  by_cases hnumber : number ∈ part.numbers
  · have hdescribed := isDescribed_numbers part hpart number hnumber
    unfold isDescribed at hdescribed
    split at hdescribed
    · next spec written hspec hwritten =>
        simp only [Bool.and_eq_true, decide_eq_true_eq, beq_iff_eq, Bool.or_eq_true,
          Bool.not_eq_true', Option.isNone_iff_eq_none] at hdescribed
        obtain ⟨⟨⟨hkind, hrepeated⟩, hpresence⟩, hchoice⟩ := hdescribed
        refine Or.inr ⟨spec, written, hspec, hwritten, ⟨hkind, hrepeated, ?_⟩, hchoice⟩
        tauto
    · simp at hdescribed
  · refine Or.inl ⟨field?_eq_none hpart hnumber, ?_⟩
    simp only [schemaOf]
    cases hmessage : httpTable.lookup part.typeName with
    | none => rfl
    | some message =>
        rw [Option.bind_some, List.lookup_eq_none_iff]
        intro field hfield
        have hfound := ((plain_httpTable part hpart message hmessage).2 field hfield).1
        have hne : (number : Int) ≠ field.1 := by
          intro heq
          rw [← heq] at hfound
          obtain ⟨other, hother, hsame⟩ := List.mem_map.1 hfound
          exact hnumber (Int.ofNat.inj hsame ▸ hother)
        simpa using hne

theorem DescribesRules.isFlat {part : Part} (hpart : part.isRule) :
    (schemaOf table).IsFlat part.typeName := by
  intro number written hwritten
  obtain ⟨-, hnone⟩ | ⟨spec, written', hspec, hwritten', hfits, -⟩ :=
    hdescribes.field?_cases hpart number
  · simp [hwritten] at hnone
  · obtain rfl := Option.some.inj (hwritten.symm.trans hwritten')
    obtain htext | ⟨type, hmessage⟩ := Part.field?_eq_some hspec
    · have hkind : written.kind = .text := by rw [hfits.kind, htext, Kind.map]
      simp [Schema.entry?, hkind, Kind.type?]
    · have hkind : written.kind = .message type.typeName := by rw [hfits.kind, hmessage, Kind.map]
      have hentry := hdescribes.isEntry_eq_false (isRule_of_message hspec hmessage)
      simp [Schema.entry?, hkind, Kind.type?, hentry]

theorem DescribesRules.choice?_eq {part : Part} (hpart : part.isRule) (number : Nat) :
    (schemaOf table).choice? part.typeName number = schema.choice? part number := by
  obtain ⟨hnone, hnone'⟩ | ⟨spec, written, hspec, hwritten, -, hchoice⟩ :=
    hdescribes.field?_cases hpart number
  · simp [Schema.choice?, hnone, hnone']
  · simp [Schema.choice?, hspec, hwritten, hchoice]

/-- Options that are written under a pool that knows the HTTP option keep the
rule. -/
theorem DescribesRules.keeps (hmaps : (schemaOf table).HasNoMaps (optionsName .method)) :
    schema.Keeps (schemaOf table) Part.typeName fun _ => True where
  flatReader part _ := isFlat_schema part
  noMaps part _ := by
    cases part with
    | methodOptions => exact hmaps
    | rule => exact (hdescribes.isFlat (by simp [Part.isRule])).hasNoMaps
    | customPattern => exact (hdescribes.isFlat (by simp [Part.isRule])).hasNoMaps
  first _ := rfl
  fits part _ number spec written hspec hwritten := by
    by_cases hpart : part.isRule
    · obtain ⟨hnone, -⟩ | ⟨spec', written', hspec', hwritten', hfits, -⟩ :=
        hdescribes.field?_cases hpart number
      · simp [hspec] at hnone
      · obtain rfl := Option.some.inj (hspec.symm.trans hspec')
        obtain rfl := Option.some.inj (hwritten.symm.trans hwritten')
        exact hfits
    · obtain ⟨rfl, rfl, rfl⟩ := methodOptions_of_not_isRule hpart hspec
      obtain rfl := Option.some.inj (hwritten.symm.trans hdescribes.option)
      exact fits_httpExtension
  closed _ _ _ _ _ _ _ _ _ := trivial
  excludes part _ number hknown later := by
    by_cases hpart : part.isRule
    · simp [Schema.Excludes, hdescribes.choice?_eq hpart]
    · obtain ⟨spec, hspec⟩ := Option.isSome_iff_exists.1 hknown
      obtain ⟨rfl, rfl, rfl⟩ := methodOptions_of_not_isRule hpart hspec
      simp [Schema.Excludes, Schema.choice?, hspec, hdescribes.option, extensionSpec]

end Described

/-! ## Options in canonical form -/

section Recoded

variable {table : MessageTable} {payload recoded : Bytes}

theorem recode_eq_ok {τ : Type} {writer : Schema τ} {owner : τ}
    (hrecode : writer.recode owner payload = .ok recoded) :
    ∃ founds, writer.Holds nestingLimit owner payload founds ∧
      recoded = encode (writer.canonical owner founds) := by
  unfold Schema.recode at hrecode
  cases hdecode : writer.decode owner payload with
  | error fault => simp [hdecode, Except.map] at hrecode
  | ok founds =>
      refine ⟨founds, Schema.decode_eq_ok.1 hdecode, ?_⟩
      simpa [hdecode, Except.map] using hrecode.symm

/-- A payload can be passed over if a schema that knows nothing can do it. -/
theorem holds_blank_iff_passable {τ : Type} (owner : τ) {raws : List Record} :
    (Schema.blank true).Holds nestingLimit owner payload raws ↔ Passable payload raws := by
  rw [Schema.holds_blank_iff (Nat.le_refl _)]
  exact ⟨fun ⟨hraws, hpasses⟩ => ⟨hraws, hpasses⟩, fun ⟨hraws, hpasses⟩ => ⟨hraws, hpasses⟩⟩

/-- A pool that does not know the HTTP option keeps its records. -/
theorem sameOption_recode (hmaps : (schemaOf table).HasNoMaps (optionsName .method))
    (hunknown : (schemaOf table).field? (optionsName .method) httpNumber = none)
    {raws : List Record} (hpassable : Passable payload raws)
    (hrecode : (schemaOf table).recode (optionsName .method) payload = .ok recoded)
    (hlength : recoded.length < 2 ^ 64) : SameOption payload recoded := by
  have hkeeps := Schema.keeps_blank true (schemaOf table)
  obtain ⟨founds, hfounds, rfl⟩ := recode_eq_ok hrecode
  have hreads := (holds_blank_iff_passable (optionsName .method)).2 hpassable
  have hall := agrees_of_holds hkeeps (Nat.le_refl _) (Nat.le_refl _) hmaps hreads hfounds
  obtain ⟨raws', hraws', halike⟩ := holds_canonical hkeeps (Nat.le_refl _) hmaps hall hlength
  refine ⟨raws, raws', hpassable, (holds_blank_iff_passable _).1 hraws', ?_⟩
  have hown := (Schema.alike_iff.1 halike).2 httpNumber rfl hunknown
  rwa [Schema.counting_eq_own rfl, Schema.counting_eq_own rfl] at hown

/-- A pool that knows the HTTP option keeps the rule in it. -/
theorem DescribesRules.ofOptions_recode (hdescribes : DescribesRules table)
    (hmaps : (schemaOf table).HasNoMaps (optionsName .method))
    (hrecode : (schemaOf table).recode (optionsName .method) payload = .ok recoded)
    (hlength : recoded.length < 2 ^ 64) {rule? : Option Rule}
    (hrule : Rule.ofOptions payload = .ok rule?) : Rule.ofOptions recoded = .ok rule? := by
  obtain ⟨founds, hfounds, rfl⟩ := recode_eq_ok hrecode
  obtain ⟨reads, hreads, rfl⟩ := Rule.ofOptions_eq_ok.1 hrule
  have hkeeps := hdescribes.keeps hmaps
  have hall := agrees_of_holds hkeeps (Nat.le_refl _) (Nat.le_refl _) trivial hreads hfounds
  obtain ⟨others, hothers, halike⟩ := holds_canonical hkeeps (Nat.le_refl _) trivial hall hlength
  refine Rule.ofOptions_eq_ok.2 ⟨others, hothers, (rule?_eq_of_same ⟨halike, ?_, ?_⟩).symm⟩
  · exact hreads.types isFlat_schema (Nat.le_refl _)
  · exact hothers.types isFlat_schema (Nat.le_refl _)

end Recoded

end ProtoSource.Http
