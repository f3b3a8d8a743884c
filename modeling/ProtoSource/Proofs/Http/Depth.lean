import ProtoSource.Proofs.Http.Described
import ProtoSource.Proofs.Wire.Nesting

/-!
# Rules that nest too deeply

A pool that knows the HTTP option reads it with one level of nesting less than
rules need, so a rule that cannot be read although the pool could read the option
nests too deeply.
-/

namespace ProtoSource.Wire

mutual

theorem passDepthOfRecord_le (record : Record) :
    passDepthOfRecord record ≤ depthOfRecord record + 1 := by
  cases record with
  | group number records =>
      rw [passDepthOfRecord, depthOfRecord]
      exact Nat.add_le_add_right (passDepthOf_le records) 1
  | _ => simp [passDepthOfRecord]

theorem passDepthOf_le (records : List Record) : passDepthOf records ≤ depthOf records + 1 := by
  cases records with
  | nil => simp [passDepthOf]
  | cons record rest =>
      have hrecord := passDepthOfRecord_le record
      have hrest := passDepthOf_le rest
      rw [passDepthOf, depthOf]
      omega

end

end ProtoSource.Wire

namespace ProtoSource.Http

open ProtoSource.Pool
open ProtoSource.Related
open ProtoSource.Wire
open ProtoSource.Wire.Records
open ProtoSource.WellKnown (httpNumber)

variable {table : MessageTable}

/-- What is read is described. -/
theorem DescribesRules.exists_field? (hdescribes : DescribesRules table) {part : Part}
    {number : Nat}
    {spec : FieldSpec Part} (hspec : schema.field? part number = some spec) :
    ∃ written, (schemaOf table).field? part.typeName number = some written := by
  by_cases hpart : part.isRule
  · obtain ⟨hnone, -⟩ | ⟨_, written, -, hwritten, -⟩ := hdescribes.field?_cases hpart number
    · simp [hspec] at hnone
    · exact ⟨written, hwritten⟩
  · obtain ⟨rfl, rfl, -⟩ := methodOptions_of_not_isRule hpart hspec
    exact ⟨_, hdescribes.option⟩

/-- What a pool that knows the HTTP option reads can be read as a rule with one
level more. -/
theorem DescribesRules.exists_interprets (hdescribes : DescribesRules table)
    (hmaps : (schemaOf table).HasNoMaps (optionsName .method)) {budget : Nat}
    (hbudget : budget ≤ nestingLimit) {part : Part} {bytes : Bytes} {founds : List Record}
    (hfounds : (schemaOf table).Holds budget part.typeName bytes founds) :
    ∃ raws reads, HoldsRaw bytes raws ∧
      List.Forall₂ (schema.Interprets (budget + 1) part) raws reads := by
  induction budget using Nat.strongRecOn generalizing part bytes founds with
  | ind budget ih =>
      have hkeeps := hdescribes.keeps hmaps
      obtain ⟨raws, hraws, hall⟩ := hfounds.exists_finds hbudget (hkeeps.noMaps part trivial)
      have hread : ∀ raw ∈ raws, ∃ read, schema.Interprets (budget + 1) part raw read := by
        intro raw hraw
        obtain ⟨found, -, hfinds⟩ := forall₂_exists_of_mem hall hraw
        obtain ⟨front, hreads⟩ := hraws.forall_mem raw hraw
        cases hspec : schema.field? part raw.number with
        | none =>
            refine ⟨raw, .unknown hspec ?_⟩
            change passDepthOfRecord raw ≤ budget + 1
            have hdepth := hfinds.depthOfRecord_le hreads
            have hpass := passDepthOfRecord_le raw
            omega
        | some spec =>
            obtain ⟨written, hwritten⟩ := hdescribes.exists_field? hspec
            have hfits := hkeeps.fits part trivial _ _ _ hspec hwritten
            have hinterprets : (schemaOf table).Interprets budget part.typeName raw found := by
              cases hfinds with
              | direct hinterprets => exact hinterprets
              | group hwritten' hkind _ _ _ =>
                  obtain rfl := Option.some.inj (hwritten.symm.trans hwritten')
                  obtain htext | ⟨type, hmessage⟩ := Part.field?_eq_some hspec
                  · simp [hfits.kind, htext, Kind.map] at hkind
                  · simp [hfits.kind, hmessage, Kind.map] at hkind
            cases hinterprets with
            | unknown hnone _ => simp [hwritten] at hnone
            | known hwritten' _ hmeans =>
                obtain rfl := Option.some.inj (hwritten.symm.trans hwritten')
                obtain htext | ⟨type, hmessage⟩ := Part.field?_eq_some hspec
                · obtain ⟨_, _, value, rfl, hvalue, -⟩ :=
                    hmeans.of_text (by rw [hfits.kind, htext, Kind.map])
                  exact ⟨_, .known hspec (by simp) (.text htext hvalue)⟩
                · obtain ⟨less, _, payload, _, rfl, rfl, -, hholds⟩ :=
                    hmeans.of_message (by rw [hfits.kind, hmessage, Kind.map])
                  obtain ⟨others, reads, hothers, hreads⟩ := ih less (by omega) (by omega) hholds
                  have hinner := Schema.holds_of_interprets (isFlat_schema type) hothers hreads
                  exact ⟨_, .known hspec (by simp) (.message hmessage hinner)⟩
      obtain ⟨reads, hreads⟩ := exists_forall₂ hread
      exact ⟨raws, reads, hraws, hreads⟩

/-- If the rule in an option cannot be read although a pool could read the same
option, it nests too deeply. -/
theorem DescribesRules.reason_eq (hdescribes : DescribesRules table)
    (hmaps : (schemaOf table).HasNoMaps (optionsName .method)) {payload filled recoded : Bytes}
    (hsame : SameOption payload filled)
    (hrecode : (schemaOf table).recode (optionsName .method) filled = .ok recoded)
    {fault : Wire.Fault}
    (hrule : Rule.ofOptions payload = .error fault) : fault.reason = .nestedTooDeeply := by
  obtain ⟨raws, raws', hpassable, hpassable', hown⟩ := hsame
  obtain ⟨founds, hfounds, -⟩ := recode_eq_ok hrecode
  have hfounds : (schemaOf table).Holds nestingLimit Part.methodOptions.typeName filled founds :=
    hfounds
  obtain ⟨others, reads, hothers, hall⟩ :=
    hdescribes.exists_interprets hmaps (Nat.le_refl _) hfounds
  obtain rfl := hpassable'.holds.eq hothers
  have hoption : List.Forall₂ (schema.Interprets (nestingLimit + 1) .methodOptions)
      (own httpNumber raws) (own httpNumber reads) := by
    rw [hown]
    exact forall₂_own (fun _ _ hinterprets => hinterprets.number_eq.symm) hall
  obtain ⟨records, hrecords, -⟩ := exists_forall₂_of_own (fun _ _ h => h.number_eq)
    (fun raw hraw hother => .unknown (field?_methodOptions hother)
      (Nat.le_succ_of_le (hpassable.passes raw hraw))) hoption
  have hholds := Schema.holds_of_interprets (isFlat_schema _) hpassable.holds hrecords
  unfold Rule.ofOptions at hrule
  cases hdecode : schema.decode .methodOptions payload with
  | ok found => simp [hdecode, Except.map] at hrule
  | error found =>
      obtain rfl : found = fault := by simpa [hdecode, Except.map] using hrule
      exact Schema.reason_eq_of_holds (Nat.le_succ _) hholds hdecode

end ProtoSource.Http
