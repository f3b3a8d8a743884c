import ProtoSource.Proofs.Related
import ProtoSource.Proofs.Wire.Canonical
import ProtoSource.Proofs.Wire.Nesting
import ProtoSource.Proofs.Wire.Scalars
import ProtoSource.Proofs.Wire.Writing

/-!
# How many levels are enough

What is read under a budget nests no deeper than the budget, and what was written as
texts and messages is read back under every budget that it does not nest deeper than.
So a message that was written can be decoded unless its records nest too deeply.
-/

namespace ProtoSource.Wire

open ProtoSource.Related

theorem depthOf_append (records others : List Record) :
    depthOf (records ++ others) = max (depthOf records) (depthOf others) := by
  induction records with
  | nil => simp [depthOf]
  | cons record rest ih => rw [List.cons_append, depthOf, depthOf, ih, Nat.max_assoc]

theorem Scalar.depthOfRecord_wireRecord (scalar : Scalar) (number value : Nat) :
    depthOfRecord (scalar.wireRecord number value) = 0 := by
  unfold wireRecord
  split <;> simp [depthOfRecord]

namespace Schema

variable {τ : Type} {schema : Schema τ}

theorem depthOf_le_of_holds (hflat : ∀ owner, schema.IsFlat owner) {budget : Nat}
    (hbudget : budget ≤ nestingLimit) {owner : τ} {bytes : Bytes} {records : List Record}
    (hholds : schema.Holds budget owner bytes records) : depthOf records ≤ budget := by
  induction budget using Nat.strongRecOn generalizing owner bytes records with
  | ind budget ih =>
      obtain ⟨raws, hraws, hall⟩ := (holds_iff (hflat owner) hbudget).1 hholds
      rw [depthOf_le_iff]
      intro record hrecord
      obtain ⟨raw, hmem, hinterprets⟩ := forall₂_exists_of_mem hall.flip hrecord
      obtain ⟨front, hraw⟩ := hraws.forall_mem raw hmem
      cases hinterprets with
      | unknown _ hpasses => exact hpasses.depthOfRecord_le hraw
      | known _ _ hmeans =>
          cases hmeans with
          | scalar _ => simp [Scalar.depthOfRecord_wireRecord]
          | packed _ _ _ => simp [depthOfRecord]
          | text _ _ => simp [depthOfRecord]
          | bytes _ => simp [depthOfRecord]
          | @message less _ _ _ _ _ hinner =>
              rw [depthOfRecord, Nat.add_le_add_iff_right]
              exact ih less (Nat.lt_succ_self less) (by omega) hinner

/-- A message that nests too deeply is refused, however many levels would do. -/
theorem decode_of_depthOf_gt (hflat : ∀ owner, schema.IsFlat owner) {budget : Nat}
    (hbudget : nestingLimit ≤ budget) {owner : τ} {bytes : Bytes} {records : List Record}
    (hholds : schema.Holds budget owner bytes records) (hdeep : nestingLimit < depthOf records) :
    ∃ places, schema.decode owner bytes = .error ⟨places, .nestedTooDeeply⟩ := by
  obtain hok | hstops := decode_of_holds hbudget hholds
  · have hshallow := depthOf_le_of_holds hflat (Nat.le_refl _) (decode_eq_ok.1 hok)
    omega
  · exact hstops

/-- The record is a text or a message that `owner` has, with the encoded form of every
message in place. -/
inductive Carries (schema : Schema τ) : τ → Record → Prop where
  | text {owner : τ} {number : Nat} {spec : FieldSpec τ} {value : String} :
      schema.field? owner number = some spec → IsFieldNumber number → spec.kind = .text →
        schema.Carries owner (.text number value)
  | message {owner type : τ} {number : Nat} {spec : FieldSpec τ} {records : List Record} :
      schema.field? owner number = some spec → IsFieldNumber number → spec.kind = .message type →
        (∀ record ∈ records, schema.Carries type record) →
        schema.Carries owner (.embed number records)

theorem Carries.interprets (hflat : ∀ owner, schema.IsFlat owner)
    (hfirst : ∀ owner, schema.skipsFirst owner = false) {owner : τ} {record : Record}
    (hcarries : schema.Carries owner record) (hlength : (encodeRecord record).length < 2 ^ 64)
    {budget : Nat} (hdepth : depthOfRecord record ≤ budget) :
    record.Writable ∧ schema.Interprets budget owner record.flat record := by
  have hread (owner : τ) : ¬ (budget = 0 ∧ schema.skipsFirst owner) := by simp [hfirst owner]
  induction hcarries generalizing budget with
  | @text owner number spec value hfield hnumber hkind =>
      have hvalue : (utf8 value).length < 2 ^ 64 := by
        have hpayload := length_le_encodeDelimited (utf8 value)
        rw [encodeRecord, List.length_append] at hlength
        omega
      exact ⟨writable_text hnumber hvalue, .known hfield (hread owner)
        (.text hkind (ofUtf8?_utf8 value))⟩
  | @message owner type number spec records hfield hnumber hkind _ ih =>
      have hpayload : (encode records).length < 2 ^ 64 := by
        have hpayload := length_le_encodeDelimited (encode records)
        rw [Record.embed, encodeRecord, List.length_append] at hlength
        omega
      rw [Record.embed, depthOfRecord] at hdepth
      obtain ⟨less, rfl⟩ : ∃ less, budget = less + 1 := ⟨budget - 1, by omega⟩
      rw [Nat.add_le_add_iff_right, depthOf_le_iff] at hdepth
      have hholds : schema.Holds less type (encode records) records := by
        refine holds_encode_of_interprets (hflat type) fun record hmem => ?_
        have hbound := length_encodeRecord_le hmem
        exact ih record hmem (by omega) (hdepth record hmem) (by simp [hfirst])
      exact ⟨writable_message hnumber hpayload records,
        .known hfield (hread owner) (.message hkind hholds)⟩

/-- Records are read back under a budget that they do not nest deeper than. -/
theorem holds_encode_of_depthOf_le (hflat : ∀ owner, schema.IsFlat owner)
    (hfirst : ∀ owner, schema.skipsFirst owner = false) {owner : τ} {records : List Record}
    (hcarries : ∀ record ∈ records, schema.Carries owner record)
    (hlength : (encode records).length < 2 ^ 64) {budget : Nat}
    (hdepth : depthOf records ≤ budget) :
    schema.Holds budget owner (encode records) records := by
  rw [depthOf_le_iff] at hdepth
  refine holds_encode_of_interprets (hflat owner) fun record hmem => ?_
  have hbound := length_encodeRecord_le hmem
  exact (hcarries record hmem).interprets hflat hfirst (by omega) (hdepth record hmem)

end Schema

end ProtoSource.Wire
