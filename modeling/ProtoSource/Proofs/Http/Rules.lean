import ProtoSource.Proofs.Http.Outcome

/-!
# Rules of messages that say the same

The rule that is read from the records of an HTTP option does not depend on how
the option was encoded.
-/

namespace ProtoSource.Http

open ProtoSource.Related
open ProtoSource.Wire
open ProtoSource.Wire.Records
open ProtoSource.WellKnown (httpNumber)

section Views

variable {keeps : Part → Nat → Prop} {records others : List Record}

/-- A text outside of the pattern. -/
theorem getD_text?_eq_of_same {part : Part} (hsame : schema.Same keeps part records others)
    {number : Nat} {spec : FieldSpec Part} (hfield : schema.field? part number = some spec)
    (hkind : spec.kind = .text) (hone : spec.repeated = false) (hchoice : spec.choice = none)
    (hdefault : spec.default? = none) :
    (text? number records).getD "" = (text? number others).getD "" :=
  (hsame.alike_own hfield hchoice).getD_text?_eq hkind hone hdefault

/-- The records of a member of the pattern that count. -/
theorem alike_settled (hsame : schema.Same keeps .rule records others) {number : Nat}
    {spec : FieldSpec Part} (hfield : schema.field? .rule number = some spec) :
    spec.Alike (schema.Alike keeps) (own number (schema.settle .rule records))
      (own number (schema.settle .rule others)) :=
  (Schema.alike_iff.1 hsame.alike).1 number spec hfield

theorem text?_settled_eq (hsame : schema.Same keeps .rule records others) {number : Nat}
    {spec : FieldSpec Part} (hfield : schema.field? .rule number = some spec)
    (hkind : spec.kind = .text) (hone : spec.repeated = false) (hpresence : spec.presence = true) :
    text? number (schema.settle .rule records) = text? number (schema.settle .rule others) :=
  (alike_settled hsame hfield).text?_eq hkind hone hpresence

theorem custom_eq_of_same (hsame : schema.Same keeps .customPattern records others) :
    Pattern.custom ((text? 1 records).getD "") ((text? 2 records).getD "") =
      Pattern.custom ((text? 1 others).getD "") ((text? 2 others).getD "") := by
  rw [getD_text?_eq_of_same hsame rfl rfl rfl rfl rfl,
    getD_text?_eq_of_same hsame rfl rfl rfl rfl rfl]

theorem Pattern.eq_of_same (hsame : schema.Same keeps .rule records others) :
    Pattern.ofRecords? (schema.settle .rule records) =
      Pattern.ofRecords? (schema.settle .rule others) := by
  have htypes {records : List Record} (htypes : ∀ record ∈ records, schema.Types .rule record) :
      ∀ record ∈ schema.settle .rule records, schema.Types .rule record :=
    fun record hrecord => htypes record (Schema.mem_of_mem_settle hrecord)
  have hfield : schema.field? .rule 8 =
      some { kind := .message .customPattern, choice := some 0 } := rfl
  have hrel := Schema.rel_message? (alike_settled hsame hfield) (htypes hsame.types)
    (htypes hsame.typesOthers) hfield rfl rfl
  have hcustom : (message? 8 (schema.settle .rule records)).map (fun custom =>
        Pattern.custom ((text? 1 custom).getD "") ((text? 2 custom).getD "")) =
      (message? 8 (schema.settle .rule others)).map fun custom =>
        Pattern.custom ((text? 1 custom).getD "") ((text? 2 custom).getD "") :=
    Schema.map_eq_of_rel (fun _ _ => custom_eq_of_same) hrel
  have htext (number : Nat) (hfield : schema.field? .rule number =
      some { kind := .text, choice := some 0 }) :=
    text?_settled_eq hsame hfield rfl rfl rfl
  unfold Pattern.ofRecords?
  rw [hcustom, htext 2 rfl, htext 3 rfl, htext 4 rfl, htext 5 rfl, htext 6 rfl]

theorem Binding.eq_of_same (hsame : schema.Same keeps .rule records others) :
    Binding.ofRecords records = Binding.ofRecords others := by
  have htext (number : Nat) (hfield : schema.field? .rule number =
      some { kind := .text, presence := false }) :=
    getD_text?_eq_of_same hsame hfield rfl rfl rfl rfl
  unfold Binding.ofRecords
  rw [htext 1 rfl, Pattern.eq_of_same hsame, htext 7 rfl, htext 12 rfl]

theorem Rule.additionalOfRecords_eq (records : List Record) :
    additionalOfRecords records = (messages 11 records).map Rule.ofRecords := by
  induction records with
  | nil => rfl
  | cons record rest ih =>
      rw [additionalOfRecords, ih]
      cases record with
      | message number payload inner =>
          by_cases hnumber : number = 11 <;>
            simp [additionalOfRecord, messages, hnumber, Rule.ofRecords]
      | _ => simp [additionalOfRecord, messages]

theorem Rule.eq_of_same (hsame : schema.Same keeps .rule records others) :
    Rule.ofRecords records = Rule.ofRecords others := by
  -- The additional bindings are less deep than the rule around them.
  induction hdepth : depthOf records using Nat.strongRecOn generalizing records others with
  | ind depth ih =>
      have hfield : schema.field? .rule 11 =
          some { kind := .message .rule, repeated := true } := rfl
      unfold Rule.ofRecords
      rw [Binding.eq_of_same hsame, additionalOfRecords_eq, additionalOfRecords_eq]
      congr 1
      refine map_eq_of_forall₂ (fun inner hinner _ _ hnested => ?_)
        (hsame.messages hfield rfl rfl rfl)
      exact ih _ (hdepth ▸ depthOf_lt_of_mem_messages hinner) hnested rfl

/-- Options that say the same have the same rule. -/
theorem rule?_eq_of_same (hsame : schema.Same keeps .methodOptions records others) :
    (message? httpNumber records).map Rule.ofRecords =
      (message? httpNumber others).map Rule.ofRecords :=
  Schema.map_eq_of_rel (fun _ _ => Rule.eq_of_same) (hsame.message? field?_httpNumber rfl rfl rfl)

end Views

end ProtoSource.Http
