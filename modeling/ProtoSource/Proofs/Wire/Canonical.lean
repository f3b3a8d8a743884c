import Mathlib.Data.List.Forall2
import ProtoSource.Proofs.Wire.Raw

/-!
# The parts of a canonical form

A canonical form is put together field by field.  Lists that are put together so
can be taken apart by number again, and settling choices keeps of each choice
the records of one number.
-/

namespace ProtoSource.Wire

/-- The records of one field. -/
def Records.own (number : Nat) (records : List Record) : List Record :=
  records.filter (·.number == number)

namespace Records

@[simp]
theorem own_append (number : Nat) (front back : List Record) :
    own number (front ++ back) = own number front ++ own number back :=
  List.filter_append ..

theorem number_eq_of_mem_own {number : Nat} {records : List Record} {record : Record}
    (hmem : record ∈ own number records) : record.number = number := by
  simpa using (List.mem_filter.1 hmem).2

theorem own_eq_self {number : Nat} {records : List Record}
    (hrecords : ∀ record ∈ records, record.number = number) : own number records = records := by
  refine List.filter_eq_self.2 fun record hmem => ?_
  simpa using hrecords record hmem

theorem own_eq_nil {number other : Nat} (hother : other ≠ number) {records : List Record}
    (hrecords : ∀ record ∈ records, record.number = other) : own number records = [] := by
  refine List.filter_eq_nil_iff.2 fun record hmem => ?_
  simpa [hrecords record hmem] using hother

/-- What was put together field by field is taken apart field by field. -/
theorem own_flatMap {numbers : List Nat} (hnodup : numbers.Nodup) {fields : Nat → List Record}
    (hfields : ∀ number ∈ numbers, ∀ record ∈ fields number, record.number = number)
    (number : Nat) :
    own number (numbers.flatMap fields) = if number ∈ numbers then fields number else [] := by
  induction numbers with
  | nil => rfl
  | cons first rest ih =>
      rw [List.nodup_cons] at hnodup
      rw [List.forall_mem_cons] at hfields
      rw [List.flatMap_cons, own_append, ih hnodup.2 hfields.2]
      by_cases hfirst : first = number
      · subst hfirst
        rw [own_eq_self hfields.1, if_neg hnodup.1, if_pos (by simp), List.append_nil]
      · have hmem : number ∈ first :: rest ↔ number ∈ rest := by
          simp [Ne.symm hfirst]
        rw [own_eq_nil hfirst hfields.1, List.nil_append]
        simp only [hmem]

end Records

theorem length_encodeRecord_le {record : Record} {records : List Record} (hmem : record ∈ records) :
    (encodeRecord record).length ≤ (encode records).length := by
  induction records with
  | nil => simp at hmem
  | cons first rest ih =>
      rw [encode, List.length_append]
      obtain rfl | hmem := List.mem_cons.1 hmem
      · omega
      · have hrest := ih hmem
        omega

theorem length_le_encodeDelimited (bytes : Bytes) :
    bytes.length ≤ (encodeDelimited bytes).length := by
  simp [encodeDelimited]

namespace Schema

theorem mem_insertNumber {number other : Nat} {numbers : List Nat} :
    other ∈ insertNumber number numbers ↔ other = number ∨ other ∈ numbers := by
  induction numbers with
  | nil => simp [insertNumber]
  | cons least rest ih =>
      unfold insertNumber
      split_ifs with hless hsame
      · simp
      · subst hsame
        simp
      · simp only [List.mem_cons, ih]
        exact or_left_comm

theorem mem_numbersOf {number : Nat} {records : List Record} :
    number ∈ numbersOf records ↔ ∃ record ∈ records, record.number = number := by
  induction records with
  | nil => simp [numbersOf]
  | cons record rest ih =>
      have hcons : numbersOf (record :: rest) = insertNumber record.number (numbersOf rest) := rfl
      rw [hcons, mem_insertNumber, ih]
      simp [eq_comm]

theorem sorted_insertNumber {number : Nat} {numbers : List Nat}
    (hnumbers : numbers.Pairwise (· < ·)) : (insertNumber number numbers).Pairwise (· < ·) := by
  induction numbers with
  | nil => simp [insertNumber]
  | cons least rest ih =>
      rw [List.pairwise_cons] at hnumbers
      unfold insertNumber
      split_ifs with hless hsame
      · refine List.pairwise_cons.2 ⟨?_, List.pairwise_cons.2 hnumbers⟩
        intro other hother
        obtain rfl | hother := List.mem_cons.1 hother
        · exact hless
        · exact Nat.lt_trans hless (hnumbers.1 other hother)
      · exact List.pairwise_cons.2 hnumbers
      · refine List.pairwise_cons.2 ⟨?_, ih hnumbers.2⟩
        intro other hother
        obtain rfl | hother := mem_insertNumber.1 hother
        · omega
        · exact hnumbers.1 other hother

theorem nodup_numbersOf (records : List Record) : (numbersOf records).Nodup := by
  have hsorted : (numbersOf records).Pairwise (· < ·) := by
    induction records with
    | nil => simp [numbersOf]
    | cons record rest ih => exact sorted_insertNumber ih
  exact hsorted.imp fun hless => Nat.ne_of_lt hless

variable {τ σ : Type} {schema : Schema τ} {owner : τ}

/-- The two fields exclude each other. -/
def Excludes (schema : Schema τ) (owner : τ) (number other : Nat) : Prop :=
  (schema.choice? owner number).isSome ∧
    schema.choice? owner number = schema.choice? owner other ∧ number ≠ other

theorem supersedes_iff {earlier later : Record} :
    schema.supersedes owner earlier later ↔
      schema.Excludes owner earlier.number later.number := by
  simp [supersedes, Excludes, and_assoc]

theorem settle_cons (record : Record) (rest : List Record) :
    schema.settle owner (record :: rest) =
      if rest.any (schema.supersedes owner record) then schema.settle owner rest
      else record :: schema.settle owner rest := by
  rw [settle]
  by_cases hany : rest.any (schema.supersedes owner record)
  · have hchoice : (schema.choice? owner record.number).isSome := by
      obtain ⟨later, -, hlater⟩ := List.any_eq_true.1 hany
      exact (supersedes_iff.1 hlater).1
    simp [hany, hchoice]
  · simp [hany]

theorem mem_of_mem_settle {record : Record} {records : List Record}
    (hmem : record ∈ schema.settle owner records) : record ∈ records := by
  induction records with
  | nil => simp [settle] at hmem
  | cons first rest ih =>
      rw [settle_cons] at hmem
      split_ifs at hmem
      · exact List.mem_cons_of_mem _ (ih hmem)
      · obtain rfl | hmem := List.mem_cons.1 hmem
        · exact List.mem_cons_self
        · exact List.mem_cons_of_mem _ (ih hmem)

/-- What is left of a choice has one number. -/
theorem not_excludes_of_mem_settle {records : List Record} {record other : Record}
    (hrecord : record ∈ schema.settle owner records)
    (hother : other ∈ schema.settle owner records) :
    ¬ schema.Excludes owner record.number other.number := by
  have hsymm {number other : Nat} (hexcludes : schema.Excludes owner number other) :
      schema.Excludes owner other number :=
    ⟨hexcludes.2.1 ▸ hexcludes.1, hexcludes.2.1.symm, hexcludes.2.2.symm⟩
  induction records generalizing record other with
  | nil => simp [settle] at hrecord
  | cons first rest ih =>
      rw [settle_cons] at hrecord hother
      split_ifs at hrecord hother with hany
      · exact ih hrecord hother
      have hfirst {later : Record} (hlater : later ∈ schema.settle owner rest) :
          ¬ schema.Excludes owner first.number later.number := by
        intro hexcludes
        exact hany (List.any_eq_true.2
          ⟨later, mem_of_mem_settle hlater, supersedes_iff.2 hexcludes⟩)
      rw [List.mem_cons] at hrecord hother
      obtain rfl | hrecord := hrecord
      · obtain rfl | hother := hother
        · exact fun hexcludes => hexcludes.2.2 rfl
        · exact hfirst hother
      · obtain rfl | hother := hother
        · exact fun hexcludes => hfirst hrecord (hsymm hexcludes)
        · exact ih hrecord hother

theorem settle_eq_self {records : List Record}
    (hrecords : ∀ record ∈ records, ∀ other ∈ records,
      ¬ schema.Excludes owner record.number other.number) :
    schema.settle owner records = records := by
  induction records with
  | nil => rfl
  | cons first rest ih =>
      have hany : ¬ (rest.any (schema.supersedes owner first)) = true := by
        intro hany
        obtain ⟨later, hlater, hsupersedes⟩ := List.any_eq_true.1 hany
        exact hrecords first List.mem_cons_self later (List.mem_cons_of_mem _ hlater)
          (supersedes_iff.1 hsupersedes)
      rw [settle_cons, if_neg hany, ih]
      intro record hrecord other hother
      exact hrecords record (List.mem_cons_of_mem _ hrecord) other (List.mem_cons_of_mem _ hother)

/-- Two schemas that agree on what excludes a field settle its records alike. -/
theorem forall₂_own_settle {other : Schema σ} {type : σ} {relation : Record → Record → Prop}
    (hnumber : ∀ left right, relation left right → left.number = right.number)
    {number : Nat}
    (hexcludes : ∀ later, schema.Excludes owner number later ↔ other.Excludes type number later)
    {lefts rights : List Record} (hall : List.Forall₂ relation lefts rights) :
    List.Forall₂ relation (Records.own number (schema.settle owner lefts))
      (Records.own number (other.settle type rights)) := by
  induction hall with
  | nil => exact .nil
  | @cons left right lefts rights hhead htail ih =>
      have hsame := hnumber left right hhead
      rw [settle_cons, settle_cons]
      by_cases hown : left.number = number
      · have hany : (lefts.any (schema.supersedes owner left)) =
            rights.any (other.supersedes type right) := by
          clear ih hhead
          induction htail with
          | nil => rfl
          | cons hfirst _ ihrest =>
              rw [List.any_cons, List.any_cons, ihrest]
              congr 1
              rw [Bool.eq_iff_iff, supersedes_iff, supersedes_iff, ← hsame, hown,
                hnumber _ _ hfirst]
              exact hexcludes _
        rw [hany]
        split_ifs
        · exact ih
        · have hkeepLeft : Records.own number (left :: schema.settle owner lefts) =
              left :: Records.own number (schema.settle owner lefts) := by
            simp [Records.own, hown]
          have hkeepRight : Records.own number (right :: other.settle type rights) =
              right :: Records.own number (other.settle type rights) := by
            simp [Records.own, ← hsame, hown]
          rw [hkeepLeft, hkeepRight]
          exact .cons hhead ih
      · have hdropLeft : ∀ rest, Records.own number (left :: rest) = Records.own number rest := by
          simp [Records.own, hown]
        have hdropRight : ∀ rest,
            Records.own number (right :: rest) = Records.own number rest := by
          simp [Records.own, ← hsame, hown]
        split_ifs
        · exact ih
        · rw [hdropRight]
          exact ih
        · rw [hdropLeft]
          exact ih
        · rw [hdropLeft, hdropRight]
          exact ih

end Schema

end ProtoSource.Wire
