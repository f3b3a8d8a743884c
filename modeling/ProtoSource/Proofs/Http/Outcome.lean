import ProtoSource.Http.Summary
import ProtoSource.Proofs.Wire.Agreement

/-!
# What the rule of a method depends on

Of the encoded options of a method only the records of the HTTP option count for
its rule, provided that the others can be passed over.
-/

namespace ProtoSource.Http

open ProtoSource.Related
open ProtoSource.Wire
open ProtoSource.Wire.Records
open ProtoSource.WellKnown (httpNumber)

theorem Part.field?_eq_some {part : Part} {number : Nat} {spec : FieldSpec Part}
    (hfield : part.field? number = some spec) :
    spec.kind = .text ∨ ∃ type, spec.kind = .message type := by
  obtain ⟨kind, hkind, rfl⟩ := Option.map_eq_some_iff.1 hfield
  simp only
  unfold Part.kind? at hkind
  split at hkind
  · split_ifs at hkind
    exact Or.inr ⟨_, (Option.some.inj hkind).symm⟩
  · split at hkind
    · exact Or.inr ⟨_, (Option.some.inj hkind).symm⟩
    · exact Or.inr ⟨_, (Option.some.inj hkind).symm⟩
    · split_ifs at hkind
      exact Or.inl (Option.some.inj hkind).symm
  · split_ifs at hkind
    exact Or.inl (Option.some.inj hkind).symm

theorem isFlat_schema (part : Part) : schema.IsFlat part := by
  intro number spec hfield
  refine ⟨by simp [Schema.entry?, schema], fun type hkind => ?_⟩
  obtain htext | ⟨inner, hmessage⟩ := Part.field?_eq_some hfield
  · simp [htext] at hkind
  · simp [hmessage] at hkind

theorem field?_methodOptions {number : Nat} (hnumber : number ≠ httpNumber) :
    schema.field? .methodOptions number = none := by
  simp [schema, Part.field?, Part.kind?, hnumber]

theorem field?_httpNumber : schema.field? .methodOptions httpNumber =
    some { kind := .message .rule } := by
  simp [schema, Part.field?, Part.kind?, Kind.type?]

/-- The records of `payload` as raw fields, all of which can be passed over. -/
structure Passable (payload : Bytes) (raws : List Record) : Prop where
  holds : HoldsRaw payload raws
  passes : ∀ raw ∈ raws, passDepthOfRecord raw ≤ nestingLimit

theorem exists_forall₂_of_own {relation : Record → Record → Prop} {number : Nat}
    (hnumber : ∀ left right, relation left right → right.number = left.number)
    {raws reads : List Record}
    (hother : ∀ raw ∈ raws, raw.number ≠ number → relation raw raw)
    (hown : List.Forall₂ relation (own number raws) reads) :
    ∃ records, List.Forall₂ relation raws records ∧ own number records = reads := by
  induction raws generalizing reads with
  | nil =>
      cases hown
      exact ⟨[], .nil, rfl⟩
  | cons raw rest ih =>
      rw [List.forall_mem_cons] at hother
      by_cases hsame : raw.number = number
      · rw [own, List.filter_cons_of_pos (by simpa using hsame)] at hown
        cases hown with
        | @cons _ read _ reads hhead hrest =>
            obtain ⟨records, hall, rfl⟩ := ih hother.2 hrest
            refine ⟨read :: records, .cons hhead hall, ?_⟩
            rw [own, List.filter_cons_of_pos (by simpa [hnumber _ _ hhead] using hsame)]
            rfl
      · rw [own, List.filter_cons_of_neg (by simpa using hsame)] at hown
        obtain ⟨records, hall, rfl⟩ := ih hother.2 hown
        refine ⟨raw :: records, .cons (hother.1 hsame) hall, ?_⟩
        rw [own, List.filter_cons_of_neg (by simpa using hsame)]
        rfl

theorem Rule.ofOptions_eq_ok {payload : Bytes} {rule? : Option Rule} :
    Rule.ofOptions payload = .ok rule? ↔ ∃ records,
      schema.Holds nestingLimit .methodOptions payload records ∧
        (message? httpNumber records).map Rule.ofRecords = rule? := by
  unfold Rule.ofOptions
  cases hdecode : schema.decode .methodOptions payload with
  | error fault =>
      refine iff_of_false (by simp [Except.map]) ?_
      rintro ⟨records, hholds, -⟩
      rw [← Schema.decode_eq_ok, hdecode] at hholds
      contradiction
  | ok records =>
      rw [Schema.decode_eq_ok] at hdecode
      constructor
      · intro hrule
        exact ⟨records, hdecode, by simpa [Except.map] using hrule⟩
      · rintro ⟨others, hholds, rfl⟩
        rw [hdecode.eq hholds]
        rfl

/-- The rule is read from the records of the HTTP option. -/
theorem Passable.ofOptions_eq_ok {payload : Bytes} {raws : List Record} {rule? : Option Rule}
    (hpassable : Passable payload raws) :
    Rule.ofOptions payload = .ok rule? ↔ ∃ reads,
      List.Forall₂ (schema.Interprets nestingLimit .methodOptions) (own httpNumber raws) reads ∧
        (message? httpNumber reads).map Rule.ofRecords = rule? := by
  rw [Rule.ofOptions_eq_ok]
  constructor
  · rintro ⟨records, hholds, rfl⟩
    obtain ⟨raws', hraws, hall⟩ := (Schema.holds_iff (isFlat_schema _) (Nat.le_refl _)).1 hholds
    obtain rfl := hpassable.holds.eq hraws
    refine ⟨own httpNumber records, forall₂_own (fun _ _ h => h.number_eq.symm) hall, ?_⟩
    rw [message?, message?, Schema.messages_own]
  · rintro ⟨reads, hall, rfl⟩
    obtain ⟨records, hrecords, rfl⟩ := exists_forall₂_of_own (fun _ _ h => h.number_eq)
      (fun raw hraw hother => .unknown (field?_methodOptions hother)
        (by simpa [Schema.Passes, schema] using hpassable.passes raw hraw)) hall
    refine ⟨records, (Schema.holds_iff (isFlat_schema _) (Nat.le_refl _)).2
      ⟨raws, hpassable.holds, hrecords⟩, ?_⟩
    rw [message?, message?, Schema.messages_own]

theorem exists_passable {τ : Type} {other : Schema τ} {owner : τ} (hflat : other.IsFlat owner)
    (hskips : other.skipsUnknown = true) (hunknown : other.field? owner httpNumber = none)
    {budget : Nat} (hbudget : budget ≤ nestingLimit) {payload : Bytes} {records : List Record}
    (hholds : other.Holds budget owner payload records) :
    ∃ raws, Passable payload raws ∧ own httpNumber raws = own httpNumber records := by
  obtain ⟨raws, hraws, hall⟩ := (Schema.holds_iff hflat hbudget).1 hholds
  refine ⟨raws, ⟨hraws, fun raw hraw => ?_⟩, ?_⟩
  · obtain ⟨record, -, hinterprets⟩ := forall₂_exists_of_mem hall hraw
    cases hinterprets with
    | unknown _ hpasses =>
        simp only [Schema.Passes, hskips, if_true] at hpasses
        exact Nat.le_trans hpasses hbudget
    | known _ _ hmeans =>
        obtain ⟨bytes, hraw⟩ := hraws.forall_mem raw hraw
        obtain ⟨key, left, right, -, -, hreads⟩ := hraw
        rw [(hmeans.flatValue hreads).passDepthOfRecord_eq]
        decide
  · refine List.forall₂_eq_eq_eq ▸ forall₂_imp_of_mem (fun raw hraw _ _ hinterprets => ?_)
      (forall₂_own (fun _ _ hinterprets => hinterprets.number_eq.symm) hall)
    have hnumber : raw.number = httpNumber := by simpa using (List.mem_filter.1 hraw).2
    cases hinterprets with
    | unknown _ _ => rfl
    | known hknown _ _ => simp [hnumber, hunknown] at hknown

/-- The records of the HTTP option are the same in both payloads, and whatever else
they hold can be passed over. -/
def SameOption (payload payload' : Bytes) : Prop :=
  ∃ raws raws', Passable payload raws ∧ Passable payload' raws' ∧
    own httpNumber raws = own httpNumber raws'

theorem SameOption.trans {first second third : Bytes} (hfirst : SameOption first second)
    (hsecond : SameOption second third) : SameOption first third := by
  obtain ⟨raws, raws', hraws, hraws', hown⟩ := hfirst
  obtain ⟨others, others', hothers, hothers', hown'⟩ := hsecond
  obtain rfl := hraws'.holds.eq hothers.holds
  exact ⟨raws, others', hraws, hothers', hown.trans hown'⟩

theorem SameOption.ofOptions_eq_ok_iff {payload payload' : Bytes}
    (hsame : SameOption payload payload') (rule? : Option Rule) :
    Rule.ofOptions payload = .ok rule? ↔ Rule.ofOptions payload' = .ok rule? := by
  obtain ⟨raws, raws', hpassable, hpassable', hown⟩ := hsame
  rw [hpassable.ofOptions_eq_ok, hpassable'.ofOptions_eq_ok, hown]

/-- Payloads with the same HTTP option have the same rule, or none can be read. -/
theorem SameOption.toOption_ofOptions_eq {payload payload' : Bytes}
    (hsame : SameOption payload payload') :
    (Rule.ofOptions payload).toOption = (Rule.ofOptions payload').toOption := by
  have hiff := hsame.ofOptions_eq_ok_iff
  cases hleft : Rule.ofOptions payload with
  | ok rule? => rw [(hiff rule?).1 hleft]
  | error fault =>
      cases hright : Rule.ofOptions payload' with
      | error _ => rfl
      | ok rule? =>
          rw [(hiff rule?).2 hright] at hleft
          contradiction

end ProtoSource.Http
