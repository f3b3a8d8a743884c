import Mathlib.Logic.Relation
import ProtoSource.Proofs.Related
import ProtoSource.Proofs.Wire.Interpretation

/-!
# Groups under a schema

A group that a schema knows ends where the wire types say that it ends, as a group
that it does not know.  So a message is cut into raw records also at types that
hold groups, unless there is a map in one of them.
-/

namespace ProtoSource.Wire

open ProtoSource.Related
open Reader

theorem wire_ne_endGroup_of_readUnknown {budget : Nat} {key : Key} {bytes : Bytes} {record : Record}
    (hreads : Reads (readUnknown budget key) bytes record) : key.wire ≠ .endGroup := by
  obtain hflat | ⟨less, -, hgroup⟩ := reads_readUnknown_iff.1 hreads
  · cases hflat <;> simp
  · cases hgroup
    simp

/-- Raw fields are the fields of a group that takes as many levels as they nest. -/
theorem HoldsRaw.steps_groupStep {body : Bytes} {raws : List Record} (hraws : HoldsRaw body raws)
    {enough : Nat} (hdepth : depthOf raws ≤ enough) :
    Steps (groupStep fun inner => ([·]) <$> readUnknown enough inner) body raws := by
  rw [depthOf_le_iff] at hdepth
  refine HoldsRaw.rec_on
    (motive := fun body raws => (∀ raw ∈ raws, depthOfRecord raw ≤ enough) →
      Steps (groupStep fun inner => ([·]) <$> readUnknown enough inner) body raws)
    hraws (fun _ => .nil) ?_ hdepth
  rintro _ back raw raws ⟨key, left, right, rfl, hkey, hraw⟩ _ ih hdepth
  rw [List.forall_mem_cons] at hdepth
  have hread : Reads (groupStep fun inner => ([·]) <$> readUnknown enough inner) (left ++ right)
      [raw] :=
    (reads_groupStep_iff (local_readUnknown enough)).2 ⟨key, left, right, raw, rfl, hkey,
      wire_ne_endGroup_of_readUnknown hraw, reads_readUnknown_of_depth hraw hdepth.1, rfl⟩
  exact .cons hread (ih hdepth.2)

/-- Raw fields, closed by an end key, are read as a group. -/
theorem HoldsRaw.reads_group {body close : Bytes} {raws : List Record} (hraws : HoldsRaw body raws)
    {key : Key} (hwire : key.wire = .startGroup) {budget : Nat} (hdepth : depthOf raws < budget)
    (hclose : Reads Key.read close ⟨key.number, .endGroup⟩) :
    Reads (readUnknown budget key) (body ++ close) (.group key.number raws) := by
  obtain ⟨number, wire⟩ := key
  obtain rfl : wire = .startGroup := hwire
  obtain ⟨less, rfl⟩ : ∃ less, budget = less + 1 := ⟨budget - 1, by omega⟩
  exact reads_readUnknown_iff.2
    (Or.inr ⟨less, rfl, .group (hraws.steps_groupStep (Nat.le_of_lt_succ hdepth)) hclose⟩)

/-- What is written for a group is read as a group of raw fields. -/
theorem HoldsRaw.readsRaw_group {records raws : List Record}
    (hraws : HoldsRaw (encode records) raws)
    {number : Nat} (hnumber : IsFieldNumber number) (hdepth : depthOf raws < nestingLimit) :
    ReadsRaw (encodeRecord (.group number records)) (.group number raws) := by
  refine ⟨⟨number, .startGroup⟩, _, _, ?_, Key.reads_encode hnumber,
    hraws.reads_group rfl hdepth (Key.reads_encode hnumber)⟩
  rw [encodeRecord, List.append_assoc]

namespace Schema

variable {τ : Type} {schema : Schema τ}

/-- Messages of the first type hold groups of the second. -/
def HoldsGroups (schema : Schema τ) (outer inner : τ) : Prop :=
  ∃ number spec, schema.field? outer number = some spec ∧ spec.kind = .group inner

/-- No field of the type is a map, and none is in a group within it. -/
def HasNoMaps (schema : Schema τ) (owner : τ) : Prop :=
  ∀ type, Relation.ReflTransGen schema.HoldsGroups owner type → ∀ number spec,
    schema.field? type number = some spec → schema.entry? spec = none

theorem HasNoMaps.entry?_eq_none {owner : τ} (hmaps : schema.HasNoMaps owner) {number : Nat}
    {spec : FieldSpec τ} (hfield : schema.field? owner number = some spec) :
    schema.entry? spec = none :=
  hmaps owner .refl number spec hfield

theorem HasNoMaps.of_group {owner type : τ} (hmaps : schema.HasNoMaps owner) {number : Nat}
    {spec : FieldSpec τ} (hfield : schema.field? owner number = some spec)
    (hkind : spec.kind = .group type) : schema.HasNoMaps type :=
  fun inner hwithin => hmaps inner (.head ⟨number, spec, hfield, hkind⟩ hwithin)

theorem IsFlat.hasNoMaps {owner : τ} (hflat : schema.IsFlat owner) : schema.HasNoMaps owner := by
  intro type hwithin number spec hfield
  obtain rfl | ⟨_, ⟨number', spec', hfield', hkind⟩, -⟩ := hwithin.cases_head
  · exact (hflat number spec hfield).1
  · exact absurd hkind ((hflat number' spec' hfield').2 _)

/-- An unknown field that passes takes a level for each group in it. -/
theorem Passes.depthOfRecord_le {budget : Nat} {bytes : Bytes} {raw : Record}
    (hpasses : schema.Passes budget raw) (hraw : ReadsRaw bytes raw) :
    depthOfRecord raw ≤ budget := by
  unfold Passes at hpasses
  split_ifs at hpasses
  · obtain ⟨key, left, right, -, -, hreads⟩ := hraw
    have hskips := reads_skipField_of_depth hreads hpasses
    exact depthOfRecord_le_of_readUnknown (reads_readUnknown_of_skipField hskips).1
  · exact hpasses

/-- What a raw record is found to be in a message of type `owner`: what it stands
for, or a group with what its own raw records are found to be. -/
inductive Finds (schema : Schema τ) : Nat → τ → Record → Record → Prop where
  | direct {budget : Nat} {owner : τ} {raw record : Record} :
      schema.Interprets budget owner raw record → schema.Finds budget owner raw record
  | group {budget number : Nat} {owner type : τ} {spec : FieldSpec τ} {body : Bytes}
      {raws records : List Record} :
      schema.field? owner number = some spec → spec.kind = .group type → HoldsRaw body raws →
        depthOf raws ≤ budget → schema.Holds budget type body records →
        schema.Finds (budget + 1) owner (.group number raws) (.group number records)

theorem Finds.depthOfRecord_le {budget : Nat} {owner : τ} {bytes : Bytes} {raw record : Record}
    (hfinds : schema.Finds budget owner raw record) (hraw : ReadsRaw bytes raw) :
    depthOfRecord raw ≤ budget := by
  cases hfinds with
  | direct hinterprets =>
      cases hinterprets with
      | unknown _ hpasses => exact hpasses.depthOfRecord_le hraw
      | known _ _ hmeans =>
          obtain ⟨key, left, right, -, -, hreads⟩ := hraw
          simp [(hmeans.flatValue hreads).depthOfRecord_eq]
  | group _ _ _ hdepth _ => rwa [depthOfRecord, Nat.add_le_add_iff_right]

theorem holds_of_steps_groupStep {budget : Nat} {type : τ} {body : Bytes} {records : List Record}
    (hsteps : Steps (groupStep (schema.readValue budget type)) body records) :
    schema.Holds budget type body records := by
  induction hsteps with
  | nil => exact Steps.nil
  | cons hreads _ ih =>
      obtain ⟨key, left, right, rfl, hkey, hitems⟩ := hreads.of_bind Key.local_read
        fun key => (local_fail _).ite (schema.local_readValue budget type key)
      by_cases hend : key.wire = .endGroup
      · rw [if_pos hend] at hitems
        have hfail := hitems []
        simp [fail] at hfail
      · rw [if_neg hend] at hitems
        exact Steps.cons (hkey.bind hitems) ih

/-- A group that is read holds a message of its type. -/
theorem exists_body_of_group {owner type : τ} {budget : Nat} {key : Key} {bytes : Bytes}
    {items : List Record} {spec : FieldSpec τ}
    (hfield : schema.field? owner key.number = some spec) (hentry : schema.entry? spec = none)
    (hkind : spec.kind = .group type)
    (hreads : Reads (schema.readValue budget owner key) bytes items) :
    ∃ less body close records, budget = less + 1 ∧ key.wire = .startGroup ∧ bytes = body ++ close ∧
      schema.Holds less type body records ∧ Reads Key.read close ⟨key.number, .endGroup⟩ ∧
      items = [.group key.number records] := by
  obtain ⟨-, hreads⟩ := reads_readField_of_known hfield hreads
  simp only [readField, hentry] at hreads
  change Reads (readKnown spec (schema.nestedAt budget) key) bytes items at hreads
  simp only [readKnown, hkind] at hreads
  rw [reads_expectWire_bind] at hreads
  obtain ⟨hwire, hreads⟩ := hreads
  cases budget with
  | zero =>
      have hfail := hreads []
      simp [nestedAt, fail] at hfail
  | succ less =>
      have hlocal := schema.local_readValue less type
      obtain ⟨records, hrecords, rfl⟩ :=
        (reads_bind_pure_iff (local_readGroup hlocal key.number)).1 hreads
      obtain ⟨body, close, rfl, hsteps, hclose⟩ := (reads_readGroup_iff hlocal).1 hrecords
      exact ⟨less, body, close, records, rfl, hwire, rfl, holds_of_steps_groupStep hsteps, hclose,
        rfl⟩

theorem depthOf_le_of_finds {budget : Nat} {owner : τ} {bytes : Bytes} {raws records : List Record}
    (hraws : HoldsRaw bytes raws) (hall : List.Forall₂ (schema.Finds budget owner) raws records) :
    depthOf raws ≤ budget := by
  refine depthOf_le_iff.2 fun raw hmem => ?_
  obtain ⟨front, hraw⟩ := hraws.forall_mem raw hmem
  obtain ⟨record, -, hfinds⟩ := forall₂_exists_of_mem hall hmem
  exact hfinds.depthOfRecord_le hraw

/-- A field of a message is found in its raw record if this is so for messages of
fewer levels. -/
theorem exists_finds_of_step {budget : Nat} (hbudget : budget ≤ nestingLimit) {owner : τ}
    (hmaps : schema.HasNoMaps owner)
    (hinner : ∀ less < budget, ∀ type, schema.HasNoMaps type → ∀ body records,
      schema.Holds less type body records →
      ∃ raws, HoldsRaw body raws ∧ List.Forall₂ (schema.Finds less type) raws records)
    {front : Bytes} {items : List Record} (hreads : Reads (schema.step budget owner) front items) :
    ∃ raw record, ReadsRaw front raw ∧ schema.Finds budget owner raw record ∧ items = [record] := by
  obtain ⟨key, left, right, rfl, hkey, hitems⟩ :=
    hreads.of_bind Key.local_read (schema.local_readValue budget owner)
  cases hfield : schema.field? owner key.number with
  | none =>
      obtain ⟨raw, hraw, hinterprets, rfl⟩ := exists_raw_of_unknown hbudget hfield hitems
      exact ⟨raw, raw, ⟨key, left, right, rfl, hkey, hraw⟩, .direct hinterprets, rfl⟩
  | some spec =>
      have hentry := hmaps.entry?_eq_none hfield
      by_cases hgroup : ∃ type, spec.kind = .group type
      · obtain ⟨type, hkind⟩ := hgroup
        obtain ⟨less, body, close, records, rfl, hwire, rfl, hbody, hclose, rfl⟩ :=
          exists_body_of_group hfield hentry hkind hitems
        obtain ⟨raws, hraws, hall⟩ := hinner less (Nat.lt_succ_self less) type
          (hmaps.of_group hfield hkind) body records hbody
        have hdepth := depthOf_le_of_finds hraws hall
        exact ⟨_, _, ⟨key, left, _, rfl, hkey, hraws.reads_group hwire (by omega) hclose⟩,
          .group hfield hkind hraws hdepth hbody, rfl⟩
      · have hflat : ∀ type, spec.kind ≠ .group type := fun type hkind => hgroup ⟨type, hkind⟩
        obtain ⟨raw, record, hraw, hinterprets, rfl⟩ :=
          exists_raw_of_known hfield hentry hflat hitems
        exact ⟨raw, record, ⟨key, left, right, rfl, hkey, hraw⟩, .direct hinterprets, rfl⟩

/-- What a message holds is found in its raw records. -/
theorem Holds.exists_finds {budget : Nat} (hbudget : budget ≤ nestingLimit) {owner : τ}
    (hmaps : schema.HasNoMaps owner) {bytes : Bytes} {records : List Record}
    (hholds : schema.Holds budget owner bytes records) :
    ∃ raws, HoldsRaw bytes raws ∧ List.Forall₂ (schema.Finds budget owner) raws records := by
  induction budget using Nat.strongRecOn generalizing owner bytes records with
  | ind budget ihbudget =>
      unfold Holds at hholds
      induction hholds with
      | nil => exact ⟨[], Steps.nil, .nil⟩
      | cons hreads _ ih =>
          obtain ⟨raw, record, hraw, hfinds, rfl⟩ := exists_finds_of_step hbudget hmaps
            (fun less hless type htype _ _ hbody =>
              ihbudget less hless (by omega) htype hbody) hreads
          obtain ⟨raws, hraws, hall⟩ := ih
          exact ⟨raw :: raws, .cons hraw hraws, .cons hfinds hall⟩

/-- The schema that knows no fields. -/
def blank (skips : Bool) : Schema τ where
  field? _ _ := none
  place? _ _ := none
  skipsUnknown := skips

theorem isFlat_blank (skips : Bool) (owner : τ) : (blank skips).IsFlat owner := by
  simp [IsFlat, blank]

/-- Without a schema a message is its raw records. -/
theorem holds_blank_iff {skips : Bool} {budget : Nat} (hbudget : budget ≤ nestingLimit) {owner : τ}
    {bytes : Bytes} {records : List Record} :
    (blank skips).Holds budget owner bytes records ↔
      HoldsRaw bytes records ∧
        ∀ record ∈ records, (blank skips : Schema τ).Passes budget record := by
  rw [holds_iff (isFlat_blank skips owner) hbudget]
  constructor
  · rintro ⟨raws, hraws, hall⟩
    have hinterprets : List.Forall₂ (fun raw record =>
        raw = record ∧ (blank skips : Schema τ).Passes budget raw) raws records := by
      refine hall.imp fun raw record hinterprets => ?_
      cases hinterprets with
      | unknown _ hpasses => exact ⟨rfl, hpasses⟩
      | known hfield _ _ => simp [blank] at hfield
    obtain rfl : raws = records := List.forall₂_eq_eq_eq ▸ hinterprets.imp fun _ _ => And.left
    refine ⟨hraws, fun raw hmem => ?_⟩
    obtain ⟨_, -, -, hpasses⟩ := forall₂_exists_of_mem hinterprets hmem
    exact hpasses
  · rintro ⟨hraws, hpasses⟩
    exact ⟨records, hraws, List.forall₂_same.2 fun raw hmem => .unknown rfl (hpasses raw hmem)⟩

theorem depthOf_le_of_holds_blank {skips : Bool} {budget : Nat} (hbudget : budget ≤ nestingLimit)
    {owner : τ} {bytes : Bytes} {records : List Record}
    (hholds : (blank skips).Holds budget owner bytes records) : depthOf records ≤ budget := by
  obtain ⟨hraws, hpasses⟩ := (holds_blank_iff hbudget).1 hholds
  refine depthOf_le_iff.2 fun record hmem => ?_
  obtain ⟨front, hraw⟩ := hraws.forall_mem record hmem
  exact (hpasses record hmem).depthOfRecord_le hraw

/-- A group passes if its fields do with one level less. -/
theorem passes_group_iff {σ : Type} {budget number : Nat} {raws : List Record} :
    schema.Passes budget (.group number raws) ↔
      ∃ less, budget = less + 1 ∧
        ∀ raw ∈ raws, (blank schema.skipsUnknown : Schema σ).Passes less raw := by
  have hpasses (less : Nat) :
      (∀ raw ∈ raws, (blank schema.skipsUnknown : Schema σ).Passes less raw) ↔
      if schema.skipsUnknown then passDepthOf raws ≤ less else depthOf raws ≤ less := by
    unfold Passes blank
    split_ifs
    · exact passDepthOf_le_iff.symm
    · exact depthOf_le_iff.symm
  simp only [hpasses]
  cases budget with
  | zero => simp [Passes, passDepthOfRecord, depthOfRecord]
  | succ less => simp [Passes, passDepthOfRecord, depthOfRecord]

end Schema

end ProtoSource.Wire
