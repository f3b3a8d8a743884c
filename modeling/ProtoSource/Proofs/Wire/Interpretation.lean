import Mathlib.Data.List.Forall2
import ProtoSource.Proofs.Wire.Raw

/-!
# Raw records under a schema

Reading a message under a schema is reading it raw and interpreting each raw
record by itself.  This holds at the types whose fields are neither groups nor
maps: only there does a schema cut the bytes of a message as the wire types say.
-/

namespace ProtoSource.Wire

open Reader

namespace Schema

variable {τ : Type}

/-- No field of the type is a map or a group. -/
def IsFlat (schema : Schema τ) (owner : τ) : Prop :=
  ∀ number spec, schema.field? owner number = some spec →
    schema.entry? spec = none ∧ ∀ type, spec.kind ≠ .group type

/-- An unknown raw record does not nest too deeply to be read under `budget`. -/
def Passes (schema : Schema τ) (budget : Nat) (record : Record) : Prop :=
  if schema.skipsUnknown then passDepthOfRecord record ≤ budget
  else depthOfRecord record ≤ budget

/-- What the raw record of a known field stands for. -/
inductive Means (schema : Schema τ) (spec : FieldSpec τ) : Nat → Record → Record → Prop where
  | scalar {budget : Nat} {scalar : Scalar} {number value : Nat} :
      spec.kind = .scalar scalar →
        schema.Means spec budget (scalar.wireRecord number value) (scalar.wireRecord number value)
  | packed {budget : Nat} {scalar : Scalar} {number : Nat} {payload : Bytes} {values : List Nat} :
      spec.kind = .scalar scalar → spec.repeated →
        Steps (([·]) <$> readNumber scalar) payload values →
        schema.Means spec budget (.bytes number payload) (.packed number payload values)
  | text {budget number : Nat} {payload : Bytes} {value : String} :
      spec.kind = .text → ofUtf8? payload = some value →
        schema.Means spec budget (.bytes number payload) (.text number value)
  | bytes {budget number : Nat} {payload : Bytes} :
      spec.kind = .bytes → schema.Means spec budget (.bytes number payload) (.bytes number payload)
  | message {budget number : Nat} {type : τ} {payload : Bytes} {records : List Record} :
      spec.kind = .message type → schema.Holds budget type payload records →
        schema.Means spec (budget + 1) (.bytes number payload) (.message number payload records)

/-- What a raw record stands for in a message of type `owner`. -/
inductive Interprets (schema : Schema τ) (budget : Nat) (owner : τ) : Record → Record → Prop where
  | unknown {record : Record} :
      schema.field? owner record.number = none → schema.Passes budget record →
        schema.Interprets budget owner record record
  | known {raw record : Record} {spec : FieldSpec τ} :
      schema.field? owner raw.number = some spec → ¬ (budget = 0 ∧ schema.skipsFirst owner) →
        schema.Means spec budget raw record → schema.Interprets budget owner raw record

end Schema

/-! ## Values of known fields -/

section Values

theorem number_wireRecord (scalar : Scalar) (number value : Nat) :
    (scalar.wireRecord number value).number = number := by
  unfold Scalar.wireRecord
  split <;> rfl

theorem Scalar.wire_ne_delimited (scalar : Scalar) : scalar.wire ≠ .delimited := by
  cases scalar <;> simp [Scalar.wire]

/-- A number stands on the wire as its scalar type says. -/
theorem flatValue_wireRecord_iff {scalar : Scalar} {key : Key} {bytes : Bytes} {value : Nat} :
    key.wire = scalar.wire ∧ Reads (readNumber scalar) bytes value ↔
      FlatValue key bytes (scalar.wireRecord key.number value) := by
  obtain ⟨number, wire⟩ := key
  have hwire : scalar.wire = .varint ∨ scalar.wire = .fixed64 ∨ scalar.wire = .fixed32 := by
    cases scalar <;> simp [Scalar.wire]
  unfold readNumber Scalar.wireRecord
  constructor
  · rintro ⟨rfl, hreads⟩
    obtain hwire | hwire | hwire := hwire
    · simp only [hwire] at hreads ⊢
      exact .varint hreads
    · simp only [hwire] at hreads ⊢
      exact .fixed64 hreads
    · simp only [hwire] at hreads ⊢
      exact .fixed32 hreads
  · intro hflat
    obtain hwire | hwire | hwire := hwire
    · simp only [hwire] at hflat ⊢
      cases hflat with
      | varint hreads => exact ⟨rfl, hreads⟩
    · simp only [hwire] at hflat ⊢
      cases hflat with
      | fixed64 hreads => exact ⟨rfl, hreads⟩
    · simp only [hwire] at hflat ⊢
      cases hflat with
      | fixed32 hreads => exact ⟨rfl, hreads⟩

theorem flatValue_bytes_iff {key : Key} {bytes payload : Bytes} :
    key.wire = .delimited ∧ Reads readDelimited bytes payload ↔
      FlatValue key bytes (.bytes key.number payload) := by
  obtain ⟨number, wire⟩ := key
  constructor
  · rintro ⟨rfl, hpayload⟩
    exact .bytes hpayload
  · intro hflat
    cases hflat with
    | bytes hpayload => exact ⟨rfl, hpayload⟩

theorem reads_bind_pure_iff {α β : Type} {reader : Reader α} (hlocal : Local reader) {f : α → β}
    {bytes : Bytes} {value : β} :
    Reads (do let first ← reader; return f first) bytes value ↔
      ∃ first, Reads reader bytes first ∧ value = f first := by
  constructor
  · intro hreads
    obtain ⟨first, left, right, rfl, hfirst, hvalue⟩ :=
      hreads.of_bind hlocal fun _ => local_pure _
    obtain ⟨rfl, hright⟩ := pure_eq_ok.1 (hvalue [])
    obtain rfl : right = [] := by simpa using congrArg Input.bytes hright
    exact ⟨first, by simpa using hfirst, rfl⟩
  · rintro ⟨first, hfirst, rfl⟩
    rw [← List.append_nil bytes]
    exact hfirst.bind (reads_pure (f first))

theorem reads_readText_iff {number : Nat} {bytes : Bytes} {record : Record} :
    Reads (readText number) bytes record ↔
      ∃ payload value, Reads readDelimited bytes payload ∧ ofUtf8? payload = some value ∧
        record = .text number value := by
  unfold readText
  constructor
  · intro hreads
    obtain ⟨payload, left, right, rfl, hpayload, hvalue⟩ :=
      hreads.of_bind local_readDelimited fun payload => by
        split
        · exact local_pure _
        · exact local_fail _
    cases htext : ofUtf8? payload with
    | none =>
        have hfail := hvalue []
        simp [htext, fail] at hfail
    | some text =>
        simp only [htext] at hvalue
        obtain ⟨rfl, hright⟩ := pure_eq_ok.1 (hvalue [])
        obtain rfl : right = [] := by simpa using congrArg Input.bytes hright
        exact ⟨payload, text, by simpa using hpayload, htext, rfl⟩
  · rintro ⟨payload, text, hpayload, htext, rfl⟩
    rw [← List.append_nil bytes]
    refine hpayload.bind ?_
    simp only [htext]
    exact reads_pure _

end Values

namespace Schema

variable {τ : Type} {schema : Schema τ}

/-- The reader of nested messages under `budget`. -/
def nestedAt (schema : Schema τ) : Nat → Option (τ → Key → Reader (List Record))
  | 0 => none
  | budget + 1 => some (schema.readValue budget)

theorem readValue_eq (budget : Nat) (owner : τ) :
    schema.readValue budget owner = schema.readWith budget (schema.nestedAt budget) owner := by
  cases budget <;> rfl

section Known

variable {spec : FieldSpec τ} {nested : Option (τ → Key → Reader (List Record))} {key : Key}
  {bytes : Bytes} {items : List Record}

theorem reads_readKnown_scalar_iff {scalar : Scalar} (hkind : spec.kind = .scalar scalar) :
    Reads (readKnown spec nested key) bytes items ↔
      (∃ value, FlatValue key bytes (scalar.wireRecord key.number value) ∧
        items = [scalar.wireRecord key.number value]) ∨
      ∃ payload values, spec.repeated ∧ FlatValue key bytes (.bytes key.number payload) ∧
        Steps (([·]) <$> readNumber scalar) payload values ∧
        items = [.packed key.number payload values] := by
  unfold readKnown
  simp only [hkind]
  split
  · next hpacked =>
      obtain ⟨hrepeated, hwire⟩ := hpacked
      rw [reads_bind_pure_iff (local_readPacked scalar key.number), readPacked_eq_sized]
      simp only [reads_sized_iff ((local_readNumber scalar).map _)
        ((hungry_readNumber scalar).map _)]
      constructor
      · rintro ⟨_, ⟨payload, values, hpayload, hvalues, rfl⟩, rfl⟩
        exact Or.inr ⟨payload, values, hrepeated, flatValue_bytes_iff.1 ⟨hwire, hpayload⟩,
          hvalues, rfl⟩
      · rintro (⟨value, hflat, -⟩ | ⟨payload, values, -, hflat, hvalues, rfl⟩)
        · have hscalar := (flatValue_wireRecord_iff.2 hflat).1
          exact absurd (hscalar.symm.trans hwire) scalar.wire_ne_delimited
        · exact ⟨_, ⟨payload, values, (flatValue_bytes_iff.2 hflat).2, hvalues, rfl⟩, rfl⟩
  · next hpacked =>
      have hlocal : Local (readScalar scalar key.number) := (local_readNumber scalar).map _
      rw [reads_expectWire_bind, reads_bind_pure_iff hlocal]
      constructor
      · rintro ⟨hwire, _, hrecord, rfl⟩
        obtain ⟨value, hvalue, rfl⟩ := hrecord.of_map (local_readNumber scalar)
        exact Or.inl ⟨value, flatValue_wireRecord_iff.1 ⟨hwire, hvalue⟩, rfl⟩
      · rintro (⟨value, hflat, rfl⟩ | ⟨payload, values, hrepeated, hflat, -⟩)
        · obtain ⟨hwire, hvalue⟩ := flatValue_wireRecord_iff.2 hflat
          exact ⟨hwire, _, hvalue.map _, rfl⟩
        · exact absurd ⟨hrepeated, (flatValue_bytes_iff.2 hflat).1⟩ hpacked

theorem reads_readKnown_text_iff (hkind : spec.kind = .text) :
    Reads (readKnown spec nested key) bytes items ↔
      ∃ payload value, FlatValue key bytes (.bytes key.number payload) ∧
        ofUtf8? payload = some value ∧ items = [.text key.number value] := by
  unfold readKnown
  simp only [hkind]
  rw [reads_expectWire_bind, reads_bind_pure_iff (local_readText _)]
  simp only [reads_readText_iff]
  constructor
  · rintro ⟨hwire, _, ⟨payload, value, hpayload, htext, rfl⟩, rfl⟩
    exact ⟨payload, value, flatValue_bytes_iff.1 ⟨hwire, hpayload⟩, htext, rfl⟩
  · rintro ⟨payload, value, hflat, htext, rfl⟩
    obtain ⟨hwire, hpayload⟩ := flatValue_bytes_iff.2 hflat
    exact ⟨hwire, _, ⟨payload, value, hpayload, htext, rfl⟩, rfl⟩

theorem reads_readKnown_bytes_iff (hkind : spec.kind = .bytes) :
    Reads (readKnown spec nested key) bytes items ↔
      ∃ payload, FlatValue key bytes (.bytes key.number payload) ∧
        items = [.bytes key.number payload] := by
  unfold readKnown
  simp only [hkind]
  rw [reads_expectWire_bind, reads_bind_pure_iff local_readDelimited]
  constructor
  · rintro ⟨hwire, payload, hpayload, rfl⟩
    exact ⟨payload, flatValue_bytes_iff.1 ⟨hwire, hpayload⟩, rfl⟩
  · rintro ⟨payload, hflat, rfl⟩
    obtain ⟨hwire, hpayload⟩ := flatValue_bytes_iff.2 hflat
    exact ⟨hwire, payload, hpayload, rfl⟩

theorem reads_readKnown_message_iff {type : τ} (hkind : spec.kind = .message type)
    {budget : Nat} :
    Reads (readKnown spec (schema.nestedAt budget) key) bytes items ↔
      ∃ less payload records, budget = less + 1 ∧
        FlatValue key bytes (.bytes key.number payload) ∧ schema.Holds less type payload records ∧
        items = [.message key.number payload records] := by
  unfold readKnown
  simp only [hkind]
  rw [reads_expectWire_bind]
  cases budget with
  | zero =>
      refine iff_of_false ?_ (by simp)
      rintro ⟨-, hreads⟩
      have hfail := hreads []
      simp [nestedAt, fail] at hfail
  | succ budget =>
      have hlocal := schema.local_readValue budget type
      simp only [nestedAt]
      rw [reads_bind_pure_iff (local_readMessage hlocal _), readMessage_eq_sized]
      simp only [reads_sized_iff (local_fieldStep hlocal) hungry_fieldStep]
      constructor
      · rintro ⟨hwire, _, ⟨payload, records, hpayload, hrecords, rfl⟩, rfl⟩
        exact ⟨budget, payload, records, rfl, flatValue_bytes_iff.1 ⟨hwire, hpayload⟩,
          hrecords, rfl⟩
      · rintro ⟨less, payload, records, hless, hflat, hrecords, rfl⟩
        obtain rfl := Nat.succ.inj hless
        obtain ⟨hwire, hpayload⟩ := flatValue_bytes_iff.2 hflat
        exact ⟨hwire, _, ⟨payload, records, hpayload, hrecords, rfl⟩, rfl⟩

/-- A known field is read by finding its raw record and what that stands for. -/
theorem reads_readKnown_iff (hspec : ∀ type, spec.kind ≠ .group type) {budget : Nat} :
    Reads (readKnown spec (schema.nestedAt budget) key) bytes items ↔
      ∃ raw record, FlatValue key bytes raw ∧ schema.Means spec budget raw record ∧
        items = [record] := by
  constructor
  · intro hreads
    cases hkind : spec.kind with
    | scalar scalar =>
        obtain ⟨value, hflat, rfl⟩ | ⟨payload, values, hrepeated, hflat, hvalues, rfl⟩ :=
          (reads_readKnown_scalar_iff hkind).1 hreads
        · exact ⟨_, _, hflat, .scalar hkind, rfl⟩
        · exact ⟨_, _, hflat, .packed hkind hrepeated hvalues, rfl⟩
    | text =>
        obtain ⟨payload, value, hflat, htext, rfl⟩ := (reads_readKnown_text_iff hkind).1 hreads
        exact ⟨_, _, hflat, .text hkind htext, rfl⟩
    | bytes =>
        obtain ⟨payload, hflat, rfl⟩ := (reads_readKnown_bytes_iff hkind).1 hreads
        exact ⟨_, _, hflat, .bytes hkind, rfl⟩
    | message type =>
        obtain ⟨less, payload, records, rfl, hflat, hrecords, rfl⟩ :=
          (reads_readKnown_message_iff hkind).1 hreads
        exact ⟨_, _, hflat, .message hkind hrecords, rfl⟩
    | group type => exact absurd hkind (hspec type)
  · rintro ⟨raw, record, hflat, hmeans, rfl⟩
    have hnumber := hflat.number_eq
    cases hmeans with
    | @scalar _ scalar number value hkind =>
        obtain rfl : number = key.number := (number_wireRecord ..).symm.trans hnumber
        exact (reads_readKnown_scalar_iff hkind).2 (Or.inl ⟨value, hflat, rfl⟩)
    | packed hkind hrepeated hvalues =>
        obtain rfl := hnumber
        exact (reads_readKnown_scalar_iff hkind).2
          (Or.inr ⟨_, _, hrepeated, hflat, hvalues, rfl⟩)
    | text hkind htext =>
        obtain rfl := hnumber
        exact (reads_readKnown_text_iff hkind).2 ⟨_, _, hflat, htext, rfl⟩
    | bytes hkind =>
        obtain rfl := hnumber
        exact (reads_readKnown_bytes_iff hkind).2 ⟨_, hflat, rfl⟩
    | message hkind hrecords =>
        obtain rfl := hnumber
        exact (reads_readKnown_message_iff hkind).2 ⟨_, _, _, rfl, hflat, hrecords, rfl⟩

end Known

theorem reads_within_iff {α : Type} {place : Option String} {reader : Reader α} {bytes : Bytes}
    {value : α} : Reads (within place reader) bytes value ↔ Reads reader bytes value := by
  refine forall_congr' fun rest => ?_
  unfold within
  cases reader (.ofBytes (bytes ++ rest)) <;> simp

theorem Means.ne_group {spec : FieldSpec τ} {budget : Nat} {raw record : Record}
    (hmeans : schema.Means spec budget raw record) (number : Nat) (raws : List Record) :
    raw ≠ .group number raws := by
  cases hmeans with
  | @scalar _ scalar _ _ _ => cases scalar <;> simp [Scalar.wireRecord, Scalar.wire]
  | packed _ _ _ => simp
  | text _ _ => simp
  | bytes _ => simp
  | message _ _ => simp

theorem Means.flatValue {spec : FieldSpec τ} {budget enough : Nat} {raw record : Record}
    {key : Key} {bytes : Bytes} (hmeans : schema.Means spec budget raw record)
    (hreads : Reads (readUnknown enough key) bytes raw) : FlatValue key bytes raw := by
  obtain hflat | ⟨less, -, hgroup⟩ := reads_readUnknown_iff.1 hreads
  · exact hflat
  · cases hgroup with
    | group _ _ => exact absurd rfl (hmeans.ne_group _ _)

theorem reads_readField_iff {spec : FieldSpec τ} (hentry : schema.entry? spec = none)
    (hgroup : ∀ type, spec.kind ≠ .group type) {budget : Nat} {key : Key} {bytes : Bytes}
    {items : List Record} :
    Reads (do
        let depth ← remaining
        schema.readField (schema.nestedAt budget)
          (schema.readPart budget (schema.nestedAt budget) depth) spec key) bytes items ↔
      ∃ raw record, FlatValue key bytes raw ∧ schema.Means spec budget raw record ∧
        items = [record] := by
  simp only [Schema.readField, hentry]
  exact reads_readKnown_iff hgroup

/-- A field whose raw record is interpreted is read so. -/
theorem reads_readValue {owner : τ} (howner : schema.IsFlat owner) {budget enough : Nat} {key : Key}
    {bytes : Bytes} {raw record : Record} (hraw : Reads (readUnknown enough key) bytes raw)
    (hinterprets : schema.Interprets budget owner raw record) :
    Reads (schema.readValue budget owner key) bytes [record] := by
  have hsame := number_eq_of_readUnknown hraw
  rw [readValue_eq]
  unfold readWith
  cases hinterprets with
  | unknown hfield hpasses =>
      rw [hsame] at hfield
      simp only [hfield]
      refine Reads.map ?_ _
      unfold Passes at hpasses
      split
      · next hskips =>
          rw [if_pos hskips] at hpasses
          exact reads_skipField_of_depth hraw hpasses
      · next hreadsLike =>
          rw [if_neg hreadsLike] at hpasses
          exact reads_readUnknown_of_depth hraw hpasses
  | known hfield hnotFirst hmeans =>
      rw [hsame] at hfield
      simp only [hfield, reads_within_iff, if_neg hnotFirst]
      obtain ⟨hentry, hgroup⟩ := howner _ _ hfield
      exact (reads_readField_iff hentry hgroup).2
        ⟨raw, record, hmeans.flatValue hraw, hmeans, rfl⟩

section Fields

variable {owner : τ} {budget enough : Nat} {key : Key} {bytes : Bytes} {items : List Record}

theorem exists_raw_of_unknown (henough : budget ≤ enough)
    (hfield : schema.field? owner key.number = none)
    (hreads : Reads (schema.readValue budget owner key) bytes items) :
    ∃ raw, Reads (readUnknown enough key) bytes raw ∧ schema.Interprets budget owner raw raw ∧
      items = [raw] := by
  rw [readValue_eq] at hreads
  unfold readWith at hreads
  simp only [hfield] at hreads
  obtain ⟨raw, hraw, rfl⟩ := hreads.of_map ((local_skipField _ _).ite (local_readUnknown _ _))
  have hpasses : schema.Passes budget raw ∧ Reads (readUnknown budget key) bytes raw := by
    unfold Passes
    split at hraw
    · next hskips =>
        obtain ⟨hunknown, hdepth⟩ := reads_readUnknown_of_skipField hraw
        rw [if_pos hskips]
        exact ⟨hdepth, hunknown⟩
    · next hreadsLike =>
        rw [if_neg hreadsLike]
        exact ⟨depthOfRecord_le_of_readUnknown hraw, hraw⟩
  obtain ⟨hpasses, hunknown⟩ := hpasses
  have hdepth := depthOfRecord_le_of_readUnknown hunknown
  have hraw := reads_readUnknown_of_depth hunknown (Nat.le_trans hdepth henough)
  refine ⟨raw, hraw, .unknown ?_ hpasses, rfl⟩
  rw [number_eq_of_readUnknown hraw, hfield]

variable {spec : FieldSpec τ} (hfield : schema.field? owner key.number = some spec)

include hfield

theorem reads_readField_of_known (hreads : Reads (schema.readValue budget owner key) bytes items) :
    ¬ (budget = 0 ∧ schema.skipsFirst owner) ∧
      Reads (do
        let depth ← remaining
        schema.readField (schema.nestedAt budget)
          (schema.readPart budget (schema.nestedAt budget) depth) spec key) bytes items := by
  rw [readValue_eq] at hreads
  unfold readWith at hreads
  simp only [hfield, reads_within_iff] at hreads
  by_cases hfirst : budget = 0 ∧ schema.skipsFirst owner
  · rw [if_pos hfirst] at hreads
    have hfail := hreads []
    simp [fail] at hfail
  · rw [if_neg hfirst] at hreads
    exact ⟨hfirst, hreads⟩

theorem exists_raw_of_known (hentry : schema.entry? spec = none)
    (hgroup : ∀ type, spec.kind ≠ .group type)
    (hreads : Reads (schema.readValue budget owner key) bytes items) :
    ∃ raw record, Reads (readUnknown enough key) bytes raw ∧
      schema.Interprets budget owner raw record ∧ items = [record] := by
  obtain ⟨hfirst, hreads⟩ := reads_readField_of_known hfield hreads
  obtain ⟨raw, record, hflat, hmeans, rfl⟩ := (reads_readField_iff hentry hgroup).1 hreads
  have hraw : Reads (readUnknown enough key) bytes raw := reads_readUnknown_iff.2 (Or.inl hflat)
  refine ⟨raw, record, hraw, .known ?_ hfirst hmeans, rfl⟩
  rw [hflat.number_eq, hfield]

end Fields

/-- A field is read by finding its raw record and interpreting it. -/
theorem reads_readValue_iff {owner : τ} (howner : schema.IsFlat owner) {budget enough : Nat}
    (henough : budget ≤ enough) {key : Key} {bytes : Bytes} {items : List Record} :
    Reads (schema.readValue budget owner key) bytes items ↔
      ∃ raw record, Reads (readUnknown enough key) bytes raw ∧
        schema.Interprets budget owner raw record ∧ items = [record] := by
  constructor
  · intro hreads
    cases hfield : schema.field? owner key.number with
    | none =>
        obtain ⟨raw, hraw⟩ := exists_raw_of_unknown henough hfield hreads
        exact ⟨raw, raw, hraw⟩
    | some spec =>
        obtain ⟨hentry, hgroup⟩ := howner _ _ hfield
        exact exists_raw_of_known hfield hentry hgroup hreads
  · rintro ⟨raw, record, hraw, hinterprets, rfl⟩
    exact reads_readValue howner hraw hinterprets

theorem reads_step {owner : τ} (howner : schema.IsFlat owner) {budget : Nat} {bytes : Bytes}
    {raw record : Record} (hraw : ReadsRaw bytes raw)
    (hinterprets : schema.Interprets budget owner raw record) :
    Reads (schema.step budget owner) bytes [record] := by
  obtain ⟨key, left, right, rfl, hkey, hraw⟩ := hraw
  exact hkey.bind (reads_readValue howner hraw hinterprets)

theorem reads_step_iff {owner : τ} (howner : schema.IsFlat owner) {budget : Nat}
    (hbudget : budget ≤ nestingLimit) {bytes : Bytes} {items : List Record} :
    Reads (schema.step budget owner) bytes items ↔
      ∃ raw record, ReadsRaw bytes raw ∧ schema.Interprets budget owner raw record ∧
        items = [record] := by
  constructor
  · intro hreads
    obtain ⟨key, left, right, rfl, hkey, hitems⟩ :=
      hreads.of_bind Key.local_read (schema.local_readValue budget owner)
    obtain ⟨raw, record, hraw, hinterprets, rfl⟩ :=
      (reads_readValue_iff howner hbudget).1 hitems
    exact ⟨raw, record, ⟨key, left, right, rfl, hkey, hraw⟩, hinterprets, rfl⟩
  · rintro ⟨raw, record, hraw, hinterprets, rfl⟩
    exact reads_step howner hraw hinterprets

/-- A message whose raw records are interpreted holds what they stand for. -/
theorem holds_of_interprets {owner : τ} (howner : schema.IsFlat owner) {budget : Nat}
    {bytes : Bytes} {raws records : List Record} (hraws : HoldsRaw bytes raws)
    (hall : List.Forall₂ (schema.Interprets budget owner) raws records) :
    schema.Holds budget owner bytes records := by
  refine HoldsRaw.rec_on
    (motive := fun bytes raws => ∀ records,
      List.Forall₂ (schema.Interprets budget owner) raws records →
        schema.Holds budget owner bytes records) hraws ?_ ?_ records hall
  · intro records hall
    cases hall
    exact Steps.nil
  · intro front back raw raws hraw _ ih records hall
    cases hall with
    | cons hinterprets hrest => exact Steps.cons (reads_step howner hraw hinterprets) (ih _ hrest)

/-- A message holds what its raw records stand for. -/
theorem holds_iff {owner : τ} (howner : schema.IsFlat owner) {budget : Nat}
    (hbudget : budget ≤ nestingLimit) {bytes : Bytes} {records : List Record} :
    schema.Holds budget owner bytes records ↔
      ∃ raws, HoldsRaw bytes raws ∧ List.Forall₂ (schema.Interprets budget owner) raws records := by
  constructor
  · intro hholds
    unfold Holds at hholds
    induction hholds with
    | nil => exact ⟨[], Steps.nil, .nil⟩
    | cons hreads _ ih =>
        obtain ⟨raw, record, hraw, hinterprets, rfl⟩ := (reads_step_iff howner hbudget).1 hreads
        obtain ⟨raws, hraws, hall⟩ := ih
        exact ⟨raw :: raws, .cons hraw hraws, .cons hinterprets hall⟩
  · rintro ⟨raws, hraws, hall⟩
    exact holds_of_interprets howner hraws hall

/-- What is read under a budget is read under a larger one. -/
theorem Holds.mono (hflat : ∀ owner, schema.IsFlat owner) {budget larger : Nat}
    (hbudget : budget ≤ larger) (hlarger : larger ≤ nestingLimit) {owner : τ} {bytes : Bytes}
    {records : List Record} (hholds : schema.Holds budget owner bytes records) :
    schema.Holds larger owner bytes records := by
  induction budget using Nat.strongRecOn generalizing larger owner bytes records with
  | ind budget ih =>
      obtain ⟨raws, hraws, hall⟩ := (holds_iff (hflat owner) (by omega)).1 hholds
      refine (holds_iff (hflat owner) hlarger).2 ⟨raws, hraws,
        hall.imp fun raw record hinterprets => ?_⟩
      cases hinterprets with
      | unknown hfield hpasses =>
          refine .unknown hfield ?_
          unfold Passes at hpasses ⊢
          split_ifs at hpasses ⊢ <;> omega
      | known hfield hskips hmeans =>
          refine .known hfield (fun hzero => hskips ⟨by omega, hzero.2⟩) ?_
          cases hmeans with
          | scalar hkind => exact .scalar hkind
          | packed hkind hrepeated hvalues => exact .packed hkind hrepeated hvalues
          | text hkind htext => exact .text hkind htext
          | bytes hkind => exact .bytes hkind
          | @message less _ _ _ _ hkind hinner =>
              obtain ⟨more, rfl⟩ : ∃ more, larger = more + 1 := ⟨larger - 1, by omega⟩
              exact .message hkind (ih less (Nat.lt_succ_self _) (by omega) (by omega) hinner)

end Schema

end ProtoSource.Wire
