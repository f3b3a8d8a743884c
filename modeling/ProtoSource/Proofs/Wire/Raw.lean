import ProtoSource.Proofs.Wire.Fields
import ProtoSource.Wire.Canonical

/-!
# Raw records

Without a schema a message is read as raw records: numbers, byte strings and
groups.  This module says how the two ways of reading an unknown field relate to
the raw record: both find it, unless fields nest too deeply for them.  What was
read raw reads back from its shortest encoding.
-/

namespace ProtoSource.Wire

open Reader

/-- `bytes` hold a value of the wire type of `key`, no group, and with its
number it is `record`. -/
inductive FlatValue : Key → Bytes → Record → Prop where
  | varint {number : Nat} {bytes : Bytes} {value : Nat} :
      Reads Varint.read bytes value → FlatValue ⟨number, .varint⟩ bytes (.varint number value)
  | fixed64 {number : Nat} {bytes : Bytes} {value : Nat} :
      Reads (Fixed.read 8) bytes value →
        FlatValue ⟨number, .fixed64⟩ bytes (.fixed64 number value)
  | fixed32 {number : Nat} {bytes : Bytes} {value : Nat} :
      Reads (Fixed.read 4) bytes value →
        FlatValue ⟨number, .fixed32⟩ bytes (.fixed32 number value)
  | bytes {number : Nat} {bytes value : Bytes} :
      Reads readDelimited bytes value → FlatValue ⟨number, .delimited⟩ bytes (.bytes number value)

/-- `bytes` hold what follows the key of a group whose fields are read with
`value`. -/
inductive GroupValue (value : Key → Reader Record) : Key → Bytes → Record → Prop where
  | group {number : Nat} {body close : Bytes} {records : List Record} :
      Steps (groupStep fun inner => ([·]) <$> value inner) body records →
        Reads Key.read close ⟨number, .endGroup⟩ →
        GroupValue value ⟨number, .startGroup⟩ (body ++ close) (.group number records)

theorem reads_readByWire_iff {key : Key} {group : Reader Record} {bytes : Bytes}
    {record : Record} :
    Reads (readByWire key group) bytes record ↔
      FlatValue key bytes record ∨
        (key.wire = .startGroup ∨ key.wire = .endGroup) ∧ Reads group bytes record := by
  obtain ⟨number, wire⟩ := key
  constructor
  · intro hreads
    cases wire with
    | varint =>
        obtain ⟨value, hvalue, rfl⟩ := hreads.of_map Varint.local_read
        exact Or.inl (.varint hvalue)
    | fixed64 =>
        obtain ⟨value, hvalue, rfl⟩ := hreads.of_map (Fixed.local_read 8)
        exact Or.inl (.fixed64 hvalue)
    | fixed32 =>
        obtain ⟨value, hvalue, rfl⟩ := hreads.of_map (Fixed.local_read 4)
        exact Or.inl (.fixed32 hvalue)
    | delimited =>
        obtain ⟨value, hvalue, rfl⟩ := hreads.of_map local_readDelimited
        exact Or.inl (.bytes hvalue)
    | startGroup => exact Or.inr ⟨Or.inl rfl, hreads⟩
    | endGroup => exact Or.inr ⟨Or.inr rfl, hreads⟩
  · rintro (hflat | ⟨hwire, hreads⟩)
    · cases hflat with
      | varint hvalue => exact hvalue.map _
      | fixed64 hvalue => exact hvalue.map _
      | fixed32 hvalue => exact hvalue.map _
      | bytes hvalue => exact hvalue.map _
    · simp only at hwire
      obtain rfl | rfl := hwire
      · exact hreads
      · exact hreads

theorem reads_skipField_iff {budget : Nat} {key : Key} {bytes : Bytes} {record : Record} :
    Reads (skipField (budget + 1) key) bytes record ↔
      FlatValue key bytes record ∨ GroupValue (skipField budget) key bytes record := by
  obtain ⟨number, wire⟩ := key
  have hlocal (inner : Key) : Local (([·]) <$> skipField budget inner) :=
    (local_skipField budget inner).map _
  rw [skipField, reads_readByWire_iff]
  refine or_congr_right ?_
  constructor
  · rintro ⟨hwire, hreads⟩
    simp only at hwire hreads
    obtain rfl | rfl := hwire
    · obtain ⟨records, hrecords, rfl⟩ := hreads.of_map (local_readGroup hlocal number)
      obtain ⟨body, close, rfl, hsteps, hclose⟩ := (reads_readGroup_iff hlocal).1 hrecords
      exact .group hsteps hclose
    · have hfail := hreads []
      simp [fail] at hfail
  · intro hgroup
    cases hgroup with
    | group hsteps hclose =>
        refine ⟨Or.inl rfl, Reads.map ?_ _⟩
        exact (reads_readGroup_iff hlocal).2 ⟨_, _, rfl, hsteps, hclose⟩

theorem reads_expectWire_bind {α : Type} {expected found : WireType} {next : Reader α}
    {front : Bytes} {value : α} :
    Reads (do expectWire expected found; next) front value ↔
      found = expected ∧ Reads next front value := by
  by_cases hwire : found = expected
  · simp only [expectWire, hwire, if_true, true_and]
    exact Iff.rfl
  · simp only [expectWire, hwire, if_false, false_and, iff_false]
    intro hreads
    have hfail := hreads []
    simp [fail, bind, StateT.bind, Except.bind] at hfail

theorem reads_readUnknown_iff {budget : Nat} {key : Key} {bytes : Bytes} {record : Record} :
    Reads (readUnknown budget key) bytes record ↔
      FlatValue key bytes record ∨
        ∃ less, budget = less + 1 ∧ GroupValue (readUnknown less) key bytes record := by
  obtain ⟨number, wire⟩ := key
  cases budget with
  | zero =>
      rw [readUnknown, reads_readByWire_iff, reads_expectWire_bind]
      refine or_congr_right ?_
      constructor
      · rintro ⟨-, -, hreads⟩
        have hfail := hreads []
        simp [fail] at hfail
      · rintro ⟨less, hless, -⟩
        omega
  | succ budget =>
      have hlocal (inner : Key) : Local (([·]) <$> readUnknown budget inner) :=
        (local_readUnknown budget inner).map _
      rw [readUnknown, reads_readByWire_iff, reads_expectWire_bind]
      refine or_congr_right ?_
      constructor
      · rintro ⟨-, hwire, hreads⟩
        simp only at hwire hreads
        subst hwire
        obtain ⟨records, hrecords, rfl⟩ := hreads.of_map (local_readGroup hlocal number)
        obtain ⟨body, close, rfl, hsteps, hclose⟩ := (reads_readGroup_iff hlocal).1 hrecords
        exact ⟨budget, rfl, .group hsteps hclose⟩
      · rintro ⟨less, hless, hgroup⟩
        obtain rfl : less = budget := by omega
        cases hgroup with
        | group hsteps hclose =>
            refine ⟨Or.inl rfl, rfl, Reads.map ?_ _⟩
            exact (reads_readGroup_iff hlocal).2 ⟨_, _, rfl, hsteps, hclose⟩

theorem FlatValue.number_eq {key : Key} {bytes : Bytes} {record : Record}
    (hflat : FlatValue key bytes record) : record.number = key.number := by
  cases hflat <;> rfl

theorem number_eq_of_readUnknown {budget : Nat} {key : Key} {bytes : Bytes} {record : Record}
    (hreads : Reads (readUnknown budget key) bytes record) : record.number = key.number := by
  obtain hflat | ⟨less, -, hgroup⟩ := reads_readUnknown_iff.1 hreads
  · exact hflat.number_eq
  · cases hgroup
    rfl

mutual

/-- The levels of nesting that passing over a field takes. -/
def passDepthOfRecord : Record → Nat
  | .group _ records => passDepthOf records + 1
  | _ => 1

def passDepthOf : List Record → Nat
  | [] => 0
  | record :: rest => max (passDepthOfRecord record) (passDepthOf rest)

end

theorem depthOf_le_iff {records : List Record} {bound : Nat} :
    depthOf records ≤ bound ↔ ∀ record ∈ records, depthOfRecord record ≤ bound := by
  induction records with
  | nil => simp [depthOf]
  | cons record rest ih => rw [depthOf, Nat.max_le, ih, List.forall_mem_cons]

theorem passDepthOf_le_iff {records : List Record} {bound : Nat} :
    passDepthOf records ≤ bound ↔ ∀ record ∈ records, passDepthOfRecord record ≤ bound := by
  induction records with
  | nil => simp [passDepthOf]
  | cons record rest ih => rw [passDepthOf, Nat.max_le, ih, List.forall_mem_cons]

section Groups

variable {value value' : Key → Reader Record}

theorem reads_groupStep_iff (hvalue : ∀ key, Local (value key)) {front : Bytes}
    {items : List Record} :
    Reads (groupStep fun inner => ([·]) <$> value inner) front items ↔
      ∃ key left right record, front = left ++ right ∧ Reads Key.read left key ∧
        key.wire ≠ .endGroup ∧ Reads (value key) right record ∧ items = [record] := by
  constructor
  · intro hreads
    obtain ⟨key, left, right, rfl, hkey, hitems⟩ :=
      hreads.of_bind Key.local_read fun key => (local_fail _).ite ((hvalue key).map _)
    by_cases hend : key.wire = .endGroup
    · rw [if_pos hend] at hitems
      have hfail := hitems []
      simp [fail] at hfail
    · rw [if_neg hend] at hitems
      obtain ⟨record, hrecord, rfl⟩ := hitems.of_map (hvalue key)
      exact ⟨key, left, right, record, rfl, hkey, hend, hrecord, rfl⟩
  · rintro ⟨key, left, right, record, rfl, hkey, hend, hrecord, rfl⟩
    refine hkey.bind ?_
    rw [if_neg hend]
    exact hrecord.map _

theorem forall_of_steps_groupStep (hvalue : ∀ key, Local (value key)) {body : Bytes}
    {records : List Record} {P : Record → Prop}
    (hrecord : ∀ key bytes record, Reads (value key) bytes record → P record)
    (hsteps : Steps (groupStep fun inner => ([·]) <$> value inner) body records) :
    ∀ record ∈ records, P record := by
  induction hsteps with
  | nil => simp
  | cons hreads _ ih =>
      obtain ⟨key, left, right, record, -, -, -, hread, rfl⟩ :=
        (reads_groupStep_iff hvalue).1 hreads
      rw [List.singleton_append, List.forall_mem_cons]
      exact ⟨hrecord key right record hread, ih⟩

theorem steps_groupStep_imp (hvalue : ∀ key, Local (value key))
    (hvalue' : ∀ key, Local (value' key)) {body : Bytes} {records : List Record}
    (himp : ∀ record ∈ records, ∀ key bytes,
      Reads (value key) bytes record → Reads (value' key) bytes record)
    (hsteps : Steps (groupStep fun inner => ([·]) <$> value inner) body records) :
    Steps (groupStep fun inner => ([·]) <$> value' inner) body records := by
  induction hsteps with
  | nil => exact .nil
  | cons hreads _ ih =>
      obtain ⟨key, left, right, record, rfl, hkey, hend, hread, rfl⟩ :=
        (reads_groupStep_iff hvalue).1 hreads
      rw [List.singleton_append, List.forall_mem_cons] at himp
      refine .cons ?_ (ih himp.2)
      exact (reads_groupStep_iff hvalue').2
        ⟨key, left, right, record, rfl, hkey, hend, himp.1 key right hread, rfl⟩

end Groups

theorem FlatValue.depthOfRecord_eq {key : Key} {bytes : Bytes} {record : Record}
    (hflat : FlatValue key bytes record) : depthOfRecord record = 0 := by
  cases hflat <;> simp [depthOfRecord]

theorem FlatValue.passDepthOfRecord_eq {key : Key} {bytes : Bytes} {record : Record}
    (hflat : FlatValue key bytes record) : passDepthOfRecord record = 1 := by
  cases hflat <;> simp [passDepthOfRecord]

theorem depthOfRecord_le_of_readUnknown {budget : Nat} {key : Key} {bytes : Bytes}
    {record : Record} (hreads : Reads (readUnknown budget key) bytes record) :
    depthOfRecord record ≤ budget := by
  induction budget generalizing key bytes record with
  | zero =>
      obtain hflat | ⟨less, hless, -⟩ := reads_readUnknown_iff.1 hreads
      · simp [hflat.depthOfRecord_eq]
      · omega
  | succ budget ih =>
      obtain hflat | ⟨less, hless, hgroup⟩ := reads_readUnknown_iff.1 hreads
      · simp [hflat.depthOfRecord_eq]
      · obtain rfl : less = budget := by omega
        cases hgroup with
        | group hsteps _ =>
            rw [depthOfRecord, Nat.add_le_add_iff_right, depthOf_le_iff]
            exact forall_of_steps_groupStep (local_readUnknown less)
              (fun _ _ _ hread => ih hread) hsteps

/-- How an unknown field is read depends on the budget only through the depth of
its groups. -/
theorem reads_readUnknown_of_depth {budget enough : Nat} {key : Key} {bytes : Bytes}
    {record : Record} (hreads : Reads (readUnknown budget key) bytes record)
    (hdepth : depthOfRecord record ≤ enough) : Reads (readUnknown enough key) bytes record := by
  induction enough generalizing budget key bytes record with
  | zero =>
      obtain hflat | ⟨less, -, hgroup⟩ := reads_readUnknown_iff.1 hreads
      · exact reads_readUnknown_iff.2 (Or.inl hflat)
      · cases hgroup with
        | group _ _ => simp [depthOfRecord] at hdepth
  | succ enough ih =>
      obtain hflat | ⟨less, -, hgroup⟩ := reads_readUnknown_iff.1 hreads
      · exact reads_readUnknown_iff.2 (Or.inl hflat)
      · cases hgroup with
        | group hsteps hclose =>
            rw [depthOfRecord, Nat.add_le_add_iff_right, depthOf_le_iff] at hdepth
            refine reads_readUnknown_iff.2 (Or.inr ⟨enough, rfl, .group ?_ hclose⟩)
            exact steps_groupStep_imp (local_readUnknown less) (local_readUnknown enough)
              (fun record hmem key bytes hread => ih hread (hdepth record hmem)) hsteps

/-- Passing over a field finds what reading it would find. -/
theorem reads_readUnknown_of_skipField {budget : Nat} {key : Key} {bytes : Bytes}
    {record : Record} (hreads : Reads (skipField budget key) bytes record) :
    Reads (readUnknown budget key) bytes record ∧ passDepthOfRecord record ≤ budget := by
  induction budget generalizing key bytes record with
  | zero =>
      have hfail := hreads []
      simp [skipField, fail] at hfail
  | succ budget ih =>
      obtain hflat | hgroup := reads_skipField_iff.1 hreads
      · exact ⟨reads_readUnknown_iff.2 (Or.inl hflat), by simp [hflat.passDepthOfRecord_eq]⟩
      · cases hgroup with
        | group hsteps hclose =>
            refine ⟨reads_readUnknown_iff.2 (Or.inr ⟨budget, rfl, .group ?_ hclose⟩), ?_⟩
            · exact steps_groupStep_imp (local_skipField budget) (local_readUnknown budget)
                (fun _ _ _ _ hread => (ih hread).1) hsteps
            · rw [passDepthOfRecord, Nat.add_le_add_iff_right, passDepthOf_le_iff]
              exact forall_of_steps_groupStep (local_skipField budget)
                (fun _ _ _ hread => (ih hread).2) hsteps

theorem reads_skipField_of_depth {budget enough : Nat} {key : Key} {bytes : Bytes}
    {record : Record} (hreads : Reads (readUnknown budget key) bytes record)
    (hdepth : passDepthOfRecord record ≤ enough) : Reads (skipField enough key) bytes record := by
  induction enough generalizing budget key bytes record with
  | zero =>
      obtain hflat | ⟨less, -, hgroup⟩ := reads_readUnknown_iff.1 hreads
      · simp [hflat.passDepthOfRecord_eq] at hdepth
      · cases hgroup with
        | group _ _ => simp [passDepthOfRecord] at hdepth
  | succ enough ih =>
      obtain hflat | ⟨less, -, hgroup⟩ := reads_readUnknown_iff.1 hreads
      · exact reads_skipField_iff.2 (Or.inl hflat)
      · cases hgroup with
        | group hsteps hclose =>
            rw [passDepthOfRecord, Nat.add_le_add_iff_right, passDepthOf_le_iff] at hdepth
            refine reads_skipField_iff.2 (Or.inr (.group ?_ hclose))
            exact steps_groupStep_imp (local_readUnknown less) (local_skipField enough)
              (fun record hmem key bytes hread => ih hread (hdepth record hmem)) hsteps

/-- The schema that knows no fields. -/
def rawSchema : Schema Unit where
  field? _ _ := none
  place? _ _ := none
  skipsUnknown := false

/-- As a message of whatever type, `bytes` hold the raw records `records`. -/
def HoldsRaw (bytes : Bytes) (records : List Record) : Prop :=
  rawSchema.Holds nestingLimit () bytes records

/-- `bytes` are the raw field `record`. -/
def ReadsRaw (bytes : Bytes) (record : Record) : Prop :=
  ∃ key left right, bytes = left ++ right ∧ Reads Key.read left key ∧
    Reads (readUnknown nestingLimit key) right record

theorem rawSchema_readValue (budget : Nat) (key : Key) :
    rawSchema.readValue budget () key = ([·]) <$> readUnknown budget key := by
  cases budget <;> rfl

theorem reads_rawSchema_step_iff {bytes : Bytes} {items : List Record} :
    Reads (rawSchema.step nestingLimit ()) bytes items ↔
      ∃ record, ReadsRaw bytes record ∧ items = [record] := by
  constructor
  · intro hreads
    obtain ⟨key, left, right, rfl, hkey, hitems⟩ :=
      hreads.of_bind Key.local_read (rawSchema.local_readValue nestingLimit ())
    rw [rawSchema_readValue] at hitems
    obtain ⟨record, hrecord, rfl⟩ := hitems.of_map (local_readUnknown _ key)
    exact ⟨record, ⟨key, left, right, rfl, hkey, hrecord⟩, rfl⟩
  · rintro ⟨record, ⟨key, left, right, rfl, hkey, hrecord⟩, rfl⟩
    refine hkey.bind ?_
    rw [rawSchema_readValue]
    exact hrecord.map _

theorem HoldsRaw.eq {bytes : Bytes} {records others : List Record}
    (hrecords : HoldsRaw bytes records) (hothers : HoldsRaw bytes others) : records = others :=
  Schema.Holds.eq hrecords hothers

theorem HoldsRaw.cons {front back : Bytes} {record : Record} {others : List Record}
    (hrecord : ReadsRaw front record) (hothers : HoldsRaw back others) :
    HoldsRaw (front ++ back) (record :: others) :=
  Steps.cons (reads_rawSchema_step_iff.2 ⟨record, hrecord, rfl⟩) hothers

/-- Raw fields are read one by one. -/
theorem HoldsRaw.rec_on {motive : Bytes → List Record → Prop} {bytes : Bytes}
    {records : List Record} (hrecords : HoldsRaw bytes records) (hnil : motive [] [])
    (hcons : ∀ front back record others, ReadsRaw front record → HoldsRaw back others →
      motive back others → motive (front ++ back) (record :: others)) : motive bytes records := by
  unfold HoldsRaw Schema.Holds at hrecords
  induction hrecords with
  | nil => exact hnil
  | cons hreads hsteps ih =>
      obtain ⟨record, hrecord, rfl⟩ := reads_rawSchema_step_iff.1 hreads
      exact hcons _ _ _ _ hrecord hsteps ih

/-! ## Writing raw records -/

/-- The raw form of a record: what it is without a schema. -/
def Record.flat : Record → Record
  | .text number value => .bytes number (utf8 value)
  | .packed number payload _ => .bytes number payload
  | .message number payload _ => .bytes number payload
  | record => record

@[simp]
theorem Record.number_flat (record : Record) : record.flat.number = record.number := by
  cases record <;> rfl

/-- What is written for a record reads back as its raw form. -/
def Record.Writable (record : Record) : Prop :=
  ReadsRaw (encodeRecord record) record.flat

section Writable

variable {number : Nat}

theorem FlatValue.readsRaw {wire : WireType} {bytes : Bytes} {record : Record}
    (hnumber : IsFieldNumber number) (hflat : FlatValue ⟨number, wire⟩ bytes record) :
    ReadsRaw (Key.encode ⟨number, wire⟩ ++ bytes) record :=
  ⟨_, _, _, rfl, Key.reads_encode hnumber, reads_readUnknown_iff.2 (Or.inl hflat)⟩

theorem writable_varint (hnumber : IsFieldNumber number) {value : Nat} (hvalue : value < 2 ^ 64) :
    (Record.varint number value).Writable :=
  (FlatValue.varint (Varint.reads_encode hvalue)).readsRaw hnumber

theorem writable_fixed64 (hnumber : IsFieldNumber number) {value : Nat} (hvalue : value < 2 ^ 64) :
    (Record.fixed64 number value).Writable :=
  (FlatValue.fixed64 (Fixed.reads_encode hvalue)).readsRaw hnumber

theorem writable_fixed32 (hnumber : IsFieldNumber number) {value : Nat} (hvalue : value < 2 ^ 32) :
    (Record.fixed32 number value).Writable :=
  (FlatValue.fixed32 (Fixed.reads_encode hvalue)).readsRaw hnumber

theorem writable_bytes (hnumber : IsFieldNumber number) {value : Bytes}
    (hvalue : value.length < 2 ^ 64) : (Record.bytes number value).Writable :=
  (FlatValue.bytes (reads_encodeDelimited hvalue)).readsRaw hnumber

theorem writable_text (hnumber : IsFieldNumber number) {value : String}
    (hvalue : (utf8 value).length < 2 ^ 64) : (Record.text number value).Writable :=
  writable_bytes hnumber hvalue

theorem writable_packed (hnumber : IsFieldNumber number) {payload : Bytes}
    (hpayload : payload.length < 2 ^ 64) (values : List Nat) :
    (Record.packed number payload values).Writable :=
  writable_bytes hnumber hpayload

theorem writable_message (hnumber : IsFieldNumber number) {payload : Bytes}
    (hpayload : payload.length < 2 ^ 64) (records : List Record) :
    (Record.message number payload records).Writable :=
  writable_bytes hnumber hpayload

end Writable

/-! ## Raw records read back -/

theorem FlatValue.rewrite {key : Key} {bytes : Bytes} {record : Record}
    (hflat : FlatValue key bytes record) :
    record.flat = record ∧
      ∃ right, encodeRecord record = Key.encode key ++ right ∧ FlatValue key right record := by
  cases hflat with
  | varint hvalue =>
      have hbound := Varint.lt_of_reads hvalue
      exact ⟨rfl, _, by rw [encodeRecord], .varint (Varint.reads_encode hbound)⟩
  | fixed64 hvalue =>
      have hbound := Fixed.lt_of_reads hvalue
      exact ⟨rfl, _, by rw [encodeRecord], .fixed64 (Fixed.reads_encode hbound)⟩
  | fixed32 hvalue =>
      have hbound := Fixed.lt_of_reads hvalue
      exact ⟨rfl, _, by rw [encodeRecord], .fixed32 (Fixed.reads_encode hbound)⟩
  | bytes hvalue =>
      obtain ⟨size, -, hsize⟩ := reads_readDelimited_iff.1 hvalue
      have hbound := Varint.lt_of_reads hsize
      exact ⟨rfl, _, by rw [encodeRecord], .bytes (reads_encodeDelimited hbound)⟩

theorem rewrite_readUnknown {budget : Nat} {key : Key} {bytes : Bytes} {record : Record}
    (hnumber : IsFieldNumber key.number) (hreads : Reads (readUnknown budget key) bytes record) :
    record.flat = record ∧ ∃ right, encodeRecord record = Key.encode key ++ right ∧
      Reads (readUnknown budget key) right record := by
  induction budget generalizing key bytes record with
  | zero =>
      obtain hflat | ⟨less, hless, -⟩ := reads_readUnknown_iff.1 hreads
      · obtain ⟨hself, right, hencode, hright⟩ := hflat.rewrite
        exact ⟨hself, right, hencode, reads_readUnknown_iff.2 (Or.inl hright)⟩
      · omega
  | succ budget ih =>
      obtain hflat | ⟨less, hless, hgroup⟩ := reads_readUnknown_iff.1 hreads
      · obtain ⟨hself, right, hencode, hright⟩ := hflat.rewrite
        exact ⟨hself, right, hencode, reads_readUnknown_iff.2 (Or.inl hright)⟩
      obtain rfl : less = budget := by omega
      cases hgroup with
      | @group number body close records hsteps hclose =>
          have hbody : Steps (groupStep fun inner => ([·]) <$> readUnknown less inner)
              (encode records) records := by
            clear hreads
            induction hsteps with
            | nil => exact .nil
            | cons hstep _ ihsteps =>
                obtain ⟨key, left, right, record, rfl, hkey, hend, hread, rfl⟩ :=
                  (reads_groupStep_iff (local_readUnknown less)).1 hstep
                have hinner := Key.isFieldNumber_of_reads hkey
                obtain ⟨-, right, hencode, hright⟩ := ih hinner hread
                rw [List.singleton_append, encode]
                have hrecord : Reads (groupStep fun inner => ([·]) <$> readUnknown less inner)
                    (encodeRecord record) [record] :=
                  (reads_groupStep_iff (local_readUnknown less)).2
                    ⟨key, _, right, record, hencode, Key.reads_encode hinner, hend, hright, rfl⟩
                exact .cons hrecord ihsteps
          refine ⟨rfl, encode records ++ Key.encode ⟨number, .endGroup⟩, ?_, ?_⟩
          · rw [encodeRecord, List.append_assoc]
          · refine reads_readUnknown_iff.2 (Or.inr ⟨less, rfl, .group hbody ?_⟩)
            exact Key.reads_encode hnumber

theorem ReadsRaw.isFieldNumber {bytes : Bytes} {record : Record} (hreads : ReadsRaw bytes record) :
    IsFieldNumber record.number := by
  obtain ⟨key, left, right, -, hkey, hrecord⟩ := hreads
  rw [number_eq_of_readUnknown hrecord]
  exact Key.isFieldNumber_of_reads hkey

/-- A raw record is its own raw form. -/
theorem ReadsRaw.flat_eq {bytes : Bytes} {record : Record} (hreads : ReadsRaw bytes record) :
    record.flat = record := by
  obtain ⟨key, left, right, -, hkey, hrecord⟩ := hreads
  exact (rewrite_readUnknown (Key.isFieldNumber_of_reads hkey) hrecord).1

theorem ReadsRaw.writable {bytes : Bytes} {record : Record} (hreads : ReadsRaw bytes record) :
    record.Writable := by
  have hself := hreads.flat_eq
  obtain ⟨key, left, right, -, hkey, hrecord⟩ := hreads
  have hnumber := Key.isFieldNumber_of_reads hkey
  obtain ⟨-, right, hencode, hright⟩ := rewrite_readUnknown hnumber hrecord
  unfold Record.Writable
  rw [hself, hencode]
  exact ⟨key, _, right, rfl, Key.reads_encode hnumber, hright⟩

theorem HoldsRaw.forall_mem {bytes : Bytes} {records : List Record}
    (hrecords : HoldsRaw bytes records) :
    ∀ record ∈ records, ∃ front, ReadsRaw front record := by
  refine HoldsRaw.rec_on
    (motive := fun _ records => ∀ record ∈ records, ∃ front, ReadsRaw front record)
    hrecords (by simp) ?_
  intro front back record others hrecord _ ih
  rw [List.forall_mem_cons]
  exact ⟨⟨front, hrecord⟩, ih⟩

end ProtoSource.Wire
