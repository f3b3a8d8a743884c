import ProtoSource.Proofs.Wire.Recoding

/-!
# What the canonical form of a field holds

The records that are written for one field, and what a reader finds in them.
-/

namespace ProtoSource.Wire

open ProtoSource.Related
open Reader

namespace FieldSpec

variable {τ σ α : Type}

/-- A value that the writer leaves out counts as a default for the reader too. -/
theorem kept_kept {reader : FieldSpec τ} {writer : FieldSpec σ} {isDefault isDefault' : α → Bool}
    {canonical : α → α} (hrepeated : writer.repeated = reader.repeated)
    (hpresence : reader.repeated ∨ writer.presence ∨
      reader.presence = false ∧ isDefault' = isDefault)
    (hcanonical : ∀ value, isDefault (canonical value) = isDefault value) (values : List α) :
    reader.kept isDefault ((writer.kept isDefault' values).map canonical) =
      (reader.kept isDefault values).map canonical := by
  unfold kept
  by_cases hmany : reader.repeated
  · simp [hrepeated, hmany]
  simp only [hrepeated, hmany, Bool.false_eq_true, if_false]
  cases hlast : values.getLast? with
  | none => simp
  | some value =>
      by_cases hwritten : (writer.presence || !isDefault' value) = true
      · simp [hwritten, hcanonical, List.filter_cons]
        split <;> simp
      · simp only [Bool.or_eq_true, Bool.not_eq_eq_eq_not, Bool.not_true, not_or,
          Bool.not_eq_false, Bool.not_eq_true] at hwritten
        obtain hmany' | hpresent | ⟨habsent, rfl⟩ := hpresence
        · exact absurd hmany' hmany
        · simp [hpresent] at hwritten
        · simp [hwritten.1, hwritten.2, habsent]

theorem mem_of_mem_kept {spec : FieldSpec τ} {isDefault : α → Bool} {values : List α} {value : α}
    (hmem : value ∈ spec.kept isDefault values) : value ∈ values := by
  unfold kept at hmem
  split at hmem
  · exact hmem
  · have hlast := (List.mem_filter.1 hmem).1
    rw [Option.mem_toList] at hlast
    exact List.mem_of_getLast? hlast

theorem length_merged_le {spec : FieldSpec τ} (hone : ¬ spec.repeated)
    (messages : List (List Record)) : (spec.merged messages).length ≤ 1 := by
  unfold merged
  rw [if_neg hone]
  split <;> simp

theorem merged_eq_self {spec : FieldSpec τ} {messages : List (List Record)}
    (hone : ¬ spec.repeated → messages.length ≤ 1) : spec.merged messages = messages := by
  unfold merged
  split
  · rfl
  · next hnot =>
      match messages, hone hnot with
      | [], _ => rfl
      | [message], _ => simp

theorem Shapes.numbers_lt {spec : FieldSpec σ} {record : Record} (hshapes : spec.Shapes record)
    {scalar : Scalar} (hkind : spec.kind = .scalar scalar) :
    ∀ value ∈ record.numbers, value < scalar.bound := by
  cases hshapes with
  | scalar hkind' hvalue =>
      obtain rfl : scalar = _ := by simpa [hkind] using hkind'
      simpa using hvalue
  | packed hkind' _ hvalues =>
      obtain rfl : scalar = _ := by simpa [hkind] using hkind'
      exact hvalues
  | text hkind' => simp [hkind] at hkind'
  | bytes hkind' => simp [hkind] at hkind'
  | message hkind' => simp [hkind] at hkind'

theorem Shapes.depth_flat {spec : FieldSpec σ} {record : Record} (hshapes : spec.Shapes record) :
    depthOfRecord record.flat = 0 ∧ passDepthOfRecord record.flat = 1 := by
  cases hshapes with
  | @scalar scalar _ _ _ _ =>
      cases scalar <;>
        simp [Scalar.wireRecord, Scalar.wire, Record.flat, depthOfRecord, passDepthOfRecord]
  | packed _ _ _ => simp [Record.flat, depthOfRecord, passDepthOfRecord]
  | text _ => simp [Record.flat, depthOfRecord, passDepthOfRecord]
  | bytes _ => simp [Record.flat, depthOfRecord, passDepthOfRecord]
  | message _ => simp [Record.flat, depthOfRecord, passDepthOfRecord]

theorem Shapes.ne_group {spec : FieldSpec σ} {record : Record} (hshapes : spec.Shapes record)
    (type : σ) : spec.kind ≠ .group type := by
  cases hshapes <;> simp_all

theorem Shapes.writable {spec : FieldSpec σ} {record : Record} (hshapes : spec.Shapes record)
    (hnumber : IsFieldNumber record.number) (hlength : (encodeRecord record).length < 2 ^ 64) :
    record.Writable := by
  have hdelimited {key payload : Bytes}
      (hlength : (key ++ encodeDelimited payload).length < 2 ^ 64) : payload.length < 2 ^ 64 := by
    have hpayload := length_le_encodeDelimited payload
    rw [List.length_append] at hlength
    omega
  cases hshapes with
  | scalar _ hvalue =>
      rw [number_wireRecord] at hnumber
      exact Scalar.writable_wireRecord hnumber hvalue
  | packed _ _ _ =>
      rw [encodeRecord] at hlength
      exact writable_packed hnumber (hdelimited hlength) _
  | text _ =>
      rw [encodeRecord] at hlength
      exact writable_text hnumber (hdelimited hlength)
  | bytes _ =>
      rw [encodeRecord] at hlength
      exact writable_bytes hnumber (hdelimited hlength)
  | message _ =>
      rw [encodeRecord] at hlength
      exact writable_message hnumber (hdelimited hlength) _

/-- What is written for a field can stand in the field. -/
theorem shapes_of_mem_canonical {spec : FieldSpec σ} (hgroup : ∀ type, spec.kind ≠ .group type)
    {nested : σ → List Record → List Record} {number : Nat} {own : List Record}
    (hown : ∀ record ∈ own, spec.Shapes record) {record : Record}
    (hmem : record ∈ spec.canonical nested number own) :
    spec.Shapes record ∧ record.number = number := by
  unfold canonical at hmem
  cases hkind : spec.kind with
  | scalar scalar =>
      simp only [hkind] at hmem
      have hvalues : ∀ value ∈ own.flatMap Record.numbers, value < scalar.bound := by
        intro value hvalue
        obtain ⟨record, hrecord, hvalue⟩ := List.mem_flatMap.1 hvalue
        exact (hown record hrecord).numbers_lt hkind value hvalue
      unfold canonicalNumbers at hmem
      simp only at hmem
      split at hmem
      · next hpacked =>
          split at hmem
          · simp at hmem
          · rw [List.mem_singleton] at hmem
            subst hmem
            refine ⟨.packed hkind ?_ fun value hvalue => hvalues value
              (mem_of_mem_kept hvalue), rfl⟩
            exact (Bool.and_eq_true_iff.1 hpacked).1
      · obtain ⟨value, hvalue, rfl⟩ := List.mem_map.1 hmem
        refine ⟨.scalar hkind (Scalar.canonical_lt (hvalues value (mem_of_mem_kept hvalue))), ?_⟩
        exact number_wireRecord _ _ _
  | text =>
      simp only [hkind] at hmem
      obtain ⟨value, -, rfl⟩ := List.mem_map.1 hmem
      exact ⟨.text hkind, rfl⟩
  | bytes =>
      simp only [hkind] at hmem
      obtain ⟨value, -, rfl⟩ := List.mem_map.1 hmem
      exact ⟨.bytes hkind, rfl⟩
  | message type =>
      simp only [hkind] at hmem
      obtain ⟨inner, -, rfl⟩ := List.mem_map.1 hmem
      exact ⟨.message hkind, rfl⟩
  | group type => exact absurd hkind (hgroup type)

end FieldSpec

/-! ## Reading a field back -/

section Fields

variable {τ σ : Type} {name : τ → σ} {reader : Schema τ} {spec : FieldSpec τ}
  {written : FieldSpec σ} {nested : σ → List Record → List Record}
  {inner : τ → List Record → List Record → Prop} {number budget : Nat} {own : List Record}

theorem exists_reads_scalar {scalar : Scalar} (hfits : spec.Fits name written)
    (hkind : spec.kind = .scalar scalar) (hown : ∀ record ∈ own, written.Shapes record) :
    ∃ reads, List.Forall₂ (fun found read => reader.Means spec budget found.flat read)
        (written.canonical nested number own) reads ∧
      spec.Alike inner own reads := by
  have hkind' : written.kind = .scalar scalar := by
    rw [hfits.kind, hkind, Kind.map]
  have hbound : ∀ value ∈ own.flatMap Record.numbers, value < scalar.bound := by
    intro value hvalue
    obtain ⟨record, hrecord, hvalue⟩ := List.mem_flatMap.1 hvalue
    exact (hown record hrecord).numbers_lt hkind' value hvalue
  have hpresence : spec.repeated ∨ written.presence ∨ spec.presence = false ∧
      scalar.same written.defaultNumber = scalar.same spec.defaultNumber := by
    obtain hmany | hpresent | ⟨habsent, hnone, hnone'⟩ := hfits.presence
    · exact Or.inl hmany
    · exact Or.inr (Or.inl hpresent)
    · refine Or.inr (Or.inr ⟨habsent, ?_⟩)
      simp [FieldSpec.defaultNumber, hnone, hnone']
  -- whatever is written, its numbers are the canonical ones that count
  have halike (reads : List Record)
      (hreads : reads.flatMap Record.numbers =
        (written.kept (scalar.same written.defaultNumber)
          (own.flatMap Record.numbers)).map scalar.canonical) :
      spec.Alike inner own reads := by
    unfold FieldSpec.Alike
    simp only [hkind, hreads]
    rw [FieldSpec.kept_kept hfits.repeated hpresence (scalar.same_canonical _), List.map_map]
    refine List.map_congr_left fun value _ => ?_
    exact (scalar.canonical_canonical value).symm
  unfold FieldSpec.canonical
  simp only [hkind', FieldSpec.canonicalNumbers]
  have hkept : ∀ value ∈ written.kept (scalar.same written.defaultNumber)
      (own.flatMap Record.numbers), value < scalar.bound :=
    fun value hvalue => hbound value (FieldSpec.mem_of_mem_kept hvalue)
  generalize written.kept (scalar.same written.defaultNumber) (own.flatMap Record.numbers) = kept
    at halike hkept ⊢
  split
  · next hpacked =>
      rw [Bool.and_eq_true] at hpacked
      have hrepeated : spec.repeated := by rw [← hfits.repeated, hpacked.1]
      split
      · next hempty =>
          rw [Bool.and_eq_true, List.isEmpty_iff] at hempty
          exact ⟨[], .nil, halike [] (by simp [hempty.1])⟩
      · refine ⟨[.packed number (kept.flatMap scalar.encode) (kept.map scalar.canonical)],
          .cons (.packed hkind hrepeated ?_) .nil, halike _ ?_⟩
        · exact Scalar.steps_flatMap_encode hkept
        · simp [Record.numbers]
  · refine ⟨_, List.forall₂_same.2 fun record hrecord => ?_, halike _ ?_⟩
    · obtain ⟨value, -, rfl⟩ := List.mem_map.1 hrecord
      rw [Scalar.record, Scalar.flat_wireRecord]
      exact .scalar hkind
    · rw [List.flatMap_map]
      simp [Scalar.record, List.map_eq_flatMap]

theorem FieldSpec.Fits.kept_eq {α : Type} (hfits : spec.Fits name written)
    {isDefault isDefault' : α → Bool}
    (hdefault : spec.default? = none → written.default? = none → isDefault' = isDefault)
    (values : List α) :
    spec.kept isDefault values = spec.kept isDefault (written.kept isDefault' values) := by
  have hpresence : spec.repeated ∨ written.presence ∨ spec.presence = false ∧
      isDefault' = isDefault := by
    obtain hmany | hpresent | ⟨habsent, hnone, hnone'⟩ := hfits.presence
    · exact Or.inl hmany
    · exact Or.inr (Or.inl hpresent)
    · exact Or.inr (Or.inr ⟨habsent, hdefault hnone hnone'⟩)
  have hkept :=
    kept_kept hfits.repeated hpresence (fun value => congrArg isDefault (id_eq value)) values
  simpa using hkept.symm

theorem exists_reads_text (hfits : spec.Fits name written) (hkind : spec.kind = .text) :
    ∃ reads, List.Forall₂ (fun found read => reader.Means spec budget found.flat read)
        (written.canonical nested number own) reads ∧
      spec.Alike inner own reads := by
  have hkind' : written.kind = .text := by
    rw [hfits.kind, hkind, Kind.map]
  unfold FieldSpec.canonical
  simp only [hkind']
  refine ⟨_, List.forall₂_same.2 fun record hrecord => ?_, ?_⟩
  · obtain ⟨value, -, rfl⟩ := List.mem_map.1 hrecord
    exact .text hkind (ofUtf8?_utf8 value)
  · have htexts (values : List String) :
        (values.map (Record.text number)).filterMap Record.text? = values := by
      induction values with
      | nil => rfl
      | cons value rest ih => simp [Record.text?, ih]
    unfold FieldSpec.Alike
    simp only [hkind, htexts]
    exact hfits.kept_eq (fun hnone hnone' => by simp [FieldSpec.defaultText, hnone, hnone']) _

theorem exists_reads_bytes (hfits : spec.Fits name written) (hkind : spec.kind = .bytes) :
    ∃ reads, List.Forall₂ (fun found read => reader.Means spec budget found.flat read)
        (written.canonical nested number own) reads ∧
      spec.Alike inner own reads := by
  have hkind' : written.kind = .bytes := by
    rw [hfits.kind, hkind, Kind.map]
  unfold FieldSpec.canonical
  simp only [hkind']
  refine ⟨_, List.forall₂_same.2 fun record hrecord => ?_, ?_⟩
  · obtain ⟨value, -, rfl⟩ := List.mem_map.1 hrecord
    exact .bytes hkind
  · have hbytes (values : List Bytes) :
        (values.map (Record.bytes number)).filterMap Record.bytes? = values := by
      induction values with
      | nil => rfl
      | cons value rest ih => simp [Record.bytes?, ih]
    unfold FieldSpec.Alike
    simp only [hkind, hbytes]
    exact hfits.kept_eq (fun hnone hnone' => by simp [FieldSpec.defaultBytes, hnone, hnone']) _

/-- A message field reads back if each of its messages does. -/
theorem exists_reads_message {type : τ} (hfits : spec.Fits name written)
    (hkind : spec.kind = .message type) {others : List Record}
    {relation : List Record → List Record → Prop}
    (hmessages : List.Forall₂ relation (written.merged (own.filterMap Record.records?))
      (written.merged (others.filterMap Record.records?)))
    (hinner : ∀ founds ∈ written.merged (own.filterMap Record.records?), ∀ reads,
      relation founds reads → ∃ reads',
        reader.Holds budget type (encode (nested (name type) founds)) reads' ∧
          inner type reads reads') :
    ∃ reads, List.Forall₂ (fun found read => reader.Means spec (budget + 1) found.flat read)
        (written.canonical nested number own) reads ∧
      spec.Alike inner others reads := by
  have hkind' : written.kind = .message (name type) := by
    rw [hfits.kind, hkind, Kind.map]
  have hmerged (messages : List (List Record)) : spec.merged messages =
      written.merged messages := by
    simp [FieldSpec.merged, hfits.repeated]
  -- the messages one by one, and what is read of each
  have hall : ∃ reads : List Record,
      List.Forall₂ (fun (found : Record) read => reader.Means spec (budget + 1) found.flat read)
        ((written.merged (own.filterMap Record.records?)).map fun founds =>
          Record.embed number (nested (name type) founds)) reads ∧
      List.Forall₂ (inner type) (written.merged (others.filterMap Record.records?))
        (reads.filterMap Record.records?) := by
    generalize written.merged (own.filterMap Record.records?) = messages at hmessages hinner
    generalize written.merged (others.filterMap Record.records?) = messages' at hmessages
    induction hmessages with
    | nil => exact ⟨[], .nil, .nil⟩
    | @cons founds _ _ _ hhead _ ih =>
        rw [List.forall_mem_cons] at hinner
        obtain ⟨reads', hholds, hreads'⟩ := hinner.1 _ hhead
        obtain ⟨reads, hfounds, hreads⟩ := ih hinner.2
        exact ⟨.message number (encode (nested (name type) founds)) reads' :: reads,
          .cons (.message hkind hholds) hfounds, .cons hreads' hreads⟩
  obtain ⟨reads, hfounds, hreads⟩ := hall
  refine ⟨reads, ?_, ?_⟩
  · unfold FieldSpec.canonical
    simpa only [hkind'] using hfounds
  · have hone : ¬ written.repeated → (reads.filterMap Record.records?).length ≤ 1 := by
      intro hone
      rw [← hreads.length_eq]
      exact FieldSpec.length_merged_le hone _
    unfold FieldSpec.Alike
    simp only [hkind, hmerged]
    rw [FieldSpec.merged_eq_self hone]
    exact hreads

end Fields

/-! ## Agreement by field -/

namespace Agrees

variable {τ σ : Type} {reader : Schema τ} {writer : Schema σ} {budget : Nat} {owner : τ}
  {type : σ} {found read : Record}

theorem direct_or_message (hagrees : Agrees reader writer budget owner type found read) :
    AgreesDirectly reader writer budget owner type found read ∨
      ∃ less number payload payload' founds reads spec written inner inner',
        budget = less + 1 ∧ found = .message number payload founds ∧
        read = .message number payload' reads ∧ reader.field? owner number = some spec ∧
        spec.kind = .message inner ∧ writer.field? type number = some written ∧
        written.kind = .message inner' ∧
        List.Forall₂ (Agrees reader writer less inner inner') founds reads := by
  cases budget with
  | zero => exact Or.inl hagrees.2
  | succ budget =>
      obtain ⟨-, hdirect | ⟨number, payload, payload', founds, reads, spec, written, inner, inner',
        hmessage⟩⟩ := hagrees
      · exact Or.inl hdirect
      · exact Or.inr ⟨budget, number, payload, payload', founds, reads, spec, written,
          inner, inner', rfl, hmessage⟩

theorem kept (hagrees : Agrees reader writer budget owner type found read)
    (hwriter : writer.field? type found.number = none) :
    (∃ bytes, ReadsRaw bytes found) ∧ reader.Interprets budget owner found read := by
  obtain hdirect | ⟨_, _, _, _, _, _, _, _, _, _, -, rfl, -, -, -, hwritten, -⟩ :=
    hagrees.direct_or_message
  · cases hdirect with
    | kept _ hraw hinterprets => exact ⟨hraw, hinterprets⟩
    | passed _ hwritten _ _ => simp [hwriter] at hwritten
    | value _ hwritten _ _ => simp [hwriter] at hwritten
    | group _ hwritten _ _ _ _ _ _ =>
        have hnone : writer.field? type _ = none := hwriter
        simp [Record.number, hwritten] at hnone
  · have hnone : writer.field? type _ = none := hwriter
    simp [Record.number, hwritten] at hnone

theorem shapes (hagrees : Agrees reader writer budget owner type found read)
    {written : FieldSpec σ} (hwriter : writer.field? type found.number = some written)
    (hgroup : ∀ inner, written.kind ≠ .group inner) : written.Shapes found := by
  obtain hdirect | ⟨_, _, _, _, _, _, _, written', _, _, -, rfl, -, -, -, hwritten, hkind, -⟩ :=
    hagrees.direct_or_message
  · cases hdirect with
    | kept hnone _ _ => simp [hwriter] at hnone
    | passed _ hwritten hshapes _ =>
        obtain rfl := Option.some.inj (hwriter.symm.trans hwritten)
        exact hshapes
    | value _ hwritten hshapes _ =>
        obtain rfl := Option.some.inj (hwriter.symm.trans hwritten)
        exact hshapes
    | group _ hwritten hkind _ _ _ _ _ =>
        obtain rfl := Option.some.inj (hwriter.symm.trans hwritten)
        exact absurd hkind (hgroup _)
  · obtain rfl : written = written' := by simpa [Record.number, hwritten] using hwriter.symm
    exact .message hkind

theorem passed (hagrees : Agrees reader writer budget owner type found read)
    (hreader : reader.field? owner found.number = none)
    (hwriter : (writer.field? type found.number).isSome) (hskips : reader.skipsUnknown) :
    0 < budget := by
  obtain hdirect | ⟨_, _, _, _, _, _, spec, _, _, _, -, rfl, -, hread, -⟩ :=
    hagrees.direct_or_message
  · cases hdirect with
    | kept hnone _ _ => simp [hnone] at hwriter
    | passed _ _ _ hbudget => exact hbudget hskips
    | value hread _ _ _ => simp [hreader] at hread
    | group _ _ _ _ hless _ _ _ => omega
  · have hnone : reader.field? owner _ = none := hreader
    simp [Record.number, hread] at hnone

theorem value (hagrees : Agrees reader writer budget owner type found read) {spec : FieldSpec τ}
    (hreader : reader.field? owner found.number = some spec)
    (hvalue : ∀ inner, spec.kind ≠ .message inner)
    (hwriter : (writer.field? type found.number).isSome) : found = read := by
  obtain hdirect | ⟨_, _, _, _, _, _, spec', _, inner, _, -, rfl, -, hread, hkind, -⟩ :=
    hagrees.direct_or_message
  · cases hdirect with
    | kept hnone _ _ => simp [hnone] at hwriter
    | passed hnone _ _ _ => simp [hreader] at hnone
    | value _ _ _ _ => rfl
    | group hnone _ _ _ _ _ _ _ =>
        have hsome : reader.field? owner _ = some spec := hreader
        simp [Record.number, hnone] at hsome
  · obtain rfl : spec = spec' := by simpa [Record.number, hread] using hreader.symm
    exact absurd hkind (hvalue inner)

theorem message (hagrees : Agrees reader writer budget owner type found read)
    {spec : FieldSpec τ} {written : FieldSpec σ} {inner : τ} {inner' : σ}
    (hreader : reader.field? owner found.number = some spec)
    (hkind : spec.kind = .message inner)
    (hwriter : writer.field? type found.number = some written)
    (hkind' : written.kind = .message inner') :
    ∃ less payload payload' founds reads, budget = less + 1 ∧
      found = .message found.number payload founds ∧ read = .message found.number payload' reads ∧
      List.Forall₂ (Agrees reader writer less inner inner') founds reads := by
  obtain hdirect | ⟨less, _, payload, payload', founds, reads, spec', written', _, _, rfl, rfl, rfl,
      hread, hspec, hwritten, hspec', hall⟩ := hagrees.direct_or_message
  · cases hdirect with
    | kept hnone _ _ => simp [hwriter] at hnone
    | passed hnone _ _ _ => simp [hreader] at hnone
    | value hread _ _ hvalue =>
        obtain rfl := Option.some.inj (hreader.symm.trans hread)
        exact absurd hkind (hvalue inner)
    | group hnone _ _ _ _ _ _ _ =>
        have hsome : reader.field? owner _ = some spec := hreader
        simp [Record.number, hnone] at hsome
  · obtain rfl : spec = spec' := by simpa [Record.number, hread] using hreader.symm
    obtain rfl : written = written' := by simpa [Record.number, hwritten] using hwriter.symm
    obtain rfl : inner = _ := by simpa [hkind] using hspec
    obtain rfl : inner' = _ := by simpa [hkind'] using hspec'
    exact ⟨less, payload, payload', founds, reads, rfl, rfl, rfl, hall⟩

/-- Of a group that the writing schema knows the other one finds the raw records. -/
theorem group (hagrees : Agrees reader writer budget owner type found read)
    {written : FieldSpec σ} {inner : σ}
    (hwriter : writer.field? type found.number = some written)
    (hkind : written.kind = .group inner) :
    reader.field? owner found.number = none ∧ writer.HasNoMaps inner ∧
      ∃ less less' body founds raws, budget = less + 1 ∧ less' ≤ nestingLimit ∧
        Record.records? found = some founds ∧ Record.records? read = some raws ∧
        (Schema.blank reader.skipsUnknown).Holds less inner body raws ∧
        writer.Holds less' inner body founds := by
  obtain hdirect | ⟨_, _, _, _, _, _, _, written', _, _, -, rfl, -, -, -, hwritten, hkind', -⟩ :=
    hagrees.direct_or_message
  · cases hdirect with
    | kept hnone _ _ => simp [hwriter] at hnone
    | passed _ hwritten hshapes _ =>
        obtain rfl := Option.some.inj (hwriter.symm.trans hwritten)
        exact absurd hkind (hshapes.ne_group inner)
    | value _ hwritten hshapes _ =>
        obtain rfl := Option.some.inj (hwriter.symm.trans hwritten)
        exact absurd hkind (hshapes.ne_group inner)
    | group hnone hwritten hkind' hmaps hless hraws hbudget hfounds =>
        obtain rfl := Option.some.inj (hwriter.symm.trans hwritten)
        obtain rfl := Kind.group.inj (hkind.symm.trans hkind')
        exact ⟨hnone, hmaps, _, _, _, _, _, hless, hbudget, rfl, rfl, hraws, hfounds⟩
  · obtain rfl : written = written' := by simpa [Record.number, hwritten] using hwriter.symm
    simp [hkind] at hkind'

end Agrees

end ProtoSource.Wire
