import ProtoSource.Proofs.Wire.Rewriting

/-!
# The canonical form read back

What a reader finds in the canonical form of a message, which may be written with another schema.
Each field is read back for itself: one that the writer does not know, one that only the writer
knows, and one that both know.  The induction is on the depth of the records, once for raw records
and then, since a group that only the writer knows is read back raw, for all.
-/

namespace ProtoSource.Wire

open ProtoSource.Related
open Reader

variable {τ σ : Type} {reader : Schema τ} {writer : Schema σ} {name : τ → σ} {on : τ → Prop}

/-- The fields that the writer does not know. -/
def Schema.Misses (writer : Schema σ) (name : τ → σ) (owner : τ) (number : Nat) : Prop :=
  writer.field? (name owner) number = none

/-- What the canonical form has of one field. -/
def Schema.canonicalOwn (writer : Schema σ) (depth : Nat) (owner : σ) (number : Nat)
    (own : List Record) : List Record :=
  match writer.field? owner number with
  | none => own
  | some spec =>
      writer.canonicalField (writer.canonicalTo depth) (writer.canonicalPart depth) spec number own

theorem Schema.canonicalTo_succ (writer : Schema σ) (depth : Nat) (owner : σ)
    (records : List Record) :
    writer.canonicalTo (depth + 1) owner records =
      (Schema.numbersOf (writer.settle owner records)).flatMap fun number =>
        writer.canonicalOwn depth owner number (writer.counting owner number records) := by
  rw [Schema.canonicalTo]
  rfl

/-- Messages that nest less deeply than `depth` read back. -/
def ReadsBack (reader : Schema τ) (writer : Schema σ) (name : τ → σ) (on : τ → Prop)
    (depth : Nat) : Prop :=
  ∀ budget owner founds reads, budget ≤ nestingLimit → on owner → depthOf founds < depth →
    List.Forall₂ (Agrees reader writer budget owner (name owner)) founds reads →
    (encode (writer.canonicalTo depth (name owner) founds)).length < 2 ^ 64 →
    ∃ reads', reader.Holds budget owner
        (encode (writer.canonicalTo depth (name owner) founds)) reads' ∧
      reader.Alike (writer.Misses name) owner reads reads'

theorem forall₂_merged {relation : Record → Record → Prop} (spec : FieldSpec σ)
    {own others : List Record}
    (hall : List.Forall₂ (fun found read => ∃ founds reads, Record.records? found = some founds ∧
      Record.records? read = some reads ∧ List.Forall₂ relation founds reads) own others) :
    List.Forall₂ (List.Forall₂ relation) (spec.merged (own.filterMap Record.records?))
      (spec.merged (others.filterMap Record.records?)) := by
  have hmessages : List.Forall₂ (List.Forall₂ relation) (own.filterMap Record.records?)
      (others.filterMap Record.records?) := by
    induction hall with
    | nil => exact .nil
    | cons hhead _ ih =>
        obtain ⟨founds, reads, hfounds, hreads, hrelation⟩ := hhead
        rw [List.filterMap_cons_some hfounds, List.filterMap_cons_some hreads]
        exact .cons hrelation ih
  unfold FieldSpec.merged
  split
  · exact hmessages
  · generalize own.filterMap Record.records? = lefts at hmessages ⊢
    generalize others.filterMap Record.records? = rights at hmessages ⊢
    cases hmessages with
    | nil => exact .nil
    | cons hhead htail => exact .cons (List.rel_flatten (.cons hhead htail)) .nil

theorem depthOf_lt_of_mem_merged (spec : FieldSpec σ) {own : List Record} {depth : Nat}
    (hdepth : depthOf own < depth + 1) {founds : List Record}
    (hmem : founds ∈ spec.merged (own.filterMap Record.records?)) : depthOf founds < depth := by
  have hinner : ∀ inner ∈ own.filterMap Record.records?, depthOf inner + 1 ≤ depth := by
    intro inner hmem
    obtain ⟨record, hrecord, hrecords⟩ := List.mem_filterMap.1 hmem
    have hrecordDepth := depthOf_le_iff.1 (Nat.le_of_lt_succ hdepth) record hrecord
    cases record with
    | message _ _ _ =>
        obtain rfl := Option.some.inj hrecords
        rwa [depthOfRecord] at hrecordDepth
    | group _ _ =>
        obtain rfl := Option.some.inj hrecords
        rwa [depthOfRecord] at hrecordDepth
    | _ => simp [Record.records?] at hrecords
  unfold FieldSpec.merged at hmem
  split at hmem
  · exact hinner founds hmem
  · split at hmem
    · simp at hmem
    · next hsome =>
        rw [List.mem_singleton] at hmem
        subst hmem
        have hpos : 0 < depth := by
          obtain ⟨inner, hinnerMem⟩ := List.exists_mem_of_ne_nil _ hsome
          have hle := hinner inner hinnerMem
          omega
        refine Nat.lt_of_le_pred hpos (depthOf_le_iff.2 fun record hrecord => ?_)
        obtain ⟨inner, hinnerMem, hrecord⟩ := List.mem_flatten.1 hrecord
        have hle := hinner inner hinnerMem
        exact depthOf_le_iff.1 (Nat.le_pred_of_lt hle) record hrecord

/-- What is written for `found` is read as `read`. -/
def Schema.ReadsAs (reader : Schema τ) (budget : Nat) (owner : τ) (found read : Record) : Prop :=
  ∃ raw, ReadsRaw (encodeRecord found) raw ∧ reader.Interprets budget owner raw read

theorem holds_encode_of_readsAs {owner : τ} (hflat : reader.IsFlat owner) {budget : Nat}
    {outs reads : List Record} (hall : List.Forall₂ (reader.ReadsAs budget owner) outs reads) :
    reader.Holds budget owner (encode outs) reads := by
  induction hall with
  | nil => exact Steps.nil
  | cons hread _ ih =>
      obtain ⟨raw, hraw, hinterprets⟩ := hread
      exact Steps.cons (Schema.reads_step hflat hraw hinterprets) ih

/-- `outs` is written for a field whose records were read as `others`, and it is
read as `reads`. -/
structure FieldReads (reader : Schema τ) (writer : Schema σ) (name : τ → σ) (budget : Nat)
    (owner : τ) (number : Nat) (outs others reads : List Record) : Prop where
  read : List.Forall₂ (reader.ReadsAs budget owner) outs reads
  numbers : ∀ read ∈ reads, read.number = number
  alike : ∀ spec, reader.field? owner number = some spec →
    spec.Alike (reader.Alike (writer.Misses name)) others reads
  kept : reader.field? owner number = none → writer.Misses name owner number → others = reads

section Field

variable {budget : Nat} {owner : τ} {number : Nat} {own others : List Record}

/-- A field that the writer does not know is kept as it is. -/
theorem fieldReads_missed (hwriter : writer.Misses name owner number)
    (hnumber : ∀ found ∈ own, found.number = number)
    (hagrees : List.Forall₂ (Agrees reader writer budget owner (name owner)) own others) :
    FieldReads reader writer name budget owner number own others others where
  read := forall₂_imp_of_mem (fun found hmem read _ hagree => by
    obtain ⟨⟨bytes, hraw⟩, hinterprets⟩ := hagree.kept (by rwa [hnumber found hmem])
    exact ⟨found.flat, hraw.writable, by rwa [hraw.flat_eq]⟩) hagrees
  numbers read hmem := by
    obtain ⟨found, hfound, hagree⟩ := forall₂_exists_of_mem hagrees.flip hmem
    rw [← hagree.number_eq, hnumber found hfound]
  alike spec _ := FieldSpec.Alike.refl spec (Schema.Alike.refl _) others
  kept _ _ := rfl

variable {written : FieldSpec σ} {nested : σ → List Record → List Record}

theorem writable_of_mem_canonical (hgroup : ∀ type, written.kind ≠ .group type)
    (hshapes : ∀ found ∈ own, written.Shapes found) (hnumber : IsFieldNumber number)
    (hlength : ∀ found ∈ written.canonical nested number own,
      (encodeRecord found).length < 2 ^ 64) :
    ∀ found ∈ written.canonical nested number own, found.Writable ∧ found.number = number := by
  intro found hmem
  obtain ⟨hshape, hsame⟩ := FieldSpec.shapes_of_mem_canonical hgroup hshapes hmem
  exact ⟨hshape.writable (by rwa [hsame]) (hlength found hmem), hsame⟩

/-- A field that only the writer knows stays unknown to the reader. -/
theorem fieldReads_passed (hwriter : writer.field? (name owner) number = some written)
    (hreader : reader.field? owner number = none) (hskips : reader.skipsUnknown → 0 < budget)
    (hgroup : ∀ type, written.kind ≠ .group type)
    (hshapes : ∀ found ∈ own, written.Shapes found) (hnumber : IsFieldNumber number)
    (hlength : ∀ found ∈ written.canonical nested number own,
      (encodeRecord found).length < 2 ^ 64) :
    FieldReads reader writer name budget owner number (written.canonical nested number own) others
      ((written.canonical nested number own).map Record.flat) where
  read := by
    refine List.forall₂_map_right_iff.2 (List.forall₂_same.2 fun found hmem => ?_)
    obtain ⟨hwritable, hsame⟩ := writable_of_mem_canonical hgroup hshapes hnumber hlength found hmem
    obtain ⟨hflat, hpass⟩ := (FieldSpec.shapes_of_mem_canonical hgroup hshapes hmem).1.depth_flat
    refine ⟨found.flat, hwritable, .unknown (by rw [Record.number_flat, hsame, hreader]) ?_⟩
    unfold Schema.Passes
    split
    · next hpasses =>
        rw [hpass]
        exact hskips hpasses
    · simp [hflat]
  numbers := by
    rw [List.forall_mem_map]
    intro found hmem
    rw [Record.number_flat, (FieldSpec.shapes_of_mem_canonical hgroup hshapes hmem).2]
  alike spec hspec := by simp [hreader] at hspec
  kept _ hmisses := by simp [Schema.Misses, hwriter] at hmisses

variable {spec : FieldSpec τ}

/-- A field that both know reads back if its values do. -/
theorem fieldReads_known (hfirst : reader.skipsFirst owner = false)
    (hreader : reader.field? owner number = some spec)
    (hgroup : ∀ type, written.kind ≠ .group type)
    (hshapes : ∀ found ∈ own, written.Shapes found) (hnumber : IsFieldNumber number)
    (hlength : ∀ found ∈ written.canonical nested number own,
      (encodeRecord found).length < 2 ^ 64) {reads : List Record}
    (hmeans : List.Forall₂ (fun found read => reader.Means spec budget (Record.flat found) read)
      (written.canonical nested number own) reads)
    (halike : spec.Alike (reader.Alike (writer.Misses name)) others reads) :
    FieldReads reader writer name budget owner number (written.canonical nested number own) others
      reads where
  read := forall₂_imp_of_mem (fun found hmem read _ hmeans => by
    obtain ⟨hwritable, hsame⟩ := writable_of_mem_canonical hgroup hshapes hnumber hlength found hmem
    exact ⟨found.flat, hwritable,
      .known (by rw [Record.number_flat, hsame, hreader]) (by simp [hfirst]) hmeans⟩) hmeans
  numbers read hmem := by
    obtain ⟨found, hfound, hmeans⟩ := forall₂_exists_of_mem hmeans.flip hmem
    rw [hmeans.number_eq, Record.number_flat,
      (FieldSpec.shapes_of_mem_canonical hgroup hshapes hfound).2]
  alike spec' hspec := by
    obtain rfl := Option.some.inj (hreader.symm.trans hspec)
    exact halike
  kept hnone := by simp [hreader] at hnone

/-- The messages of a field that both know read back. -/
theorem exists_reads_known_message {depth : Nat} (hinner : ReadsBack reader writer name on depth)
    (hbudget : budget ≤ nestingLimit) {type : τ} (htype : on type)
    (hreader : reader.field? owner number = some spec)
    (hwriter : writer.field? (name owner) number = some written)
    (hfits : spec.Fits name written) (hkind : spec.kind = .message type)
    (hsome : own ≠ []) (hnumber : ∀ found ∈ own, found.number = number)
    (hdepth : depthOf own < depth + 1)
    (hagrees : List.Forall₂ (Agrees reader writer budget owner (name owner)) own others)
    (hlength : ∀ found ∈ written.canonical (writer.canonicalTo depth) number own,
      (encodeRecord found).length < 2 ^ 64) :
    ∃ reads, List.Forall₂ (fun found read => reader.Means spec budget (Record.flat found) read)
        (written.canonical (writer.canonicalTo depth) number own) reads ∧
      spec.Alike (reader.Alike (writer.Misses name)) others reads := by
  have hkind' : written.kind = .message (name type) := by
    rw [hfits.kind, hkind, Kind.map]
  have hmessages (found read : Record) (hmem : found ∈ own)
      (hagree : Agrees reader writer budget owner (name owner) found read) :=
    hagree.message (by rw [hnumber found hmem, hreader]) hkind
      (by rw [hnumber found hmem, hwriter]) hkind'
  obtain ⟨less, rfl⟩ : ∃ less, budget = less + 1 := by
    obtain ⟨first, hfirst⟩ := List.exists_mem_of_ne_nil own hsome
    obtain ⟨read, -, hagree⟩ := forall₂_exists_of_mem hagrees hfirst
    obtain ⟨less, _, _, _, _, hless, -⟩ := hmessages first read hfirst hagree
    exact ⟨less, hless⟩
  have hall : List.Forall₂ (fun found read => ∃ founds reads,
      Record.records? found = some founds ∧ Record.records? read = some reads ∧
      List.Forall₂ (Agrees reader writer less type (name type)) founds reads) own others := by
    refine forall₂_imp_of_mem (fun found hmem read _ hagree => ?_) hagrees
    obtain ⟨less', _, _, founds, reads, hless, hfound, hread, hall⟩ :=
      hmessages found read hmem hagree
    obtain rfl : less = less' := by omega
    exact ⟨founds, reads, by rw [hfound, Record.records?], by rw [hread, Record.records?], hall⟩
  refine exists_reads_message hfits hkind (forall₂_merged written hall) ?_
  intro founds hfounds reads hreads
  refine hinner less type founds reads (by omega) htype
    (depthOf_lt_of_mem_merged written hdepth hfounds) hreads ?_
  have hmem : Record.embed number (writer.canonicalTo depth (name type) founds) ∈
      written.canonical (writer.canonicalTo depth) number own := by
    unfold FieldSpec.canonical
    simp only [hkind']
    exact List.mem_map_of_mem hfounds
  have hrecord := hlength _ hmem
  have hpayload := length_le_encodeDelimited (encode (writer.canonicalTo depth (name type) founds))
  rw [Record.embed, encodeRecord, List.length_append] at hrecord
  omega

/-- A group that only the writer knows is read back as raw records. -/
theorem exists_fieldReads_group {depth : Nat} {inner : σ}
    (hgroups : ReadsBack (Schema.blank reader.skipsUnknown) writer id writer.HasNoMaps depth)
    (hbudget : budget ≤ nestingLimit) (hwriter : writer.field? (name owner) number = some written)
    (hkind : written.kind = .group inner) (hsome : own ≠ [])
    (hnumber : ∀ found ∈ own, found.number = number) (hdepth : depthOf own < depth + 1)
    (hfound : ∀ found ∈ own, ∃ read, Agrees reader writer budget owner (name owner) found read)
    (hlength : ∀ found ∈ written.canonical (writer.canonicalTo depth) number own,
      (encodeRecord found).length < 2 ^ 64) :
    ∃ reads, FieldReads reader writer name budget owner number
      (written.canonical (writer.canonicalTo depth) number own) others reads := by
  have hgroup (found read : Record) (hmem : found ∈ own)
      (hagree : Agrees reader writer budget owner (name owner) found read) :=
    hagree.group (by rw [hnumber found hmem, hwriter]) hkind
  obtain ⟨first, hfirst⟩ := List.exists_mem_of_ne_nil own hsome
  obtain ⟨firstRead, hfirstAgrees⟩ := hfound first hfirst
  have hfieldNumber := hfirstAgrees.isFieldNumber
  obtain ⟨hreader, hmaps, less, -, -, -, -, rfl, -⟩ := hgroup first firstRead hfirst hfirstAgrees
  rw [hnumber first hfirst] at hreader hfieldNumber
  obtain ⟨raws, hraws⟩ := exists_forall₂ hfound
  have hall : List.Forall₂ (fun found read => ∃ founds reads,
      Record.records? found = some founds ∧ Record.records? read = some reads ∧
      List.Forall₂ (Agrees (Schema.blank reader.skipsUnknown) writer less inner inner) founds reads)
      own raws := by
    refine forall₂_imp_of_mem (fun found hmem read _ hagree => ?_) hraws
    obtain ⟨-, -, less', budget', _, founds, reads, hless, hbudget', hfounds, hreads, hblank,
      hholds⟩ := hgroup found read hmem hagree
    obtain rfl : less = less' := by omega
    exact ⟨founds, reads, hfounds, hreads,
      agrees_of_holds (Schema.keeps_blank _ writer) (by omega) hbudget' hmaps hblank hholds⟩
  have hread : ∀ found ∈ written.canonical (writer.canonicalTo depth) number own,
      ∃ read, reader.ReadsAs (less + 1) owner found read ∧ read.number = number := by
    intro found hmem
    have hbody := hlength found hmem
    simp only [FieldSpec.canonical, hkind] at hmem
    obtain ⟨founds, hfounds, rfl⟩ := List.mem_map.1 hmem
    rw [encodeRecord, List.length_append, List.length_append] at hbody
    obtain ⟨reads, -, hagree⟩ := forall₂_exists_of_mem (forall₂_merged written hall) hfounds
    obtain ⟨reads', hreads', -⟩ := hgroups less inner founds reads (by omega) hmaps
      (depthOf_lt_of_mem_merged written hdepth hfounds) hagree (by simp only [id]; omega)
    have hshallow := Schema.depthOf_le_of_holds_blank (by omega) hreads'
    obtain ⟨hraw, hpasses⟩ := (Schema.holds_blank_iff (by omega)).1 hreads'
    exact ⟨.group number reads', ⟨_, hraw.readsRaw_group hfieldNumber (by omega),
      .unknown hreader (Schema.passes_group_iff.2 ⟨less, rfl, hpasses⟩)⟩, rfl⟩
  obtain ⟨reads, hreads⟩ := exists_forall₂ hread
  refine ⟨reads, hreads.imp fun _ _ => And.left, fun read hmem => ?_, ?_, ?_⟩
  · obtain ⟨found, -, -, hsame⟩ := forall₂_exists_of_mem hreads.flip hmem
    exact hsame
  · intro spec hspec
    simp [hreader] at hspec
  · intro _ hmisses
    simp [Schema.Misses, hwriter] at hmisses

/-- A field that both know reads back. -/
theorem exists_fieldReads_known (hkeeps : reader.Keeps writer name on) {depth : Nat}
    (hinner : ReadsBack reader writer name on depth) (hbudget : budget ≤ nestingLimit)
    (howner : on owner) (hreader : reader.field? owner number = some spec)
    (hwriter : writer.field? (name owner) number = some written)
    (hgroup : ∀ type, written.kind ≠ .group type) (hsome : own ≠ [])
    (hshapes : ∀ found ∈ own, written.Shapes found) (hfieldNumber : IsFieldNumber number)
    (hnumber : ∀ found ∈ own, found.number = number) (hdepth : depthOf own < depth + 1)
    (hagrees : List.Forall₂ (Agrees reader writer budget owner (name owner)) own others)
    (hlength : ∀ found ∈ written.canonical (writer.canonicalTo depth) number own,
      (encodeRecord found).length < 2 ^ 64) :
    ∃ reads, FieldReads reader writer name budget owner number
      (written.canonical (writer.canonicalTo depth) number own) others reads := by
  have hfits := hkeeps.fits owner howner _ _ _ hreader hwriter
  suffices hreads : ∃ reads,
      List.Forall₂ (fun found read => reader.Means spec budget (Record.flat found) read)
        (written.canonical (writer.canonicalTo depth) number own) reads ∧
      spec.Alike (reader.Alike (writer.Misses name)) others reads by
    obtain ⟨reads, hmeans, halike⟩ := hreads
    exact ⟨reads, fieldReads_known (hkeeps.first owner) hreader hgroup hshapes hfieldNumber
      hlength hmeans halike⟩
  by_cases hmessage : ∃ type, spec.kind = .message type
  · obtain ⟨type, htype⟩ := hmessage
    exact exists_reads_known_message hinner hbudget
      (hkeeps.closed owner howner _ _ _ _ hreader hwriter htype) hreader hwriter hfits htype
      hsome hnumber hdepth hagrees hlength
  · have hvalue : ∀ inner, spec.kind ≠ .message inner :=
      fun inner hinner => hmessage ⟨inner, hinner⟩
    have hsame : own = others := by
      refine List.forall₂_eq_eq_eq ▸
        forall₂_imp_of_mem (fun found hmem read _ hagree => ?_) hagrees
      exact hagree.value (by rw [hnumber found hmem, hreader]) hvalue
        (by simp [hnumber found hmem, hwriter])
    subst hsame
    cases hkind : spec.kind with
    | scalar scalar => exact exists_reads_scalar hfits hkind hshapes
    | text => exact exists_reads_text hfits hkind
    | bytes => exact exists_reads_bytes hfits hkind
    | message type => exact absurd hkind (hvalue type)
    | group type => exact absurd hkind ((hkeeps.flatReader owner howner _ _ hreader).2 type)

/-- Every field reads back. -/
theorem exists_fieldReads (hkeeps : reader.Keeps writer name on) {depth : Nat}
    (hinner : ReadsBack reader writer name on depth)
    (hgroups : ReadsBack (Schema.blank reader.skipsUnknown) writer id writer.HasNoMaps depth)
    (hbudget : budget ≤ nestingLimit)
    (howner : on owner) (hsome : own ≠ []) (hnumber : ∀ found ∈ own, found.number = number)
    (hdepth : depthOf own < depth + 1)
    (hfound : ∀ found ∈ own, ∃ read, Agrees reader writer budget owner (name owner) found read)
    (hagrees : (reader.field? owner number).isSome ∨ writer.Misses name owner number →
      List.Forall₂ (Agrees reader writer budget owner (name owner)) own others)
    (hlength : ∀ found ∈ writer.canonicalOwn depth (name owner) number own,
      (encodeRecord found).length < 2 ^ 64) :
    ∃ reads, FieldReads reader writer name budget owner number
      (writer.canonicalOwn depth (name owner) number own) others reads := by
  cases hwriter : writer.field? (name owner) number with
  | none =>
      simp only [Schema.canonicalOwn, hwriter]
      exact ⟨others, fieldReads_missed hwriter hnumber (hagrees (Or.inr hwriter))⟩
  | some written =>
      have hentry := (hkeeps.noMaps owner howner).entry?_eq_none hwriter
      have hout : writer.canonicalOwn depth (name owner) number own =
          written.canonical (writer.canonicalTo depth) number own := by
        simp only [Schema.canonicalOwn, hwriter, Schema.canonicalField, hentry]
      rw [hout] at hlength ⊢
      by_cases hkind : ∃ inner, written.kind = .group inner
      · obtain ⟨inner, hkind⟩ := hkind
        exact exists_fieldReads_group hgroups hbudget hwriter hkind hsome hnumber hdepth
          hfound hlength
      have hgroup : ∀ inner, written.kind ≠ .group inner :=
        fun inner hinner => hkind ⟨inner, hinner⟩
      obtain ⟨first, hfirst⟩ := List.exists_mem_of_ne_nil own hsome
      obtain ⟨firstRead, hfirstAgrees⟩ := hfound first hfirst
      have hfieldNumber : IsFieldNumber number := by
        rw [← hnumber first hfirst]
        exact hfirstAgrees.isFieldNumber
      have hshapes : ∀ found ∈ own, written.Shapes found := by
        intro found hmem
        obtain ⟨read, hagree⟩ := hfound found hmem
        exact hagree.shapes (by rw [hnumber found hmem, hwriter]) hgroup
      cases hreader : reader.field? owner number with
      | none =>
          refine ⟨_, fieldReads_passed hwriter hreader ?_ hgroup hshapes hfieldNumber hlength⟩
          exact hfirstAgrees.passed (by rw [hnumber first hfirst, hreader])
            (by simp [hnumber first hfirst, hwriter])
      | some spec =>
          exact exists_fieldReads_known hkeeps hinner hbudget howner hreader hwriter hgroup hsome
            hshapes hfieldNumber hnumber hdepth (hagrees (Or.inl (by simp [hreader]))) hlength

end Field

theorem forall₂_flatMap {α β ι : Type} {relation : α → β → Prop} {indices : List ι}
    {lefts : ι → List α} {rights : ι → List β}
    (hall : ∀ index ∈ indices, List.Forall₂ relation (lefts index) (rights index)) :
    List.Forall₂ relation (indices.flatMap lefts) (indices.flatMap rights) := by
  induction indices with
  | nil => exact .nil
  | cons index rest ih =>
      rw [List.forall_mem_cons] at hall
      exact List.rel_append hall.1 (ih hall.2)

theorem Schema.Keeps.excludes_iff (hkeeps : reader.Keeps writer name on) {owner : τ}
    (howner : on owner) {number : Nat}
    (hnumber : (reader.field? owner number).isSome ∨ writer.Misses name owner number)
    (later : Nat) :
    writer.Excludes (name owner) number later ↔ reader.Excludes owner number later := by
  by_cases hreader : (reader.field? owner number).isSome
  · exact hkeeps.excludes owner howner number hreader later
  · have hwriter : writer.field? (name owner) number = none := hnumber.resolve_left hreader
    rw [Option.not_isSome_iff_eq_none] at hreader
    simp [Schema.Excludes, Schema.choice?, hwriter, hreader]

section Together

variable {owner : τ} {founds reads : List Record} {fields : Nat → List Record} {budget : Nat}

/-- Of the fields of a message that was written, none supersedes another. -/
theorem Schema.Keeps.settle_flatMap (hkeeps : reader.Keeps writer name on) (howner : on owner)
    (hnumbers : ∀ number ∈ Schema.numbersOf (writer.settle (name owner) founds),
      ∀ read ∈ fields number, read.number = number) :
    reader.settle owner ((Schema.numbersOf (writer.settle (name owner) founds)).flatMap fields) =
      (Schema.numbersOf (writer.settle (name owner) founds)).flatMap fields := by
  refine Schema.settle_eq_self fun read hread other hother hexcludes => ?_
  obtain ⟨number, hnumber, hread⟩ := List.mem_flatMap.1 hread
  obtain ⟨number', hnumber', hother⟩ := List.mem_flatMap.1 hother
  rw [hnumbers number hnumber read hread, hnumbers number' hnumber' other hother] at hexcludes
  have hknown : (reader.field? owner number).isSome := by
    have hchoice := hexcludes.1
    unfold Schema.choice? at hchoice
    cases hfield : reader.field? owner number with
    | none => simp [hfield] at hchoice
    | some spec => rfl
  obtain ⟨found, hfound, rfl⟩ := Schema.mem_numbersOf.1 hnumber
  obtain ⟨found', hfound', rfl⟩ := Schema.mem_numbersOf.1 hnumber'
  refine Schema.not_excludes_of_mem_settle hfound hfound' ?_
  exact (hkeeps.excludes owner howner _ hknown _).2 hexcludes

theorem Schema.Keeps.counting_flatMap (hkeeps : reader.Keeps writer name on) (howner : on owner)
    (hnumbers : ∀ number ∈ Schema.numbersOf (writer.settle (name owner) founds),
      ∀ read ∈ fields number, read.number = number) (number : Nat) :
    reader.counting owner number
        ((Schema.numbersOf (writer.settle (name owner) founds)).flatMap fields) =
      if number ∈ Schema.numbersOf (writer.settle (name owner) founds) then fields number
      else [] := by
  unfold Schema.counting
  rw [hkeeps.settle_flatMap howner hnumbers]
  exact Records.own_flatMap (Schema.nodup_numbersOf _) hnumbers number

/-- A field that is not written had no records that count. -/
theorem Schema.Keeps.counting_eq_nil (hkeeps : reader.Keeps writer name on) (howner : on owner)
    (hall : List.Forall₂ (Agrees reader writer budget owner (name owner)) founds reads)
    {number : Nat}
    (hnumber : (reader.field? owner number).isSome ∨ writer.Misses name owner number)
    (hmem : number ∉ Schema.numbersOf (writer.settle (name owner) founds)) :
    reader.counting owner number reads = [] := by
  have hown : Records.own number (writer.settle (name owner) founds) = [] := by
    refine List.filter_eq_nil_iff.2 fun found hfound hsame => hmem ?_
    exact Schema.mem_numbersOf.2 ⟨found, hfound, by simpa using hsame⟩
  have hagree := Schema.forall₂_own_settle (fun _ _ => Agrees.number_eq)
    (hkeeps.excludes_iff howner hnumber) hall
  rw [hown] at hagree
  exact List.forall₂_nil_left_iff.1 hagree

/-- The fields that were read back, put together, are alike the original. -/
theorem alike_flatMap (hkeeps : reader.Keeps writer name on) (howner : on owner)
    (hall : List.Forall₂ (Agrees reader writer budget owner (name owner)) founds reads)
    {outs : Nat → List Record}
    (hfields : ∀ number ∈ Schema.numbersOf (writer.settle (name owner) founds),
      FieldReads reader writer name budget owner number (outs number)
        (reader.counting owner number reads) (fields number)) :
    reader.Alike (writer.Misses name) owner reads
      ((Schema.numbersOf (writer.settle (name owner) founds)).flatMap fields) := by
  have hcounting := hkeeps.counting_flatMap howner fun number hnumber =>
    (hfields number hnumber).numbers
  refine Schema.alike_iff.2 ⟨fun number spec hspec => ?_, fun number hnone hmisses => ?_⟩
  · rw [hcounting]
    split_ifs with hmem
    · exact (hfields number hmem).alike spec hspec
    · rw [hkeeps.counting_eq_nil howner hall (Or.inl (by simp [hspec])) hmem]
      exact FieldSpec.Alike.refl spec (Schema.Alike.refl _) []
  · rw [hcounting]
    split_ifs with hmem
    · exact (hfields number hmem).kept hnone hmisses
    · exact hkeeps.counting_eq_nil howner hall (Or.inr hmisses) hmem

end Together

theorem depthOf_mono {records others : List Record} (hsub : ∀ record ∈ records, record ∈ others) :
    depthOf records ≤ depthOf others :=
  depthOf_le_iff.2 fun record hrecord =>
    depthOf_le_iff.1 (Nat.le_refl _) record (hsub record hrecord)

theorem readsBack_succ (hkeeps : reader.Keeps writer name on) {depth : Nat}
    (hinner : ReadsBack reader writer name on depth)
    (hgroups : ReadsBack (Schema.blank reader.skipsUnknown) writer id writer.HasNoMaps depth) :
    ReadsBack reader writer name on (depth + 1) := by
  intro budget owner founds reads hbudget howner hdepth hall hlength
  rw [Schema.canonicalTo_succ] at hlength ⊢
  have hcounted (number : Nat) :
      ∀ found ∈ writer.counting (name owner) number founds, found ∈ founds := fun found hmem =>
    Schema.mem_of_mem_settle (List.mem_filter.1 hmem).1
  have hfields : ∀ number, ∃ fieldReads,
      number ∈ Schema.numbersOf (writer.settle (name owner) founds) →
        FieldReads reader writer name budget owner number
          (writer.canonicalOwn depth (name owner) number
            (writer.counting (name owner) number founds))
          (reader.counting owner number reads) fieldReads := by
    intro number
    by_cases hnumber : number ∈ Schema.numbersOf (writer.settle (name owner) founds)
    swap
    · exact ⟨[], fun hmem => absurd hmem hnumber⟩
    suffices hfield : ∃ fieldReads, FieldReads reader writer name budget owner number
        (writer.canonicalOwn depth (name owner) number
          (writer.counting (name owner) number founds))
        (reader.counting owner number reads) fieldReads by
      obtain ⟨fieldReads, hfieldReads⟩ := hfield
      exact ⟨fieldReads, fun _ => hfieldReads⟩
    refine exists_fieldReads hkeeps hinner hgroups hbudget howner ?_
      (fun found => Records.number_eq_of_mem_own) ?_ ?_ ?_ ?_
    · obtain ⟨found, hfound, hsame⟩ := Schema.mem_numbersOf.1 hnumber
      exact List.ne_nil_of_mem (List.mem_filter.2 ⟨hfound, by simpa using hsame⟩)
    · exact Nat.lt_of_le_of_lt (depthOf_mono (hcounted number)) hdepth
    · intro found hmem
      obtain ⟨read, -, hagree⟩ := forall₂_exists_of_mem hall (hcounted number found hmem)
      exact ⟨read, hagree⟩
    · intro hknown
      exact Schema.forall₂_own_settle (fun _ _ => Agrees.number_eq)
        (hkeeps.excludes_iff howner hknown) hall
    · intro found hmem
      refine Nat.lt_of_le_of_lt (length_encodeRecord_le ?_) hlength
      exact List.mem_flatMap.2 ⟨number, hnumber, hmem⟩
  choose fields hfields using hfields
  refine ⟨(Schema.numbersOf (writer.settle (name owner) founds)).flatMap fields, ?_, ?_⟩
  · exact holds_encode_of_readsAs (hkeeps.flatReader owner howner)
      (forall₂_flatMap fun number hnumber => (hfields number hnumber).read)
  · exact alike_flatMap hkeeps howner hall hfields

/-- Raw records read back from the canonical form under the writer. -/
theorem readsBack_blank (skips : Bool) (writer : Schema σ) (depth : Nat) :
    ReadsBack (Schema.blank skips) writer id writer.HasNoMaps depth := by
  induction depth with
  | zero =>
      intro budget owner founds reads _ _ hdepth
      omega
  | succ depth ih => exact readsBack_succ (Schema.keeps_blank skips writer) ih ih

/-- What was read under the reader reads back from the canonical form under the
writer. -/
theorem readsBack (hkeeps : reader.Keeps writer name on) (depth : Nat) :
    ReadsBack reader writer name on depth := by
  induction depth with
  | zero =>
      intro budget owner founds reads _ _ hdepth
      omega
  | succ depth ih => exact readsBack_succ hkeeps ih (readsBack_blank _ writer depth)

/-- The reader finds in the canonical form under the writer what it finds in the
original. -/
theorem holds_canonical (hkeeps : reader.Keeps writer name on) {budget : Nat}
    (hbudget : budget ≤ nestingLimit) {owner : τ} (howner : on owner) {founds reads : List Record}
    (hall : List.Forall₂ (Agrees reader writer budget owner (name owner)) founds reads)
    (hlength : (encode (writer.canonical (name owner) founds)).length < 2 ^ 64) :
    ∃ reads', reader.Holds budget owner (encode (writer.canonical (name owner) founds)) reads' ∧
      reader.Alike (writer.Misses name) owner reads reads' :=
  readsBack hkeeps _ budget owner founds reads hbudget howner (Nat.lt_succ_self _) hall hlength

end ProtoSource.Wire
