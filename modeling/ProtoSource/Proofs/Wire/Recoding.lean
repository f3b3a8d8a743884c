import ProtoSource.Proofs.Wire.Groups
import ProtoSource.Proofs.Wire.Likeness
import ProtoSource.Proofs.Wire.Scalars

/-!
# Reading a canonical form under another schema

A message is read under one schema and written in canonical form; another schema
reads the result.  If the first schema describes what it shares with the second
in the same way, the second finds the same message as before.  The proof follows
both readings of the original side by side: `Agrees` relates the record that the
writing schema found to the one that the reading schema found.
-/

namespace ProtoSource.Wire

open ProtoSource.Related
open Reader

/-! ## Schemas that fit together -/

/-- The same kind for other names of message types. -/
def Kind.map {τ σ : Type} (name : τ → σ) : Kind τ → Kind σ
  | .scalar number => .scalar number
  | .text => .text
  | .bytes => .bytes
  | .message type => .message (name type)
  | .group type => .group (name type)

/-- A field is written as `writer` so that a reader of `reader` loses nothing. -/
structure FieldSpec.Fits {τ σ : Type} (name : τ → σ) (reader : FieldSpec τ)
    (writer : FieldSpec σ) : Prop where
  kind : writer.kind = reader.kind.map name
  repeated : writer.repeated = reader.repeated
  presence : reader.repeated ∨ writer.presence ∨
    reader.presence = false ∧ reader.default? = none ∧ writer.default? = none

namespace Schema

variable {τ σ : Type}

/-- On the types in `on`, whose messages `writer` calls by `name`, canonical
forms under `writer` keep what `reader` knows. -/
structure Keeps (reader : Schema τ) (writer : Schema σ) (name : τ → σ) (on : τ → Prop) :
    Prop where
  flatReader : ∀ owner, on owner → reader.IsFlat owner
  noMaps : ∀ owner, on owner → writer.HasNoMaps (name owner)
  first : ∀ owner, reader.skipsFirst owner = false
  fits : ∀ owner, on owner → ∀ number spec written, reader.field? owner number = some spec →
    writer.field? (name owner) number = some written → spec.Fits name written
  closed : ∀ owner, on owner → ∀ number spec written type,
    reader.field? owner number = some spec →
    writer.field? (name owner) number = some written → spec.kind = .message type → on type
  excludes : ∀ owner, on owner → ∀ number, (reader.field? owner number).isSome →
    ∀ later, writer.Excludes (name owner) number later ↔ reader.Excludes owner number later

/-- Whatever is not a map is written so that nothing raw is lost. -/
theorem keeps_blank (skips : Bool) (writer : Schema σ) :
    (blank skips).Keeps writer id writer.HasNoMaps where
  flatReader owner _ := isFlat_blank skips owner
  noMaps _ hmaps := hmaps
  first _ := rfl
  fits _ _ _ _ _ hreader := by simp [blank] at hreader
  closed _ _ _ _ _ _ hreader := by simp [blank] at hreader
  excludes _ _ _ hknown := by simp [blank] at hknown

end Schema

/-! ## Records of known fields -/

/-- A record that a known field can have. -/
inductive FieldSpec.Shapes {σ : Type} (spec : FieldSpec σ) : Record → Prop where
  | scalar {scalar : Scalar} {number value : Nat} :
      spec.kind = .scalar scalar → value < scalar.bound →
        spec.Shapes (scalar.wireRecord number value)
  | packed {scalar : Scalar} {number : Nat} {payload : Bytes} {values : List Nat} :
      spec.kind = .scalar scalar → spec.repeated → (∀ value ∈ values, value < scalar.bound) →
        spec.Shapes (.packed number payload values)
  | text {number : Nat} {value : String} : spec.kind = .text → spec.Shapes (.text number value)
  | bytes {number : Nat} {value : Bytes} : spec.kind = .bytes → spec.Shapes (.bytes number value)
  | message {number : Nat} {type : σ} {payload : Bytes} {records : List Record} :
      spec.kind = .message type → spec.Shapes (.message number payload records)

section

variable {τ σ : Type} (reader : Schema τ) (writer : Schema σ)

/-- The record `found` of the writing schema and the record `read` of the reading
schema come from one field, unless both are messages.  In a group that only the
writing schema knows, the other one finds raw records. -/
inductive AgreesDirectly (budget : Nat) (owner : τ) (type : σ) : Record → Record → Prop where
  | kept {found read : Record} :
      writer.field? type found.number = none → (∃ bytes, ReadsRaw bytes found) →
        reader.Interprets budget owner found read →
        AgreesDirectly budget owner type found read
  | passed {found : Record} {written : FieldSpec σ} :
      reader.field? owner found.number = none →
        writer.field? type found.number = some written → written.Shapes found →
        (reader.skipsUnknown → 0 < budget) →
        AgreesDirectly budget owner type found found.flat
  | value {found : Record} {spec : FieldSpec τ} {written : FieldSpec σ} :
      reader.field? owner found.number = some spec →
        writer.field? type found.number = some written → written.Shapes found →
        (∀ inner, spec.kind ≠ .message inner) →
        AgreesDirectly budget owner type found found
  | group {less less' number : Nat} {written : FieldSpec σ} {inner : σ} {body : Bytes}
      {founds raws : List Record} :
      reader.field? owner number = none → writer.field? type number = some written →
        written.kind = .group inner → writer.HasNoMaps inner →
        budget = less + 1 → (Schema.blank reader.skipsUnknown).Holds less inner body raws →
        less' ≤ nestingLimit → writer.Holds less' inner body founds →
        AgreesDirectly budget owner type (.group number founds) (.group number raws)

/-- The record `found` of the writing schema and the record `read` of the reading
schema come from one field.  Payloads of messages do not matter. -/
def Agrees : Nat → τ → σ → Record → Record → Prop
  | 0, owner, type, found, read =>
      IsFieldNumber found.number ∧ AgreesDirectly reader writer 0 owner type found read
  | budget + 1, owner, type, found, read =>
      IsFieldNumber found.number ∧
        (AgreesDirectly reader writer (budget + 1) owner type found read ∨
          ∃ number payload payload' founds reads spec written inner inner',
            found = .message number payload founds ∧ read = .message number payload' reads ∧
            reader.field? owner number = some spec ∧ spec.kind = .message inner ∧
            writer.field? type number = some written ∧ written.kind = .message inner' ∧
            List.Forall₂ (Agrees budget inner inner') founds reads)

end

section Reading

variable {τ σ : Type} {reader : Schema τ} {writer : Schema σ}

theorem Schema.Means.number_eq {spec : FieldSpec τ} {budget : Nat} {raw record : Record}
    (hmeans : reader.Means spec budget raw record) : record.number = raw.number := by
  cases hmeans <;> rfl

theorem Schema.Means.flat_eq {spec : FieldSpec τ} {budget : Nat} {raw record : Record}
    (hmeans : reader.Means spec budget raw record) : record.flat = raw := by
  cases hmeans with
  | scalar _ => exact Scalar.flat_wireRecord _ _ _
  | text _ htext => rw [Record.flat, utf8_of_ofUtf8? htext]
  | packed _ _ _ => rfl
  | bytes _ => rfl
  | message _ _ => rfl

theorem Schema.Interprets.number_eq {budget : Nat} {owner : τ} {raw record : Record}
    (hinterprets : reader.Interprets budget owner raw record) : record.number = raw.number := by
  cases hinterprets with
  | unknown _ _ => rfl
  | known _ _ hmeans => exact hmeans.number_eq

theorem Schema.Finds.number_eq {budget : Nat} {owner : τ} {raw record : Record}
    (hfinds : reader.Finds budget owner raw record) : record.number = raw.number := by
  cases hfinds with
  | direct hinterprets => exact hinterprets.number_eq
  | group _ _ _ _ _ => rfl

theorem Schema.Means.shapes {spec : FieldSpec τ} {budget : Nat} {raw record : Record}
    {bytes : Bytes} (hraw : ReadsRaw bytes raw) (hmeans : reader.Means spec budget raw record) :
    spec.Shapes record := by
  cases hmeans with
  | @scalar _ scalar number value hkind =>
      refine .scalar hkind ?_
      obtain ⟨key, left, right, -, -, hraw⟩ := hraw
      have hflat : FlatValue key right (scalar.wireRecord number value) :=
        (Schema.Means.scalar hkind : reader.Means spec 0 _ _).flatValue hraw
      have hnumber : number = key.number := by
        rw [← hflat.number_eq, number_wireRecord]
      subst hnumber
      exact Scalar.lt_of_reads_readNumber (flatValue_wireRecord_iff.2 hflat).2
  | packed hkind hrepeated hvalues =>
      exact .packed hkind hrepeated (Scalar.lt_of_mem_steps hvalues)
  | text hkind _ => exact .text hkind
  | bytes hkind => exact .bytes hkind
  | message hkind _ => exact .message hkind

theorem Agrees.isFieldNumber {budget : Nat} {owner : τ} {type : σ} {found read : Record}
    (hagrees : Agrees reader writer budget owner type found read) :
    IsFieldNumber found.number := by
  cases budget <;> exact hagrees.1

theorem Agrees.number_eq {budget : Nat} {owner : τ} {type : σ} {found read : Record}
    (hagrees : Agrees reader writer budget owner type found read) :
    found.number = read.number := by
  have hdirect {budget : Nat}
      (hdirect : AgreesDirectly reader writer budget owner type found read) :
      found.number = read.number := by
    cases hdirect with
    | kept _ _ hinterprets => exact hinterprets.number_eq.symm
    | passed _ _ _ _ => exact (Record.number_flat found).symm
    | value _ _ _ _ => rfl
    | group _ _ _ _ _ _ _ _ => rfl
  cases budget with
  | zero => exact hdirect hagrees.2
  | succ budget =>
      obtain ⟨-, hagrees | ⟨number, _, _, _, _, _, _, _, _, rfl, rfl, -⟩⟩ := hagrees
      · exact hdirect hagrees
      · rfl

theorem Agrees.of_direct {budget : Nat} {owner : τ} {type : σ} {found read : Record}
    (hnumber : IsFieldNumber found.number)
    (hdirect : AgreesDirectly reader writer budget owner type found read) :
    Agrees reader writer budget owner type found read := by
  cases budget with
  | zero => exact ⟨hnumber, hdirect⟩
  | succ budget => exact ⟨hnumber, Or.inl hdirect⟩

theorem passDepthOfRecord_pos (record : Record) : 0 < passDepthOfRecord record := by
  cases record <;> simp [passDepthOfRecord]

namespace Schema.Means

variable {spec : FieldSpec τ} {budget : Nat} {raw record : Record}

theorem of_scalar {scalar : Scalar} (hkind : spec.kind = .scalar scalar)
    (hmeans : reader.Means spec budget raw record) :
    (∃ number value, raw = scalar.wireRecord number value ∧ record = raw) ∨
      ∃ number payload values, raw = .bytes number payload ∧
        record = .packed number payload values ∧
        Steps (([·]) <$> readNumber scalar) payload values := by
  cases hmeans with
  | scalar hkind' =>
      obtain rfl : scalar = _ := by simpa [hkind] using hkind'
      exact Or.inl ⟨_, _, rfl, rfl⟩
  | packed hkind' _ hvalues =>
      obtain rfl : scalar = _ := by simpa [hkind] using hkind'
      exact Or.inr ⟨_, _, _, rfl, rfl, hvalues⟩
  | text hkind' _ => simp [hkind] at hkind'
  | bytes hkind' => simp [hkind] at hkind'
  | message hkind' _ => simp [hkind] at hkind'

theorem of_text (hkind : spec.kind = .text) (hmeans : reader.Means spec budget raw record) :
    ∃ number payload value, raw = .bytes number payload ∧ ofUtf8? payload = some value ∧
      record = .text number value := by
  cases hmeans with
  | text _ htext => exact ⟨_, _, _, rfl, htext, rfl⟩
  | scalar hkind' => simp [hkind] at hkind'
  | packed hkind' _ _ => simp [hkind] at hkind'
  | bytes hkind' => simp [hkind] at hkind'
  | message hkind' _ => simp [hkind] at hkind'

theorem of_bytes (hkind : spec.kind = .bytes) (hmeans : reader.Means spec budget raw record) :
    record = raw := by
  cases hmeans with
  | bytes _ => rfl
  | text hkind' _ => simp [hkind] at hkind'
  | scalar hkind' => simp [hkind] at hkind'
  | packed hkind' _ _ => simp [hkind] at hkind'
  | message hkind' _ => simp [hkind] at hkind'

theorem of_message {type : τ} (hkind : spec.kind = .message type)
    (hmeans : reader.Means spec budget raw record) :
    ∃ less number payload records, budget = less + 1 ∧ raw = .bytes number payload ∧
      record = .message number payload records ∧ reader.Holds less type payload records := by
  cases hmeans with
  | message hkind' hholds =>
      obtain rfl : type = _ := by simpa [hkind] using hkind'
      exact ⟨_, _, _, _, rfl, rfl, rfl, hholds⟩
  | bytes hkind' => simp [hkind] at hkind'
  | text hkind' _ => simp [hkind] at hkind'
  | scalar hkind' => simp [hkind] at hkind'
  | packed hkind' _ _ => simp [hkind] at hkind'

end Schema.Means

theorem Scalar.wireRecord_ne_bytes (scalar : Scalar) (number value number' : Nat)
    (payload : Bytes) : scalar.wireRecord number value ≠ .bytes number' payload := by
  cases scalar <;> simp [Scalar.wireRecord, Scalar.wire]

/-- What a raw record stands for depends on the kind of its field only. -/
theorem Schema.Means.eq_of_kind {name : τ → σ} {spec : FieldSpec τ} {written : FieldSpec σ}
    (hkind : written.kind = spec.kind.map name) (hvalue : ∀ inner, spec.kind ≠ .message inner)
    {budget budget' : Nat} {raw found read : Record}
    (hread : reader.Means spec budget raw read) (hfound : writer.Means written budget' raw found) :
    found = read := by
  cases hspec : spec.kind with
  | scalar scalar =>
      rw [hspec, Kind.map] at hkind
      obtain ⟨number, value, hraw, rfl⟩ | ⟨number, payload, values, hraw, rfl, hvalues⟩ :=
        hread.of_scalar hspec
      · obtain ⟨_, _, -, rfl⟩ | ⟨_, _, _, hraw', -, -⟩ := hfound.of_scalar hkind
        · rfl
        · exact absurd (hraw.symm.trans hraw') (scalar.wireRecord_ne_bytes _ _ _ _)
      · obtain ⟨_, _, hraw', -⟩ | ⟨_, _, _, hraw', rfl, hvalues'⟩ := hfound.of_scalar hkind
        · exact absurd (hraw'.symm.trans hraw) (scalar.wireRecord_ne_bytes _ _ _ _)
        · obtain ⟨rfl, rfl⟩ := Record.bytes.inj (hraw.symm.trans hraw')
          rw [hvalues.eq ((hungry_readNumber scalar).map _) hvalues']
  | text =>
      rw [hspec, Kind.map] at hkind
      obtain ⟨number, payload, value, hraw, htext, rfl⟩ := hread.of_text hspec
      obtain ⟨_, _, _, hraw', htext', rfl⟩ := hfound.of_text hkind
      obtain ⟨rfl, rfl⟩ := Record.bytes.inj (hraw.symm.trans hraw')
      rw [Option.some.inj (htext.symm.trans htext')]
  | bytes =>
      rw [hspec, Kind.map] at hkind
      rw [hread.of_bytes hspec, hfound.of_bytes hkind]
  | message type => exact absurd hspec (hvalue type)
  | group type =>
      rw [hspec, Kind.map] at hkind
      cases hread <;> simp_all

/-- A group that the writing schema knows is raw for the other one. -/
theorem agreesDirectly_of_group {name : τ → σ} {on : τ → Prop}
    (hkeeps : reader.Keeps writer name on) {budget budget' number : Nat}
    (hbudget : budget ≤ nestingLimit) (hbudget' : budget' ≤ nestingLimit) {owner : τ}
    (howner : on owner) {written : FieldSpec σ} {inner : σ} {body : Bytes}
    {raws founds : List Record} {read : Record}
    (hwriter : writer.field? (name owner) number = some written)
    (hkind : written.kind = .group inner)
    (hraws : HoldsRaw body raws) (hfounds : writer.Holds budget' inner body founds)
    (hread : reader.Interprets budget owner (.group number raws) read) :
    AgreesDirectly reader writer budget owner (name owner) (.group number founds) read := by
  cases hread with
  | unknown hreader hpasses =>
      obtain ⟨less, rfl, hpasses⟩ := Schema.passes_group_iff.1 hpasses
      exact .group hreader hwriter hkind ((hkeeps.noMaps owner howner).of_group hwriter hkind) rfl
        ((Schema.holds_blank_iff (by omega)).2 ⟨hraws, hpasses⟩) hbudget' hfounds
  | known _ _ hmeans => exact absurd rfl (hmeans.ne_group _ _)

/-- Two readings of one raw record agree, or both find a message. -/
theorem agreesDirectly_or_message {name : τ → σ} {on : τ → Prop}
    (hkeeps : reader.Keeps writer name on) {budget budget' : Nat}
    (hbudget : budget ≤ nestingLimit) (hbudget' : budget' ≤ nestingLimit) {owner : τ}
    (howner : on owner) {bytes : Bytes} {raw found read : Record} (hraw : ReadsRaw bytes raw)
    (hread : reader.Interprets budget owner raw read)
    (hfound : writer.Finds budget' (name owner) raw found) :
    AgreesDirectly reader writer budget owner (name owner) found read ∨
      ∃ less less' number payload founds reads spec written type,
        budget = less + 1 ∧ budget' = less' + 1 ∧
        found = .message number payload founds ∧ read = .message number payload reads ∧
        reader.field? owner number = some spec ∧ spec.kind = .message type ∧
        writer.field? (name owner) number = some written ∧ written.kind = .message (name type) ∧
        reader.Holds less type payload reads ∧ writer.Holds less' (name type) payload founds := by
  cases hfound with
  | group hwriter hkind hraws _ hfounds =>
      exact Or.inl (agreesDirectly_of_group hkeeps hbudget (by omega) howner hwriter hkind hraws
        hfounds hread)
  | direct hfound =>
      cases hfound with
      | unknown hwriter _ => exact Or.inl (.kept hwriter ⟨bytes, hraw⟩ hread)
      | @known _ written hwriter _ hmeans' =>
          have hshapes := hmeans'.shapes hraw
          have hnumber := hmeans'.number_eq
          cases hread with
          | unknown hreader hpasses =>
              refine Or.inl ?_
              rw [← hmeans'.flat_eq]
              refine .passed (by rwa [hnumber]) (by rwa [hnumber]) hshapes fun hskips => ?_
              unfold Schema.Passes at hpasses
              rw [if_pos hskips] at hpasses
              exact Nat.lt_of_lt_of_le (passDepthOfRecord_pos raw) hpasses
          | @known _ spec hreader _ hmeans =>
              have hkind := (hkeeps.fits owner howner _ _ _ hreader hwriter).kind
              by_cases hmessage : ∃ type, spec.kind = .message type
              · obtain ⟨type, htype⟩ := hmessage
                rw [htype, Kind.map] at hkind
                obtain ⟨less, number, payload, reads, rfl, rfl, rfl, hreads⟩ :=
                  hmeans.of_message htype
                obtain ⟨less', _, _, founds, rfl, hraw', rfl, hfounds⟩ := hmeans'.of_message hkind
                obtain ⟨rfl, rfl⟩ := Record.bytes.inj hraw'
                exact Or.inr ⟨less, less', number, payload, founds, reads, spec, written, type,
                  rfl, rfl, rfl, rfl, hreader, htype, hwriter, hkind, hreads, hfounds⟩
              · have hvalue : ∀ inner, spec.kind ≠ .message inner :=
                  fun inner hinner => hmessage ⟨inner, hinner⟩
                obtain rfl := hmeans.eq_of_kind hkind hvalue hmeans'
                exact Or.inl (.value (by rwa [hnumber]) (by rwa [hnumber]) hshapes hvalue)

/-- Two readings of one raw record agree. -/
theorem agrees_of_finds {name : τ → σ} {on : τ → Prop}
    (hkeeps : reader.Keeps writer name on) {budget budget' : Nat}
    (hbudget : budget ≤ nestingLimit) (hbudget' : budget' ≤ nestingLimit) {owner : τ}
    (howner : on owner) {bytes : Bytes} {raw found read : Record} (hraw : ReadsRaw bytes raw)
    (hread : reader.Interprets budget owner raw read)
    (hfound : writer.Finds budget' (name owner) raw found) :
    Agrees reader writer budget owner (name owner) found read := by
  have hnumber : IsFieldNumber found.number := by
    rw [hfound.number_eq]
    exact hraw.isFieldNumber
  induction budget generalizing budget' owner bytes raw found read with
  | zero =>
      obtain hdirect | ⟨_, _, _, _, _, _, _, _, _, hzero, -⟩ :=
        agreesDirectly_or_message hkeeps hbudget hbudget' howner hraw hread hfound
      · exact .of_direct hnumber hdirect
      · omega
  | succ budget ih =>
      obtain hdirect | ⟨less, less', number, payload, founds, reads, spec, written, type, hless,
          hless', rfl, rfl, hreader, htype, hwriter, hkind, hreads, hfounds⟩ :=
        agreesDirectly_or_message hkeeps hbudget hbudget' howner hraw hread hfound
      · exact .of_direct hnumber hdirect
      obtain rfl : less = budget := by omega
      subst hless'
      have hinner := hkeeps.closed owner howner _ _ _ _ hreader hwriter htype
      refine ⟨hnumber, Or.inr ⟨number, payload, payload, founds, reads, spec, written, type,
        name type, rfl, rfl, hreader, htype, hwriter, hkind, ?_⟩⟩
      obtain ⟨raws, hraws, hallReads⟩ :=
        (Schema.holds_iff (hkeeps.flatReader type hinner) (by omega)).1 hreads
      obtain ⟨raws', hraws', hallFounds⟩ :=
        hfounds.exists_finds (by omega) (hkeeps.noMaps type hinner)
      obtain rfl := hraws.eq hraws'
      refine forall₂_of_runs hallFounds hallReads fun raw hmem found read hfound hread => ?_
      obtain ⟨front, hraw⟩ := hraws.forall_mem raw hmem
      refine ih (by omega) (by omega) hinner hraw hread hfound ?_
      rw [hfound.number_eq]
      exact hraw.isFieldNumber

/-- Two readings of one message agree. -/
theorem agrees_of_holds {name : τ → σ} {on : τ → Prop} (hkeeps : reader.Keeps writer name on)
    {budget budget' : Nat} (hbudget : budget ≤ nestingLimit) (hbudget' : budget' ≤ nestingLimit)
    {owner : τ} (howner : on owner) {bytes : Bytes} {founds reads : List Record}
    (hreads : reader.Holds budget owner bytes reads)
    (hfounds : writer.Holds budget' (name owner) bytes founds) :
    List.Forall₂ (Agrees reader writer budget owner (name owner)) founds reads := by
  obtain ⟨raws, hraws, hallReads⟩ :=
    (Schema.holds_iff (hkeeps.flatReader owner howner) hbudget).1 hreads
  obtain ⟨raws', hraws', hallFounds⟩ := hfounds.exists_finds hbudget' (hkeeps.noMaps owner howner)
  obtain rfl := hraws.eq hraws'
  refine forall₂_of_runs hallFounds hallReads fun raw hmem found read hfound hread => ?_
  obtain ⟨front, hraw⟩ := hraws.forall_mem raw hmem
  exact agrees_of_finds hkeeps hbudget hbudget' howner hraw hread hfound

end Reading

end ProtoSource.Wire
