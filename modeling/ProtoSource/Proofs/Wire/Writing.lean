import ProtoSource.Proofs.Wire.ReadingBack

/-!
# Reading what was written

Records that are built for a schema, with the encoded form of every message in
place, are read back as they are.
-/

namespace ProtoSource.Wire

/-! ## Messages in place -/

mutual

/-- Every message in the record holds the encoded form of its records. -/
def Record.Embeds : Record → Prop
  | .message _ payload inner => payload = encode inner ∧ EmbedAll inner
  | .varint .. | .fixed64 .. | .fixed32 .. | .bytes .. | .text .. | .packed .. | .group .. => True

def Record.EmbedAll : List Record → Prop
  | [] => True
  | record :: rest => record.Embeds ∧ EmbedAll rest

end

theorem Record.embedAll_iff {records : List Record} :
    EmbedAll records ↔ ∀ record ∈ records, record.Embeds := by
  induction records with
  | nil => simp [EmbedAll]
  | cons record rest ih => simp [EmbedAll, ih]

mutual

/-- The length of the encoded form, without encoding messages or texts. -/
def Record.size : Record → Nat
  | .text number value =>
    (Key.encode ⟨number, .delimited⟩ ++ Varint.encode value.utf8ByteSize).length +
      value.utf8ByteSize
  | .message number _ inner =>
    (Key.encode ⟨number, .delimited⟩ ++ Varint.encode (sizeAll inner)).length + sizeAll inner
  | record => (encodeRecord record).length

def Record.sizeAll : List Record → Nat
  | [] => 0
  | record :: rest => record.size + sizeAll rest

end

theorem length_utf8 (text : String) : (utf8 text).length = text.utf8ByteSize := by
  simp [utf8]

mutual

theorem Record.length_encodeRecord : ∀ record : Record, record.Embeds →
    (encodeRecord record).length = record.size
  | .text number value, _ => by
      simp [encodeRecord, size, encodeDelimited, length_utf8, Nat.add_assoc]
  | .message number payload inner, hembeds => by
      obtain ⟨rfl, hinner⟩ := hembeds
      simp [encodeRecord, size, encodeDelimited, length_encode inner hinner, Nat.add_assoc]
  | .varint _ _, _ => rfl
  | .fixed64 _ _, _ => rfl
  | .fixed32 _ _, _ => rfl
  | .bytes _ _, _ => rfl
  | .packed _ _ _, _ => rfl
  | .group _ _, _ => rfl

theorem Record.length_encode : ∀ records : List Record, EmbedAll records →
    (encode records).length = sizeAll records
  | [], _ => rfl
  | record :: rest, hembeds => by
      rw [encode, sizeAll, List.length_append, length_encodeRecord record hembeds.1,
        length_encode rest hembeds.2]

end

namespace Schema

variable {τ : Type} {schema : Schema τ}

/-- The record is what a message of type `owner` can be written with. -/
inductive Writes (schema : Schema τ) : Nat → τ → Record → Prop where
  | value {budget : Nat} {owner : τ} {record : Record} {spec : FieldSpec τ} :
      schema.field? owner record.number = some spec → IsFieldNumber record.number →
        schema.Means spec (budget + 1) record.flat record → spec.Shapes record →
        schema.Writes (budget + 1) owner record
  | message {budget number : Nat} {owner type : τ} {spec : FieldSpec τ} {records : List Record} :
      schema.field? owner number = some spec → IsFieldNumber number → spec.kind = .message type →
        (∀ record ∈ records, schema.Writes budget type record) →
        schema.Writes (budget + 1) owner (.embed number records)

/-- Checks a record of texts, varints and messages, if its messages are in place. -/
def writes (schema : Schema τ) : Nat → τ → Record → Bool
  | 0, _, _ => false
  | budget + 1, owner, record =>
      decide (0 < record.number ∧ record.number < 2 ^ 29) &&
        match (schema.field? owner record.number).map FieldSpec.kind, record with
        | some .text, .text _ _ => true
        | some (.scalar scalar), .varint _ value => scalar.wire == .varint && value < 2 ^ 64
        | some (.message type), .message _ _ inner => inner.all (writes schema budget type)
        | _, _ => false

theorem writes_of_check {budget : Nat} {owner : τ} {record : Record} (hembeds : record.Embeds)
    (hcheck : schema.writes budget owner record) : schema.Writes budget owner record := by
  induction budget generalizing owner record with
  | zero => simp [writes] at hcheck
  | succ budget ih =>
      unfold writes at hcheck
      rw [Bool.and_eq_true, decide_eq_true_eq] at hcheck
      obtain ⟨hnumber, hcheck⟩ := hcheck
      cases hfield : schema.field? owner record.number with
      | none => simp [hfield] at hcheck
      | some spec =>
          simp only [hfield, Option.map_some] at hcheck
          split at hcheck
          · next hkind =>
              have hkind := Option.some.inj hkind
              exact .value hfield hnumber (.text hkind (ofUtf8?_utf8 _)) (.text hkind)
          · next scalar number value hkind =>
              have hkind := Option.some.inj hkind
              simp only [Bool.and_eq_true, beq_iff_eq, decide_eq_true_eq] at hcheck
              have hrecord : Record.varint number value = scalar.wireRecord number value := by
                simp [Scalar.wireRecord, hcheck.1]
              have hbound : scalar.bound = 2 ^ 64 := by simp [Scalar.bound, hcheck.1]
              rw [hrecord] at hfield hnumber ⊢
              refine .value hfield hnumber ?_ (.scalar hkind (by rw [hbound]; exact hcheck.2))
              rw [Scalar.flat_wireRecord]
              exact .scalar hkind
          · next type number payload inner hkind =>
              have hkind := Option.some.inj hkind
              rw [List.all_eq_true] at hcheck
              obtain ⟨rfl, hinner⟩ := hembeds
              exact .message hfield hnumber hkind fun record hrecord =>
                ih (Record.embedAll_iff.1 hinner record hrecord) (hcheck record hrecord)
          · simp at hcheck

theorem holds_encode_of_interprets {owner : τ} (hflat : schema.IsFlat owner) {budget : Nat}
    {records : List Record} (hall : ∀ record ∈ records,
      record.Writable ∧ schema.Interprets budget owner record.flat record) :
    schema.Holds budget owner (encode records) records := by
  refine holds_encode_of_readsAs hflat (List.forall₂_same.2 fun record hmem => ?_)
  exact ⟨record.flat, hall record hmem⟩

theorem holds_encode (hflat : ∀ owner, schema.IsFlat owner) {budget : Nat} {owner : τ}
    {records : List Record}
    (hwrites : ∀ record ∈ records, schema.Writes budget owner record)
    (hlength : (encode records).length < 2 ^ 64) :
    schema.Holds budget owner (encode records) records := by
  induction budget generalizing owner records with
  | zero =>
      cases records with
      | nil => exact Reader.Steps.nil
      | cons record rest => nomatch hwrites record (by simp)
  | succ budget ih =>
      refine holds_encode_of_interprets (hflat owner) fun record hmem => ?_
      have hbound := length_encodeRecord_le hmem
      cases hwrites record hmem with
      | value hfield hnumber hmeans hshapes =>
          rw [← Record.number_flat] at hfield
          exact ⟨hshapes.writable hnumber (by omega), .known hfield (by simp) hmeans⟩
      | @message _ number _ type spec inner hfield hnumber hkind hinner =>
          have hinnerLength : (encode inner).length < 2 ^ 64 := by
            have hpayload := length_le_encodeDelimited (encode inner)
            rw [Record.embed, encodeRecord, List.length_append] at hbound
            omega
          refine ⟨writable_message hnumber hinnerLength _, .known hfield (by simp) ?_⟩
          exact .message hkind (ih hinner hinnerLength)

end Schema

end ProtoSource.Wire
