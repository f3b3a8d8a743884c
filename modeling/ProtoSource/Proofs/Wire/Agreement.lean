import ProtoSource.Proofs.Wire.Views

/-!
# Views of two readings

The records that two schemas find in one message show the same wherever both
know the field.
-/

namespace ProtoSource.Wire

open ProtoSource.Related
open Records

variable {τ σ : Type} {reader : Schema τ} {writer : Schema σ} {name : τ → σ} {on : τ → Prop}

theorem Kind.map_eq_scalar {kind : Kind τ} {scalar : Scalar} :
    kind.map name = .scalar scalar ↔ kind = .scalar scalar := by
  cases kind <;> simp [Kind.map]

theorem Kind.map_eq_text {kind : Kind τ} : kind.map name = .text ↔ kind = .text := by
  cases kind <;> simp [Kind.map]

theorem Kind.map_eq_bytes {kind : Kind τ} : kind.map name = .bytes ↔ kind = .bytes := by
  cases kind <;> simp [Kind.map]

theorem Kind.map_eq_message {kind : Kind τ} {type : σ} :
    kind.map name = .message type ↔ ∃ inner, kind = .message inner ∧ name inner = type := by
  cases kind <;> simp [Kind.map]

theorem FieldSpec.Fits.shapes {spec : FieldSpec τ} {written : FieldSpec σ} {record : Record}
    (hfits : spec.Fits name written) (hshapes : written.Shapes record) : spec.Shapes record := by
  cases hshapes with
  | scalar hkind hbound => exact .scalar (Kind.map_eq_scalar.1 (hfits.kind ▸ hkind)) hbound
  | packed hkind hrepeated hbound =>
      exact .packed (Kind.map_eq_scalar.1 (hfits.kind ▸ hkind)) (hfits.repeated ▸ hrepeated) hbound
  | text hkind => exact .text (Kind.map_eq_text.1 (hfits.kind ▸ hkind))
  | bytes hkind => exact .bytes (Kind.map_eq_bytes.1 (hfits.kind ▸ hkind))
  | message hkind =>
      obtain ⟨inner, hinner, -⟩ := Kind.map_eq_message.1 (hfits.kind ▸ hkind)
      exact .message hinner

/-- A record that agrees with one of the writing schema is of the right type. -/
theorem Agrees.types (hkeeps : reader.Keeps writer name on)
    (hflat : ∀ owner, reader.IsFlat owner) {budget : Nat} (hbudget : budget ≤ nestingLimit)
    {owner : τ} (howner : on owner) {found read : Record}
    (hagrees : Agrees reader writer budget owner (name owner) found read) :
    reader.Types owner read := by
  induction budget using Nat.strongRecOn generalizing owner found read with
  | ind budget ih =>
      obtain hdirect | ⟨less, number, _, _, founds, reads, spec, written, inner, inner', rfl,
        rfl, rfl, hreader, hkind, hwriter, hkind', hall⟩ := hagrees.direct_or_message
      · cases hdirect with
        | kept _ hraw hinterprets =>
            obtain ⟨bytes, hraw⟩ := hraw
            exact Schema.types_of_interprets hflat hbudget hraw hinterprets
        | passed hreader _ _ _ => exact .unknown (by rwa [Record.number_flat])
        | value hreader hwriter hshapes hvalue =>
            have hfits := hkeeps.fits owner howner _ _ _ hreader hwriter
            exact .value hreader (hfits.shapes hshapes) hvalue
        | group hnone _ _ _ _ _ _ _ => exact .unknown hnone
      · have hfits := hkeeps.fits owner howner _ _ _ hreader hwriter
        have htype : inner' = name inner := by
          have hsame := hfits.kind
          rw [hkind, hkind', Kind.map] at hsame
          exact Kind.message.inj hsame
        subst htype
        refine .message hreader hkind fun read hread => ?_
        obtain ⟨found, -, hagrees⟩ := forall₂_exists_of_mem hall.flip hread
        exact ih less (by omega) (by omega)
          (hkeeps.closed owner howner _ _ _ _ hreader hwriter hkind) hagrees

section Views

variable {budget : Nat} {owner : τ} {type : σ} {founds reads : List Record} {number : Nat}
  {spec : FieldSpec τ} {written : FieldSpec σ}

theorem forall₂_own {relation : Record → Record → Prop}
    (hnumber : ∀ left right, relation left right → left.number = right.number)
    {lefts rights : List Record} (hall : List.Forall₂ relation lefts rights) :
    List.Forall₂ relation (own number lefts) (own number rights) := by
  induction hall with
  | nil => exact .nil
  | cons hhead _ ih =>
      have hsame := hnumber _ _ hhead
      unfold own at ih ⊢
      rw [List.filter_cons, List.filter_cons, hsame]
      split
      · exact .cons hhead ih
      · exact ih

theorem own_eq_of_agrees (hall : List.Forall₂ (Agrees reader writer budget owner type) founds reads)
    (hreader : reader.field? owner number = some spec)
    (hvalue : ∀ inner, spec.kind ≠ .message inner)
    (hwriter : (writer.field? type number).isSome) : own number founds = own number reads := by
  refine List.forall₂_eq_eq_eq ▸ forall₂_imp_of_mem (fun found hmem read _ hagrees => ?_)
    (forall₂_own (fun _ _ => Agrees.number_eq) hall)
  have hnumber : found.number = number := by simpa using (List.mem_filter.1 hmem).2
  exact hagrees.value (by rwa [hnumber]) hvalue (by rwa [hnumber])

theorem texts_eq_of_agrees
    (hall : List.Forall₂ (Agrees reader writer budget owner type) founds reads)
    (hreader : reader.field? owner number = some spec) (hkind : spec.kind = .text)
    (hwriter : (writer.field? type number).isSome) : texts number founds = texts number reads := by
  rw [Schema.texts_eq, Schema.texts_eq, own_eq_of_agrees hall hreader (by simp [hkind]) hwriter]

theorem messages_message (payload : Bytes) (inner rest : List Record) :
    messages number (.message number payload inner :: rest) = inner :: messages number rest := by
  simp [messages]

theorem messages_cons_of_ne {record : Record} (hnumber : record.number ≠ number)
    (rest : List Record) : messages number (record :: rest) = messages number rest := by
  cases record <;> simp_all [messages, Record.number]

/-- The messages of a field that both know agree one by one. -/
theorem forall₂_messages_of_agrees
    (hall : List.Forall₂ (Agrees reader writer (budget + 1) owner type) founds reads)
    (hreader : reader.field? owner number = some spec) {inner : τ}
    (hkind : spec.kind = .message inner) (hwriter : writer.field? type number = some written)
    {inner' : σ} (hkind' : written.kind = .message inner') :
    List.Forall₂ (List.Forall₂ (Agrees reader writer budget inner inner')) (messages number founds)
      (messages number reads) := by
  induction hall with
  | nil => exact .nil
  | @cons found read founds reads hhead _ ih =>
      by_cases hnumber : found.number = number
      · obtain ⟨less, _, _, founds, reads, hless, hfound, hread, hinner⟩ :=
          hhead.message (by rw [hnumber, hreader]) hkind (by rw [hnumber, hwriter]) hkind'
        obtain rfl : less = budget := by omega
        rw [hfound, hread, hnumber, messages_message, messages_message]
        exact .cons hinner ih
      · rw [messages_cons_of_ne hnumber, messages_cons_of_ne (hhead.number_eq ▸ hnumber)]
        exact ih

end Views

end ProtoSource.Wire
