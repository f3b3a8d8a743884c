import Mathlib.Data.List.Basic
import Mathlib.Tactic.SplitIfs
import ProtoSource.Wire.Canonical

/-!
# Schemas that agree on some types

A message is read and written by the schema of its own type and of the types that
its fields lead to.  Two schemas that agree on types that lead to no others treat
messages of these types the same.
-/

namespace ProtoSource.Wire

/-- The schemas say the same of the types in `on`, whose fields lead to such types
only. -/
structure Schema.AgreesOn {τ : Type} (schema schema' : Schema τ) (on : τ → Prop) : Prop where
  field?_eq : ∀ owner, on owner → schema'.field? owner = schema.field? owner
  place?_eq : ∀ owner, on owner → schema'.place? owner = schema.place? owner
  skipsFirst_eq : ∀ owner, on owner → schema'.skipsFirst owner = schema.skipsFirst owner
  isEntry_eq : ∀ owner, on owner → schema'.isEntry owner = schema.isEntry owner
  skipsUnknown_eq : schema'.skipsUnknown = schema.skipsUnknown
  closed : ∀ owner, on owner → ∀ number spec, schema.field? owner number = some spec →
    ∀ type, spec.kind.type? = some type → on type

/-- A known field is read the same if messages of its type are. -/
theorem readKnown_congr {τ : Type} {on : τ → Prop} {spec : FieldSpec τ}
    (hspec : ∀ type, spec.kind.type? = some type → on type)
    {nested nested' : Option (τ → Key → Reader (List Record))}
    (hnested : Option.Rel (fun fields fields' => ∀ type, on type → fields' type = fields type)
      nested nested') (key : Key) : readKnown spec nested' key = readKnown spec nested key := by
  unfold readKnown
  cases hkind : spec.kind with
  | scalar scalar => rfl
  | text => rfl
  | bytes => rfl
  | message type =>
      cases hnested with
      | none => rfl
      | some hfields => simp only [hfields type (hspec type (by rw [hkind]; rfl))]
  | group type =>
      cases hnested with
      | none => rfl
      | some hfields => simp only [hfields type (hspec type (by rw [hkind]; rfl))]

theorem Schema.on_of_entry {τ : Type} {schema : Schema τ} {on : τ → Prop} {spec : FieldSpec τ}
    (hspec : ∀ type, spec.kind.type? = some type → on type)
    {entry : τ} (hentry : schema.entry? spec = some entry) : on entry := by
  unfold Schema.entry? at hentry
  split_ifs at hentry
  exact hspec entry (Option.filter_eq_some_iff.1 hentry).1

namespace Schema.AgreesOn

variable {τ : Type} {schema schema' : Schema τ} {on : τ → Prop}
  (hagrees : schema.AgreesOn schema' on)

include hagrees

theorem entry?_eq {spec : FieldSpec τ} (hspec : ∀ type, spec.kind.type? = some type → on type) :
    schema'.entry? spec = schema.entry? spec := by
  unfold entry?
  cases htype : spec.kind.type? with
  | none => rfl
  | some type => simp only [Option.filter_some, hagrees.isEntry_eq type (hspec type htype)]

theorem part?_eq {entry : τ} (hentry : on entry) (number : Nat) :
    schema'.part? entry number = schema.part? entry number := by
  unfold part?
  rw [hagrees.field?_eq entry hentry]

/-- The parts of an entry hold what its fields hold. -/
theorem on_part? {entry : τ} (hentry : on entry) {number : Nat} {spec : FieldSpec τ}
    (hpart : schema.part? entry number = some spec) {type : τ}
    (htype : spec.kind.type? = some type) : on type := by
  unfold part? at hpart
  split_ifs at hpart
  · obtain ⟨field, hfield, rfl⟩ := Option.map_eq_some_iff.1 hpart
    exact hagrees.closed entry hentry _ field hfield type htype
  · exact hagrees.closed entry hentry _ spec hpart type htype

/-! ## Reading -/

section Nested

variable {nested nested' : Option (τ → Key → Reader (List Record))}
  (hnested : Option.Rel (fun fields fields' => ∀ type, on type → fields' type = fields type)
    nested nested')

include hnested

theorem readField_eq {spec : FieldSpec τ} (hspec : ∀ type, spec.kind.type? = some type → on type)
    {entries entries' : τ → Key → Reader (List Record)}
    (hentries : ∀ entry, on entry → entries' entry = entries entry) (key : Key) :
    schema'.readField nested' entries' spec key = schema.readField nested entries spec key := by
  unfold readField
  rw [hagrees.entry?_eq hspec]
  cases hentry : schema.entry? spec with
  | none => exact readKnown_congr hspec hnested key
  | some entry => simp only [hentries entry (on_of_entry hspec hentry)]

theorem readPart_eq (budget depth : Nat) {entry : τ} (hentry : on entry) :
    schema'.readPart budget nested' depth entry = schema.readPart budget nested depth entry := by
  induction depth generalizing entry with
  | zero => rfl
  | succ depth ih =>
      funext key
      unfold readPart
      rw [hagrees.part?_eq hentry]
      cases hpart : schema.part? entry key.number with
      | none => rfl
      | some spec =>
          exact hagrees.readField_eq hnested (fun _ => hagrees.on_part? hentry hpart)
            (fun _ => ih) key

theorem readWith_eq (budget : Nat) {owner : τ} (howner : on owner) :
    schema'.readWith budget nested' owner = schema.readWith budget nested owner := by
  funext key
  unfold readWith
  rw [hagrees.field?_eq owner howner, hagrees.place?_eq owner howner,
    hagrees.skipsFirst_eq owner howner, hagrees.skipsUnknown_eq]
  cases hfield : schema.field? owner key.number with
  | none => rfl
  | some spec =>
      have hspec := hagrees.closed owner howner key.number spec hfield
      have hread (depth : Nat) :
          schema'.readField nested' (schema'.readPart budget nested' depth) spec key =
            schema.readField nested (schema.readPart budget nested depth) spec key :=
        hagrees.readField_eq hnested hspec
          (fun _ => hagrees.readPart_eq hnested budget depth) key
      simp only [hread]

end Nested

theorem readValue_eq (budget : Nat) {owner : τ} (howner : on owner) :
    schema'.readValue budget owner = schema.readValue budget owner := by
  induction budget generalizing owner with
  | zero => exact hagrees.readWith_eq .none 0 howner
  | succ budget ih => exact hagrees.readWith_eq (.some fun _ => ih) (budget + 1) howner

theorem decode_eq {root : τ} (hroot : on root) (bytes : Bytes) :
    schema'.decode root bytes = schema.decode root bytes := by
  unfold decode
  rw [hagrees.readValue_eq nestingLimit hroot]

/-! ## Writing -/

theorem settle_eq {owner : τ} (howner : on owner) (records : List Record) :
    schema'.settle owner records = schema.settle owner records := by
  have hchoice (number : Nat) : schema'.choice? owner number = schema.choice? owner number := by
    unfold choice?
    rw [hagrees.field?_eq owner howner]
  have hsupersedes : schema'.supersedes owner = schema.supersedes owner := by
    funext earlier later
    simp only [supersedes, hchoice]
  induction records with
  | nil => rfl
  | cons record rest ih => simp only [settle, hsupersedes, hchoice, ih]

theorem canonicalField_eq {message message' : τ → List Record → List Record}
    {entry entry' : τ → List Record → Nat → List Record}
    (hmessage : ∀ type, on type → message' type = message type)
    (hentry : ∀ type, on type → entry' type = entry type) {spec : FieldSpec τ}
    (hspec : ∀ type, spec.kind.type? = some type → on type) (number : Nat) (records : List Record) :
    schema'.canonicalField message' entry' spec number records =
      schema.canonicalField message entry spec number records := by
  unfold canonicalField
  rw [hagrees.entry?_eq hspec]
  cases hfound : schema.entry? spec with
  | some type => simp only [hentry type (on_of_entry hspec hfound)]
  | none =>
      simp only [FieldSpec.canonical]
      cases hkind : spec.kind with
      | scalar scalar => rfl
      | text => rfl
      | bytes => rfl
      | message type => simp only [hmessage type (hspec type (by rw [hkind]; rfl))]
      | group type => simp only [hmessage type (hspec type (by rw [hkind]; rfl))]

theorem canonicalTo_eq (depth : Nat) :
    (∀ owner, on owner → schema'.canonicalTo depth owner = schema.canonicalTo depth owner) ∧
      ∀ entry, on entry → schema'.canonicalPart depth entry = schema.canonicalPart depth entry := by
  induction depth with
  | zero => exact ⟨fun _ _ => by funext; simp only [canonicalTo],
      fun _ _ => by funext; simp only [canonicalPart]⟩
  | succ depth ih =>
      have hfields {spec : FieldSpec τ} (hspec : ∀ type, spec.kind.type? = some type → on type) :=
        hagrees.canonicalField_eq ih.1 ih.2 hspec
      constructor
      · intro owner howner
        funext records
        simp only [canonicalTo, hagrees.settle_eq howner, hagrees.field?_eq owner howner]
        refine List.flatMap_congr fun number _ => ?_
        cases hfield : schema.field? owner number with
        | none => rfl
        | some spec => exact hfields (hagrees.closed owner howner number spec hfield) number _
      · intro entry hentry
        funext records number
        simp only [canonicalPart, hagrees.part?_eq hentry]
        cases hpart : schema.part? entry number with
        | none => rfl
        | some spec => exact hfields (fun _ => hagrees.on_part? hentry hpart) number _

/-- Messages of types that two schemas agree on have one canonical form. -/
theorem recode_eq {root : τ} (hroot : on root) (bytes : Bytes) :
    schema'.recode root bytes = schema.recode root bytes := by
  unfold recode canonical
  simp only [hagrees.decode_eq hroot, (hagrees.canonicalTo_eq _).1 root hroot]

end Schema.AgreesOn

end ProtoSource.Wire
