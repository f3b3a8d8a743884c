import Mathlib.Data.List.Forall2
import ProtoSource.Proofs.Wire.Canonical

/-!
# Messages that say the same

Under a schema two lists of records are alike if every known field has the same
canonical values in both, messages field by field in turn.  Of unknown fields
some may be asked to have the same records.
-/

namespace ProtoSource.Wire

/-- The values of one field that count are the same.  Messages are compared by
`inner`. -/
def FieldSpec.Alike {τ : Type} (spec : FieldSpec τ)
    (inner : τ → List Record → List Record → Prop) (own others : List Record) : Prop :=
  match spec.kind with
  | .scalar scalar =>
      (spec.kept (scalar.same spec.defaultNumber) (own.flatMap Record.numbers)).map
          scalar.canonical =
        (spec.kept (scalar.same spec.defaultNumber) (others.flatMap Record.numbers)).map
          scalar.canonical
  | .text =>
      spec.kept (· == spec.defaultText) (own.filterMap Record.text?) =
        spec.kept (· == spec.defaultText) (others.filterMap Record.text?)
  | .bytes =>
      spec.kept (· == spec.defaultBytes) (own.filterMap Record.bytes?) =
        spec.kept (· == spec.defaultBytes) (others.filterMap Record.bytes?)
  | .message type =>
      List.Forall₂ (inner type) (spec.merged (own.filterMap Record.records?))
        (spec.merged (others.filterMap Record.records?))
  | .group _ => True

theorem FieldSpec.Alike.mono {τ : Type} {spec : FieldSpec τ}
    {inner inner' : τ → List Record → List Record → Prop} {own others : List Record}
    (hinner : ∀ type records records', inner type records records' → inner' type records records')
    (halike : spec.Alike inner own others) : spec.Alike inner' own others := by
  unfold FieldSpec.Alike at halike ⊢
  cases hkind : spec.kind with
  | message type =>
      simp only [hkind] at halike ⊢
      exact halike.imp fun _ _ => hinner type _ _
  | scalar => simpa only [hkind] using halike
  | text => simpa only [hkind] using halike
  | bytes => simpa only [hkind] using halike
  | group => trivial

theorem FieldSpec.Alike.refl {τ : Type} (spec : FieldSpec τ)
    {inner : τ → List Record → List Record → Prop}
    (hinner : ∀ type records, inner type records records)
    (own : List Record) : spec.Alike inner own own := by
  unfold FieldSpec.Alike
  cases spec.kind with
  | message type => exact List.forall₂_same.2 fun records _ => hinner type records
  | group => trivial
  | _ => rfl

namespace Schema

variable {τ : Type} (schema : Schema τ)

/-- The records of one field that count. -/
def counting (owner : τ) (number : Nat) (records : List Record) : List Record :=
  Records.own number (schema.settle owner records)

/-- Messages of type `owner` are alike as far down as the depth says. -/
def AlikeTo (keeps : τ → Nat → Prop) : Nat → τ → List Record → List Record → Prop
  | 0, _, _, _ => True
  | depth + 1, owner, records, others =>
      ∀ number,
        match schema.field? owner number with
        | some spec =>
            spec.Alike (AlikeTo keeps depth) (schema.counting owner number records)
              (schema.counting owner number others)
        | none =>
            keeps owner number →
              schema.counting owner number records = schema.counting owner number others

/-- Messages of type `owner` say the same; `keeps` are the unknown fields that
are compared too. -/
def Alike (keeps : τ → Nat → Prop) (owner : τ) (records others : List Record) : Prop :=
  ∀ depth, schema.AlikeTo keeps depth owner records others

variable {schema} {keeps : τ → Nat → Prop} {owner : τ} {records others : List Record}

theorem forall₂_forall {α β ι : Type} [Inhabited ι] {relation : ι → α → β → Prop} {lefts : List α}
    {rights : List β} (hall : ∀ index, List.Forall₂ (relation index) lefts rights) :
    List.Forall₂ (fun left right => ∀ index, relation index left right) lefts rights := by
  induction lefts generalizing rights with
  | nil =>
      cases hall default
      exact .nil
  | cons left lefts ih =>
      cases rights with
      | nil => cases hall default
      | cons right rights =>
          refine .cons (fun index => ?_) (ih fun index => ?_)
          · cases hall index
            assumption
          · cases hall index
            assumption

theorem alike_field_of_forall {spec : FieldSpec τ} {own own' : List Record}
    (hall : ∀ depth, spec.Alike (schema.AlikeTo keeps depth) own own') :
    spec.Alike (schema.Alike keeps) own own' := by
  unfold FieldSpec.Alike at hall ⊢
  cases hkind : spec.kind with
  | message type =>
      simp only [hkind] at hall ⊢
      exact forall₂_forall hall
  | scalar => simpa only [hkind] using hall 0
  | text => simpa only [hkind] using hall 0
  | bytes => simpa only [hkind] using hall 0
  | group => trivial

/-- Messages are alike if all their fields are. -/
theorem alike_iff :
    schema.Alike keeps owner records others ↔
      (∀ number spec, schema.field? owner number = some spec →
        spec.Alike (schema.Alike keeps) (schema.counting owner number records)
          (schema.counting owner number others)) ∧
      ∀ number, schema.field? owner number = none → keeps owner number →
        schema.counting owner number records = schema.counting owner number others := by
  constructor
  · intro halike
    refine ⟨fun number spec hfield => alike_field_of_forall fun depth => ?_,
      fun number hfield => ?_⟩
    · have hdepth := halike (depth + 1) number
      simpa only [hfield] using hdepth
    · have hdepth := halike 1 number
      simpa only [hfield] using hdepth
  · rintro ⟨hknown, hunknown⟩ depth
    cases depth with
    | zero => trivial
    | succ depth =>
        intro number
        cases hfield : schema.field? owner number with
        | none => exact hunknown number hfield
        | some spec =>
            exact (hknown number spec hfield).mono fun _ _ _ hinner => hinner depth

theorem Alike.refl (keeps : τ → Nat → Prop) (owner : τ) (records : List Record) :
    schema.Alike keeps owner records records := by
  intro depth
  induction depth generalizing owner records with
  | zero => trivial
  | succ depth ih =>
      intro number
      cases schema.field? owner number with
      | none => exact fun _ => rfl
      | some spec => exact FieldSpec.Alike.refl spec ih _

end Schema

end ProtoSource.Wire
