import Mathlib.Data.List.Basic
import Mathlib.Data.Option.Basic
import ProtoSource.Proofs.Wire.ReadingBack

/-!
# Views of messages that say the same

What is read off the records of a message by number is the same for messages
that are alike, provided that their records are of the types that the schema
gives them.
-/

namespace ProtoSource.Wire

open ProtoSource.Related
open Reader
open Records

theorem depthOf_lt_of_mem_messages {number : Nat} {records inner : List Record}
    (hinner : inner ∈ messages number records) : depthOf inner < depthOf records := by
  obtain ⟨record, hmem, hrecord⟩ := List.mem_filterMap.1 hinner
  cases record with
  | message found payload records' =>
      simp only [Option.ite_none_right_eq_some, Option.some.injEq] at hrecord
      obtain ⟨-, rfl⟩ := hrecord
      have hdepth := depthOf_le_iff.1 (Nat.le_refl _) _ hmem
      rw [depthOfRecord] at hdepth
      omega
  | _ => simp at hrecord

namespace Schema

variable {τ σ : Type}

/-- The record is one that the schema can find in a message of type `owner`. -/
inductive Types (schema : Schema τ) : τ → Record → Prop where
  | unknown {owner : τ} {record : Record} :
      schema.field? owner record.number = none → schema.Types owner record
  | value {owner : τ} {record : Record} {spec : FieldSpec τ} :
      schema.field? owner record.number = some spec → spec.Shapes record →
        (∀ type, spec.kind ≠ .message type) → schema.Types owner record
  | message {owner : τ} {number : Nat} {spec : FieldSpec τ} {type : τ} {payload : Bytes}
      {records : List Record} :
      schema.field? owner number = some spec → spec.kind = .message type →
        (∀ record ∈ records, schema.Types type record) →
        schema.Types owner (.message number payload records)

theorem types_of_interprets {schema : Schema τ} (hflat : ∀ owner, schema.IsFlat owner)
    {budget : Nat} (hbudget : budget ≤ nestingLimit) {owner : τ} {bytes : Bytes}
    {raw record : Record} (hraw : ReadsRaw bytes raw)
    (hinterprets : schema.Interprets budget owner raw record) : schema.Types owner record := by
  induction budget generalizing owner bytes raw record with
  | zero =>
      cases hinterprets with
      | unknown hnone _ => exact .unknown hnone
      | known hfield _ hmeans =>
          refine .value (by rwa [hmeans.number_eq]) (hmeans.shapes hraw) fun type hkind => ?_
          obtain ⟨less, _, _, _, hless, -⟩ := hmeans.of_message hkind
          omega
  | succ budget ih =>
      cases hinterprets with
      | unknown hnone _ => exact .unknown hnone
      | @known _ spec hfield _ hmeans =>
          by_cases hmessage : ∃ type, spec.kind = .message type
          · obtain ⟨type, hkind⟩ := hmessage
            obtain ⟨less, number, payload, records, hless, rfl, rfl, hholds⟩ :=
              hmeans.of_message hkind
            obtain rfl : less = budget := by omega
            refine .message hfield hkind fun record hrecord => ?_
            obtain ⟨raws, hraws, hall⟩ := (holds_iff (hflat type) (by omega)).1 hholds
            obtain ⟨raw, hmem, hinner⟩ := forall₂_exists_of_mem hall.flip hrecord
            obtain ⟨front, hraw⟩ := hraws.forall_mem raw hmem
            exact ih (by omega) hraw hinner
          · exact .value (by rwa [hmeans.number_eq]) (hmeans.shapes hraw)
              fun type hkind => hmessage ⟨type, hkind⟩

theorem Holds.types {schema : Schema τ} (hflat : ∀ owner, schema.IsFlat owner) {budget : Nat}
    (hbudget : budget ≤ nestingLimit) {owner : τ} {bytes : Bytes} {records : List Record}
    (hholds : schema.Holds budget owner bytes records) :
    ∀ record ∈ records, schema.Types owner record := by
  intro record hrecord
  obtain ⟨raws, hraws, hall⟩ := (holds_iff (hflat owner) hbudget).1 hholds
  obtain ⟨raw, hmem, hinterprets⟩ := forall₂_exists_of_mem hall.flip hrecord
  obtain ⟨front, hraw⟩ := hraws.forall_mem raw hmem
  exact types_of_interprets hflat hbudget hraw hinterprets

section Nested

variable {schema : Schema τ} {budget number : Nat} {owner type : τ} {spec : FieldSpec τ}

/-- What is found for a message field is what its payload holds. -/
theorem holds_inner_of_interprets (hfield : schema.field? owner number = some spec)
    (hkind : spec.kind = .message type) {raw : Record} {payload : Bytes} {inner : List Record}
    (hinterprets : schema.Interprets (budget + 1) owner raw (.message number payload inner)) :
    schema.Holds budget type payload inner := by
  have hnumber := hinterprets.number_eq
  cases hinterprets with
  | unknown hnone _ => simp [Record.number, hfield] at hnone
  | known hfield' _ hmeans =>
      rw [← hnumber, Record.number, hfield] at hfield'
      obtain rfl := Option.some.inj hfield'
      obtain ⟨less, _, _, _, hless, -, hrecord, hholds⟩ := hmeans.of_message hkind
      obtain rfl : less = budget := by omega
      obtain ⟨-, rfl, rfl⟩ := Record.message.inj hrecord
      exact hholds

theorem Holds.inner (hflat : schema.IsFlat owner) (hbudget : budget + 1 ≤ nestingLimit)
    (hfield : schema.field? owner number = some spec) (hkind : spec.kind = .message type)
    {bytes : Bytes} {records : List Record} (hholds : schema.Holds (budget + 1) owner bytes records)
    {inner : List Record} (hinner : inner ∈ messages number records) :
    ∃ payload, schema.Holds budget type payload inner := by
  obtain ⟨raws, -, hall⟩ := (holds_iff hflat hbudget).1 hholds
  obtain ⟨record, hmem, hrecord⟩ := List.mem_filterMap.1 hinner
  obtain ⟨raw, -, hinterprets⟩ := forall₂_exists_of_mem hall.flip hmem
  cases record with
  | message found payload records =>
      simp only [Option.ite_none_right_eq_some, Option.some.injEq] at hrecord
      obtain ⟨rfl, rfl⟩ := hrecord
      exact ⟨payload, holds_inner_of_interprets hfield hkind hinterprets⟩
  | _ => simp at hrecord

/-- The message of a field is what all its payloads together hold. -/
theorem Holds.payload (hflat : schema.IsFlat owner) (hbudget : budget + 1 ≤ nestingLimit)
    (hfield : schema.field? owner number = some spec) (hkind : spec.kind = .message type)
    {bytes : Bytes} {records : List Record}
    (hholds : schema.Holds (budget + 1) owner bytes records) :
    schema.Holds budget type (payload number records) (messages number records).flatten := by
  obtain ⟨raws, -, hall⟩ := (holds_iff hflat hbudget).1 hholds
  clear hholds
  unfold Records.payload
  induction hall with
  | nil => exact Steps.nil
  | @cons raw record _ _ hinterprets _ ih =>
      cases record with
      | message found payload inner =>
          by_cases hnumber : found = number
          · subst hnumber
            simp only [payloads, messages, List.filterMap_cons, if_true, List.flatten_cons] at ih ⊢
            exact (holds_inner_of_interprets hfield hkind hinterprets).append ih
          · simpa [payloads, messages, hnumber] using ih
      | _ => simpa [payloads, messages] using ih

end Nested

/-- Messages say the same, and their records are of the right types. -/
structure Same (schema : Schema τ) (keeps : τ → Nat → Prop) (owner : τ)
    (records others : List Record) : Prop where
  alike : schema.Alike keeps owner records others
  types : ∀ record ∈ records, schema.Types owner record
  typesOthers : ∀ record ∈ others, schema.Types owner record

theorem counting_eq_own {schema : Schema τ} {owner : τ} {number : Nat}
    (hchoice : schema.choice? owner number = none) (records : List Record) :
    schema.counting owner number records = own number records := by
  unfold counting
  induction records with
  | nil => rfl
  | cons record rest ih =>
      rw [settle_cons]
      split_ifs with hany
      · have hother : record.number ≠ number := by
          rintro rfl
          obtain ⟨later, -, hlater⟩ := List.any_eq_true.1 hany
          have hsome := (supersedes_iff.1 hlater).1
          simp [hchoice] at hsome
        rw [ih]
        simp [own, hother]
      · simp only [own, List.filter_cons] at ih ⊢
        rw [ih]

theorem texts_eq (number : Nat) (records : List Record) :
    texts number records = (own number records).filterMap Record.text? := by
  unfold texts own
  rw [List.filterMap_filter]
  refine List.filterMap_congr fun record _ => ?_
  cases record <;> simp [Record.text?, Record.number]

theorem byteStrings_eq (number : Nat) (records : List Record) :
    byteStrings number records = (own number records).filterMap Record.bytes? := by
  unfold byteStrings own
  rw [List.filterMap_filter]
  refine List.filterMap_congr fun record _ => ?_
  cases record <;> simp [Record.bytes?, Record.number]

theorem texts_own (number : Nat) (records : List Record) :
    texts number (own number records) = texts number records := by
  rw [texts_eq, texts_eq, own_eq_self fun record hrecord => number_eq_of_mem_own hrecord]

theorem messages_own (number : Nat) (records : List Record) :
    messages number (own number records) = messages number records := by
  unfold messages own
  rw [List.filterMap_filter]
  refine List.filterMap_congr fun record _ => ?_
  cases record <;> simp [Record.number]

section Typed

variable {schema : Schema τ} {keeps : τ → Nat → Prop} {owner : τ} {number : Nat}
  {spec : FieldSpec τ} {records others : List Record}

theorem Types.shapes {record : Record} (htypes : schema.Types owner record)
    (hfield : schema.field? owner record.number = some spec) : spec.Shapes record := by
  cases htypes with
  | unknown hnone => simp [hfield] at hnone
  | value hfield' hshapes _ =>
      obtain rfl := Option.some.inj (hfield.symm.trans hfield')
      exact hshapes
  | message hfield' hkind _ =>
      obtain rfl := Option.some.inj (hfield.symm.trans hfield')
      exact .message hkind

theorem flatMap_own {α : Type} {f g : Record → List α}
    (hother : ∀ record ∈ records, record.number ≠ number → f record = [])
    (hown : ∀ record ∈ records, record.number = number → f record = g record) :
    records.flatMap f = (own number records).flatMap g := by
  induction records with
  | nil => rfl
  | cons record rest ih =>
      rw [List.forall_mem_cons] at hother hown
      rw [List.flatMap_cons, ih hother.2 hown.2]
      by_cases hnumber : record.number = number
      · rw [hown.1 hnumber]
        simp [own, hnumber]
      · rw [hother.1 hnumber]
        simp [own, hnumber]

theorem varints_own (number : Nat) (records : List Record) :
    varints number (own number records) = varints number records := by
  refine (flatMap_own (fun record _ hother => ?_) fun _ _ _ => rfl).symm
  cases record <;> simp_all [Record.number]

theorem varints_eq (htypes : ∀ record ∈ records, schema.Types owner record)
    (hfield : schema.field? owner number = some spec) {scalar : Scalar}
    (hkind : spec.kind = .scalar scalar) (hwire : scalar.wire = .varint) :
    varints number records = (own number records).flatMap Record.numbers := by
  refine flatMap_own ?_ ?_
  · intro record _ hnumber
    cases record <;> simp_all [Record.number]
  · rintro record hmem rfl
    cases (htypes record hmem).shapes hfield with
    | scalar hkind' _ =>
        obtain rfl : scalar = _ := by simpa [hkind] using hkind'
        simp [Scalar.wireRecord, hwire, Record.numbers, Record.number]
    | packed _ _ _ => simp [Record.numbers, Record.number]
    | text hkind' => simp [hkind] at hkind'
    | bytes hkind' => simp [hkind] at hkind'
    | message hkind' => simp [hkind] at hkind'

theorem fixed64s_eq (htypes : ∀ record ∈ records, schema.Types owner record)
    (hfield : schema.field? owner number = some spec) (hone : spec.repeated = false)
    {scalar : Scalar} (hkind : spec.kind = .scalar scalar) (hwire : scalar.wire = .fixed64) :
    fixed64s number records = (own number records).flatMap Record.numbers := by
  unfold fixed64s
  rw [List.filterMap_eq_flatMap_toList]
  refine flatMap_own ?_ ?_
  · intro record _ hnumber
    cases record <;> simp_all [Record.number]
  · rintro record hmem rfl
    cases (htypes record hmem).shapes hfield with
    | scalar hkind' _ =>
        obtain rfl : scalar = _ := by simpa [hkind] using hkind'
        simp [Scalar.wireRecord, hwire, Record.numbers, Record.number]
    | packed _ hrepeated _ => simp [hone] at hrepeated
    | text hkind' => simp [hkind] at hkind'
    | bytes hkind' => simp [hkind] at hkind'
    | message hkind' => simp [hkind] at hkind'

theorem messages_eq (htypes : ∀ record ∈ records, schema.Types owner record)
    (hfield : schema.field? owner number = some spec) {type : τ}
    (hkind : spec.kind = .message type) :
    messages number records = (own number records).filterMap Record.records? := by
  unfold messages
  rw [List.filterMap_eq_flatMap_toList, List.filterMap_eq_flatMap_toList]
  refine flatMap_own ?_ ?_
  · intro record _ hnumber
    cases record <;> simp_all [Record.number]
  · rintro record hmem rfl
    cases (htypes record hmem).shapes hfield with
    | scalar hkind' _ => simp [hkind] at hkind'
    | packed hkind' _ _ => simp [hkind] at hkind'
    | text hkind' => simp [hkind] at hkind'
    | bytes hkind' => simp [hkind] at hkind'
    | message _ => simp [Record.records?, Record.number]

theorem types_of_mem_messages (htypes : ∀ record ∈ records, schema.Types owner record)
    (hfield : schema.field? owner number = some spec) {type : τ}
    (hkind : spec.kind = .message type) {inner : List Record}
    (hinner : inner ∈ messages number records) : ∀ record ∈ inner, schema.Types type record := by
  obtain ⟨record, hmem, hrecord⟩ := List.mem_filterMap.1 hinner
  cases record with
  | message found payload records =>
      simp only [Option.ite_none_right_eq_some, Option.some.injEq] at hrecord
      obtain ⟨rfl, rfl⟩ := hrecord
      cases htypes _ hmem with
      | unknown hnone => simp [Record.number, hfield] at hnone
      | value hfield' _ hvalue =>
          obtain rfl := Option.some.inj (hfield.symm.trans hfield')
          exact absurd hkind (hvalue type)
      | message hfield' hkind' hrecords =>
          obtain rfl := Option.some.inj (hfield.symm.trans hfield')
          obtain rfl : type = _ := by simpa [hkind] using hkind'
          exact hrecords
  | _ => simp at hrecord

theorem toList_message? (hone : spec.repeated = false) :
    (message? number records).toList = spec.merged (messages number records) := by
  unfold message? FieldSpec.merged
  rw [if_neg (by simp [hone])]
  cases messages number records <;> rfl

theorem types_of_message? (htypes : ∀ record ∈ records, schema.Types owner record)
    (hfield : schema.field? owner number = some spec) {type : τ}
    (hkind : spec.kind = .message type) {inner : List Record}
    (hinner : message? number records = some inner) :
    ∀ record ∈ inner, schema.Types type record := by
  intro record hrecord
  have hflatten : inner = (messages number records).flatten := by
    unfold message? at hinner
    split at hinner
    · simp at hinner
    · exact (Option.some.inj hinner).symm
  rw [hflatten, List.mem_flatten] at hrecord
  obtain ⟨part, hpart, hmem⟩ := hrecord
  exact types_of_mem_messages htypes hfield hkind hpart record hmem

end Typed

theorem map_eq_of_rel {α β γ : Type} {relation : α → β → Prop} {f : α → γ} {g : β → γ}
    {left : Option α} {right : Option β}
    (hsame : ∀ left right, relation left right → f left = g right)
    (hrel : Option.Rel relation left right) : left.map f = right.map g := by
  cases hrel with
  | none => rfl
  | some hinner => exact congrArg some (hsame _ _ hinner)

theorem rel_of_forall₂_toList {α β : Type} {relation : α → β → Prop} {left : Option α}
    {right : Option β} (hall : List.Forall₂ relation left.toList right.toList) :
    Option.Rel relation left right := by
  cases left <;> cases right <;> cases hall
  · exact .none
  · exact .some ‹_›

end Schema

namespace FieldSpec

variable {τ α β : Type} {spec : FieldSpec τ}

/-- Where presence is known the last value counts. -/
theorem getLast?_eq_of_map_kept {f : α → β} {isDefault : α → Bool} {values values' : List α}
    (hone : spec.repeated = false) (hpresence : spec.presence = true)
    (hkept : (spec.kept isDefault values).map f = (spec.kept isDefault values').map f) :
    values.getLast?.map f = values'.getLast?.map f := by
  have hhead := congrArg List.head? hkept
  simpa [kept, hone, hpresence, List.head?_map] using hhead

/-- Where presence is not known the last value counts unless it is the default. -/
theorem getD_getLast?_eq_of_kept [BEq α] [LawfulBEq α] {default : α} {values values' : List α}
    (hone : spec.repeated = false)
    (hkept : spec.kept (· == default) values = spec.kept (· == default) values') :
    values.getLast?.getD default = values'.getLast?.getD default := by
  have hvalue (values : List α) :
      values.getLast?.getD default = (spec.kept (· == default) values).head?.getD default := by
    unfold kept
    rw [if_neg (by simp [hone])]
    cases values.getLast? with
    | none => rfl
    | some value =>
        by_cases hdefault : value = default
        · cases hpresence : spec.presence <;> simp [hdefault]
        · simp [hdefault]
  rw [hvalue, hvalue, hkept]

namespace Alike

variable {inner : τ → List Record → List Record → Prop} {number : Nat}
  {records others : List Record}

theorem texts_eq (halike : spec.Alike inner (own number records) (own number others))
    (hkind : spec.kind = .text) (hrepeated : spec.repeated = true) :
    texts number records = texts number others := by
  rw [Schema.texts_eq, Schema.texts_eq]
  simpa [FieldSpec.Alike, hkind, kept, hrepeated] using halike

theorem text?_eq (halike : spec.Alike inner (own number records) (own number others))
    (hkind : spec.kind = .text) (hone : spec.repeated = false) (hpresence : spec.presence = true) :
    text? number records = text? number others := by
  unfold text?
  rw [Schema.texts_eq, Schema.texts_eq]
  simp only [FieldSpec.Alike, hkind] at halike
  have hlast := getLast?_eq_of_map_kept (f := id) hone hpresence (congrArg (List.map id) halike)
  simpa using hlast

/-- Without presence a text is the same up to being empty or absent. -/
theorem getD_text?_eq (halike : spec.Alike inner (own number records) (own number others))
    (hkind : spec.kind = .text) (hone : spec.repeated = false) (hdefault : spec.default? = none) :
    (text? number records).getD "" = (text? number others).getD "" := by
  unfold text?
  rw [Schema.texts_eq, Schema.texts_eq]
  simp only [FieldSpec.Alike, hkind, defaultText, hdefault] at halike
  exact getD_getLast?_eq_of_kept hone halike

theorem getLast?_byteStrings_eq
    (halike : spec.Alike inner (own number records) (own number others))
    (hkind : spec.kind = .bytes) (hone : spec.repeated = false) (hpresence : spec.presence = true) :
    (byteStrings number records).getLast? = (byteStrings number others).getLast? := by
  rw [Schema.byteStrings_eq, Schema.byteStrings_eq]
  simp only [FieldSpec.Alike, hkind] at halike
  have hlast := getLast?_eq_of_map_kept (f := id) hone hpresence (congrArg (List.map id) halike)
  simpa using hlast

end Alike

end FieldSpec

theorem Schema.rel_message? {τ : Type} {schema : Schema τ} {keeps : τ → Nat → Prop} {owner : τ}
    {number : Nat} {spec : FieldSpec τ} {records others : List Record}
    (halike : spec.Alike (schema.Alike keeps) (own number records) (own number others))
    (htypes : ∀ record ∈ records, schema.Types owner record)
    (htypes' : ∀ record ∈ others, schema.Types owner record)
    (hfield : schema.field? owner number = some spec) (hone : spec.repeated = false) {type : τ}
    (hkind : spec.kind = .message type) :
    Option.Rel (schema.Same keeps type) (message? number records) (message? number others) := by
  simp only [FieldSpec.Alike, hkind] at halike
  rw [← messages_eq htypes hfield hkind, ← messages_eq htypes' hfield hkind,
    ← toList_message? hone, ← toList_message? hone] at halike
  refine rel_of_forall₂_toList
    (forall₂_imp_of_mem (fun inner hinner inner' hinner' halike => ?_) halike)
  exact ⟨halike, types_of_message? htypes hfield hkind (Option.mem_toList.1 hinner),
    types_of_message? htypes' hfield hkind (Option.mem_toList.1 hinner')⟩

namespace Schema.Same

variable {τ α : Type} {schema : Schema τ} {keeps : τ → Nat → Prop} {owner : τ} {number : Nat}
  {spec : FieldSpec τ} {records others : List Record}

theorem refl (htypes : ∀ record ∈ records, schema.Types owner record) :
    schema.Same keeps owner records records :=
  ⟨Alike.refl keeps owner records, htypes, htypes⟩

theorem alike_own (hsame : schema.Same keeps owner records others)
    (hfield : schema.field? owner number = some spec) (hchoice : spec.choice = none) :
    spec.Alike (schema.Alike keeps) (own number records) (own number others) := by
  have hnone : schema.choice? owner number = none := by simp [choice?, hfield, hchoice]
  have halike := (alike_iff.1 hsame.alike).1 number spec hfield
  rwa [counting_eq_own hnone, counting_eq_own hnone] at halike

/-- What is read of the numbers of a repeated field is the same if it does not
look beyond their canonical values. -/
theorem map_varints_eq (hsame : schema.Same keeps owner records others)
    (hfield : schema.field? owner number = some spec) (hchoice : spec.choice = none)
    (hrepeated : spec.repeated = true) {scalar : Scalar} (hkind : spec.kind = .scalar scalar)
    (hwire : scalar.wire = .varint) {f : Nat → α}
    (hf : ∀ value, f (scalar.canonical value) = f value) :
    (varints number records).map f = (varints number others).map f := by
  have halike := hsame.alike_own hfield hchoice
  rw [varints_eq hsame.types hfield hkind hwire, varints_eq hsame.typesOthers hfield hkind hwire]
  simp only [FieldSpec.Alike, hkind, FieldSpec.kept, hrepeated, if_true] at halike
  simpa [Function.comp_def, hf] using congrArg (List.map f) halike

theorem map_getLast?_varints_eq (hsame : schema.Same keeps owner records others)
    (hfield : schema.field? owner number = some spec) (hchoice : spec.choice = none)
    (hone : spec.repeated = false) (hpresence : spec.presence = true) {scalar : Scalar}
    (hkind : spec.kind = .scalar scalar) (hwire : scalar.wire = .varint) {f : Nat → α}
    (hf : ∀ value, f (scalar.canonical value) = f value) :
    (varints number records).getLast?.map f = (varints number others).getLast?.map f := by
  have halike := hsame.alike_own hfield hchoice
  rw [varints_eq hsame.types hfield hkind hwire, varints_eq hsame.typesOthers hfield hkind hwire]
  simp only [FieldSpec.Alike, hkind] at halike
  have hlast := FieldSpec.getLast?_eq_of_map_kept hone hpresence halike
  simpa [Function.comp_def, hf] using congrArg (Option.map f) hlast

theorem getLast?_fixed64s_eq (hsame : schema.Same keeps owner records others)
    (hfield : schema.field? owner number = some spec) (hchoice : spec.choice = none)
    (hone : spec.repeated = false) (hpresence : spec.presence = true) {scalar : Scalar}
    (hkind : spec.kind = .scalar scalar) (hwire : scalar.wire = .fixed64) :
    (fixed64s number records).getLast? = (fixed64s number others).getLast? := by
  have halike := hsame.alike_own hfield hchoice
  rw [fixed64s_eq hsame.types hfield hone hkind hwire,
    fixed64s_eq hsame.typesOthers hfield hone hkind hwire]
  simp only [FieldSpec.Alike, hkind] at halike
  have hlast := FieldSpec.getLast?_eq_of_map_kept hone hpresence halike
  have hid : scalar.canonical = id := by
    funext value
    exact Scalar.canonical_eq_self (by simp [hwire]) value
  simpa [hid] using hlast

/-- The messages of a repeated field are the same one by one. -/
theorem messages (hsame : schema.Same keeps owner records others)
    (hfield : schema.field? owner number = some spec) (hchoice : spec.choice = none)
    (hrepeated : spec.repeated = true) {type : τ} (hkind : spec.kind = .message type) :
    List.Forall₂ (schema.Same keeps type) (Records.messages number records)
      (Records.messages number others) := by
  have halike := hsame.alike_own hfield hchoice
  simp only [FieldSpec.Alike, hkind, FieldSpec.merged, hrepeated, if_true] at halike
  rw [← messages_eq hsame.types hfield hkind, ← messages_eq hsame.typesOthers hfield hkind]
    at halike
  refine forall₂_imp_of_mem (fun inner hinner inner' hinner' halike => ?_) halike
  exact ⟨halike, types_of_mem_messages hsame.types hfield hkind hinner,
    types_of_mem_messages hsame.typesOthers hfield hkind hinner'⟩

/-- The message of a singular field is the same. -/
theorem message? (hsame : schema.Same keeps owner records others)
    (hfield : schema.field? owner number = some spec) (hchoice : spec.choice = none)
    (hone : spec.repeated = false) {type : τ} (hkind : spec.kind = .message type) :
    Option.Rel (schema.Same keeps type) (Records.message? number records)
      (Records.message? number others) :=
  rel_message? (hsame.alike_own hfield hchoice) hsame.types hsame.typesOthers hfield hone hkind

/-- All messages of a singular field together are the same. -/
theorem flatten_messages (hsame : schema.Same keeps owner records others)
    (hfield : schema.field? owner number = some spec) (hchoice : spec.choice = none)
    (hone : spec.repeated = false) {type : τ} (hkind : spec.kind = .message type) :
    schema.Same keeps type (Records.messages number records).flatten
      (Records.messages number others).flatten := by
  have hgetD (records : List Record) :
      (Records.messages number records).flatten = (Records.message? number records).getD [] := by
    unfold Records.message?
    cases Records.messages number records <;> rfl
  have hrel := hsame.message? hfield hchoice hone hkind
  rw [hgetD, hgetD]
  generalize Records.message? number records = left at hrel ⊢
  generalize Records.message? number others = right at hrel ⊢
  cases hrel with
  | none => exact .refl (by simp)
  | some hinner => exact hinner

end Schema.Same

end ProtoSource.Wire
