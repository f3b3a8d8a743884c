import Mathlib.Data.List.Sort
import ProtoSource.Proofs.Descriptor.Transcoding
import ProtoSource.Proofs.Render.Readable

/-!
# Standard options survive printing

The list of standard options says which of them are set and to what: their numbers
ascend, and no two values of an option have the same text.  It is the list that the
declaration of the options message in the file of descriptors gives, when the options
are written and read again as a message of that declaration.
-/

namespace ProtoSource.Render

open ProtoSource.Descriptor
open ProtoSource.Load
open ProtoSource.Pool
open ProtoSource.Related
open ProtoSource.Text
open ProtoSource.WellKnown
open ProtoSource.Wire
open ProtoSource.Wire.Records

theorem repr_injective {natural other : Nat} (hrepr : natural.repr = other.repr) :
    natural = other := by
  have hdigits := congrArg (fun text => Nat.ofDigitChars 10 text.toList 0) hrepr
  simpa only [Nat.toList_repr, Nat.ofDigitChars_toDigits (by decide : 1 < 10) (Nat.le_refl 10)]
    using hdigits

theorem exists_digit_repr (natural : Nat) : ∃ char ∈ natural.repr.toList.head?, char.isDigit := by
  rw [Nat.toList_repr]
  cases hchars : Nat.toDigits 10 natural with
  | nil => exact absurd hchars Nat.toDigits_ne_nil
  | cons first rest =>
      have hmem : first ∈ Nat.toDigits 10 natural := hchars ▸ List.mem_cons_self
      exact ⟨first, rfl, Nat.isDigit_of_mem_toDigits (by decide) (by decide) hmem⟩

theorem head?_minus (text : String) : ("-" ++ text).toList.head? = some '-' := by
  rw [String.toList_append]
  rfl

theorem head?_toString (number : Int) :
    ∃ char ∈ (toString number).toList.head?, char = '-' ∨ char.isDigit := by
  rw [Int.toString_eq_repr, Int.repr_eq_if]
  split
  · obtain ⟨char, hchar, hdigit⟩ := exists_digit_repr number.toNat
    exact ⟨char, hchar, .inr hdigit⟩
  · exact ⟨'-', head?_minus _, .inl rfl⟩

theorem toString_injective {number other : Int} (htext : toString number = toString other) :
    number = other := by
  have hunlike (natural : Nat) (text : String) : natural.repr ≠ "-" ++ text := by
    intro heq
    obtain ⟨char, hchar, hdigit⟩ := exists_digit_repr natural
    rw [heq, head?_minus] at hchar
    obtain rfl := Option.some.inj hchar
    exact absurd hdigit (by decide)
  rw [Int.toString_eq_repr, Int.toString_eq_repr, Int.repr_eq_if, Int.repr_eq_if] at htext
  split_ifs at htext with hnumber hother
  · have hnat := repr_injective htext
    omega
  · exact absurd htext (hunlike _ _)
  · exact absurd htext.symm (hunlike _ _)
  · have hnat := repr_injective (String.append_right_inj _ |>.1 htext)
    omega

theorem toString_ne_of_isUpper {name : String} (hname : ∃ char ∈ name.toList.head?, char.isUpper)
    (number : Int) : name ≠ toString number := by
  rintro rfl
  obtain ⟨upper, hupper, hisUpper⟩ := hname
  obtain ⟨char, hchar, hkind⟩ := head?_toString number
  obtain rfl := Option.mem_unique hupper hchar
  obtain rfl | hisDigit := hkind
  · exact absurd hisUpper (by decide)
  · have hlow : 65 ≤ upper.val := (of_decide_eq_true hisUpper).1
    have hhigh : upper.val ≤ 57 := of_decide_eq_true (Bool.and_eq_true_iff.1 hisDigit).2
    rw [UInt32.le_iff_toNat_le] at hlow hhigh
    exact absurd (hlow.trans hhigh) (by decide)

/-- The names of numbers are in upper case, and no two numbers share one. -/
theorem named_settings (kind : OptionsKind) : ∀ spec ∈ kind.settings,
    ∀ choice ∈ choices spec.shape, (∃ char ∈ choice.2.toList.head?, char.isUpper) ∧
      ∀ other ∈ choices spec.shape, other.2 = choice.2 → other.1 = choice.1 := by
  cases kind <;> decide

/-- What the text of a value can begin with. -/
def Opens (value : SettingValue) (char : Char) : Prop :=
  match value with
  | .text _ => char = '"'
  | .flag _ => char = 't' ∨ char = 'f'
  | .choice _ => char = '-' ∨ char.isDigit ∨ char.isUpper

theorem not_opens_flag (flag : Bool) : ¬ Opens (.flag flag) '"' := by
  change ¬ ('"' = 't' ∨ '"' = 'f')
  decide

theorem not_opens_choice (number : Int) :
    ∀ char ∈ ['"', 't', 'f'], ¬ Opens (.choice number) char := by
  change ∀ char ∈ ['"', 't', 'f'], ¬ (char = '-' ∨ char.isDigit ∨ char.isUpper)
  decide

theorem settingText_choice (shape : SettingShape) (number : Int) :
    settingText shape (.choice number) = choiceText (choices shape) number := by
  cases shape <;> rfl

section Texts

variable {kind : OptionsKind} {spec : SettingSpec} (hspec : spec ∈ kind.settings)

include hspec

theorem choiceText_injective {number other : Int}
    (htext : choiceText (choices spec.shape) number = choiceText (choices spec.shape) other) :
    number = other := by
  have hnamed := named_settings kind spec hspec
  unfold choiceText at htext
  cases hnumber : (choices spec.shape).lookup number with
  | none =>
      cases hother : (choices spec.shape).lookup other with
      | none =>
          rw [hnumber, hother] at htext
          exact toString_injective htext
      | some name =>
          rw [hnumber, hother] at htext
          have hupper := (hnamed _ (mem_of_lookup hother)).1
          exact absurd htext.symm (toString_ne_of_isUpper hupper number)
  | some name =>
      have hnumber' := mem_of_lookup hnumber
      cases hother : (choices spec.shape).lookup other with
      | none =>
          rw [hnumber, hother] at htext
          exact absurd htext (toString_ne_of_isUpper (hnamed _ hnumber').1 other)
      | some name' =>
          rw [hnumber, hother] at htext
          obtain rfl : name = name' := htext
          exact (hnamed _ (mem_of_lookup hother)).2 _ hnumber' rfl

theorem exists_head?_choiceText (number : Int) :
    ∃ char ∈ (choiceText (choices spec.shape) number).toList.head?,
      char = '-' ∨ char.isDigit ∨ char.isUpper := by
  unfold choiceText
  cases hlookup : (choices spec.shape).lookup number with
  | none =>
      obtain ⟨char, hchar, hkind⟩ := head?_toString number
      exact ⟨char, hchar, hkind.imp_right .inl⟩
  | some name =>
      obtain ⟨⟨char, hchar, hupper⟩, -⟩ := named_settings kind spec hspec _ (mem_of_lookup hlookup)
      exact ⟨char, hchar, .inr (.inr hupper)⟩

theorem exists_opens (value : SettingValue) :
    ∃ char ∈ (settingText spec.shape value).toList.head?, Opens value char := by
  cases value with
  | text text => exact ⟨'"', by rw [settingText, quote, String.toList_ofList]; rfl, rfl⟩
  | flag flag =>
      cases flag with
      | true => exact ⟨'t', by simp [settingText], .inl rfl⟩
      | false => exact ⟨'f', by simp [settingText], .inr rfl⟩
  | choice number =>
      rw [settingText_choice]
      exact exists_head?_choiceText hspec number

/-- No two values of a standard option have the same text. -/
theorem settingText_injective {value other : SettingValue}
    (htext : settingText spec.shape value = settingText spec.shape other) : value = other := by
  obtain ⟨char, hchar, hopens⟩ := exists_opens hspec value
  obtain ⟨char', hchar', hopens'⟩ := exists_opens hspec other
  rw [htext] at hchar
  obtain rfl := Option.mem_unique hchar hchar'
  cases value with
  | text text =>
      obtain rfl : char = '"' := hopens
      cases other with
      | text text' =>
          have hread := congrArg (fun literal => unquote? literal.toList) htext
          simpa [settingText] using hread
      | flag flag => exact absurd hopens' (not_opens_flag flag)
      | choice number => exact absurd hopens' (not_opens_choice number _ (by decide))
  | flag flag =>
      cases other with
      | text text =>
          obtain rfl : char = '"' := hopens'
          exact absurd hopens (not_opens_flag flag)
      | flag flag' =>
          cases flag <;> cases flag' <;> simp_all [settingText]
      | choice number =>
          obtain rfl | rfl := hopens <;>
            exact absurd hopens' (not_opens_choice number _ (by decide))
  | choice number =>
      cases other with
      | text text =>
          obtain rfl : char = '"' := hopens'
          exact absurd hopens (not_opens_choice number _ (by decide))
      | flag flag =>
          obtain rfl | rfl := hopens' <;>
            exact absurd hopens (not_opens_choice number _ (by decide))
      | choice number' =>
          rw [settingText_choice, settingText_choice] at htext
          rw [choiceText_injective hspec htext]

end Texts

/-! ## The list -/

section Listing

variable {kind : OptionsKind} {options other : Options kind}

/-- A standard option other than the mark of map entries. -/
def IsShown (kind : OptionsKind) (spec : SettingSpec) : Prop :=
  spec ∈ kind.settings ∧ spec.name ≠ "map_entry"

theorem mem_filter_isStructural {spec : SettingSpec} :
    spec ∈ kind.settings.filter (!isStructural ·) ↔ IsShown kind spec := by
  simp [IsShown, isStructural]

theorem ascending_settings (kind : OptionsKind) :
    kind.settings.Pairwise (·.number < ·.number) := by
  cases kind <;> decide

theorem nodup_names_settings (kind : OptionsKind) : (kind.settings.map SettingSpec.name).Nodup := by
  cases kind <;> decide

/-- The option is set to what the pair says. -/
def IsPrinted (options : Options kind) (spec : SettingSpec) (pair : String × String) : Prop :=
  ∃ value, options.settings.lookup spec.number = some value ∧
    pair = (spec.name, settingText spec.shape value)

theorem forall₂_isPrinted (specs : List SettingSpec) :
    List.Forall₂ (IsPrinted options)
      (specs.filter fun spec => (options.settings.lookup spec.number).isSome)
      (specs.filterMap fun spec => (options.settings.lookup spec.number).map fun value =>
        (spec.name, settingText spec.shape value)) := by
  induction specs with
  | nil => exact .nil
  | cons spec rest ih =>
      cases hlookup : options.settings.lookup spec.number with
      | none => simpa [hlookup] using ih
      | some value => simpa [hlookup] using And.intro ⟨value, hlookup, rfl⟩ ih

theorem mem_standardOptions {pair : String × String} :
    pair ∈ standardOptions (some options) ↔ ∃ spec, IsShown kind spec ∧
      IsPrinted options spec pair := by
  unfold standardOptions
  rw [List.mem_filterMap]
  constructor
  · rintro ⟨spec, hspec, hpair⟩
    obtain ⟨value, hvalue, rfl⟩ := Option.map_eq_some_iff.1 hpair
    exact ⟨spec, mem_filter_isStructural.1 hspec, value, hvalue, rfl⟩
  · rintro ⟨spec, hspec, value, hvalue, rfl⟩
    exact ⟨spec, mem_filter_isStructural.2 hspec, by rw [hvalue]; rfl⟩

/-- What one list says of an option, an equal list says too. -/
theorem lookup_of_standardOptions_eq
    (heq : standardOptions (some options) = standardOptions (some other))
    {spec : SettingSpec} (hspec : IsShown kind spec) {value : SettingValue}
    (hvalue : options.settings.lookup spec.number = some value) :
    other.settings.lookup spec.number = some value := by
  have hmem : (spec.name, settingText spec.shape value) ∈ standardOptions (some other) := by
    rw [← heq]
    exact mem_standardOptions.2 ⟨spec, hspec, value, hvalue, rfl⟩
  obtain ⟨found, hfound, value', hvalue', hpair⟩ := mem_standardOptions.1 hmem
  obtain ⟨hname, htext⟩ := Prod.mk.inj hpair
  obtain rfl := List.inj_on_of_nodup_map (nodup_names_settings kind) hspec.1 hfound.1 hname
  rw [settingText_injective hspec.1 htext, hvalue']

theorem lookup_eq_of_standardOptions_eq
    (heq : standardOptions (some options) = standardOptions (some other)) {spec : SettingSpec}
    (hspec : IsShown kind spec) :
    options.settings.lookup spec.number = other.settings.lookup spec.number :=
  Option.ext fun _ => ⟨lookup_of_standardOptions_eq heq hspec,
    lookup_of_standardOptions_eq heq.symm hspec⟩

end Listing

/-! ## The list of a declared message -/

/-- The fields of an options message as the file of descriptors declares it, in
ascending order of number. -/
def declaredFields (kind : OptionsKind) : List Field :=
  (((messagesOf descriptorFile).lookup (optionsName kind)).map (·.body.fields)).getD []
    |>.insertionSort
    (·.number ≤ ·.number)

/-- The names of the numbers of an enum that the file of descriptors declares. -/
def declaredNames (field : Field) : List (Int × String) :=
  (((enumsOf descriptorFile).lookup (Name.bare field.typeName)).map fun enumeration =>
    enumeration.values.map fun value => (value.number, value.name)).getD []

/-- The text of the value of a field in a message, if the field is there and has one
value that is no message. -/
def fieldText? (records : List Record) (field : Field) : Option String :=
  if isRepeated field then
    none
  else
    match kindOf field with
    | .text => (text? field.number.toNat records).map quote
    | .scalar .bool =>
      (flag? field.number.toNat records).map fun value => if value then "true" else "false"
    | .scalar .enumeration =>
      (int? field.number.toNat records).map (choiceText (declaredNames field))
    | _ => none

/-- The fields that are there in an options message, each with the text of its value. -/
def declaredOptions (kind : OptionsKind) (records : List Record) : List (String × String) :=
  ((declaredFields kind).filter (·.name != "map_entry")).filterMap fun field =>
    (fieldText? records field).map (field.name, ·)

/-- The declared field is the standard option. -/
def Declares (field : Field) (spec : SettingSpec) : Bool :=
  field.name == spec.name && field.number == spec.number && !isRepeated field &&
    match spec.shape with
    | .text => kindOf field == .text
    | .flag => kindOf field == .scalar .bool
    | .choice names => kindOf field == .scalar .enumeration && declaredNames field == names

/-- The field is repeated, holds a message or has a number that no option is written with. -/
def IsLeftOut (kind : OptionsKind) (field : Field) : Bool :=
  isRepeated field || (kindOf field).type?.isSome ||
    !(999 :: kind.settings.map SettingSpec.number).contains field.number.toNat

/-- The file of descriptors declares the standard options and no other fields that are shown. -/
theorem declares_settings (kind : OptionsKind) :
    List.Forall₂ (fun field spec => Declares field spec)
    ((declaredFields kind).filter fun field => field.name != "map_entry" && !IsLeftOut kind field)
    (kind.settings.filter (!isStructural ·)) := by
  cases kind <;> decide

section Declared

variable {kind : OptionsKind} {options : Options kind} {payload : Bytes}

theorem fieldText?_of_declares {field : Field} {spec : SettingSpec}
    (hdeclares : Declares field spec)
    (records : List Record) :
    fieldText? records field = (spec.value? records).map (settingText spec.shape) := by
  simp only [Declares, Bool.and_eq_true, beq_iff_eq, Bool.not_eq_eq_eq_not,
    Bool.not_true] at hdeclares
  obtain ⟨⟨⟨-, hnumber⟩, hone⟩, hshape⟩ := hdeclares
  have hnumber' : field.number.toNat = spec.number := by rw [hnumber, Int.toNat_natCast]
  unfold fieldText? SettingSpec.value?
  rw [if_neg (by simp [hone]), hnumber']
  cases hspec : spec.shape with
  | text =>
      rw [hspec] at hshape
      simp only [beq_iff_eq] at hshape
      rw [hshape, Option.map_map]
      rfl
  | flag =>
      rw [hspec] at hshape
      simp only [beq_iff_eq] at hshape
      rw [hshape, Option.map_map]
      rfl
  | choice names =>
      rw [hspec] at hshape
      simp only [Bool.and_eq_true, beq_iff_eq] at hshape
      rw [hshape.1, hshape.2, Option.map_map]
      rfl

theorem number_of_mem_records (hdecode : Options.decode kind payload = .ok options)
    {record : Record}
    (hrecord : record ∈ options.records) :
    record.number ∈ 999 :: kind.settings.map SettingSpec.number := by
  obtain ⟨records, -, rfl⟩ := Success.map_eq_ok.1 hdecode
  obtain hsetting | huninterpreted := List.mem_append.1 hrecord
  · obtain ⟨setting, hmem, rfl⟩ := List.mem_map.1 hsetting
    obtain ⟨spec, hspec, hnumber, -⟩ := Options.takes_of_mem hmem
    rw [SettingValue.number_record, ← hnumber]
    exact List.mem_cons_of_mem _ (List.mem_map_of_mem hspec)
  · obtain ⟨option, -, rfl⟩ := List.mem_map.1 huninterpreted
    exact List.mem_cons_self

theorem fieldText?_eq_none (hdecode : Options.decode kind payload = .ok options) {field : Field}
    (hout : IsLeftOut kind field) : fieldText? options.records field = none := by
  simp only [IsLeftOut, Bool.or_eq_true, Bool.not_eq_eq_eq_not, Bool.not_true] at hout
  unfold fieldText?
  split
  · rfl
  · next hone =>
      obtain (hmany | hmessage) | hnumber := hout
      · exact absurd hmany hone
      · cases hkind : kindOf field <;> simp_all [Kind.type?]
      · have hnumbers : field.number.toNat ∉ 999 :: kind.settings.map SettingSpec.number := by
          simpa using hnumber
        have hown : own field.number.toNat options.records = [] := by
          refine List.filter_eq_nil_iff.2 fun record hrecord hsame => hnumbers ?_
          rw [← beq_iff_eq.1 hsame]
          exact number_of_mem_records hdecode hrecord
        have htexts : texts field.number.toNat options.records = [] := by
          rw [← Schema.texts_own, hown]
          rfl
        have hvarints : varints field.number.toNat options.records = [] := by
          rw [← Schema.varints_own, hown]
          rfl
        simp only [text?, flag?, int?, ints, htexts, hvarints, List.map_nil, List.getLast?_nil,
          Option.map_none]
        split <;> rfl

/-- Written and read again by their declaration, options show the same. -/
theorem declaredOptions_records (hdecode : Options.decode kind payload = .ok options) :
    declaredOptions kind options.records = standardOptions (some options) := by
  have hshown : declaredOptions kind options.records =
      ((declaredFields kind).filter fun field =>
        field.name != "map_entry" && !IsLeftOut kind field).filterMap
        fun field => (fieldText? options.records field).map (field.name, ·) := by
    rw [declaredOptions, List.filterMap_filter, List.filterMap_filter]
    refine List.filterMap_congr fun field _ => ?_
    cases hout : IsLeftOut kind field with
    | true => simp [fieldText?_eq_none hdecode hout]
    | false => simp
  have hpairs : ((declaredFields kind).filter fun field =>
        field.name != "map_entry" && !IsLeftOut kind field).map
          (fun field => (fieldText? options.records field).map (field.name, ·)) =
      (kind.settings.filter (!isStructural ·)).map fun spec =>
        (options.settings.lookup spec.number).map fun value =>
          (spec.name, settingText spec.shape value) := by
    refine map_eq_of_forall₂ (fun field _ spec hspec hdeclares => ?_) (declares_settings kind)
    have hname : field.name = spec.name := by
      simp only [Declares, Bool.and_eq_true, beq_iff_eq] at hdeclares
      exact hdeclares.1.1.1
    rw [fieldText?_of_declares hdeclares,
      Options.value?_records hdecode (mem_filter_isStructural.1 hspec).1, hname, Option.map_map]
    rfl
  have hlists := congrArg (List.filterMap id) hpairs
  rw [List.filterMap_map, List.filterMap_map] at hlists
  rw [hshown]
  exact hlists

end Declared

/-- The list has one pair for each standard option that is set, other than the mark of
map entries, in ascending order of number.  Options with the same list are set to the
same values.  Options that are written and read again as a message of the file of
descriptors have the list that their declaration gives. -/
theorem standardOptions_faithful {kind : OptionsKind} (options : Options kind) :
    standardOptions (none : Option (Options kind)) = [] ∧
      (∃ specs, specs.Pairwise (·.number < ·.number) ∧
        (∀ spec, spec ∈ specs ↔ IsShown kind spec ∧ (options.settings.lookup spec.number).isSome) ∧
        List.Forall₂ (IsPrinted options) specs (standardOptions (some options))) ∧
      (∀ other : Options kind, standardOptions (some options) = standardOptions (some other) →
        ∀ spec, IsShown kind spec →
          options.settings.lookup spec.number = other.settings.lookup spec.number) ∧
      ∀ payload, Options.decode kind payload = .ok options →
        (encode options.records).length < 2 ^ 64 →
        ∃ records, setSchema.decode (optionsName kind) (encode options.records) = .ok records ∧
          declaredOptions kind records = standardOptions (some options) := by
  refine ⟨rfl, ⟨_, ?_, ?_, forall₂_isPrinted _⟩, ?_, ?_⟩
  · exact ((ascending_settings kind).filter _).filter _
  · intro spec
    rw [List.mem_filter, mem_filter_isStructural]
  · exact fun other heq spec hspec => lookup_eq_of_standardOptions_eq heq hspec
  · intro payload hdecode hlength
    exact ⟨_, Options.decode_records hdecode hlength, declaredOptions_records hdecode⟩

/-- Options of a field with a choice that has no name and a flag that is set to its default. -/
def plainOptions : Options .field where
  settings := [(1, .choice 7), (3, .flag false), (6, .choice 1)]
  payload := [0x18, 0x00, 0x08, 0x07, 0x30, 0x01]

/-- The same settings without their encoded form. -/
def bareOptions : Options .field where
  settings := plainOptions.settings

theorem decode_plainOptions : Options.decode .field plainOptions.payload = .ok plainOptions := by
  have hparts : (Options.decode .field plainOptions.payload).map
      (fun options => (options.settings, options.uninterpreted, options.payload)) =
        .ok (plainOptions.settings, [], plainOptions.payload) := by
    decide +kernel
  obtain ⟨⟨settings, uninterpreted, payload⟩, hdecode, hsame⟩ := Success.map_eq_ok.1 hparts
  obtain ⟨rfl, rfl, rfl⟩ : settings = _ ∧ uninterpreted = _ ∧ payload = _ := by simpa using hsame
  exact hdecode

theorem standardOptions_faithful_plainOptions :
    standardOptions (some plainOptions) =
        [("ctype", "7"), ("deprecated", "false"), ("jstype", "JS_STRING")] ∧
      (∃ specs, specs.Pairwise (·.number < ·.number) ∧
        (∀ spec, spec ∈ specs ↔
          IsShown .field spec ∧ (plainOptions.settings.lookup spec.number).isSome) ∧
        List.Forall₂ (IsPrinted plainOptions) specs (standardOptions (some plainOptions))) ∧
      (∀ spec, IsShown .field spec →
        plainOptions.settings.lookup spec.number = bareOptions.settings.lookup spec.number) ∧
      ∃ records, setSchema.decode (optionsName .field) (encode plainOptions.records) = .ok records ∧
        declaredOptions .field records = standardOptions (some plainOptions) := by
  obtain ⟨-, hlist, hsame, hdeclared⟩ := standardOptions_faithful plainOptions
  exact ⟨by decide, hlist, hsame bareOptions rfl,
    hdeclared plainOptions.payload decode_plainOptions (by decide)⟩

end ProtoSource.Render
