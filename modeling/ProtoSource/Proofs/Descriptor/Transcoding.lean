import ProtoSource.Descriptor.Write
import ProtoSource.Proofs.Descriptor.Plain
import ProtoSource.Proofs.Descriptor.Described
import ProtoSource.Proofs.Success
import ProtoSource.Proofs.Wire.Writing

/-!
# Options of one schema read under another

Options that were read under the schema of sets are written from what was read of
them.  The well-known file of descriptors describes all that is written, so under the
schema of that file it is read back as it is.
-/

namespace ProtoSource.Descriptor

open ProtoSource.Load
open ProtoSource.Pool
open ProtoSource.Success
open ProtoSource.Wire
open ProtoSource.Wire.Records

section Fields

variable {part : Part} {number : Nat} {spec : FieldSpec Part} {budget : Nat}

theorem isFieldNumber_entries : ∀ part ∈ Part.all, ∀ entry ∈ part.entries,
    0 < entry.number ∧ entry.number < 2 ^ 29 := by
  decide

theorem exists_setSchema_field? (hfield : schema.field? part number = some spec) :
    ∃ written, setSchema.field? part.typeName number = some written ∧ IsFieldNumber number ∧
      written.kind = spec.kind.map Part.typeName := by
  obtain ⟨written, hwritten, hfits⟩ := fits_setSchema hfield
  obtain ⟨entry, hentry, rfl, -⟩ := field?_eq_some hfield
  exact ⟨written, hwritten, isFieldNumber_entries part part.mem_all entry hentry, hfits.kind⟩

theorem writes_text (hfield : schema.field? part number = some spec) (hkind : spec.kind = .text)
    (value : String) : setSchema.Writes (budget + 1) part.typeName (.text number value) := by
  obtain ⟨written, hwritten, hnumber, hkind'⟩ := exists_setSchema_field? hfield
  rw [hkind] at hkind'
  exact .value hwritten hnumber (.text hkind' (ofUtf8?_utf8 value)) (.text hkind')

theorem writes_bytes (hfield : schema.field? part number = some spec) (hkind : spec.kind = .bytes)
    (value : Bytes) : setSchema.Writes (budget + 1) part.typeName (.bytes number value) := by
  obtain ⟨written, hwritten, hnumber, hkind'⟩ := exists_setSchema_field? hfield
  rw [hkind] at hkind'
  exact .value hwritten hnumber (.bytes hkind') (.bytes hkind')

theorem writes_scalar (hfield : schema.field? part number = some spec) {scalar : Scalar}
    (hkind : spec.kind = .scalar scalar) {value : Nat} (hvalue : value < scalar.bound) :
    setSchema.Writes (budget + 1) part.typeName (scalar.wireRecord number value) := by
  obtain ⟨written, hwritten, hnumber, hkind'⟩ := exists_setSchema_field? hfield
  rw [hkind] at hkind'
  rw [← number_wireRecord scalar number value] at hwritten hnumber
  refine .value hwritten hnumber ?_ (.scalar hkind' hvalue)
  rw [Scalar.flat_wireRecord]
  exact .scalar hkind'

theorem writes_embed (hfield : schema.field? part number = some spec) {type : Part}
    (hkind : spec.kind = .message type) {records : List Record}
    (hrecords : ∀ record ∈ records, setSchema.Writes budget type.typeName record) :
    setSchema.Writes (budget + 1) part.typeName (.embed number records) := by
  obtain ⟨written, hwritten, hnumber, hkind'⟩ := exists_setSchema_field? hfield
  rw [hkind] at hkind'
  exact .message hwritten hnumber hkind' hrecords

end Fields

/-! ## What is written of options -/

section Options

variable {kind : OptionsKind} {payload : Bytes} {records : List Record} {budget : Nat}

section Numbers

variable {part : Part} {number : Nat} {spec : FieldSpec Part} {scalar : Scalar} {value : Nat}
  (htypes : ∀ record ∈ records, schema.Types part record)
  (hfield : schema.field? part number = some spec) (hkind : spec.kind = .scalar scalar)

include htypes hfield hkind

theorem lt_of_mem_own (hvalue : value ∈ (own number records).flatMap Record.numbers) :
    value < scalar.bound := by
  obtain ⟨record, hrecord, hnumbers⟩ := List.mem_flatMap.1 hvalue
  obtain rfl := number_eq_of_mem_own hrecord
  exact ((htypes record (List.mem_of_mem_filter hrecord)).shapes hfield).numbers_lt hkind value
    hnumbers

theorem lt_of_getLast?_varints (hwire : scalar.wire = .varint)
    (hvalue : value ∈ (varints number records).getLast?) : value < scalar.bound := by
  refine lt_of_mem_own htypes hfield hkind ?_
  rw [← Schema.varints_eq htypes hfield hkind hwire]
  exact List.mem_of_getLast? hvalue

theorem lt_of_getLast?_fixed64s (hone : spec.repeated = false) (hwire : scalar.wire = .fixed64)
    (hvalue : value ∈ (fixed64s number records).getLast?) : value < scalar.bound := by
  refine lt_of_mem_own htypes hfield hkind ?_
  rw [← Schema.fixed64s_eq htypes hfield hone hkind hwire]
  exact List.mem_of_getLast? hvalue

end Numbers

theorem NamePart.writes_records (part : NamePart) : ∀ record ∈ part.records,
    setSchema.Writes (budget + 1) (Part.typeName .namePart) record := by
  intro record hrecord
  obtain hname | hextension := List.mem_append.1 hrecord
  · obtain ⟨name, -, rfl⟩ := List.mem_map.1 hname
    exact @writes_text .namePart 1 _ _ rfl rfl name
  · obtain ⟨value, -, rfl⟩ := List.mem_map.1 hextension
    exact @writes_scalar .namePart 2 _ _ rfl .bool rfl value.toNat (by cases value <;> decide)

theorem UninterpretedOption.writes_records
    (htypes : ∀ record ∈ records, schema.Types .uninterpretedOption record) :
    ∀ record ∈ (UninterpretedOption.ofRecords records).records,
      setSchema.Writes (budget + 2) (Part.typeName .uninterpretedOption) record := by
  intro record hrecord
  simp only [UninterpretedOption.records, List.mem_append, Write.many, Write.text, List.mem_map,
    Option.mem_toList] at hrecord
  obtain (((((⟨name, -, rfl⟩ | ⟨value, -, rfl⟩) | ⟨value, hvalue, rfl⟩) | ⟨value, hvalue, rfl⟩) |
    ⟨value, hvalue, rfl⟩) | ⟨value, -, rfl⟩) | ⟨value, -, rfl⟩ := hrecord
  · exact @writes_embed .uninterpretedOption 2 _ _ rfl .namePart rfl _ name.writes_records
  · exact @writes_text .uninterpretedOption 3 _ _ rfl rfl value
  · exact @writes_scalar .uninterpretedOption 4 _ _ rfl .uint64 rfl value
      (lt_of_getLast?_varints htypes rfl rfl rfl hvalue)
  · exact @writes_scalar .uninterpretedOption 5 _ _ rfl .int64 rfl value
      (lt_of_getLast?_varints htypes rfl rfl rfl hvalue)
  · exact @writes_scalar .uninterpretedOption 6 _ _ rfl .double rfl value
      (lt_of_getLast?_fixed64s htypes rfl rfl rfl rfl hvalue)
  · exact @writes_bytes .uninterpretedOption 7 _ _ rfl rfl value
  · exact @writes_text .uninterpretedOption 8 _ _ rfl rfl value

/-- The value is one that the standard option can be set to. -/
def SettingSpec.Takes (spec : SettingSpec) (value : SettingValue) : Prop :=
  spec.value? [value.record spec.number] = some value

theorem SettingSpec.takes_of_value? {spec : SettingSpec} {value : SettingValue}
    (hvalue : spec.value? records = some value) : spec.Takes value := by
  unfold Takes
  unfold value? at hvalue ⊢
  cases hshape : spec.shape with
  | text =>
      simp only [hshape, Option.map_eq_some_iff] at hvalue ⊢
      obtain ⟨text, -, rfl⟩ := hvalue
      exact ⟨text, by simp [SettingValue.record, text?, texts], rfl⟩
  | flag =>
      simp only [hshape, Option.map_eq_some_iff] at hvalue ⊢
      obtain ⟨flag, -, rfl⟩ := hvalue
      exact ⟨flag, by cases flag <;> simp [SettingValue.record, flag?, varints], rfl⟩
  | choice names =>
      simp only [hshape, Option.map_eq_some_iff] at hvalue ⊢
      obtain ⟨number, hnumber, rfl⟩ := hvalue
      obtain ⟨read, -, rfl⟩ := List.mem_map.1 (List.mem_of_getLast? hnumber)
      exact ⟨_, by simp [SettingValue.record, int?, ints, varints, toInt32_ofInt_toInt32], rfl⟩

theorem SettingSpec.writes_record {spec : SettingSpec} (hspec : spec ∈ kind.settings)
    {value : SettingValue} (htakes : spec.Takes value) :
    setSchema.Writes (budget + 1) (optionsName kind) (value.record spec.number) := by
  have hfield := field?_setting kind spec hspec
  unfold Takes value? at htakes
  cases hshape : spec.shape with
  | text =>
      simp only [hshape, Option.map_eq_some_iff] at htakes
      obtain ⟨text, -, rfl⟩ := htakes
      rw [Entry.ofSetting, hshape] at hfield
      exact @writes_text (.options kind) _ _ _ hfield rfl text
  | flag =>
      simp only [hshape, Option.map_eq_some_iff] at htakes
      obtain ⟨flag, -, rfl⟩ := htakes
      rw [Entry.ofSetting, hshape] at hfield
      exact @writes_scalar (.options kind) _ _ _ hfield .bool rfl _ (by cases flag <;> decide)
  | choice names =>
      simp only [hshape, Option.map_eq_some_iff] at htakes
      obtain ⟨number, -, rfl⟩ := htakes
      rw [Entry.ofSetting, hshape] at hfield
      exact @writes_scalar (.options kind) _ _ _ hfield .enumeration rfl _ (ofInt_lt number)

theorem Options.takes_of_mem {setting : Nat × SettingValue}
    (hsetting : setting ∈ (Options.ofRecords kind payload records).settings) :
    ∃ spec ∈ kind.settings, spec.number = setting.1 ∧ spec.Takes setting.2 := by
  obtain ⟨spec, hspec, hfound⟩ := List.mem_filterMap.1 hsetting
  obtain ⟨value, hvalue, rfl⟩ := Option.map_eq_some_iff.1 hfound
  exact ⟨spec, hspec, rfl, SettingSpec.takes_of_value? hvalue⟩

theorem Options.writes_records (htypes : ∀ record ∈ records, schema.Types (.options kind) record) :
    ∀ record ∈ (Options.ofRecords kind payload records).records,
      setSchema.Writes (budget + 3) (optionsName kind) record := by
  intro record hrecord
  obtain hsetting | huninterpreted := List.mem_append.1 hrecord
  · obtain ⟨setting, hmem, rfl⟩ := List.mem_map.1 hsetting
    obtain ⟨spec, hspec, hnumber, htakes⟩ := takes_of_mem hmem
    exact hnumber ▸ SettingSpec.writes_record hspec htakes
  · obtain ⟨option, hoption, rfl⟩ := List.mem_map.1 huninterpreted
    obtain ⟨inner, hinner, rfl⟩ := List.mem_map.1 hoption
    exact @writes_embed (.options kind) 999 _ _ (field?_uninterpreted kind)
      .uninterpretedOption rfl _
      (UninterpretedOption.writes_records
        (Schema.types_of_mem_messages htypes (field?_uninterpreted kind) rfl hinner))

/-- What is written of options that were read is described by the well-known file. -/
theorem Options.decode_records {options : Options kind}
    (hdecode : Options.decode kind payload = .ok options)
    (hlength : (encode options.records).length < 2 ^ 64) :
    setSchema.decode (optionsName kind) (encode options.records) = .ok options.records := by
  obtain ⟨records, hrecords, rfl⟩ := map_eq_ok.1 hdecode
  have htypes := (Schema.decode_eq_ok.1 hrecords).types isFlat_schema (Nat.le_refl _)
  refine Schema.decode_eq_ok.2 (Schema.holds_encode isFlat_setSchema ?_ hlength)
  exact writes_records htypes

/-! ## What is read of it -/

theorem nodup_settings (kind : OptionsKind) : (kind.settings.map SettingSpec.number).Nodup := by
  cases kind <;> decide

theorem SettingValue.number_record (number : Nat) (value : SettingValue) :
    (value.record number).number = number := by
  cases value <;> rfl

theorem own_settings {settings : List (Nat × SettingValue)} (hnodup : (settings.map Prod.fst).Nodup)
    (number : Nat) :
    own number (settings.map fun setting => setting.2.record setting.1) =
      ((settings.lookup number).map (SettingValue.record number)).toList := by
  induction settings with
  | nil => rfl
  | cons setting rest ih =>
      obtain ⟨first, value⟩ := setting
      rw [List.map_cons, List.nodup_cons] at hnodup
      have hrest :
          own number (((first, value) :: rest).map fun setting => setting.2.record setting.1) =
          own number [value.record first] ++
            ((rest.lookup number).map (SettingValue.record number)).toList := by
        rw [← ih hnodup.2, ← own_append]
        rfl
      rw [hrest]
      by_cases hfirst : first = number
      · subst hfirst
        have hnone : rest.lookup first = none := by
          rw [List.lookup_eq_none_iff]
          rintro ⟨other, _⟩ hmem
          simp only [bne_iff_ne, ne_eq]
          rintro rfl
          exact hnodup.1 (List.mem_map.2 ⟨_, hmem, rfl⟩)
        rw [own_eq_self (by simp [SettingValue.number_record]), hnone, List.lookup_cons_self]
        rfl
      · rw [own_eq_nil hfirst (by simp [SettingValue.number_record]), List.lookup_cons]
        have hne : (number == first) = false := by simpa using Ne.symm hfirst
        simp [hne]

theorem SettingSpec.value?_own (spec : SettingSpec) (records : List Record) :
    spec.value? (own spec.number records) = spec.value? records := by
  simp only [value?, text?, flag?, int?, ints, Schema.texts_own, Schema.varints_own]

theorem keys_settings :
    ((Options.ofRecords kind payload records).settings.map Prod.fst).Nodup := by
  refine List.Nodup.sublist ?_ (nodup_settings kind)
  unfold Options.ofRecords
  generalize kind.settings = specs
  induction specs with
  | nil => exact List.Sublist.refl _
  | cons spec rest ih =>
      cases hvalue : spec.value? records with
      | none => simpa [hvalue] using ih.cons spec.number
      | some value => simpa [hvalue] using ih

/-- A standard option is read from what is written as it was read before. -/
theorem Options.value?_records {options : Options kind}
    (hdecode : Options.decode kind payload = .ok options) {spec : SettingSpec}
    (hspec : spec ∈ kind.settings) :
    spec.value? options.records = options.settings.lookup spec.number := by
  obtain ⟨records, -, rfl⟩ := map_eq_ok.1 hdecode
  have hother : 999 ≠ spec.number := by
    rintro hsame
    exact absurd (hsame ▸ List.mem_map_of_mem hspec : 999 ∈ kind.settings.map SettingSpec.number)
      (by cases kind <;> decide)
  have huninterpreted : own spec.number (Write.many 999 UninterpretedOption.records
      (ofRecords kind payload records).uninterpreted) = [] := by
    refine own_eq_nil hother fun record hrecord => ?_
    obtain ⟨option, -, rfl⟩ := List.mem_map.1 hrecord
    rfl
  rw [← SettingSpec.value?_own, Options.records, own_append, own_settings keys_settings,
    huninterpreted, List.append_nil]
  cases hlookup : (ofRecords kind payload records).settings.lookup spec.number with
  | none =>
      unfold SettingSpec.value?
      cases spec.shape <;> rfl
  | some value =>
      obtain ⟨found, hfound, hnumber, htakes⟩ := takes_of_mem (mem_of_lookup hlookup)
      obtain rfl := List.inj_on_of_nodup_map (nodup_settings kind) hfound hspec hnumber
      exact htakes

end Options

end ProtoSource.Descriptor
