import ProtoSource.Proofs.Load.RpcTypes
import ProtoSource.Proofs.Http.Described
import ProtoSource.Proofs.Pool.Recoding
import ProtoSource.Proofs.Wire.Congruence

/-!
# Options of sets with and without the well-known files

Without a description of its own a set has its options read as the well-known file
says.  With the well-known files in front the description is the same, except that
the options of methods have the HTTP option.  Both readings give the same standard
options and the same HTTP rules.
-/

namespace ProtoSource.Load

open ProtoSource.Descriptor
open ProtoSource.Http (DescribesRules Rule httpTable)
open ProtoSource.Pool
open ProtoSource.Success
open ProtoSource.WellKnown
open ProtoSource.Wire

/-- The messages that options are made of, without the options of methods. -/
def optionTypes : List String :=
  ["google.protobuf.FileOptions", "google.protobuf.MessageOptions",
   "google.protobuf.ExtensionRangeOptions", "google.protobuf.ExtensionRangeOptions.Declaration",
   "google.protobuf.FieldOptions", "google.protobuf.FieldOptions.EditionDefault",
    "google.protobuf.OneofOptions", "google.protobuf.EnumOptions",
    "google.protobuf.EnumValueOptions",
   "google.protobuf.ServiceOptions", "google.protobuf.UninterpretedOption",
   "google.protobuf.UninterpretedOption.NamePart", "google.protobuf.FeatureSet"]

theorem mem_optionTypes_of_field : ∀ name ∈ optionsName .method :: optionTypes,
    ∀ message ∈ descriptorTable.lookup name, ∀ field ∈ message.fields,
      ∀ type ∈ field.2.kind.type?, type ∈ optionTypes := by
  decide +kernel

theorem optionsName_mem_optionTypes {kind : OptionsKind} (hkind : kind ≠ .method) :
    optionsName kind ∈ optionTypes := by
  cases kind <;> first | decide | contradiction

theorem isSome_lookup_optionsName (kind : OptionsKind) :
    (descriptorTable.lookup (optionsName kind)).isSome := by
  cases kind <;> rfl

/-- A table that describes option types as the well-known file treats their messages as
that file does. -/
theorem agreesOn_of_lookup {table : MessageTable} {names : List String}
    (hnames : names ⊆ optionsName .method :: optionTypes) (htypes : optionTypes ⊆ names)
    (hlookup : ∀ name ∈ names, table.lookup name = descriptorTable.lookup name) :
    setSchema.AgreesOn (schemaOf table) (· ∈ names) where
  field?_eq name hname := by
    funext number
    simp only [schemaOf, setSchema, hlookup name hname]
  place?_eq _ _ := rfl
  skipsFirst_eq _ _ := rfl
  isEntry_eq name hname := by
    simp only [schemaOf, setSchema, hlookup name hname]
  skipsUnknown_eq := rfl
  closed name hname number spec hfield type htype := by
    obtain ⟨message, hmessage, hfield⟩ := Option.bind_eq_some_iff.1 hfield
    exact htypes (mem_optionTypes_of_field name (hnames hname) message hmessage _
      (mem_of_lookup hfield) type htype)

/-- The options of methods with the HTTP option. -/
def withRules (options : MessageSpec) : MessageSpec :=
  { options with
    fields := options.fields ++ [((httpNumber : Int), extensionSpec ⟨.proto3, []⟩ httpExtension)] }

/-- Options are described as in the well-known files: by descriptors of their own and
with the HTTP option for methods. -/
structure DescribesOptions (table : MessageTable) : Prop where
  options : ∀ name ∈ optionTypes, table.lookup name = descriptorTable.lookup name
  method : table.lookup (optionsName .method) =
    (descriptorTable.lookup (optionsName .method)).map withRules
  rule : table.lookup Http.Part.rule.typeName = httpTable.lookup Http.Part.rule.typeName
  customPattern : table.lookup Http.Part.customPattern.typeName =
    httpTable.lookup Http.Part.customPattern.typeName

namespace DescribesOptions

variable {table : MessageTable} (hdescribes : DescribesOptions table)

include hdescribes

theorem optionsTable_eq (kind : OptionsKind) : optionsTable table kind = table := by
  have hsome : (table.lookup (optionsName kind)).isSome := by
    by_cases hkind : kind = .method
    · rw [hkind, hdescribes.method, Option.isSome_map]
      exact isSome_lookup_optionsName .method
    · rw [hdescribes.options _ (optionsName_mem_optionTypes hkind)]
      exact isSome_lookup_optionsName kind
  rw [optionsTable, if_pos hsome]

/-- Options of other declarations than methods are treated the same. -/
theorem agreesOn : setSchema.AgreesOn (schemaOf table) (· ∈ optionTypes) :=
  agreesOn_of_lookup (List.subset_cons_self _ _) (List.Subset.refl _) hdescribes.options

theorem field?_eq {name : String} (hname : name ∈ optionTypes) :
    (schemaOf table).field? name = setSchema.field? name :=
  hdescribes.agreesOn.field?_eq name hname

theorem isEntry_eq {name : String} (hname : name ∈ optionTypes) :
    (schemaOf table).isEntry name = setSchema.isEntry name :=
  hdescribes.agreesOn.isEntry_eq name hname

theorem field?_method (number : Nat) :
    (schemaOf table).field? (optionsName .method) number =
      if number = httpNumber then some (extensionSpec ⟨.proto3, []⟩ httpExtension)
      else setSchema.field? (optionsName .method) number := by
  obtain ⟨options, hoptions⟩ :=
    Option.isSome_iff_exists.1 (isSome_lookup_optionsName .method)
  have hnone : options.fields.lookup (httpNumber : Int) = none := by
    have hmissed := httpNumber_missed
    simpa [Schema.Misses, setSchema, schemaOf, Part.typeName, hoptions] using hmissed
  simp only [schemaOf, setSchema, hdescribes.method, hoptions, Option.map_some, Option.bind_some,
    withRules, List.lookup_append]
  split_ifs with hnumber
  · simp [hnumber, hnone]
  · have hne : ((number : Int) == (httpNumber : Int)) = false :=
      beq_eq_false_iff_ne.2 fun hsame => hnumber (Int.ofNat_inj.1 hsame)
    simp [List.lookup_cons, hne]

theorem describesRules : DescribesRules table where
  option := by
    rw [Http.Part.typeName, hdescribes.field?_method, if_pos rfl]
  rule := hdescribes.rule
  customPattern := hdescribes.customPattern

/-- A field of options that the well-known file describes is no map and no group. -/
theorem flat_of_field {name : String} (hname : name ∈ optionsName .method :: optionTypes)
    {number : Nat} {spec : FieldSpec String} (hfield : setSchema.field? name number = some spec) :
    Schema.entry? (schemaOf table) spec = none ∧ ∀ type, spec.kind ≠ .group type := by
  refine ⟨?_, ne_group (setSchema_field? hfield).2⟩
  obtain ⟨message, hmessage, hfield⟩ := Option.bind_eq_some_iff.1 hfield
  unfold Schema.entry?
  split_ifs
  · cases htype : spec.kind.type? with
    | none => rfl
    | some type =>
        have hmem := mem_optionTypes_of_field name hname message hmessage _ (mem_of_lookup hfield)
          type htype
        rw [Option.filter_some, hdescribes.isEntry_eq hmem, setSchema_isEntry]
        rfl
  · rfl

theorem isFlat_method : (schemaOf table).IsFlat (optionsName .method) := by
  intro number spec hfield
  rw [hdescribes.field?_method] at hfield
  split_ifs at hfield
  · obtain rfl := Option.some.inj hfield
    have hone : (extensionSpec ⟨.proto3, []⟩ httpExtension).repeated = false := rfl
    have hkind : isGroup (extensionSpec ⟨.proto3, []⟩ httpExtension).kind = false := rfl
    exact ⟨by simp [Schema.entry?, hone], ne_group hkind⟩
  · exact hdescribes.flat_of_field List.mem_cons_self hfield

end DescribesOptions

/-! ## Standard options of methods -/

/-- The parts that the options of methods are read by. -/
def methodParts : List Part :=
  [.options .method, .uninterpretedOption, .namePart]

theorem mem_methodParts_of_entry : ∀ part ∈ methodParts, ∀ entry ∈ part.entries,
    ∀ type ∈ entry.kind.type?, type ∈ methodParts := by
  decide

theorem typeName_of_mem_methodParts {part : Part} (hpart : part ∈ methodParts) :
    part = .options .method ∨ part.typeName ∈ optionTypes := by
  simp only [methodParts, List.mem_cons, List.not_mem_nil, or_false] at hpart
  obtain rfl | rfl | rfl := hpart
  · exact Or.inl rfl
  · exact Or.inr (by decide)
  · exact Or.inr (by decide)

theorem DescribesOptions.field?_cases {table : MessageTable} (hdescribes : DescribesOptions table)
    {part : Part} (hpart : part ∈ methodParts) (number : Nat) :
    (schemaOf table).field? part.typeName number = setSchema.field? part.typeName number ∨
      part = .options .method ∧ number = httpNumber := by
  obtain rfl | hname := typeName_of_mem_methodParts hpart
  · by_cases hnumber : number = httpNumber
    · exact Or.inr ⟨rfl, hnumber⟩
    · exact Or.inl (by rw [Part.typeName, hdescribes.field?_method, if_neg hnumber])
  · exact Or.inl (by rw [hdescribes.field?_eq hname])

theorem DescribesOptions.choice?_eq {table : MessageTable} (hdescribes : DescribesOptions table)
    {part : Part} (hpart : part ∈ methodParts) (number : Nat) :
    (schemaOf table).choice? part.typeName number = none := by
  unfold Schema.choice?
  obtain hsame | ⟨rfl, rfl⟩ := hdescribes.field?_cases hpart number
  · rw [hsame]
    exact choice?_setSchema part.typeName number
  · rw [Part.typeName, hdescribes.field?_method, if_pos rfl]
    rfl

/-- The options of methods keep their standard options when they are written with the
HTTP option known. -/
theorem DescribesOptions.keeps {table : MessageTable} (hdescribes : DescribesOptions table) :
    schema.Keeps (schemaOf table) Part.typeName (· ∈ methodParts) where
  flatReader part _ := isFlat_schema part
  noMaps part hpart := by
    refine Schema.IsFlat.hasNoMaps ?_
    obtain rfl | hname := typeName_of_mem_methodParts hpart
    · exact hdescribes.isFlat_method
    · intro number spec hfield
      rw [hdescribes.field?_eq hname] at hfield
      exact hdescribes.flat_of_field (List.mem_cons_of_mem _ hname) hfield
  first _ := rfl
  fits part hpart number spec written hreader hwriter := by
    obtain ⟨written', hwritten, hfits⟩ := fits_setSchema hreader
    obtain hsame | ⟨rfl, rfl⟩ := hdescribes.field?_cases hpart number
    · rw [hsame, hwritten] at hwriter
      exact Option.some.inj hwriter ▸ hfits
    · have hunknown : schema.field? (.options .method) httpNumber = none := rfl
      simp [hunknown] at hreader
  closed part hpart number spec written type hreader hwriter hkind := by
    obtain ⟨entry, hentry, -, rfl⟩ := field?_eq_some hreader
    refine mem_methodParts_of_entry part hpart entry hentry type ?_
    rw [show entry.kind = .message type from hkind]
    rfl
  excludes part hpart number _ later := by
    simp [Schema.Excludes, choice?_schema, hdescribes.choice?_eq hpart]

theorem plain_eq_of_recodeOptions {kind : OptionsKind} {table : MessageTable} {on : Part → Prop}
    (hkeeps : schema.Keeps (schemaOf (optionsTable table kind)) Part.typeName on)
    (hon : on (.options kind)) {options recoded : Options kind} {budget : Nat}
    (hbudget : budget ≤ nestingLimit) {reads : List Record}
    (hreads : schema.Holds budget (.options kind) options.payload reads)
    (hrecode : recodeOptions table options = .ok recoded)
    (hlength : recoded.payload.length < 2 ^ 64) :
    recoded.plain = (Options.ofRecords kind options.payload reads).plain := by
  obtain ⟨payload, hpayload, hdecode⟩ := recodeOptions_eq_ok.1 hrecode
  obtain ⟨others, hothers, rfl⟩ := map_eq_ok.1 hdecode
  obtain ⟨founds, hfounds, rfl⟩ := Http.recode_eq_ok hpayload
  have hall := agrees_of_holds hkeeps hbudget (Nat.le_refl _) hon hreads hfounds
  obtain ⟨reads', hreads', halike⟩ := holds_canonical hkeeps hbudget hon hall hlength
  have hlarger := hreads'.mono isFlat_schema hbudget (Nat.le_refl _)
  obtain rfl := (Schema.decode_eq_ok.1 hothers).eq hlarger
  have hsame : schema.Same ((schemaOf (optionsTable table kind)).Misses Part.typeName)
      (.options kind) reads others :=
    ⟨halike, hreads.types isFlat_schema hbudget, hreads'.types isFlat_schema hbudget⟩
  exact (Options.plain_eq_of_same _ _ hsame).symm

/-! ## Both readings -/

/-- The encoded options of a method can be read. -/
def HeldOptions (method : Method) : Prop :=
  ∀ options ∈ method.options?, ∃ reads,
    schema.Holds nestingLimit (.options .method) options.payload reads

theorem heldOptions_of_decodeFiles {bytes : Bytes} {files : List File}
    (hfiles : decodeFiles bytes = .ok files) {file : File} (hfile : file ∈ files)
    {service : Service} (hservice : service ∈ file.services) {method : Method}
    (hmethod : method ∈ service.methods) : HeldOptions method := by
  obtain ⟨records, hholds, rfl⟩ := decodeFiles_eq_ok.1 hfiles
  obtain ⟨fileRecords, hfileRecords, rfl⟩ := List.mem_map.1 hfile
  obtain ⟨serviceRecords, hserviceRecords, rfl⟩ := List.mem_map.1 hservice
  obtain ⟨methodRecords, hmethodRecords, rfl⟩ := List.mem_map.1 hmethod
  have hoptions := holdsAllOptions_of_holds hholds fileRecords hfileRecords serviceRecords
    hserviceRecords methodRecords hmethodRecords
  intro options hsome
  have hpayload := payloadOf_ofRecords methodRecords
  rw [payloadOf, hsome, Option.map_some, Option.getD_some] at hpayload
  rw [hpayload]
  exact ⟨_, hoptions.mono isFlat_schema (by decide) (Nat.le_refl _)⟩

section Both

variable {table table' : MessageTable} (hnone : ∀ kind, table.lookup (optionsName kind) = none)
  (hdescribes : DescribesOptions table')

include hnone

theorem optionsTable_eq_descriptorTable (kind : OptionsKind) :
    optionsTable table kind = descriptorTable := by
  simp [optionsTable, hnone kind]

include hdescribes

theorem DescribesOptions.recodeAlike : RecodeAlike table table' := by
  intro kind hkind options
  unfold recodeOptions recode
  rw [hdescribes.optionsTable_eq, optionsTable_eq_descriptorTable hnone,
    hdescribes.agreesOn.recode_eq (optionsName_mem_optionTypes hkind)]
  rfl

section Recoded

variable {options recoded recoded' : Options .method} {reads : List Record}
  (hreads : schema.Holds nestingLimit (.options .method) options.payload reads)
  (hrecode : recodeOptions table options = .ok recoded)
  (hrecode' : recodeOptions table' options = .ok recoded')
  (hlength : recoded.payload.length < 2 ^ 64) (hlength' : recoded'.payload.length < 2 ^ 64)

include hreads hrecode hrecode' hlength hlength'

/-- The standard options of a method are the same under both tables. -/
theorem DescribesOptions.plain_eq : recoded'.plain = recoded.plain := by
  have hkeeps :
      schema.Keeps (schemaOf (optionsTable table .method)) Part.typeName fun _ => True := by
    rw [optionsTable_eq_descriptorTable hnone]
    exact keeps_setSchema
  have hkeeps' : schema.Keeps (schemaOf (optionsTable table' .method)) Part.typeName
      (· ∈ methodParts) := by
    rw [hdescribes.optionsTable_eq]
    exact hdescribes.keeps
  rw [plain_eq_of_recodeOptions hkeeps trivial (Nat.le_refl _) hreads hrecode hlength,
    plain_eq_of_recodeOptions hkeeps' List.mem_cons_self (Nat.le_refl _) hreads hrecode' hlength']

/-- A rule that is read where the HTTP option is not known is read where it is. -/
theorem DescribesOptions.ofOptions_eq {rule? : Option Rule}
    (hrule : Rule.ofOptions recoded.payload = .ok rule?) :
    Rule.ofOptions recoded'.payload = .ok rule? := by
  obtain ⟨payload, hpayload, hdecode⟩ := recodeOptions_eq_ok.1 hrecode
  obtain ⟨payload', hpayload', hdecode'⟩ := recodeOptions_eq_ok.1 hrecode'
  obtain ⟨_, -, rfl⟩ := map_eq_ok.1 hdecode
  obtain ⟨_, -, rfl⟩ := map_eq_ok.1 hdecode'
  rw [optionsTable_eq_descriptorTable hnone] at hpayload
  rw [hdescribes.optionsTable_eq] at hpayload'
  obtain ⟨raws, hpassable, -⟩ :=
    Http.exists_passable (isFlat_schema _) rfl rfl (Nat.le_refl _) hreads
  have hsame := Http.sameOption_recode (isFlat_setSchema _).hasNoMaps httpNumber_missed hpassable
    hpayload hlength
  exact hdescribes.describesRules.ofOptions_recode hdescribes.isFlat_method.hasNoMaps hpayload'
    hlength'
    ((hsame.ofOptions_eq_ok_iff rule?).2 hrule)

end Recoded

/-- A method has the same standard options with the well-known files as without them,
and the same HTTP rule if it can be read. -/
theorem DescribesOptions.recodeMethod_eq {source method method' : Method}
    (hheld : HeldOptions source) (hmethod : recodeMethod table source = .ok method)
    (hmethod' : recodeMethod table' source = .ok method')
    (hlength : (payloadOf method).length < 2 ^ 64)
    (hlength' : (payloadOf method').length < 2 ^ 64) :
    method'.plain = method.plain ∧ ∀ rule?, Rule.ofOptions (payloadOf method) = .ok rule? →
      Rule.ofOptions (payloadOf method') = .ok rule? := by
  obtain ⟨options?, hoptions, rfl⟩ := recodeMethod_eq_ok.1 hmethod
  obtain ⟨options?', hoptions', rfl⟩ := recodeMethod_eq_ok.1 hmethod'
  cases hsource : source.options? with
  | none =>
      rw [hsource] at hoptions hoptions'
      cases hoptions
      cases hoptions'
      exact ⟨rfl, fun _ hrule => hrule⟩
  | some options =>
      rw [hsource] at hoptions hoptions'
      obtain ⟨reads, hreads⟩ := hheld options hsource
      obtain ⟨hrecode⟩ | _ := hoptions
      obtain ⟨hrecode'⟩ | _ := hoptions'
      refine ⟨?_, fun rule? =>
        hdescribes.ofOptions_eq hnone hreads hrecode hrecode' hlength hlength'⟩
      simp only [Method.plain, Option.map_some,
        hdescribes.plain_eq hnone hreads hrecode hrecode' hlength hlength']

end Both

end ProtoSource.Load
