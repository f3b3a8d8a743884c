import Mathlib.Tactic.FinCases
import ProtoSource.Proofs.Descriptor.Described

/-!
# Descriptors of messages that say the same

A descriptor holds the encoded form of its options besides what is read of them.
Without that form it is the same for any two encodings that say the same.
-/

namespace ProtoSource.Descriptor

open ProtoSource.Related
open ProtoSource.Wire
open ProtoSource.Wire.Records

def Options.plain {kind : OptionsKind} (options : Options kind) : Options kind :=
  { options with payload := [] }

def Field.plain (field : Field) : Field :=
  { field with options? := field.options?.map Options.plain }

def Oneof.plain (oneof : Oneof) : Oneof :=
  { oneof with options? := oneof.options?.map Options.plain }

def ExtensionRange.plain (range : ExtensionRange) : ExtensionRange :=
  { range with options? := range.options?.map Options.plain }

def EnumValue.plain (value : EnumValue) : EnumValue :=
  { value with options? := value.options?.map Options.plain }

def Enumeration.plain (enumeration : Enumeration) : Enumeration :=
  { enumeration with
    values := enumeration.values.map EnumValue.plain
    options? := enumeration.options?.map Options.plain }

def MessageBody.plain (body : MessageBody) : MessageBody :=
  { body with
    fields := body.fields.map Field.plain
    enums := body.enums.map Enumeration.plain
    extensionRanges := body.extensionRanges.map ExtensionRange.plain
    extensions := body.extensions.map Field.plain
    options? := body.options?.map Options.plain
    oneofs := body.oneofs.map Oneof.plain }

mutual

def Message.plain : Message → Message
  | .mk body nested => .mk body.plain (plainAll nested)

def Message.plainAll : List Message → List Message
  | [] => []
  | message :: rest => message.plain :: plainAll rest

end

def Method.plain (method : Method) : Method :=
  { method with options? := method.options?.map Options.plain }

def Service.plain (service : Service) : Service :=
  { service with
    methods := service.methods.map Method.plain
    options? := service.options?.map Options.plain }

/-- The file without the encoded form of its options. -/
def File.plain (file : File) : File :=
  { file with
    messages := file.messages.map Message.plain
    enums := file.enums.map Enumeration.plain
    services := file.services.map Service.plain
    extensions := file.extensions.map Field.plain
    options? := file.options?.map Options.plain }

theorem Message.plainAll_eq_map (messages : List Message) :
    plainAll messages = messages.map Message.plain := by
  induction messages with
  | nil => rfl
  | cons message rest ih => rw [plainAll, List.map_cons, ih]

section Views

variable {keeps : Part → Nat → Prop} {part : Part} {records others : List Record}

theorem text?_eq_of_same (hsame : schema.Same keeps part records others) (number : Nat)
    (hfield : schema.field? part number = some { kind := .text }) :
    text? number records = text? number others :=
  (hsame.alike_own hfield rfl).text?_eq rfl rfl rfl

theorem texts_eq_of_same (hsame : schema.Same keeps part records others) (number : Nat)
    (hfield : schema.field? part number = some { kind := .text, repeated := true }) :
    texts number records = texts number others :=
  (hsame.alike_own hfield rfl).texts_eq rfl rfl

theorem int?_eq_of_same (hsame : schema.Same keeps part records others) (number : Nat)
    (hfield : schema.field? part number = some { kind := .scalar .int32 }) :
    int? number records = int? number others := by
  unfold int? ints
  rw [List.getLast?_map, List.getLast?_map]
  exact hsame.map_getLast?_varints_eq hfield rfl rfl rfl rfl rfl toInt32_ofInt_toInt32

theorem choice?_eq_of_same (hsame : schema.Same keeps part records others) (number : Nat)
    (hfield : schema.field? part number = some { kind := .scalar .enumeration }) :
    int? number records = int? number others := by
  unfold int? ints
  rw [List.getLast?_map, List.getLast?_map]
  exact hsame.map_getLast?_varints_eq hfield rfl rfl rfl rfl rfl toInt32_ofInt_toInt32

theorem ints_eq_of_same (hsame : schema.Same keeps part records others) (number : Nat)
    (hfield : schema.field? part number = some { kind := .scalar .int32, repeated := true }) :
    ints number records = ints number others :=
  hsame.map_varints_eq hfield rfl rfl rfl rfl toInt32_ofInt_toInt32

theorem flag?_eq_of_same (hsame : schema.Same keeps part records others) (number : Nat)
    (hfield : schema.field? part number = some { kind := .scalar .bool }) :
    flag? number records = flag? number others := by
  refine hsame.map_getLast?_varints_eq hfield rfl rfl rfl rfl rfl fun value => ?_
  by_cases hzero : value = 0 <;> simp [Scalar.canonical, hzero]

theorem getLast?_varints_eq_of_same (hsame : schema.Same keeps part records others) (number : Nat)
    {scalar : Scalar} (hfield : schema.field? part number = some { kind := .scalar scalar })
    (hwire : scalar.wire = .varint) (hcanonical : ∀ value, scalar.canonical value = value) :
    (varints number records).getLast? = (varints number others).getLast? := by
  simpa using hsame.map_getLast?_varints_eq (f := id) hfield rfl rfl rfl rfl hwire hcanonical

/-- Repeated messages show the same if their views are the same. -/
theorem map_messages_eq_of_same (hsame : schema.Same keeps part records others) (number : Nat)
    {type : Part}
    (hfield : schema.field? part number = some { kind := .message type, repeated := true })
    {α : Type} {view : List Record → α}
    (hview : ∀ inner inner', schema.Same keeps type inner inner' → view inner = view inner') :
    (messages number records).map view = (messages number others).map view :=
  map_eq_of_forall₂ (fun _ _ _ _ => hview _ _) (hsame.messages hfield rfl rfl rfl)

theorem map_message?_eq_of_same (hsame : schema.Same keeps part records others) (number : Nat)
    {type : Part}
    (hfield : schema.field? part number = some { kind := .message type })
    {α : Type} {view : List Record → α}
    (hview : ∀ inner inner', schema.Same keeps type inner inner' → view inner = view inner') :
    (message? number records).map view = (message? number others).map view :=
  Schema.map_eq_of_rel hview (hsame.message? hfield rfl rfl rfl)

end Views

/-! ## Descriptors -/

section Descriptors

variable {keeps : Part → Nat → Prop} {records others : List Record}

theorem NamePart.eq_of_same (hsame : schema.Same keeps .namePart records others) :
    NamePart.ofRecords records = NamePart.ofRecords others := by
  unfold NamePart.ofRecords
  rw [text?_eq_of_same hsame 1 rfl, flag?_eq_of_same hsame 2 rfl]

theorem UninterpretedOption.eq_of_same
    (hsame : schema.Same keeps .uninterpretedOption records others) :
    UninterpretedOption.ofRecords records = UninterpretedOption.ofRecords others := by
  have hdouble : schema.field? .uninterpretedOption 6 = some { kind := .scalar .double } := rfl
  have hbytes : schema.field? .uninterpretedOption 7 = some { kind := .bytes } := rfl
  unfold UninterpretedOption.ofRecords
  rw [map_messages_eq_of_same hsame 2 rfl fun _ _ => NamePart.eq_of_same,
    text?_eq_of_same hsame 3 rfl, getLast?_varints_eq_of_same hsame 4 rfl rfl fun _ => rfl,
    getLast?_varints_eq_of_same hsame 5 rfl rfl fun _ => rfl,
    hsame.getLast?_fixed64s_eq hdouble rfl rfl rfl rfl rfl,
    (hsame.alike_own hbytes rfl).getLast?_byteStrings_eq rfl rfl rfl, text?_eq_of_same hsame 8 rfl]

theorem field?_setting (kind : OptionsKind) : ∀ spec ∈ kind.settings,
    schema.field? (.options kind) spec.number = some { kind := (Entry.ofSetting spec).kind } := by
  intro spec hspec
  cases kind with
  | file => fin_cases hspec <;> rfl
  | message => fin_cases hspec <;> rfl
  | extensionRange => fin_cases hspec
  | field => fin_cases hspec <;> rfl
  | oneof => fin_cases hspec
  | enumeration => fin_cases hspec <;> rfl
  | enumValue => fin_cases hspec; rfl
  | service => fin_cases hspec; rfl
  | method => fin_cases hspec <;> rfl

theorem SettingSpec.value?_eq_of_same {kind : OptionsKind} {spec : SettingSpec}
    (hspec : spec ∈ kind.settings) (hsame : schema.Same keeps (.options kind) records others) :
    spec.value? records = spec.value? others := by
  have hfield := field?_setting kind spec hspec
  unfold value?
  cases hshape : spec.shape with
  | text =>
      rw [Entry.ofSetting, hshape] at hfield
      simp only [text?_eq_of_same hsame _ hfield]
  | flag =>
      rw [Entry.ofSetting, hshape] at hfield
      simp only [flag?_eq_of_same hsame _ hfield]
  | choice names =>
      rw [Entry.ofSetting, hshape] at hfield
      simp only [choice?_eq_of_same hsame _ hfield]

theorem field?_uninterpreted (kind : OptionsKind) : schema.field? (.options kind) 999 =
    some { kind := .message .uninterpretedOption, repeated := true } := by
  cases kind <;> rfl

theorem Options.plain_eq_of_same {kind : OptionsKind} (payload payload' : Bytes)
    (hsame : schema.Same keeps (.options kind) records others) :
    (Options.ofRecords kind payload records).plain =
      (Options.ofRecords kind payload' others).plain := by
  have hsettings :
      (kind.settings.filterMap fun spec => (spec.value? records).map (spec.number, ·)) =
      kind.settings.filterMap fun spec => (spec.value? others).map (spec.number, ·) :=
    List.filterMap_congr fun spec hspec => by rw [SettingSpec.value?_eq_of_same hspec hsame]
  unfold plain Options.ofRecords
  rw [hsettings, map_messages_eq_of_same hsame 999 (field?_uninterpreted kind)
    fun _ _ => UninterpretedOption.eq_of_same]

theorem Options.read?_plain_eq_of_same {part : Part} (hsame : schema.Same keeps part records others)
    {kind : OptionsKind} (number : Nat)
    (hfield : schema.field? part number = some { kind := .message (.options kind) }) :
    (Options.read? kind number records).map plain =
      (Options.read? kind number others).map plain := by
  unfold read?
  rw [Option.map_map, Option.map_map]
  exact map_message?_eq_of_same hsame number hfield fun _ _ => Options.plain_eq_of_same [] []

theorem Field.plain_eq_of_same (hsame : schema.Same keeps .field records others) :
    (Field.ofRecords records).plain = (Field.ofRecords others).plain := by
  unfold plain Field.ofRecords
  rw [text?_eq_of_same hsame 1 rfl, text?_eq_of_same hsame 2 rfl, int?_eq_of_same hsame 3 rfl,
    choice?_eq_of_same hsame 4 rfl, choice?_eq_of_same hsame 5 rfl, text?_eq_of_same hsame 6 rfl,
    text?_eq_of_same hsame 7 rfl, Options.read?_plain_eq_of_same hsame 8 rfl,
    int?_eq_of_same hsame 9 rfl, text?_eq_of_same hsame 10 rfl, flag?_eq_of_same hsame 17 rfl]

theorem Oneof.plain_eq_of_same (hsame : schema.Same keeps .oneof records others) :
    (Oneof.ofRecords records).plain = (Oneof.ofRecords others).plain := by
  unfold plain Oneof.ofRecords
  rw [text?_eq_of_same hsame 1 rfl, Options.read?_plain_eq_of_same hsame 2 rfl]

theorem Range.eq_of_same {part : Part}
    (hstart : schema.field? part 1 = some { kind := .scalar .int32 })
    (hstop : schema.field? part 2 = some { kind := .scalar .int32 })
    (hsame : schema.Same keeps part records others) :
    Range.ofRecords records = Range.ofRecords others := by
  unfold Range.ofRecords
  rw [int?_eq_of_same hsame 1 hstart, int?_eq_of_same hsame 2 hstop]

theorem ExtensionRange.plain_eq_of_same (hsame : schema.Same keeps .extensionRange records others) :
    (ExtensionRange.ofRecords records).plain = (ExtensionRange.ofRecords others).plain := by
  unfold plain ExtensionRange.ofRecords
  rw [Range.eq_of_same rfl rfl hsame, Options.read?_plain_eq_of_same hsame 3 rfl]

theorem EnumValue.plain_eq_of_same (hsame : schema.Same keeps .enumValue records others) :
    (EnumValue.ofRecords records).plain = (EnumValue.ofRecords others).plain := by
  unfold plain EnumValue.ofRecords
  rw [text?_eq_of_same hsame 1 rfl, int?_eq_of_same hsame 2 rfl,
    Options.read?_plain_eq_of_same hsame 3 rfl]

/-- The views of repeated messages without the encoded form of options. -/
theorem map_plain_eq_of_same {part type : Part} (hsame : schema.Same keeps part records others)
    (number : Nat)
    (hfield : schema.field? part number = some { kind := .message type, repeated := true })
    {α : Type} {view : List Record → α} {plain : α → α}
    (hview : ∀ inner inner', schema.Same keeps type inner inner' →
      plain (view inner) = plain (view inner')) :
    ((messages number records).map view).map plain =
      ((messages number others).map view).map plain := by
  rw [List.map_map, List.map_map]
  exact map_messages_eq_of_same hsame number hfield hview

theorem Enumeration.plain_eq_of_same (hsame : schema.Same keeps .enumeration records others) :
    (Enumeration.ofRecords records).plain = (Enumeration.ofRecords others).plain := by
  unfold plain Enumeration.ofRecords
  rw [text?_eq_of_same hsame 1 rfl,
    map_plain_eq_of_same hsame 2 rfl fun _ _ => EnumValue.plain_eq_of_same,
    Options.read?_plain_eq_of_same hsame 3 rfl,
    map_messages_eq_of_same hsame 4 rfl fun _ _ => Range.eq_of_same rfl rfl,
    texts_eq_of_same hsame 5 rfl]

theorem MessageBody.plain_eq_of_same (hsame : schema.Same keeps .message records others) :
    (MessageBody.ofRecords records).plain = (MessageBody.ofRecords others).plain := by
  unfold plain MessageBody.ofRecords
  rw [text?_eq_of_same hsame 1 rfl,
    map_plain_eq_of_same hsame 2 rfl fun _ _ => Field.plain_eq_of_same,
    map_plain_eq_of_same hsame 4 rfl fun _ _ => Enumeration.plain_eq_of_same,
    map_plain_eq_of_same hsame 5 rfl fun _ _ => ExtensionRange.plain_eq_of_same,
    map_plain_eq_of_same hsame 6 rfl fun _ _ => Field.plain_eq_of_same,
    Options.read?_plain_eq_of_same hsame 7 rfl,
    map_plain_eq_of_same hsame 8 rfl fun _ _ => Oneof.plain_eq_of_same,
    map_messages_eq_of_same hsame 9 rfl fun _ _ => Range.eq_of_same rfl rfl,
    texts_eq_of_same hsame 10 rfl]

theorem Message.nestedOfRecords_eq (records : List Record) :
    nestedOfRecords records = (messages 3 records).map Message.ofRecords := by
  induction records with
  | nil => rfl
  | cons record rest ih =>
      rw [nestedOfRecords, ih]
      cases record with
      | message number payload inner =>
          by_cases hnumber : number = 3 <;>
            simp [nestedOfRecord, messages, hnumber, Message.ofRecords]
      | _ => simp [nestedOfRecord, messages]

theorem Message.plain_eq_of_same (hsame : schema.Same keeps .message records others) :
    (Message.ofRecords records).plain = (Message.ofRecords others).plain := by
  -- The nested messages are less deep than the message around them.
  induction hdepth : depthOf records using Nat.strongRecOn generalizing records others with
  | ind depth ih =>
      unfold Message.ofRecords Message.plain
      rw [MessageBody.plain_eq_of_same hsame, plainAll_eq_map, plainAll_eq_map, nestedOfRecords_eq,
        nestedOfRecords_eq, List.map_map, List.map_map]
      congr 1
      refine map_eq_of_forall₂ (fun inner hinner _ _ hnested => ?_)
        (hsame.messages rfl rfl rfl rfl)
      exact ih _ (hdepth ▸ depthOf_lt_of_mem_messages hinner) hnested rfl

theorem Method.plain_eq_of_same (hsame : schema.Same keeps .method records others) :
    (Method.ofRecords records).plain = (Method.ofRecords others).plain := by
  unfold plain Method.ofRecords
  rw [text?_eq_of_same hsame 1 rfl, text?_eq_of_same hsame 2 rfl, text?_eq_of_same hsame 3 rfl,
    Options.read?_plain_eq_of_same hsame 4 rfl, flag?_eq_of_same hsame 5 rfl,
    flag?_eq_of_same hsame 6 rfl]

theorem Service.plain_eq_of_same (hsame : schema.Same keeps .service records others) :
    (Service.ofRecords records).plain = (Service.ofRecords others).plain := by
  unfold plain Service.ofRecords
  rw [text?_eq_of_same hsame 1 rfl,
    map_plain_eq_of_same hsame 2 rfl fun _ _ => Method.plain_eq_of_same,
    Options.read?_plain_eq_of_same hsame 3 rfl]

theorem Location.eq_of_same (hsame : schema.Same keeps .location records others) :
    Location.ofRecords records = Location.ofRecords others := by
  unfold Location.ofRecords
  rw [ints_eq_of_same hsame 1 rfl, ints_eq_of_same hsame 2 rfl, text?_eq_of_same hsame 3 rfl,
    text?_eq_of_same hsame 4 rfl, texts_eq_of_same hsame 6 rfl]

theorem File.plain_eq_of_same (hsame : schema.Same keeps .file records others) :
    (File.ofRecords records).plain = (File.ofRecords others).plain := by
  unfold plain File.ofRecords
  rw [text?_eq_of_same hsame 1 rfl, text?_eq_of_same hsame 2 rfl, texts_eq_of_same hsame 3 rfl,
    map_plain_eq_of_same hsame 4 rfl fun _ _ => Message.plain_eq_of_same,
    map_plain_eq_of_same hsame 5 rfl fun _ _ => Enumeration.plain_eq_of_same,
    map_plain_eq_of_same hsame 6 rfl fun _ _ => Service.plain_eq_of_same,
    map_plain_eq_of_same hsame 7 rfl fun _ _ => Field.plain_eq_of_same,
    Options.read?_plain_eq_of_same hsame 8 rfl,
    map_message?_eq_of_same hsame 9 rfl fun inner inner' hinner =>
      map_messages_eq_of_same hinner 1 rfl fun _ _ => Location.eq_of_same,
    ints_eq_of_same hsame 10 rfl, ints_eq_of_same hsame 11 rfl, text?_eq_of_same hsame 12 rfl]

/-- The files of sets that say the same are the same without the encoded form of
options. -/
theorem filesOfRecords_plain_eq_of_same (hsame : schema.Same keeps .set records others) :
    (filesOfRecords records).map File.plain = (filesOfRecords others).map File.plain :=
  map_plain_eq_of_same hsame 1 rfl fun _ _ => File.plain_eq_of_same

end Descriptors

end ProtoSource.Descriptor
