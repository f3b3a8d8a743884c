import ProtoSource.Descriptor.Basic
import ProtoSource.Descriptor.Schema

/-!
# Reading descriptors

Descriptors as views of the records of an encoded set.
-/

namespace ProtoSource.Descriptor

open ProtoSource.Wire
open ProtoSource.Wire.Records

def SettingSpec.value? (spec : SettingSpec) (records : List Record) : Option SettingValue :=
  match spec.shape with
  | .text => (text? spec.number records).map .text
  | .flag => (flag? spec.number records).map .flag
  | .choice _ => (int? spec.number records).map .choice

def NamePart.ofRecords (records : List Record) : NamePart where
  namePart? := text? 1 records
  isExtension? := flag? 2 records

def UninterpretedOption.ofRecords (records : List Record) : UninterpretedOption where
  name := (messages 2 records).map NamePart.ofRecords
  identifier? := text? 3 records
  positive? := (varints 4 records).getLast?
  negative? := (varints 5 records).getLast?
  double? := (fixed64s 6 records).getLast?
  bytes? := (byteStrings 7 records).getLast?
  aggregate? := text? 8 records

def Options.ofRecords (kind : OptionsKind) (payload : Bytes) (records : List Record) :
    Options kind where
  settings := kind.settings.filterMap fun spec => (spec.value? records).map (spec.number, ·)
  uninterpreted := (messages 999 records).map UninterpretedOption.ofRecords
  payload := payload

/-- The options of an encoded options message. -/
def Options.decode (kind : OptionsKind) (payload : Bytes) : Except Fault (Options kind) :=
  (schema.decode (.options kind) payload).map (Options.ofRecords kind payload)

/-- The options that stand in field `number`. -/
def Options.read? (kind : OptionsKind) (number : Nat) (records : List Record) :
    Option (Options kind) :=
  (message? number records).map (Options.ofRecords kind (Records.payload number records))

def Field.ofRecords (records : List Record) : Field where
  name? := text? 1 records
  extendee? := text? 2 records
  number? := int? 3 records
  labelCode? := int? 4 records
  typeCode? := int? 5 records
  typeName? := text? 6 records
  defaultValue? := text? 7 records
  options? := Options.read? .field 8 records
  oneofIndex? := int? 9 records
  jsonName? := text? 10 records
  proto3Optional? := flag? 17 records

def Oneof.ofRecords (records : List Record) : Oneof where
  name? := text? 1 records
  options? := Options.read? .oneof 2 records

def Range.ofRecords (records : List Record) : Range where
  start? := int? 1 records
  stop? := int? 2 records

def ExtensionRange.ofRecords (records : List Record) : ExtensionRange where
  range := .ofRecords records
  options? := Options.read? .extensionRange 3 records

def EnumValue.ofRecords (records : List Record) : EnumValue where
  name? := text? 1 records
  number? := int? 2 records
  options? := Options.read? .enumValue 3 records

def Enumeration.ofRecords (records : List Record) : Enumeration where
  name? := text? 1 records
  values := (messages 2 records).map EnumValue.ofRecords
  options? := Options.read? .enumeration 3 records
  reservedRanges := (messages 4 records).map Range.ofRecords
  reservedNames := texts 5 records

def MessageBody.ofRecords (records : List Record) : MessageBody where
  name? := text? 1 records
  fields := (messages 2 records).map Field.ofRecords
  enums := (messages 4 records).map Enumeration.ofRecords
  extensionRanges := (messages 5 records).map ExtensionRange.ofRecords
  extensions := (messages 6 records).map Field.ofRecords
  options? := Options.read? .message 7 records
  oneofs := (messages 8 records).map Oneof.ofRecords
  reservedRanges := (messages 9 records).map Range.ofRecords
  reservedNames := texts 10 records

mutual

/-- The nested message that a record of a message holds. -/
def Message.nestedOfRecord : Record → List Message
  | .message number _ inner =>
    if number = 3 then [.mk (.ofRecords inner) (nestedOfRecords inner)] else []
  | _ => []

def Message.nestedOfRecords : List Record → List Message
  | [] => []
  | record :: rest => nestedOfRecord record ++ nestedOfRecords rest

end

def Message.ofRecords (records : List Record) : Message :=
  .mk (.ofRecords records) (nestedOfRecords records)

def Method.ofRecords (records : List Record) : Method where
  name? := text? 1 records
  inputType? := text? 2 records
  outputType? := text? 3 records
  options? := Options.read? .method 4 records
  clientStreaming? := flag? 5 records
  serverStreaming? := flag? 6 records

def Service.ofRecords (records : List Record) : Service where
  name? := text? 1 records
  methods := (messages 2 records).map Method.ofRecords
  options? := Options.read? .service 3 records

def Location.ofRecords (records : List Record) : Location where
  path := ints 1 records
  span := ints 2 records
  leading? := text? 3 records
  trailing? := text? 4 records
  detached := texts 6 records

def File.ofRecords (records : List Record) : File where
  name? := text? 1 records
  package? := text? 2 records
  imports := texts 3 records
  messages := (Records.messages 4 records).map Message.ofRecords
  enums := (Records.messages 5 records).map Enumeration.ofRecords
  services := (Records.messages 6 records).map Service.ofRecords
  extensions := (Records.messages 7 records).map Field.ofRecords
  options? := Options.read? .file 8 records
  locations? :=
    (message? 9 records).map fun info => (Records.messages 1 info).map Location.ofRecords
  publicImports := ints 10 records
  weakImports := ints 11 records
  dialect? := text? 12 records

/-- The files of a descriptor set. -/
def filesOfRecords (records : List Record) : List File :=
  (Records.messages 1 records).map File.ofRecords

/-- The files of an encoded descriptor set. -/
def decodeSet (bytes : Bytes) : Except Fault (List File) :=
  (schema.decode .set bytes).map filesOfRecords

/-- The files of an encoded descriptor set whose options are kept in their encoded form. -/
def decodePreserving (bytes : Bytes) : Except Fault (List File) :=
  (preservingSchema.decode .set bytes).map filesOfRecords

end ProtoSource.Descriptor
