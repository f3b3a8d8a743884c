import ProtoSource.Descriptor.Basic

/-!
# Writing descriptors

The records of descriptors in ascending order of field number. Of options the standard settings and
the uninterpreted options are written.
-/

namespace ProtoSource.Descriptor

open ProtoSource.Wire

namespace Write

def text (number : Nat) (value : Option String) : List Record :=
  value.toList.map (.text number)

def texts (number : Nat) (values : List String) : List Record :=
  values.map (.text number)

def int (number : Nat) (value : Option Int) : List Record :=
  value.toList.map fun value => .varint number (ofInt value)

def ints (number : Nat) (values : List Int) : List Record :=
  values.map fun value => .varint number (ofInt value)

def flag (number : Nat) (value : Option Bool) : List Record :=
  value.toList.map fun value => .varint number value.toNat

def packedInts (number : Nat) (values : List Int) : List Record :=
  match values with
  | [] => []
  | _ => [.bytes number (values.flatMap fun value => Varint.encode (ofInt value))]

def one {α : Type} (number : Nat) (records : α → List Record) (value : Option α) : List Record :=
  value.toList.map fun value => .embed number (records value)

def many {α : Type} (number : Nat) (records : α → List Record) (values : List α) : List Record :=
  values.map fun value => .embed number (records value)

end Write

open Write

def NamePart.records (part : NamePart) : List Record :=
  text 1 part.namePart? ++ flag 2 part.isExtension?

def UninterpretedOption.records (option : UninterpretedOption) : List Record :=
  many 2 NamePart.records option.name ++ text 3 option.identifier? ++
    option.positive?.toList.map (.varint 4) ++ option.negative?.toList.map (.varint 5) ++
    option.double?.toList.map (.fixed64 6) ++ option.bytes?.toList.map (.bytes 7) ++
    text 8 option.aggregate?

def Options.records {kind : OptionsKind} (options : Options kind) : List Record :=
  options.settings.map (fun setting => setting.2.record setting.1) ++
    many 999 UninterpretedOption.records options.uninterpreted

def Field.records (field : Field) : List Record :=
  text 1 field.name? ++ text 2 field.extendee? ++ int 3 field.number? ++ int 4 field.labelCode? ++
    int 5 field.typeCode? ++ text 6 field.typeName? ++ text 7 field.defaultValue? ++
    one 8 Options.records field.options? ++ int 9 field.oneofIndex? ++ text 10 field.jsonName? ++
    flag 17 field.proto3Optional?

def Oneof.records (oneof : Oneof) : List Record :=
  text 1 oneof.name? ++ one 2 Options.records oneof.options?

def Range.records (range : Range) : List Record :=
  int 1 range.start? ++ int 2 range.stop?

def ExtensionRange.records (extensionRange : ExtensionRange) : List Record :=
  extensionRange.range.records ++ one 3 Options.records extensionRange.options?

def EnumValue.records (value : EnumValue) : List Record :=
  text 1 value.name? ++ int 2 value.number? ++ one 3 Options.records value.options?

def Enumeration.records (enumeration : Enumeration) : List Record :=
  text 1 enumeration.name? ++ many 2 EnumValue.records enumeration.values ++
    one 3 Options.records enumeration.options? ++
    many 4 Range.records enumeration.reservedRanges ++ texts 5 enumeration.reservedNames

/-- The records of a message whose nested messages have the records `nested`. -/
def MessageBody.recordsWith (body : MessageBody) (nested : List Record) : List Record :=
  text 1 body.name? ++ many 2 Field.records body.fields ++ nested ++
    many 4 Enumeration.records body.enums ++
    many 5 ExtensionRange.records body.extensionRanges ++
    many 6 Field.records body.extensions ++ one 7 Options.records body.options? ++
    many 8 Oneof.records body.oneofs ++ many 9 Range.records body.reservedRanges ++
    texts 10 body.reservedNames

mutual

def Message.records : Message → List Record
  | .mk body nested => body.recordsWith (nestedRecords nested)

/-- Messages as fields of the message they are nested in. -/
def Message.nestedRecords : List Message → List Record
  | [] => []
  | message :: rest => .embed 3 message.records :: nestedRecords rest

end

def Method.records (method : Method) : List Record :=
  text 1 method.name? ++ text 2 method.inputType? ++ text 3 method.outputType? ++
    one 4 Options.records method.options? ++ flag 5 method.clientStreaming? ++
    flag 6 method.serverStreaming?

def Service.records (service : Service) : List Record :=
  text 1 service.name? ++ many 2 Method.records service.methods ++
    one 3 Options.records service.options?

def Location.records (location : Location) : List Record :=
  packedInts 1 location.path ++ packedInts 2 location.span ++ text 3 location.leading? ++
    text 4 location.trailing? ++ texts 6 location.detached

def File.records (file : File) : List Record :=
  text 1 file.name? ++ text 2 file.package? ++ texts 3 file.imports ++
    many 4 Message.records file.messages ++ many 5 Enumeration.records file.enums ++
    many 6 Service.records file.services ++ many 7 Field.records file.extensions ++
    one 8 Options.records file.options? ++ one 9 (many 1 Location.records) file.locations? ++
    ints 10 file.publicImports ++ ints 11 file.weakImports ++ text 12 file.dialect?

def Field.encode (field : Field) : Bytes :=
  Wire.encode field.records

def File.encode (file : File) : Bytes :=
  Wire.encode file.records

/-- The encoded descriptor set of `files`. -/
def encodeSet (files : List File) : Bytes :=
  Wire.encode (many 1 File.records files)

end ProtoSource.Descriptor
