import ProtoSource.Descriptor.Options
import ProtoSource.Wire.Decode

/-!
# The messages of a descriptor set

The encoded form of descriptors: the messages a set is made of, and the fields that are read of
each. Fields with other numbers are kept unread.
-/

namespace ProtoSource.Descriptor

open ProtoSource.Wire

/-- The messages that a descriptor set is made of. -/
inductive Part where
  | set
  | file
  | message
  | extensionRange
  | reservedRange
  | field
  | oneof
  | enumeration
  | enumReservedRange
  | enumValue
  | service
  | method
  | options (kind : OptionsKind)
  | uninterpretedOption
  | namePart
  | sourceInfo
  | location
  deriving DecidableEq, Repr

namespace Part

/-- The name of the message in faults. -/
def title : Part → String
  | .set => "FileDescriptorSet"
  | .file => "FileDescriptorProto"
  | .message => "DescriptorProto"
  | .extensionRange => "ExtensionRange"
  | .reservedRange => "ReservedRange"
  | .field => "FieldDescriptorProto"
  | .oneof => "OneofDescriptorProto"
  | .enumeration => "EnumDescriptorProto"
  | .enumReservedRange => "EnumReservedRange"
  | .enumValue => "EnumValueDescriptorProto"
  | .service => "ServiceDescriptorProto"
  | .method => "MethodDescriptorProto"
  | .options kind => kind.messageName
  | .uninterpretedOption => "UninterpretedOption"
  | .namePart => "NamePart"
  | .sourceInfo => "SourceCodeInfo"
  | .location => "Location"

end Part

/-- A field that is read: its number, name and kind. -/
structure Entry where
  number : Nat
  name : String
  kind : Kind Part
  repeated : Bool := false

namespace Entry

def text (number : Nat) (name : String) : Entry := ⟨number, name, .text, false⟩

def texts (number : Nat) (name : String) : Entry := ⟨number, name, .text, true⟩

def int (number : Nat) (name : String) : Entry := ⟨number, name, .scalar .int32, false⟩

def ints (number : Nat) (name : String) : Entry := ⟨number, name, .scalar .int32, true⟩

def flag (number : Nat) (name : String) : Entry := ⟨number, name, .scalar .bool, false⟩

def choice (number : Nat) (name : String) : Entry := ⟨number, name, .scalar .enumeration, false⟩

def one (number : Nat) (name : String) (part : Part) : Entry :=
  ⟨number, name, .message part, false⟩

def many (number : Nat) (name : String) (part : Part) : Entry :=
  ⟨number, name, .message part, true⟩

def ofSetting (spec : SettingSpec) : Entry :=
  match spec.shape with
  | .text => text spec.number spec.name
  | .flag => flag spec.number spec.name
  | .choice _ => choice spec.number spec.name

end Entry

def Part.isOptions : Part → Bool
  | .options _ => true
  | _ => false

namespace Part

open Entry

/-- The fields that are read of each message. -/
def entries : Part → List Entry
  | .set => [many 1 "file" .file]
  | .file =>
    [text 1 "name", text 2 "package", texts 3 "dependency", many 4 "message_type" .message,
     many 5 "enum_type" .enumeration, many 6 "service" .service, many 7 "extension" .field,
     one 8 "options" (.options .file), one 9 "source_code_info" .sourceInfo,
     ints 10 "public_dependency", ints 11 "weak_dependency", text 12 "syntax"]
  | .message =>
    [text 1 "name", many 2 "field" .field, many 3 "nested_type" .message,
     many 4 "enum_type" .enumeration, many 5 "extension_range" .extensionRange,
     many 6 "extension" .field, one 7 "options" (.options .message), many 8 "oneof_decl" .oneof,
     many 9 "reserved_range" .reservedRange, texts 10 "reserved_name"]
  | .extensionRange =>
    [int 1 "start", int 2 "end", one 3 "options" (.options .extensionRange)]
  | .reservedRange => [int 1 "start", int 2 "end"]
  | .enumReservedRange => [int 1 "start", int 2 "end"]
  | .field =>
    [text 1 "name", text 2 "extendee", int 3 "number", choice 4 "label", choice 5 "r#type",
     text 6 "type_name", text 7 "default_value", one 8 "options" (.options .field),
     int 9 "oneof_index", text 10 "json_name", flag 17 "proto3_optional"]
  | .oneof => [text 1 "name", one 2 "options" (.options .oneof)]
  | .enumeration =>
    [text 1 "name", many 2 "value" .enumValue, one 3 "options" (.options .enumeration),
     many 4 "reserved_range" .enumReservedRange, texts 5 "reserved_name"]
  | .enumValue => [text 1 "name", int 2 "number", one 3 "options" (.options .enumValue)]
  | .service => [text 1 "name", many 2 "method" .method, one 3 "options" (.options .service)]
  | .method =>
    [text 1 "name", text 2 "input_type", text 3 "output_type", one 4 "options" (.options .method),
     flag 5 "client_streaming", flag 6 "server_streaming"]
  | .options kind =>
    kind.settings.map ofSetting ++ [many 999 "uninterpreted_option" .uninterpretedOption]
  | .uninterpretedOption =>
    [many 2 "name" .namePart, text 3 "identifier_value",
     ⟨4, "positive_int_value", .scalar .uint64, false⟩,
     ⟨5, "negative_int_value", .scalar .int64, false⟩,
     ⟨6, "double_value", .scalar .double, false⟩, ⟨7, "string_value", .bytes, false⟩,
     text 8 "aggregate_value"]
  | .namePart => [text 1 "name_part", flag 2 "is_extension"]
  | .sourceInfo => [many 1 "location" .location]
  | .location =>
    [ints 1 "path", ints 2 "span", text 3 "leading_comments", text 4 "trailing_comments",
     texts 6 "leading_detached_comments"]

def entry? (part : Part) (number : Nat) : Option Entry :=
  part.entries.find? (·.number == number)

end Part

/-- The schema under which descriptor sets are read. -/
def schema : Schema Part where
  field? part number :=
    (part.entry? number).map fun entry => { kind := entry.kind, repeated := entry.repeated }
  place? part number := (part.entry? number).map fun entry => part.title ++ "." ++ entry.name

/-- The schema under which the encoded form of options is kept: before a field of options is read
it is passed over, and that takes a level of nesting. -/
def preservingSchema : Schema Part :=
  { schema with skipsFirst := Part.isOptions }

end ProtoSource.Descriptor
