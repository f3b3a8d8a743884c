import ProtoSource.Descriptor.Options

/-!
# Descriptors

What a compiled file declares. A part that an encoded descriptor may leave out is an `Option`, so
that absent and empty stay apart; where only the text matters, the accessor without a question mark
takes absent for empty.
-/

namespace ProtoSource.Descriptor

/-- The types a field can have. -/
inductive FieldType where
  | double
  | float
  | int64
  | uint64
  | int32
  | fixed64
  | fixed32
  | bool
  | string
  | group
  | message
  | bytes
  | uint32
  | enumeration
  | sfixed32
  | sfixed64
  | sint32
  | sint64
  deriving DecidableEq, Repr

namespace FieldType

def code : FieldType → Int
  | .double => 1
  | .float => 2
  | .int64 => 3
  | .uint64 => 4
  | .int32 => 5
  | .fixed64 => 6
  | .fixed32 => 7
  | .bool => 8
  | .string => 9
  | .group => 10
  | .message => 11
  | .bytes => 12
  | .uint32 => 13
  | .enumeration => 14
  | .sfixed32 => 15
  | .sfixed64 => 16
  | .sint32 => 17
  | .sint64 => 18

def all : List FieldType :=
  [.double, .float, .int64, .uint64, .int32, .fixed64, .fixed32, .bool, .string, .group, .message,
   .bytes, .uint32, .enumeration, .sfixed32, .sfixed64, .sint32, .sint64]

def ofCode? (code : Int) : Option FieldType :=
  all.find? (·.code == code)

/-- The word for a type that needs no name; empty for groups, messages and enums. -/
def keyword : FieldType → String
  | .double => "double"
  | .float => "float"
  | .int64 => "int64"
  | .uint64 => "uint64"
  | .int32 => "int32"
  | .fixed64 => "fixed64"
  | .fixed32 => "fixed32"
  | .bool => "bool"
  | .string => "string"
  | .group => ""
  | .message => ""
  | .bytes => "bytes"
  | .uint32 => "uint32"
  | .enumeration => ""
  | .sfixed32 => "sfixed32"
  | .sfixed64 => "sfixed64"
  | .sint32 => "sint32"
  | .sint64 => "sint64"

@[simp]
theorem ofCode?_code (type : FieldType) : ofCode? type.code = some type := by
  cases type <;> rfl

end FieldType

/-- How many values a field has. -/
inductive Label where
  | optional
  | required
  | repeated
  deriving DecidableEq, Repr

namespace Label

def code : Label → Int
  | .optional => 1
  | .required => 2
  | .repeated => 3

def ofCode? : Int → Option Label
  | 1 => some .optional
  | 2 => some .required
  | 3 => some .repeated
  | _ => none

/-- The word before the type; an optional field has none. -/
def keyword : Label → String
  | .optional => ""
  | .required => "required"
  | .repeated => "repeated"

@[simp]
theorem ofCode?_code (label : Label) : ofCode? label.code = some label := by
  cases label <;> rfl

end Label

/-- A field of a message, or an extension. -/
structure Field where
  name? : Option String := none
  extendee? : Option String := none
  number? : Option Int := none
  labelCode? : Option Int := none
  typeCode? : Option Int := none
  typeName? : Option String := none
  defaultValue? : Option String := none
  options? : Option (Options .field) := none
  oneofIndex? : Option Int := none
  jsonName? : Option String := none
  proto3Optional? : Option Bool := none

namespace Field

def name (field : Field) : String := field.name?.getD ""

def number (field : Field) : Int := field.number?.getD 0

def typeName (field : Field) : String := field.typeName?.getD ""

/-- The type, if one is set that exists. -/
def type? (field : Field) : Option FieldType := field.typeCode?.bind FieldType.ofCode?

/-- The label; a field without one is optional. -/
def label (field : Field) : Label := (field.labelCode?.bind Label.ofCode?).getD .optional

/-- The field was declared `optional` and has a oneof of its own to track its presence. -/
def proto3Optional (field : Field) : Bool := field.proto3Optional?.getD false

/-- The oneof that the field was declared in. -/
def oneof? (field : Field) : Option Int :=
  if field.proto3Optional then none else field.oneofIndex?

end Field

structure Oneof where
  name? : Option String := none
  options? : Option (Options .oneof) := none

def Oneof.name (oneof : Oneof) : String := oneof.name?.getD ""

/-- A range of numbers. Whether `stop` belongs to it depends on where the range stands. -/
structure Range where
  start? : Option Int := none
  stop? : Option Int := none
  deriving DecidableEq, Repr

namespace Range

def start (range : Range) : Int := range.start?.getD 0

def stop (range : Range) : Int := range.stop?.getD 0

end Range

structure ExtensionRange where
  range : Range := {}
  options? : Option (Options .extensionRange) := none

structure EnumValue where
  name? : Option String := none
  number? : Option Int := none
  options? : Option (Options .enumValue) := none

namespace EnumValue

def name (value : EnumValue) : String := value.name?.getD ""

def number (value : EnumValue) : Int := value.number?.getD 0

end EnumValue

/-- An enum. Its reserved ranges include their last number. -/
structure Enumeration where
  name? : Option String := none
  values : List EnumValue := []
  options? : Option (Options .enumeration) := none
  reservedRanges : List Range := []
  reservedNames : List String := []

namespace Enumeration

def name (enumeration : Enumeration) : String := enumeration.name?.getD ""

/-- Two values may share a number. -/
def allowsAlias (enumeration : Enumeration) : Bool :=
  (enumeration.options?.map (·.flag allowAliasNumber)).getD false

end Enumeration

/-- What a message declares besides nested messages. Its ranges exclude their last number. -/
structure MessageBody where
  name? : Option String := none
  fields : List Field := []
  enums : List Enumeration := []
  extensionRanges : List ExtensionRange := []
  extensions : List Field := []
  options? : Option (Options .message) := none
  oneofs : List Oneof := []
  reservedRanges : List Range := []
  reservedNames : List String := []

namespace MessageBody

def name (body : MessageBody) : String := body.name?.getD ""

/-- The message stands for the entries of a map field. -/
def isMapEntry (body : MessageBody) : Bool :=
  (body.options?.map (·.flag mapEntryNumber)).getD false

end MessageBody

inductive Message where
  | mk (body : MessageBody) (nested : List Message)

namespace Message

def body : Message → MessageBody
  | mk body _ => body

def nested : Message → List Message
  | mk _ nested => nested

def name (message : Message) : String := message.body.name

def isMapEntry (message : Message) : Bool := message.body.isMapEntry

end Message

structure Method where
  name? : Option String := none
  inputType? : Option String := none
  outputType? : Option String := none
  options? : Option (Options .method) := none
  clientStreaming? : Option Bool := none
  serverStreaming? : Option Bool := none

namespace Method

def name (method : Method) : String := method.name?.getD ""

def inputType (method : Method) : String := method.inputType?.getD ""

def outputType (method : Method) : String := method.outputType?.getD ""

def clientStreaming (method : Method) : Bool := method.clientStreaming?.getD false

def serverStreaming (method : Method) : Bool := method.serverStreaming?.getD false

end Method

structure Service where
  name? : Option String := none
  methods : List Method := []
  options? : Option (Options .service) := none

def Service.name (service : Service) : String := service.name?.getD ""

/-- Where a declaration stood in its file, and the comments around it. -/
structure Location where
  path : List Int := []
  span : List Int := []
  leading? : Option String := none
  trailing? : Option String := none
  detached : List String := []
  deriving DecidableEq, Repr

structure File where
  name? : Option String := none
  package? : Option String := none
  imports : List String := []
  messages : List Message := []
  enums : List Enumeration := []
  services : List Service := []
  extensions : List Field := []
  options? : Option (Options .file) := none
  locations? : Option (List Location) := none
  /-- positions of the imports that are passed on -/
  publicImports : List Int := []
  weakImports : List Int := []
  /-- the version of the language the file is written in -/
  dialect? : Option String := none

namespace File

def name (file : File) : String := file.name?.getD ""

def package (file : File) : String := file.package?.getD ""

end File

end ProtoSource.Descriptor
