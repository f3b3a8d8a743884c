import ProtoSource.Pool.Declared
import ProtoSource.Pool.DefaultValue
import ProtoSource.Pool.Symbol

/-!
# Schemas from files

Resolved files describe how messages are read and written. Message types go by their full name.
Extensions of a message are fields of it.
-/

namespace ProtoSource.Pool

open ProtoSource.Descriptor
open ProtoSource.Text
open ProtoSource.Wire

/-- The kind of values of a resolved field. -/
def kindOf (field : Field) : Kind String :=
  let typeName := Name.bare field.typeName
  match field.type? with
  | none => .scalar .double
  | some type =>
    match type with
    | .double => .scalar .double
    | .float => .scalar .float
    | .int64 => .scalar .int64
    | .uint64 => .scalar .uint64
    | .int32 => .scalar .int32
    | .fixed64 => .scalar .fixed64
    | .fixed32 => .scalar .fixed32
    | .bool => .scalar .bool
    | .string => .text
    | .group => .group typeName
    | .message => .message typeName
    | .bytes => .bytes
    | .uint32 => .scalar .uint32
    | .enumeration => .scalar .enumeration
    | .sfixed32 => .scalar .sfixed32
    | .sfixed64 => .scalar .sfixed64
    | .sint32 => .scalar .sint32
    | .sint64 => .scalar .sint64

/-- The number of the value `name` of an enum, or of its first value if none is named. -/
def enumDefault? (enumeration : Enumeration) (name? : Option String) : Option Int :=
  match name? with
  | none => enumeration.values.head?.map EnumValue.number
  | some name => (enumeration.values.find? (·.name == name)).map EnumValue.number

/-- The default value of a resolved field; `enums` are those it may refer to. -/
def defaultOf (enums : List (String × Enumeration)) (field : Field) : Option Literal :=
  match field.type?.getD .double with
  | .enumeration => do
    let enumeration ← enums.lookup (Name.bare field.typeName)
    let number ← enumDefault? enumeration field.defaultValue?
    return .number (ofInt number)
  | type => field.defaultValue?.bind (DefaultValue.literal? type)

/-- Repeated numbers are packed if the field says so; if it says nothing, in the second dialect. -/
def isPacked (dialect : Dialect) (field : Field) : Bool :=
  (field.options?.bind (·.flag? packedNumber)).getD (dialect == .proto3)

def isRepeated (field : Field) : Bool :=
  field.label == .repeated

/-- What the meaning of a field depends on besides itself. -/
structure FieldContext where
  dialect : Dialect
  enums : List (String × Enumeration)

/-- The specification of a field. Messages and groups always know whether they are present. -/
def fieldSpec (context : FieldContext) (field : Field) : FieldSpec String where
  kind := kindOf field
  repeated := isRepeated field
  packed := isPacked context.dialect field
  presence :=
    field.proto3Optional || field.oneofIndex?.isSome ||
      (!isRepeated field && ((kindOf field).type?.isSome || context.dialect != .proto3))
  choice := field.oneofIndex?.map Int.toNat
  default? := defaultOf context.enums field

/-- The specification of an extension: its presence is known unless it is repeated. -/
def extensionSpec (context : FieldContext) (field : Field) : FieldSpec String :=
  { fieldSpec context field with presence := !isRepeated field, choice := none }

/-- The fields of a message by number, and whether it is the entry of a map. -/
structure MessageSpec where
  fields : List (Int × FieldSpec String)
  isEntry : Bool

/-- Messages by full name. -/
abbrev MessageTable := List (String × MessageSpec)

/-- The extensions of a file with the full name of the message they extend. -/
def extensionTable (context : FieldContext) (file : File) :
    List (String × Int × FieldSpec String) :=
  (extensionsOf file).map fun field =>
    (Name.bare (field.extendee?.getD ""), field.number, extensionSpec context field)

/-- The messages of `files` by full name, each with its fields and extensions. -/
def messageTable (files : List (Dialect × File)) : MessageTable :=
  let enums := files.flatMap fun (_, file) => enumsOf file
  let extensions := files.flatMap fun (dialect, file) => extensionTable ⟨dialect, enums⟩ file
  files.flatMap fun (dialect, file) =>
    (messagesOf file).map fun (name, message) =>
      (name,
        { fields :=
            message.body.fields.map
                (fun field => (field.number, fieldSpec ⟨dialect, enums⟩ field)) ++
              (extensions.filter (·.1 == name)).map Prod.snd
          isEntry := message.isMapEntry })

/-- The schema of a table. Faults under it name no places, and fields that it does not know are
read like the others. -/
def schemaOf (table : MessageTable) : Schema String where
  field? name number := (table.lookup name).bind fun message => message.fields.lookup (number : Int)
  place? _ _ := none
  skipsUnknown := false
  isEntry name := ((table.lookup name).map MessageSpec.isEntry).getD false

end ProtoSource.Pool
