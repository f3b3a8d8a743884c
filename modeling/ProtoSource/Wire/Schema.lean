import ProtoSource.Wire.Fault
import ProtoSource.Wire.Input

/-!
# Schemas

A schema says for each type of message which fields it knows. Message types are named by the
elements of some type, so one reader serves a fixed set of messages and messages that are
themselves described by data.
-/

namespace ProtoSource.Wire

/-- The numeric types. Repeated fields of them may be packed into one value. -/
inductive Scalar where
  | double
  | float
  | int64
  | uint64
  | int32
  | fixed64
  | fixed32
  | bool
  | uint32
  | enumeration
  | sfixed32
  | sfixed64
  | sint32
  | sint64
  deriving DecidableEq, Repr

namespace Scalar

def wire : Scalar → WireType
  | .double => .fixed64
  | .float => .fixed32
  | .int64 => .varint
  | .uint64 => .varint
  | .int32 => .varint
  | .fixed64 => .fixed64
  | .fixed32 => .fixed32
  | .bool => .varint
  | .uint32 => .varint
  | .enumeration => .varint
  | .sfixed32 => .fixed32
  | .sfixed64 => .fixed64
  | .sint32 => .varint
  | .sint64 => .varint

end Scalar

/-- What a field holds; `τ` names message types. -/
inductive Kind (τ : Type) where
  | scalar (scalar : Scalar)
  | text
  | bytes
  | message (type : τ)
  | group (type : τ)
  deriving DecidableEq, Repr

/-- The type of the messages that a field holds. -/
def Kind.type? {τ : Type} : Kind τ → Option τ
  | .message type => some type
  | .group type => some type
  | _ => none

/-- A value that is no message. A number is given as it stands on the wire. -/
inductive Literal where
  | number (value : Nat)
  | text (value : String)
  | bytes (value : Bytes)
  deriving DecidableEq, Repr

/-- How a known field is read and written. -/
structure FieldSpec (τ : Type) where
  kind : Kind τ
  /-- all values count, not only the last -/
  repeated : Bool := false
  /-- repeated numbers are written as one value -/
  packed : Bool := false
  /-- a default value is written when it was present -/
  presence : Bool := true
  /-- of the fields with one choice only the last one read is kept -/
  choice : Option Nat := none
  /-- the value of an absent field, if it is not zero or empty -/
  default? : Option Literal := none

namespace FieldSpec

variable {τ : Type}

/-- The default of a number. -/
def defaultNumber (spec : FieldSpec τ) : Nat :=
  match spec.default? with
  | some (.number value) => value
  | _ => 0

/-- The default of a text. -/
def defaultText (spec : FieldSpec τ) : String :=
  match spec.default? with
  | some (.text value) => value
  | _ => ""

/-- The default of a byte string. -/
def defaultBytes (spec : FieldSpec τ) : Bytes :=
  match spec.default? with
  | some (.bytes value) => value
  | _ => []

end FieldSpec

/-- The number of the key of an entry. -/
def keyNumber : Nat := 1

/-- The number of the value of an entry. -/
def valueNumber : Nat := 2

/-- The fields of an entry. -/
def entryNumbers : List Nat := [keyNumber, valueNumber]

structure Schema (τ : Type) where
  field? : τ → Nat → Option (FieldSpec τ)
  /-- The name of a field in faults, if faults name it. -/
  place? : τ → Nat → Option String
  /-- A field that is not known is passed over, which takes a level of nesting whatever it holds.
  Otherwise it is read like a known one. -/
  skipsUnknown : Bool := true
  /-- The known fields of a message are passed over before they are read. -/
  skipsFirst : τ → Bool := fun _ => false
  /-- Messages of the type are entries: a repeated field that holds them is a map. -/
  isEntry : τ → Bool := fun _ => false

namespace Schema

variable {τ : Type}

/-- The type of the entries of a field, if the field is a map. -/
def entry? (schema : Schema τ) (spec : FieldSpec τ) : Option τ :=
  if spec.repeated then spec.kind.type?.filter schema.isEntry else none

/-- How field `number` of an entry is read and written. There is one key, whatever its field says,
and its default is zero or empty. -/
def part? (schema : Schema τ) (entry : τ) (number : Nat) : Option (FieldSpec τ) :=
  if number = keyNumber then
    (schema.field? entry number).map fun spec =>
      { spec with repeated := false, packed := false, default? := none }
  else if number = valueNumber then
    schema.field? entry number
  else
    none

end Schema

end ProtoSource.Wire
