/-!
# Faults of wire data

A fault is the reason why bytes are no encoded message, together with the places it was met at:
the field that holds the offending bytes first, then each field around it.
-/

namespace ProtoSource.Wire

/-- How the value of a field is laid out on the wire. -/
inductive WireType where
  | varint
  | fixed64
  | delimited
  | startGroup
  | endGroup
  | fixed32
  deriving DecidableEq, Repr

namespace WireType

/-- The three low bits of a key. -/
def code : WireType → Nat
  | .varint => 0
  | .fixed64 => 1
  | .delimited => 2
  | .startGroup => 3
  | .endGroup => 4
  | .fixed32 => 5

def ofCode? : Nat → Option WireType
  | 0 => some .varint
  | 1 => some .fixed64
  | 2 => some .delimited
  | 3 => some .startGroup
  | 4 => some .endGroup
  | 5 => some .fixed32
  | _ => none

/-- The word for a wire type in fault messages. -/
def word : WireType → String
  | .varint => "Varint"
  | .fixed64 => "SixtyFourBit"
  | .delimited => "LengthDelimited"
  | .startGroup => "StartGroup"
  | .endGroup => "EndGroup"
  | .fixed32 => "ThirtyTwoBit"

@[simp]
theorem ofCode?_code (wire : WireType) : ofCode? wire.code = some wire := by
  cases wire <;> rfl

theorem code_lt (wire : WireType) : wire.code < 8 := by
  cases wire <;> decide

end WireType

/-- Why reading stopped. -/
inductive Reason where
  /-- a varint is cut short or does not fit 64 bits -/
  | malformedVarint
  /-- a key does not fit 32 bits -/
  | oversizedKey (key : Nat)
  /-- no wire type has this code -/
  | unknownWireType (code : Nat)
  /-- fields are numbered from one -/
  | zeroFieldNumber
  /-- a known field came with another wire type than its own -/
  | mismatchedWireType (found expected : WireType)
  /-- a value needs more bytes than are left -/
  | underflow
  /-- a string is not UTF-8 -/
  | malformedText
  /-- a message or packed list ran past its own end -/
  | overrun
  /-- a group was closed that is not open -/
  | strayEndGroup
  /-- messages and groups nest too deeply -/
  | nestedTooDeeply
  deriving DecidableEq, Repr

def Reason.message : Reason → String
  | .malformedVarint => "invalid varint"
  | .oversizedKey key => "invalid key value: " ++ toString key
  | .unknownWireType code => "invalid wire type value: " ++ toString code
  | .zeroFieldNumber => "invalid tag value: 0"
  | .mismatchedWireType found expected =>
    "invalid wire type: " ++ found.word ++ " (expected " ++ expected.word ++ ")"
  | .underflow => "buffer underflow"
  | .malformedText => "invalid string value: data is not UTF-8 encoded"
  | .overrun => "delimited length exceeded"
  | .strayEndGroup => "unexpected end group tag"
  | .nestedTooDeeply => "recursion limit reached"

/-- A reason and the fields around it, the innermost first. -/
structure Fault where
  places : List String
  reason : Reason
  deriving DecidableEq, Repr

namespace Fault

/-- The fault as seen by the message that holds `place`. -/
def within (place : Option String) (fault : Fault) : Fault :=
  { fault with places := fault.places ++ place.toList }

def message (fault : Fault) : String :=
  "failed to decode Protobuf message: " ++
    String.join (fault.places.map (· ++ ": ")) ++ fault.reason.message

end Fault

end ProtoSource.Wire
