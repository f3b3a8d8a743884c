import ProtoSource.Descriptor.Basic
import ProtoSource.Text.Decimal
import ProtoSource.Wire.Floating
import ProtoSource.Wire.Schema

/-!
# Default values

The text of a default value must denote a value of the type of its field. The value is given as it
would be written on the wire.
-/

namespace ProtoSource.Pool.DefaultValue

open ProtoSource.Descriptor
open ProtoSource.Text
open ProtoSource.Wire

/-- A signed integer of a width in bits. -/
def signed? (bits : Nat) (text : List Char) : Option Int :=
  (Decimal.integer? text).filter fun value =>
    -(2 ^ (bits - 1)) ≤ value && value < 2 ^ (bits - 1)

/-- An unsigned integer of a width in bits. -/
def unsigned? (bits : Nat) (text : List Char) : Option Nat :=
  (Decimal.natural? text).filter fun value => value < 2 ^ bits

/-- The number of an integer on the wire that is not negative: zero, minus one, one, minus two and
so on take turns. -/
def zigzag (value : Int) : Nat :=
  if 0 ≤ value then 2 * value.toNat else 2 * (-value).toNat - 1

/-- The bits of an integer in two's complement. -/
def complement (bits : Nat) (value : Int) : Nat :=
  (value % 2 ^ bits).toNat

/-- The exponent that a number ends with, zero if nothing is left of it. -/
def exponent? : List Char → Option Int
  | [] => some 0
  | mark :: rest => if mark == 'e' || mark == 'E' then Decimal.integer? rest else none

/-- The significand and the exponent of a number with an optional point and exponent; at least one
digit stands before the exponent. -/
def decimal? (text : List Char) : Option (Nat × Int) :=
  let whole := text.takeWhile Char.isDigit
  let rest := text.dropWhile Char.isDigit
  let (fraction, rest) :=
    match rest with
    | '.' :: rest => (rest.takeWhile Char.isDigit, rest.dropWhile Char.isDigit)
    | _ => ([], rest)
  let digits := whole ++ fraction
  if digits.isEmpty then
    none
  else
    (exponent? rest).map fun exponent => (Decimal.value digits, exponent - fraction.length)

/-- What stands for an infinity or for no number, in any case. -/
def floatWord? (format : FloatFormat) (text : List Char) : Option Nat :=
  match String.ofList (text.map Char.toLower) with
  | "inf" => some format.infinity
  | "infinity" => some format.infinity
  | "nan" => some format.notANumber
  | _ => none

/-- The bits of a number without a sign. -/
def magnitude? (format : FloatFormat) (text : List Char) : Option Nat :=
  match decimal? text with
  | some (significand, exponent) => some (format.ofDecimal significand exponent)
  | none => floatWord? format text

/-- The bits of a number that may have a sign before it. -/
def float? (format : FloatFormat) : List Char → Option Nat
  | '-' :: rest => (magnitude? format rest).map (format.withSign true)
  | '+' :: rest => magnitude? format rest
  | text => magnitude? format text

/-- Where the reading of a byte string stands. -/
inductive Escape where
  | outside
  /-- a backslash was read -/
  | opened
  /-- an octal escape with this value may have more digits -/
  | octal (value more : Nat)
  /-- the first digit of a hexadecimal escape follows -/
  | hexHigh
  /-- the second digit of a hexadecimal escape follows -/
  | hexLow (high : Nat)

def octalDigit? (char : Char) : Option Nat :=
  if '0' ≤ char && char ≤ '7' then some (char.toNat - '0'.toNat) else none

def hexDigit? (char : Char) : Option Nat :=
  if char.isDigit then some (char.toNat - '0'.toNat)
  else if 'a' ≤ char && char ≤ 'f' then some (char.toNat - 'a'.toNat + 10)
  else if 'A' ≤ char && char ≤ 'F' then some (char.toNat - 'A'.toNat + 10)
  else none

/-- The byte of an escape that is one character. -/
def namedByte? : Char → Option UInt8
  | 'a' => some 7
  | 'b' => some 8
  | 't' => some 9
  | 'n' => some 10
  | 'v' => some 11
  | 'f' => some 12
  | 'r' => some 13
  | '"' => some 34
  | '\'' => some 39
  | '?' => some 63
  | '\\' => some 92
  | _ => none

namespace Escape

/-- A character outside of escapes. -/
def plain (char : Char) : Bytes × Escape :=
  if char = '\\' then ([], .opened) else (utf8 (String.singleton char), .outside)

/-- The character after a backslash. -/
def afterBackslash? (char : Char) : Option (Bytes × Escape) :=
  if char = 'x' ∨ char = 'X' then
    some ([], .hexHigh)
  else
    match octalDigit? char with
    | some digit => some ([], .octal digit 2)
    | none => (namedByte? char).map fun byte => ([byte], .outside)

/-- What reading one character gives, and where it leads. A plus sign may take the place of the
first hexadecimal digit. -/
def step? (state : Escape) (char : Char) : Option (Bytes × Escape) :=
  match state with
  | .outside => some (plain char)
  | .opened => afterBackslash? char
  | .octal value more =>
    match more, octalDigit? char with
    | more + 1, some digit => some ([], .octal (8 * value + digit) more)
    | _, _ =>
      let (bytes, next) := plain char
      some (UInt8.ofNat value :: bytes, next)
  | .hexHigh =>
    if char = '+' then some ([], .hexLow 0) else (hexDigit? char).map fun high => ([], .hexLow high)
  | .hexLow high => (hexDigit? char).map fun low => ([UInt8.ofNat (16 * high + low)], .outside)

/-- What is left at the end of the text, where no escape may lack a digit. -/
def finish? : Escape → Option Bytes
  | .outside => some []
  | .octal value _ => some [UInt8.ofNat value]
  | _ => none

end Escape

/-- The bytes that the rest of a text denotes. -/
def bytesFrom? : Escape → List Char → Option Bytes
  | state, [] => state.finish?
  | state, char :: rest => do
    let (bytes, next) ← state.step? char
    let others ← bytesFrom? next rest
    return bytes ++ others

/-- The bytes that a text with escapes denotes. -/
def bytes? (text : List Char) : Option Bytes :=
  bytesFrom? .outside text

def flag? (text : String) : Option Nat :=
  if text = "true" then some 1
  else if text = "false" then some 0
  else none

/-- The value of `type` that `text` denotes. Enums have names for their values; messages and groups
have no default. -/
def literal? (type : FieldType) (text : String) : Option Literal :=
  let chars := text.toList
  match type with
  | .double => (float? .double chars).map .number
  | .float => (float? .single chars).map .number
  | .int64 => (signed? 64 chars).map fun value => .number (complement 64 value)
  | .sint64 => (signed? 64 chars).map fun value => .number (zigzag value)
  | .sfixed64 => (signed? 64 chars).map fun value => .number (complement 64 value)
  | .int32 => (signed? 32 chars).map fun value => .number (complement 64 value)
  | .sint32 => (signed? 32 chars).map fun value => .number (zigzag value)
  | .sfixed32 => (signed? 32 chars).map fun value => .number (complement 32 value)
  | .uint64 => (unsigned? 64 chars).map .number
  | .fixed64 => (unsigned? 64 chars).map .number
  | .uint32 => (unsigned? 32 chars).map .number
  | .fixed32 => (unsigned? 32 chars).map .number
  | .bool => (flag? text).map .number
  | .string => some (.text text)
  | .bytes => (bytes? chars).map .bytes
  | .group => none
  | .message => none
  | .enumeration => none

/-- Whether `text` denotes a value of `type`. -/
def isValid (type : FieldType) (text : String) : Bool :=
  (literal? type text).isSome

end ProtoSource.Pool.DefaultValue
