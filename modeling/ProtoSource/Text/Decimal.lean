import ProtoSource.Powers

/-!
# Decimal numbers

The number that decimal digits denote.
-/

namespace ProtoSource.Text.Decimal

/-- The value of digits, the highest first. -/
def value (digits : List Char) : Nat :=
  digits.foldl (fun total digit => 10 * total + (digit.toNat - '0'.toNat)) 0

/-- The number denoted by `text`, which has at least one digit and nothing else. -/
def digits? (text : List Char) : Option Nat :=
  if !text.isEmpty && text.all Char.isDigit then some (value text) else none

/-- A number that may have a plus sign before it. -/
def natural? : List Char → Option Nat
  | '+' :: rest => digits? rest
  | text => digits? text

/-- A number that may have a sign before it. -/
def integer? : List Char → Option Int
  | '-' :: rest => (digits? rest).map fun value => -(value : Int)
  | text => (natural? text).map Int.ofNat

end ProtoSource.Text.Decimal
