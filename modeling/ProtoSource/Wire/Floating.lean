import ProtoSource.Powers

/-!
# Floating-point numbers in bits

A format has a sign bit, an exponent and a fraction, from the highest bit down. Read as a whole
number, the bits of a positive number count the representable numbers below it, so rounding a
quotient in units of the smallest positive number gives the bits at once: a fraction that overflows
carries into the exponent, and an exponent that overflows reaches infinity.
-/

namespace ProtoSource.Wire

/-- The width of the parts of a floating-point number. -/
structure FloatFormat where
  exponent : Nat
  fraction : Nat
  deriving DecidableEq, Repr

/-- The quotient rounded to the nearest whole number; a half goes to the even neighbour. -/
def roundedQuotient (numerator denominator : Nat) : Nat :=
  let down := numerator / denominator
  let twice := 2 * (numerator % denominator)
  if twice < denominator ∨ (twice = denominator ∧ down % 2 = 0) then down else down + 1

namespace FloatFormat

def double : FloatFormat := ⟨11, 52⟩

def single : FloatFormat := ⟨8, 23⟩

def signBit (format : FloatFormat) : Nat :=
  2 ^ (format.exponent + format.fraction)

/-- The exponent has all bits set and the fraction none. -/
def infinity (format : FloatFormat) : Nat :=
  (2 ^ format.exponent - 1) * 2 ^ format.fraction

/-- A value that is no number: the exponent has all bits set and the fraction some. -/
def notANumber (format : FloatFormat) : Nat :=
  format.infinity + 2 ^ (format.fraction - 1)

/-- One in units of the smallest positive number. -/
def one (format : FloatFormat) : Nat :=
  2 ^ (2 ^ (format.exponent - 1) - 2 + format.fraction)

/-- The bits of the number nearest to a quotient; of two that are equally near the one with even
bits counts. -/
def ofQuotient (format : FloatFormat) (numerator denominator : Nat) : Nat :=
  let scaled := numerator * format.one
  let step := (scaled / denominator).log2 - format.fraction
  let bits := step * 2 ^ format.fraction + roundedQuotient scaled (denominator * 2 ^ step)
  min bits format.infinity

/-- No number of a format lies beyond ten to this power, and none but zero below its inverse. -/
def decimalReach : Int := 400

/-- The bits of the number nearest to `significand * 10 ^ exponent`. -/
def ofDecimal (format : FloatFormat) (significand : Nat) (exponent : Int) : Nat :=
  let magnitude := (Nat.toDigits 10 significand).length + exponent
  if significand = 0 ∨ magnitude < -decimalReach then 0
  else if decimalReach < magnitude then format.infinity
  else
    match exponent with
    | .ofNat power => format.ofQuotient (significand * 10 ^ power) 1
    | .negSucc power => format.ofQuotient significand (10 ^ (power + 1))

def withSign (format : FloatFormat) (isNegative : Bool) (bits : Nat) : Nat :=
  if isNegative then bits + format.signBit else bits

def isNumber (format : FloatFormat) (bits : Nat) : Bool :=
  bits % format.signBit ≤ format.infinity

def isZero (format : FloatFormat) (bits : Nat) : Bool :=
  bits % format.signBit == 0

/-- Whether two values are equal as numbers: the zeros of either sign are, and what is no number
equals nothing. -/
def equal (format : FloatFormat) (left right : Nat) : Bool :=
  format.isNumber left && (left == right || (format.isZero left && format.isZero right))

end FloatFormat

end ProtoSource.Wire
