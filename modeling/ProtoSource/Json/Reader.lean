import ProtoSource.Text.Decimal

/-!
# Reading JSON

A strict reader of JSON text. Numbers are told apart only so far that a plain natural number keeps
its value. A string may hold escapes for halves of surrogate pairs, which denote no text; it is
still read, since the value it stands in may not matter.
-/

namespace ProtoSource.Json

/-- A JSON value. The text of a string is missing if it denotes none. -/
inductive Value where
  | null
  | bool (value : Bool)
  /-- digits without sign, fraction or exponent -/
  | natural (value : Nat)
  /-- any other number -/
  | number
  | string (text? : Option String)
  | array (items : List Value)
  | object (members : List (Option String × Value))

def isBlank (char : Char) : Bool :=
  char == ' ' || char == '\n' || char == '\t' || char == '\r'

def skipBlank (text : List Char) : List Char :=
  text.dropWhile isBlank

def hexDigit? (char : Char) : Option Nat :=
  if '0' ≤ char ∧ char ≤ '9' then some (char.toNat - '0'.toNat)
  else if 'a' ≤ char ∧ char ≤ 'f' then some (char.toNat - 'a'.toNat + 10)
  else if 'A' ≤ char ∧ char ≤ 'F' then some (char.toNat - 'A'.toNat + 10)
  else none

/-- The character that a one-letter escape denotes. -/
def escape? (char : Char) : Option Char :=
  [('"', '"'), ('\\', '\\'), ('/', '/'), ('b', '\x08'), ('f', '\x0c'), ('n', '\n'), ('r', '\r'),
    ('t', '\t')].lookup char

/-- The code units up to the closing quote, and what follows it. -/
def codeUnits : List Char → Option (List Nat × List Char)
  | [] => none
  | '"' :: rest => some ([], rest)
  | '\\' :: 'u' :: a :: b :: c :: d :: rest => do
    let unit := 4096 * (← hexDigit? a) + 256 * (← hexDigit? b) + 16 * (← hexDigit? c) +
      (← hexDigit? d)
    let (units, last) ← codeUnits rest
    return (unit :: units, last)
  | '\\' :: char :: rest => do
    let escaped ← escape? char
    let (units, last) ← codeUnits rest
    return (escaped.toNat :: units, last)
  | char :: rest =>
    if char == '\\' || char.toNat < 0x20 then
      none
    else do
      let (units, last) ← codeUnits rest
      return (char.toNat :: units, last)

def isHighHalf (unit : Nat) : Bool := 0xd800 ≤ unit && unit < 0xdc00

def isLowHalf (unit : Nat) : Bool := 0xdc00 ≤ unit && unit < 0xe000

/-- The characters of code units, unless half of a surrogate pair stands alone. -/
def charsOf? : List Nat → Option (List Char)
  | [] => some []
  | high :: low :: rest =>
    if isHighHalf high && isLowHalf low then
      (charsOf? rest).map (Char.ofNat (0x10000 + 0x400 * (high - 0xd800) + (low - 0xdc00)) :: ·)
    else if isHighHalf high || isLowHalf high then
      none
    else
      (charsOf? (low :: rest)).map (Char.ofNat high :: ·)
  | [unit] => if isHighHalf unit || isLowHalf unit then none else some [Char.ofNat unit]

/-- Reads a string after its opening quote. -/
def string? (text : List Char) : Option (Option String × List Char) :=
  (codeUnits text).map fun (units, rest) => ((charsOf? units).map String.ofList, rest)

/-- The digits at the front, at least one. -/
def digits? (text : List Char) : Option (List Char × List Char) :=
  match text.takeWhile Char.isDigit with
  | [] => none
  | digits => some (digits, text.dropWhile Char.isDigit)

/-- The whole part of a number, which has no leading zero. -/
def whole? : List Char → Option (List Char × List Char)
  | '0' :: rest => some (['0'], rest)
  | text => digits? text

/-- What follows a fraction, if there is one; whether there was one comes first. -/
def fraction? : List Char → Option (Bool × List Char)
  | '.' :: rest => (digits? rest).map fun (_, last) => (true, last)
  | text => some (false, text)

/-- What follows an exponent, if there is one; whether there was one comes first. -/
def exponent? : List Char → Option (Bool × List Char)
  | mark :: rest =>
    if mark == 'e' || mark == 'E' then
      let unsigned :=
        match rest with
        | '+' :: others => others
        | '-' :: others => others
        | others => others
      (digits? unsigned).map fun (_, last) => (true, last)
    else
      some (false, mark :: rest)
  | [] => some (false, [])

def number? (text : List Char) : Option (Value × List Char) := do
  let (negative, unsigned) :=
    match text with
    | '-' :: rest => (true, rest)
    | rest => (false, rest)
  let (whole, afterWhole) ← whole? unsigned
  let (hasFraction, afterFraction) ← fraction? afterWhole
  let (hasExponent, last) ← exponent? afterFraction
  let isPlain := !negative && !hasFraction && !hasExponent
  return (if isPlain then .natural (Text.Decimal.value whole) else .number, last)

/-- What is left of `text` after the word `word`. -/
def afterWord? (word : List Char) (text : List Char) : Option (List Char) :=
  if word.isPrefixOf text then some (text.drop word.length) else none

mutual

/-- Reads a value. Every step of nesting or of a list takes one turn, and the turns do not run out
before the text does. -/
def value? : Nat → List Char → Option (Value × List Char)
  | 0, _ => none
  | turns + 1, text =>
    match skipBlank text with
    | '\x7b' :: rest =>
      match skipBlank rest with
      | '\x7d' :: last => some (.object [], last)
      | others => (members? turns others).map fun (members, last) => (.object members, last)
    | '[' :: rest =>
      match skipBlank rest with
      | ']' :: last => some (.array [], last)
      | others => (items? turns others).map fun (items, last) => (.array items, last)
    | '"' :: rest => (string? rest).map fun (text?, last) => (.string text?, last)
    | 'n' :: rest => (afterWord? ['u', 'l', 'l'] rest).map fun last => (.null, last)
    | 't' :: rest => (afterWord? ['r', 'u', 'e'] rest).map fun last => (.bool true, last)
    | 'f' :: rest => (afterWord? ['a', 'l', 's', 'e'] rest).map fun last => (.bool false, last)
    | others => number? others

/-- Reads the items of an array up to its end. -/
def items? : Nat → List Char → Option (List Value × List Char)
  | 0, _ => none
  | turns + 1, text => do
    let (item, rest) ← value? turns text
    match skipBlank rest with
    | ']' :: last => return ([item], last)
    | ',' :: others =>
      let (items, last) ← items? turns others
      return (item :: items, last)
    | _ => none

/-- Reads the members of an object up to its end. -/
def members? : Nat → List Char → Option (List (Option String × Value) × List Char)
  | 0, _ => none
  | turns + 1, text =>
    match skipBlank text with
    | '"' :: keyText => do
      let (key, afterKey) ← string? keyText
      match skipBlank afterKey with
      | ':' :: valueText =>
        let (value, rest) ← value? turns valueText
        match skipBlank rest with
        | '\x7d' :: last => return ([(key, value)], last)
        | ',' :: others =>
          let (members, last) ← members? turns others
          return ((key, value) :: members, last)
        | _ => none
      | _ => none
    | _ => none

end

/-- The value that `text` denotes, with nothing but blanks around it. -/
def read? (text : String) : Option Value := do
  let chars := text.toList
  let (value, rest) ← value? (2 * chars.length + 2) chars
  if (skipBlank rest).isEmpty then return value else none

end ProtoSource.Json
