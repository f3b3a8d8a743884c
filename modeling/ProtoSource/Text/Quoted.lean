/-!
# Quoted text

Text between double quotes. Quotes and backslashes are escaped, and control characters are written
so that the literal stays on one line: line feed, carriage return and tab by their letters, any
other as three octal digits for each of its UTF-8 bytes.
-/

namespace ProtoSource.Text

namespace Quoted

/-- The control characters: C0, delete and C1. -/
def isControl (char : Char) : Bool :=
  char.toNat < 0x20 || (0x7f ≤ char.toNat && char.toNat < 0xa0)

/-- A digit below eight. -/
def octalDigit (digit : Nat) : Char :=
  Char.ofNat ('0'.toNat + digit % 8)

def octal (byte : UInt8) : List Char :=
  ['\\', octalDigit (byte.toNat / 64), octalDigit (byte.toNat / 8), octalDigit byte.toNat]

/-- How one character is written between the quotes. -/
def escape (char : Char) : List Char :=
  if char = '"' then ['\\', '"']
  else if char = '\\' then ['\\', '\\']
  else if char = '\n' then ['\\', 'n']
  else if char = '\r' then ['\\', 'r']
  else if char = '\t' then ['\\', 't']
  else if isControl char then (String.utf8EncodeChar char).flatMap octal
  else [char]

end Quoted

/-- The literal that denotes `text`. -/
def quote (text : String) : String :=
  String.ofList ('"' :: text.toList.flatMap Quoted.escape ++ ['"'])

end ProtoSource.Text
