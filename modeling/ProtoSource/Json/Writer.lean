/-!
# Writing JSON

Documents of text, flags, lists and records, written with one member or item a line and two spaces
a level. Quotes, backslashes and control characters below the blank are escaped.
-/

namespace ProtoSource.Json

inductive Document where
  | text (value : String)
  | flag (value : Bool)
  | list (items : List Document)
  | record (members : List (String × Document))

/-- A digit below sixteen. -/
def hexDigit (digit : Nat) : Char :=
  if digit < 10 then Char.ofNat ('0'.toNat + digit) else Char.ofNat ('a'.toNat + (digit - 10))

def escape (char : Char) : List Char :=
  if char = '"' then ['\\', '"']
  else if char = '\\' then ['\\', '\\']
  else if char = '\n' then ['\\', 'n']
  else if char = '\r' then ['\\', 'r']
  else if char = '\t' then ['\\', 't']
  else if char = '\x08' then ['\\', 'b']
  else if char = '\x0c' then ['\\', 'f']
  else if char.toNat < 0x20 then
    ['\\', 'u', '0', '0', hexDigit (char.toNat / 16), hexDigit (char.toNat % 16)]
  else [char]

def quote (text : String) : String :=
  String.ofList ('"' :: text.toList.flatMap escape ++ ['"'])

/-- A line break and the indentation of a level. -/
def lineBreak (level : Nat) : String :=
  "\n" ++ String.ofList (List.replicate (2 * level) ' ')

/-- Entries on lines of their own between two brackets. -/
def enclosed (left right : String) (level : Nat) (entries : List String) : String :=
  if entries.isEmpty then
    left ++ right
  else
    left ++ String.intercalate "," (entries.map (lineBreak (level + 1) ++ ·)) ++
      lineBreak level ++ right

mutual

def Document.writeAt (level : Nat) : Document → String
  | .text value => quote value
  | .flag value => if value then "true" else "false"
  | .list items => enclosed "[" "]" level (writeItems (level + 1) items)
  | .record members => enclosed "\x7b" "\x7d" level (writeMembers (level + 1) members)

def writeItems (level : Nat) : List Document → List String
  | [] => []
  | item :: rest => item.writeAt level :: writeItems level rest

def writeMembers (level : Nat) : List (String × Document) → List String
  | [] => []
  | (name, value) :: rest => (quote name ++ ": " ++ value.writeAt level) :: writeMembers level rest

end

def Document.write (document : Document) : String :=
  document.writeAt 0

end ProtoSource.Json
