import ProtoSource.Wire.Varint

/-!
# Records

An encoded message is a list of records, each a field number with a value. Merging two messages is
appending their records: the last value of a singular field counts, repeated fields keep all values
in order, and a message field is the message of all its records together. The views below read
records by these rules.
-/

namespace ProtoSource.Wire

inductive Record where
  | varint (number value : Nat)
  | fixed64 (number value : Nat)
  | fixed32 (number value : Nat)
  | bytes (number : Nat) (value : Bytes)
  | text (number : Nat) (value : String)
  /-- A list of numbers in one value, as encoded and as read. -/
  | packed (number : Nat) (payload : Bytes) (values : List Nat)
  /-- A message, as encoded and as the records read from it. -/
  | message (number : Nat) (payload : Bytes) (records : List Record)
  | group (number : Nat) (records : List Record)

def utf8 (text : String) : Bytes :=
  text.toUTF8.data.toList

def ofUtf8? (bytes : Bytes) : Option String :=
  String.fromUTF8? (ByteArray.mk bytes.toArray)

namespace Record

def number : Record → Nat
  | .varint number _ => number
  | .fixed64 number _ => number
  | .fixed32 number _ => number
  | .bytes number _ => number
  | .text number _ => number
  | .packed number _ _ => number
  | .message number _ _ => number
  | .group number _ => number

end Record

mutual

/-- The bytes of a record, its keys and lengths in their shortest form. -/
def encodeRecord : Record → Bytes
  | .varint number value => Key.encode ⟨number, .varint⟩ ++ Varint.encode value
  | .fixed64 number value => Key.encode ⟨number, .fixed64⟩ ++ Fixed.encode 8 value
  | .fixed32 number value => Key.encode ⟨number, .fixed32⟩ ++ Fixed.encode 4 value
  | .bytes number value => Key.encode ⟨number, .delimited⟩ ++ encodeDelimited value
  | .text number value => Key.encode ⟨number, .delimited⟩ ++ encodeDelimited (utf8 value)
  | .packed number payload _ => Key.encode ⟨number, .delimited⟩ ++ encodeDelimited payload
  | .message number payload _ => Key.encode ⟨number, .delimited⟩ ++ encodeDelimited payload
  | .group number records =>
    Key.encode ⟨number, .startGroup⟩ ++ encode records ++ Key.encode ⟨number, .endGroup⟩

/-- The bytes of a list of records. -/
def encode : List Record → Bytes
  | [] => []
  | record :: rest => encodeRecord record ++ encode rest

end

/-- The message record that holds `records`. -/
def Record.embed (number : Nat) (records : List Record) : Record :=
  .message number (encode records) records

/-- The signed number in the low 32 bits of a varint. -/
def toInt32 (value : Nat) : Int :=
  Int.bmod (value : Int) (2 ^ 32)

/-- A signed number as a 64-bit varint value. -/
def ofInt (value : Int) : Nat :=
  (value % 2 ^ 64).toNat

namespace Records

def texts (number : Nat) (records : List Record) : List String :=
  records.filterMap fun
    | .text found value => if found = number then some value else none
    | _ => none

def byteStrings (number : Nat) (records : List Record) : List Bytes :=
  records.filterMap fun
    | .bytes found value => if found = number then some value else none
    | _ => none

def varints (number : Nat) (records : List Record) : List Nat :=
  records.flatMap fun
    | .varint found value => if found = number then [value] else []
    | .packed found _ values => if found = number then values else []
    | _ => []

def fixed64s (number : Nat) (records : List Record) : List Nat :=
  records.filterMap fun
    | .fixed64 found value => if found = number then some value else none
    | _ => none

/-- The messages of a repeated field, each as its records. -/
def messages (number : Nat) (records : List Record) : List (List Record) :=
  records.filterMap fun
    | .message found _ inner => if found = number then some inner else none
    | _ => none

/-- The encoded messages of a repeated field. -/
def payloads (number : Nat) (records : List Record) : List Bytes :=
  records.filterMap fun
    | .message found payload _ => if found = number then some payload else none
    | _ => none

def text? (number : Nat) (records : List Record) : Option String :=
  (texts number records).getLast?

def ints (number : Nat) (records : List Record) : List Int :=
  (varints number records).map toInt32

def int? (number : Nat) (records : List Record) : Option Int :=
  (ints number records).getLast?

def flag? (number : Nat) (records : List Record) : Option Bool :=
  (varints number records).getLast?.map (· != 0)

/-- The message of a singular field: all its records together. -/
def message? (number : Nat) (records : List Record) : Option (List Record) :=
  match messages number records with
  | [] => none
  | found => some found.flatten

/-- The encoded message of a singular field: all its payloads together. -/
def payload (number : Nat) (records : List Record) : Bytes :=
  (payloads number records).flatten

end Records

end ProtoSource.Wire
