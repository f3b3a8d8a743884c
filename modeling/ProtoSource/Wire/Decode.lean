import ProtoSource.Wire.Record
import ProtoSource.Wire.Schema

/-!
# Decoding

Bytes are read as the records of a message under a schema. Known fields must have the wire type of
their kind; unknown fields are kept.

A nested message may claim any length up to all remaining input. While it is read only the whole
input bounds a read; that it ends where it said is checked afterwards. Messages and groups nest at
most `nestingLimit` deep, and passing over a field takes a level too. Entries of maps take none.
-/

namespace ProtoSource.Wire

/-- The nesting budget of a whole message. -/
def nestingLimit : Nat := 100

/-- Reads fields with `value` up to the end key of group `number`. Each turn reads a key, so when
the turns are used up no input is left. -/
def groupTurns (number : Nat) (value : Key → Reader (List Record)) : Nat → Reader (List Record)
  | 0, _ => .error ⟨[], .malformedVarint⟩
  | turns + 1, input =>
    match Key.read input with
    | .error fault => .error fault
    | .ok (key, rest) =>
      if key.wire = .endGroup then
        if key.number = number then
          .ok ([], rest)
        else
          .error ⟨[], .strayEndGroup⟩
      else
        match value key rest with
        | .error fault => .error fault
        | .ok (first, next) =>
          match groupTurns number value turns next with
          | .error fault => .error fault
          | .ok (others, last) => .ok (first ++ others, last)

def readGroup (number : Nat) (value : Key → Reader (List Record)) : Reader (List Record) :=
  fun input => groupTurns number value input.size input

def expectWire (expected found : WireType) : Reader Unit :=
  if found = expected then
    pure ()
  else
    Reader.fail (.mismatchedWireType found expected)

/-- Reads the value of a field by its wire type alone. `group` reads from the key of a group on, be
it the right key or not. -/
def readByWire (key : Key) (group : Reader Record) : Reader Record :=
  match key.wire with
  | .varint => .varint key.number <$> Varint.read
  | .fixed64 => .fixed64 key.number <$> Fixed.read 8
  | .fixed32 => .fixed32 key.number <$> Fixed.read 4
  | .delimited => .bytes key.number <$> readDelimited
  | .startGroup => group
  | .endGroup => group

/-- Passes over a field. That takes a level of nesting, and so does each field of a group. -/
def skipField : Nat → Key → Reader Record
  | 0, _ => Reader.fail .nestedTooDeeply
  | budget + 1, key =>
    readByWire key <|
      if key.wire = .endGroup then
        Reader.fail .strayEndGroup
      else
        .group key.number <$> readGroup key.number fun inner => ([·]) <$> skipField budget inner

/-- Reads a field that is not known. A group takes a level of nesting, and it must be opened. -/
def readUnknown : Nat → Key → Reader Record
  | 0, key =>
    readByWire key do
      expectWire .startGroup key.wire
      Reader.fail .nestedTooDeeply
  | budget + 1, key =>
    readByWire key do
      expectWire .startGroup key.wire
      .group key.number <$> readGroup key.number fun inner => ([·]) <$> readUnknown budget inner

def readNumber (scalar : Scalar) : Reader Nat :=
  match scalar.wire with
  | .fixed64 => Fixed.read 8
  | .fixed32 => Fixed.read 4
  | _ => Varint.read

/-- The record of a number as it stands on the wire. -/
def Scalar.wireRecord (scalar : Scalar) (number value : Nat) : Record :=
  match scalar.wire with
  | .fixed64 => .fixed64 number value
  | .fixed32 => .fixed32 number value
  | _ => .varint number value

def readScalar (scalar : Scalar) (number : Nat) : Reader Record :=
  scalar.wireRecord number <$> readNumber scalar

/-- Reads numbers until exactly the bytes of the list are used. -/
def readPacked (scalar : Scalar) (number : Nat) : Reader Record := do
  let length ← Varint.read
  let payload ← Reader.peek length
  let values ← Reader.region length (([·]) <$> readNumber scalar)
  return .packed number payload values

def readText (number : Nat) : Reader Record := do
  match ofUtf8? (← readDelimited) with
  | some text => return .text number text
  | none => Reader.fail .malformedText

/-- Reads fields until exactly the bytes of the message are used. -/
def readMessage (value : Key → Reader (List Record)) (number : Nat) : Reader Record := do
  let length ← Varint.read
  let payload ← Reader.peek length
  let records ← Reader.region length do value (← Key.read)
  return .message number payload records

/-- Reads the value of a known field. `nested` reads the fields of a message type with one level
less; without it no level is left. -/
def readKnown {τ : Type} (spec : FieldSpec τ) (nested : Option (τ → Key → Reader (List Record)))
    (key : Key) : Reader (List Record) :=
  match spec.kind with
  | .scalar scalar =>
    if spec.repeated ∧ key.wire = .delimited then do
      return [← readPacked scalar key.number]
    else do
      expectWire scalar.wire key.wire
      return [← readScalar scalar key.number]
  | .text => do
    expectWire .delimited key.wire
    return [← readText key.number]
  | .bytes => do
    expectWire .delimited key.wire
    return [.bytes key.number (← readDelimited)]
  | .message type => do
    expectWire .delimited key.wire
    match nested with
    | none => Reader.fail .nestedTooDeeply
    | some fields => return [← readMessage (fields type) key.number]
  | .group type => do
    expectWire .startGroup key.wire
    match nested with
    | none => Reader.fail .nestedTooDeeply
    | some fields => return [.group key.number (← readGroup key.number (fields type))]

namespace Schema

variable {τ : Type}

/-- Reads the value of a known field. An entry of a map is read with `entries` whatever its wire
type says, and it takes no level of nesting. -/
def readField (schema : Schema τ) (nested : Option (τ → Key → Reader (List Record)))
    (entries : τ → Key → Reader (List Record)) (spec : FieldSpec τ) (key : Key) :
    Reader (List Record) :=
  match schema.entry? spec with
  | some entry => ([·]) <$> readMessage (entries entry) key.number
  | none => readKnown spec nested key

/-- Reads a field of an entry: its key or its value. Anything else is passed over. A value may be a
map in turn, whose entries lie within the entry; as each of them has a key, the first number, which
bounds how deep they lie, is never used up before the input. -/
def readPart (schema : Schema τ) (budget : Nat)
    (nested : Option (τ → Key → Reader (List Record))) : Nat → τ → Key → Reader (List Record)
  | 0, _, _ => Reader.fail .malformedVarint
  | depth + 1, entry, key =>
    match schema.part? entry key.number with
    | some spec => schema.readField nested (readPart schema budget nested depth) spec key
    | none => do
      let _ ← skipField budget key
      return []

/-- Reads the value after `key` in a message of type `owner`. -/
def readWith (schema : Schema τ) (budget : Nat)
    (nested : Option (τ → Key → Reader (List Record))) (owner : τ) (key : Key) :
    Reader (List Record) :=
  match schema.field? owner key.number with
  | none => ([·]) <$> if schema.skipsUnknown then skipField budget key else readUnknown budget key
  | some spec =>
    Reader.within (schema.place? owner key.number) <|
      if budget = 0 ∧ schema.skipsFirst owner then
        Reader.fail .nestedTooDeeply
      else do
        let depth ← Reader.remaining
        schema.readField nested (schema.readPart budget nested depth) spec key

/-- Reads the value after a key under a nesting budget. -/
def readValue (schema : Schema τ) : Nat → τ → Key → Reader (List Record)
  | 0 => schema.readWith 0 none
  | budget + 1 => schema.readWith (budget + 1) (some (readValue schema budget))

/-- The records of an encoded message of type `root`. -/
def decode (schema : Schema τ) (root : τ) (bytes : Bytes) : Except Fault (List Record) :=
  let fields : Reader (List Record) :=
    Reader.repeatTo 0 do schema.readValue nestingLimit root (← Key.read)
  (fields (Input.ofBytes bytes)).map Prod.fst

end Schema

end ProtoSource.Wire
