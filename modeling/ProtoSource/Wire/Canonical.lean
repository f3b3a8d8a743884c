import ProtoSource.Wire.Decode
import ProtoSource.Wire.Floating

/-!
# Canonical form

The canonical form of a message has its fields in ascending order of number. A singular field
occurs once, a message field once with the canonical form of its merged records, a repeated number
as its field says, and a field without presence only when it is not the default. A map has one
entry for each key. Unknown fields of one number keep their order and value.
-/

namespace ProtoSource.Wire

namespace Scalar

/-- The value that is written for a value that was read. -/
def canonical (scalar : Scalar) (value : Nat) : Nat :=
  match scalar with
  | .int32 => ofInt (toInt32 value)
  | .enumeration => ofInt (toInt32 value)
  | .uint32 => value % 2 ^ 32
  | .sint32 => value % 2 ^ 32
  | .bool => if value = 0 then 0 else 1
  | _ => value

/-- Whether two numbers on the wire are the same value. -/
def same (scalar : Scalar) (left right : Nat) : Bool :=
  match scalar with
  | .double => FloatFormat.double.equal left right
  | .float => FloatFormat.single.equal left right
  | _ => scalar.canonical left == scalar.canonical right

def record (scalar : Scalar) (number value : Nat) : Record :=
  scalar.wireRecord number (scalar.canonical value)

/-- The bytes of one element of a packed list. -/
def encode (scalar : Scalar) (value : Nat) : Bytes :=
  match scalar.wire with
  | .fixed64 => Fixed.encode 8 value
  | .fixed32 => Fixed.encode 4 value
  | _ => Varint.encode (scalar.canonical value)

/-- The record of a packed list. -/
def packedRecord (scalar : Scalar) (number : Nat) (values : List Nat) : Record :=
  .packed number (values.flatMap scalar.encode) values

end Scalar

namespace Record

/-- The numbers that a record holds. -/
def numbers : Record → List Nat
  | .varint _ value => [value]
  | .fixed64 _ value => [value]
  | .fixed32 _ value => [value]
  | .packed _ _ values => values
  | _ => []

def text? : Record → Option String
  | .text _ value => some value
  | _ => none

def bytes? : Record → Option Bytes
  | .bytes _ value => some value
  | _ => none

def records? : Record → Option (List Record)
  | .message _ _ records => some records
  | .group _ records => some records
  | _ => none

end Record

mutual

/-- How deep messages and groups nest in a record. -/
def depthOfRecord : Record → Nat
  | .message _ _ records => depthOf records + 1
  | .group _ records => depthOf records + 1
  | _ => 0

/-- How deep messages and groups nest in a list of records. -/
def depthOf : List Record → Nat
  | [] => 0
  | record :: rest => max (depthOfRecord record) (depthOf rest)

end

namespace FieldSpec

variable {τ : Type}

/-- The values of a field that count: all of a repeated one, else the last, unless it is a default
that need not be written. -/
def kept {α : Type} (spec : FieldSpec τ) (isDefault : α → Bool) (values : List α) : List α :=
  if spec.repeated then
    values
  else
    values.getLast?.toList.filter fun value => spec.presence || !isDefault value

/-- The messages of a field: each of a repeated one, else all merged into one. -/
def merged (spec : FieldSpec τ) (messages : List (List Record)) : List (List Record) :=
  if spec.repeated then
    messages
  else
    match messages with
    | [] => []
    | _ => [messages.flatten]

/-- The canonical records of a field of numbers. An empty list is written only if it is packed and
its presence is known. -/
def canonicalNumbers (spec : FieldSpec τ) (scalar : Scalar) (number : Nat) (values : List Nat) :
    List Record :=
  let kept := spec.kept (scalar.same spec.defaultNumber) values
  if spec.repeated && spec.packed then
    if kept.isEmpty && !spec.presence then [] else [scalar.packedRecord number kept]
  else
    kept.map (scalar.record number)

/-- The canonical records of one known field. -/
def canonical (spec : FieldSpec τ) (nested : τ → List Record → List Record) (number : Nat)
    (records : List Record) : List Record :=
  match spec.kind with
  | .scalar scalar => spec.canonicalNumbers scalar number (records.flatMap Record.numbers)
  | .text =>
    (spec.kept (· == spec.defaultText) (records.filterMap Record.text?)).map (.text number)
  | .bytes =>
    (spec.kept (· == spec.defaultBytes) (records.filterMap Record.bytes?)).map (.bytes number)
  | .message type =>
    (spec.merged (records.filterMap Record.records?)).map fun inner =>
      .embed number (nested type inner)
  | .group type =>
    (spec.merged (records.filterMap Record.records?)).map fun inner =>
      .group number (nested type inner)

/-- What an absent field stands for where a value must be. -/
def absent (spec : FieldSpec τ) (number : Nat) : List Record :=
  if spec.repeated then
    []
  else
    match spec.kind with
    | .scalar scalar => [scalar.record number spec.defaultNumber]
    | .text => [.text number spec.defaultText]
    | .bytes => [.bytes number spec.defaultBytes]
    | .message _ => [.embed number []]
    | .group _ => [.group number []]

end FieldSpec

namespace Schema

variable {τ : Type}

/-- The choice that a field of `owner` belongs to. -/
def choice? (schema : Schema τ) (owner : τ) (number : Nat) : Option Nat :=
  (schema.field? owner number).bind FieldSpec.choice

/-- Reading `later` takes back what `earlier` chose. -/
def supersedes (schema : Schema τ) (owner : τ) (earlier later : Record) : Bool :=
  (schema.choice? owner earlier.number).isSome &&
    schema.choice? owner earlier.number == schema.choice? owner later.number &&
    earlier.number != later.number

/-- Leaves of each choice what was read since its last change. -/
def settle (schema : Schema τ) (owner : τ) : List Record → List Record
  | [] => []
  | record :: rest =>
    if (schema.choice? owner record.number).isSome && rest.any (schema.supersedes owner record) then
      settle schema owner rest
    else
      record :: settle schema owner rest

/-- Of the pairs with one key only the last counts. -/
def lastOfEach {α : Type} : List (Bytes × α) → List α
  | [] => []
  | (key, value) :: rest =>
    if rest.any (·.1 == key) then lastOfEach rest else value :: lastOfEach rest

/-- The canonical records of one known field. `message` gives the canonical records of a message
and `entry` those of field `number` of an entry. -/
def canonicalField (schema : Schema τ) (message : τ → List Record → List Record)
    (entry : τ → List Record → Nat → List Record) (spec : FieldSpec τ) (number : Nat)
    (records : List Record) : List Record :=
  match schema.entry? spec with
  | none => spec.canonical message number records
  | some type =>
    let entries := (records.filterMap Record.records?).map fun inner =>
      (encode (entry type inner keyNumber), entryNumbers.flatMap (entry type inner))
    (lastOfEach entries).map (.embed number)

/-- Puts a number in its place among ascending numbers, unless it is there already. -/
def insertNumber (number : Nat) : List Nat → List Nat
  | [] => [number]
  | least :: rest =>
    if number < least then number :: least :: rest
    else if number = least then least :: rest
    else least :: insertNumber number rest

/-- The numbers in use, ascending and each once. -/
def numbersOf (records : List Record) : List Nat :=
  (records.map Record.number).foldr insertNumber []

mutual

/-- The canonical records of a message whose messages nest at most as deep as the first argument
says. -/
def canonicalTo (schema : Schema τ) : Nat → τ → List Record → List Record
  | 0, _, records => records
  | depth + 1, owner, records =>
    let settled := schema.settle owner records
    (numbersOf settled).flatMap fun number =>
      let own := settled.filter (·.number == number)
      match schema.field? owner number with
      | none => own
      | some spec =>
        schema.canonicalField (canonicalTo schema depth) (canonicalPart schema depth) spec
          number own

/-- The canonical records of field `number` of an entry, which always has a value. -/
def canonicalPart (schema : Schema τ) : Nat → τ → List Record → Nat → List Record
  | 0, _, _, _ => []
  | depth + 1, entry, records, number =>
    match schema.part? entry number with
    | none => []
    | some spec =>
      let own := records.filter (·.number == number)
      schema.canonicalField (canonicalTo schema depth) (canonicalPart schema depth) spec number
        (if own.isEmpty then spec.absent number else own)

end

/-- The canonical records of a message. -/
def canonical (schema : Schema τ) (root : τ) (records : List Record) : List Record :=
  schema.canonicalTo (depthOf records + 1) root records

/-- Decodes a message and encodes its canonical form. -/
def recode (schema : Schema τ) (root : τ) (bytes : Bytes) : Except Fault Bytes :=
  (schema.decode root bytes).map fun records => encode (schema.canonical root records)

end Schema

end ProtoSource.Wire
