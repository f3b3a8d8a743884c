import ProtoSource.Error
import ProtoSource.Render.Options
import ProtoSource.Render.Scope

/-!
# Fields in source text

A field is written on one line: label, type, name, number and options. A repeated field of an entry
message nested beside it is written as a map. A oneof is written whole where its first member
stands.
-/

namespace ProtoSource.Render

open ProtoSource.Descriptor
open ProtoSource.Text

def requireName (what : Nameable) (name : String) : Except Error Unit :=
  if name.isEmpty then .error (.flawed (.emptyName what)) else .ok ()

/-- The type of a field as written in `scope`: its keyword or a reference. -/
def typeToken (scope : Scope) (field : Field) : Except Error String :=
  let keyword := (field.type?.map FieldType.keyword).getD ""
  if !keyword.isEmpty then
    .ok keyword
  else if field.typeName.isEmpty then
    .error (.flawed (.untypedField field.name))
  else
    .ok (scope.reference field.typeName)

/-- A JSON name is written when it is not the one that follows from the name. -/
def jsonNameOption (field : Field) : List (String × String) :=
  match field.jsonName? with
  | none => []
  | some jsonName =>
    if jsonName = Name.lowerCamel field.name then [] else [("json_name", quote jsonName)]

def fieldOptions (field : Field) : String :=
  bracketed (jsonNameOption field ++ standardOptions field.options?)

/-- The entry message of a map field of `message`. -/
def mapEntry? (message : Message) (field : Field) : Option Message :=
  if field.label = .repeated ∧ field.type? = some .message then
    message.nested.find? fun nested =>
      nested.isMapEntry && nested.name == Name.last field.typeName
  else
    none

def entryField (entry : Message) (number : Int) : Except Error Field :=
  match entry.body.fields.find? (·.number == number) with
  | some field => .ok field
  | none => .error (.flawed (.missingEntryField entry.name number))

/-- The word before the type of a field. -/
def labelWord (field : Field) : String :=
  if field.proto3Optional then "optional" else field.label.keyword

/-- Name, number and options: what follows the type of a field. -/
def fieldTail (field : Field) : String :=
  " " ++ field.name ++ " = " ++ toString field.number ++ fieldOptions field ++ ";"

/-- The line of a field of `message`, whose own scope is `scope`. -/
def fieldLine (message : Message) (scope : Scope) (field : Field) : Except Error String := do
  requireName .field field.name
  match mapEntry? message field with
  | some entry =>
    let key ← entryField entry 1
    let value ← entryField entry 2
    let keyToken ← typeToken scope key
    let valueToken ← typeToken scope value
    return "map<" ++ keyToken ++ ", " ++ valueToken ++ ">" ++ fieldTail field
  | none =>
    let token ← typeToken scope field
    let word := labelWord field
    return (if word.isEmpty then "" else word ++ " ") ++ token ++ fieldTail field

/-- The oneof with this index. -/
def oneofAt? (message : Message) (index : Int) : Option Oneof :=
  if 0 ≤ index then message.body.oneofs[index.toNat]? else none

/-- The block of the oneof that `field` is the first member of. -/
def oneofBlock (message : Message) (scope : Scope) (field : Field) (index : Int) :
    Except Error Item := do
  match oneofAt? message index with
  | none => .error (.flawed (.missingOneof field.name message.name index))
  | some oneof =>
    requireName .oneof oneof.name
    let members := message.body.fields.filter (·.oneof? == some index)
    let lines ← members.mapM (fieldLine message scope)
    return .block ("oneof " ++ oneof.name) (optionLines (standardOptions oneof.options?) ++
      lines.map .line) ""

/-- The fields of `message` in order; `written` are the oneofs that have been written already. -/
def fieldItems (message : Message) (scope : Scope) :
    List Int → List Field → Except Error (List Item)
  | _, [] => .ok []
  | written, field :: rest =>
    match field.oneof? with
    | none => do
      let line ← fieldLine message scope field
      let others ← fieldItems message scope written rest
      return .line line :: others
    | some index =>
      if written.contains index then
        fieldItems message scope written rest
      else do
        let block ← oneofBlock message scope field index
        let others ← fieldItems message scope (index :: written) rest
        return block :: others

end ProtoSource.Render
