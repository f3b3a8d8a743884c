import ProtoSource.Render.Field
import ProtoSource.Render.Http

/-!
# Files in source text

A file is written from the top: header, imports, package and options, then its services, messages
and enums in the order of declaration. Nothing is reordered or left out but the entry messages of
maps, which are part of their fields.
-/

namespace ProtoSource.Render

open ProtoSource.Descriptor
open ProtoSource.Text

/-- A range from `start` to and including `last`, where `max` has a word of its own. -/
def rangeText (max start last : Int) : String :=
  if start = last then toString start
  else if last = max then toString start ++ " to max"
  else toString start ++ " to " ++ toString last

/-- A statement for the entries, if there are any. -/
def reservedLine (entries : List String) : List Item :=
  if entries.isEmpty then [] else [.line ("reserved " ++ String.intercalate ", " entries ++ ";")]

/-- The highest field number. -/
def maxFieldNumber : Int := 536870911

/-- The highest number of an enum value. -/
def maxEnumNumber : Int := 2147483647

/-- The lowest 32-bit integer. -/
def lowestInteger : Int := -2147483648

/-- One less than a 32-bit integer, if that is one too. -/
def predecessor (value : Int) : Except Error Int :=
  if value ≤ lowestInteger then .error (.panicked .overflow) else .ok (value - 1)

/-- The ranges of a message are half-open, but are written closed. -/
def messageReserved (body : MessageBody) : Except Error (List Item) := do
  let ranges ← body.reservedRanges.mapM fun range => do
    return rangeText maxFieldNumber range.start (← predecessor range.stop)
  return reservedLine ranges ++ reservedLine (body.reservedNames.map quote)

def enumReserved (enumeration : Enumeration) : List Item :=
  reservedLine (enumeration.reservedRanges.map fun range =>
      rangeText maxEnumNumber range.start range.stop) ++
    reservedLine (enumeration.reservedNames.map quote)

def enumValueLine (value : EnumValue) : Except Error Item := do
  requireName .enumValue value.name
  return .line (value.name ++ " = " ++ toString value.number ++
    bracketed (standardOptions value.options?) ++ ";")

def enumBlock (enumeration : Enumeration) : Except Error Item := do
  requireName .enumeration enumeration.name
  let values ← enumeration.values.mapM enumValueLine
  return .block ("enum " ++ enumeration.name)
    (optionLines (standardOptions enumeration.options?) ++ values ++ enumReserved enumeration) ""

/-- Blocks with a blank line before each. -/
def spaced (blocks : List Item) : List Item :=
  blocks.flatMap fun block => [.blank, block]

mutual

/-- The block of a message declared in `scope`. -/
def messageBlock (scope : Scope) : Message → Except Error Item
  | .mk body nested => do
    requireName .message body.name
    let inner := scope.nested body.name
    let fields ← fieldItems (.mk body nested) inner [] body.fields
    let reserved ← messageReserved body
    let enums ← body.enums.mapM enumBlock
    let messages ← messageBlocks true inner nested
    return .block ("message " ++ body.name)
      (optionLines (standardOptions body.options?) ++ fields ++ reserved ++ spaced enums ++
        spaced messages) ""

/-- The blocks of messages declared in `scope`, without the entries of maps if `hideEntries`. -/
def messageBlocks (hideEntries : Bool) (scope : Scope) : List Message → Except Error (List Item)
  | [] => .ok []
  | message :: rest =>
    if hideEntries && message.isMapEntry then
      messageBlocks hideEntries scope rest
    else do
      let block ← messageBlock scope message
      let others ← messageBlocks hideEntries scope rest
      return block :: others

end

def streamWord (isStream : Bool) : String :=
  if isStream then "stream " else ""

/-- The head of a method. Its types are written as seen from the method itself. -/
def signature (scope : Scope) (method : Method) : String :=
  "rpc " ++ method.name ++ " (" ++ streamWord method.clientStreaming ++
    scope.reference method.inputType ++ ") returns (" ++ streamWord method.serverStreaming ++
    scope.reference method.outputType ++ ")"

/-- The block of the HTTP rule of a method. -/
def ruleBlock (fullName : String) (rule? : Option Http.Rule) : Except Error (List Item) :=
  match rule? with
  | none => .ok []
  | some rule => do
    return [.block "option (google.api.http) =" (← ruleItems fullName rule) ";"]

/-- A method of a service with the scope `scope`; `serviceName` is the full name of the service. -/
def methodItem (serviceName : String) (scope : Scope) (method : Method) : Except Error Item := do
  requireName .method method.name
  let fullName := Name.join serviceName method.name
  let head := signature (scope.nested method.name) method
  let options := optionLines (standardOptions method.options?)
  let rule ← ruleBlock fullName (← Http.ruleOf fullName method)
  let items := options ++ rule
  return if items.isEmpty then .line (head ++ " \x7b\x7d") else .block head items ""

/-- The block of a service with the full name `fullName`. -/
def serviceBlock (scope : Scope) (fullName : String) (service : Service) : Except Error Item := do
  requireName .service service.name
  let methods ← service.methods.mapM (methodItem fullName (scope.nested service.name))
  return .block ("service " ++ service.name)
    (optionLines (standardOptions service.options?) ++ methods) ""

/-- The first line of every printed file. -/
def generatedHeader : String := "// Code generated by proto-renderer. DO NOT EDIT."

/-- The word before an import; public wins over weak. -/
def importWord (file : File) (index : Nat) : String :=
  if file.publicImports.contains (index : Int) then "public "
  else if file.weakImports.contains (index : Int) then "weak "
  else ""

def importLines (file : File) : List Item :=
  file.imports.mapIdx fun index name =>
    .line ("import " ++ importWord file index ++ quote name ++ ";")

/-- A blank line and the items, if there are any. -/
def paragraph (items : List Item) : List Item :=
  if items.isEmpty then [] else .blank :: items

def headItems (file : File) : List Item :=
  [.line generatedHeader, .line ("// source: " ++ file.name), .blank,
    .line "syntax = \"proto3\";"] ++
    paragraph (importLines file) ++
    paragraph (if file.package.isEmpty then [] else [.line ("package " ++ file.package ++ ";")]) ++
    paragraph (optionLines (standardOptions file.options?))

/-- The items of a file of `pool`. -/
def fileItems (pool : Pool) (file : File) : Except Error (List Item) := do
  let scope := Scope.ofPackage pool.files file.package
  let services ← (pool.services file).mapM fun found => do
    let entry ← found
    serviceBlock scope entry.1 entry.2
  let messages ← messageBlocks false scope file.messages
  let enums ← file.enums.mapM enumBlock
  return headItems file ++ spaced services ++ spaced messages ++ spaced enums

/-- The source text of a file of `pool`, indented by `width` spaces a level. -/
def printFile (width : Nat) (pool : Pool) (file : File) : Except Error String := do
  return Item.render width (← fileItems pool file)

end ProtoSource.Render
