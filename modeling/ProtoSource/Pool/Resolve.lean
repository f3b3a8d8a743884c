import ProtoSource.Pool.Declared
import ProtoSource.Pool.DefaultValue
import ProtoSource.Pool.Reference

/-!
# Resolution

Every reference of a file is replaced by the full name of what it leads to, with a leading dot, and
the type of a field by the kind of declaration found. On the way the numbers, defaults, oneofs and
JSON names of fields and the numbers of enum values are checked. Missing JSON names are filled in.
-/

namespace ProtoSource.Pool

open ProtoSource.Descriptor
open ProtoSource.Text

/-- What resolution of one file looks at. -/
structure Context where
  outlook : Outlook
  messages : List (String × Message)
  enums : List (String × Enumeration)

def refuseIf (condition : Bool) (fault : Fault) : Except Fault Unit :=
  if condition then .error fault else .ok ()

/-- Field numbers lie in these bounds, apart from a block that is never used. -/
def isFieldNumber (number : Int) : Bool :=
  1 ≤ number && number ≤ 536870911 && !(19000 ≤ number && number ≤ 19999)

/-- Whether `number` lies in a range whose end is excluded. -/
def inRange (number : Int) (range : Range) : Bool :=
  range.start ≤ number && number < range.stop

/-- Checks the number of a field of the message `owner`, or of something that says to extend it. -/
def checkNumber (ownerName : String) (owner : MessageBody) (isExtension : Bool) (number : Int) :
    Except Fault Unit := do
  refuseIf (!isFieldNumber number) (.fieldNumber number)
  match owner.reservedRanges.find? (inRange number) with
  | some range => .error (.reservedFieldNumber number range.start (range.stop - 1))
  | none =>
    match owner.extensionRanges.find? (inRange number ·.range), isExtension with
    | some found, false =>
      .error (.extensionFieldNumber number found.range.start (found.range.stop - 1))
    | none, true => .error (.notExtensionNumber ownerName number)
    | _, _ => .ok ()

/-- What the type of a field comes to. -/
inductive Target where
  | plain (type : FieldType)
  | message (name : String)
  | enumeration (name : String)

/-- The type of a field: what its type name leads to, or else its type, which must not need a name.
A field without a type counts as a double. -/
def fieldTarget (context : Context) (scope : String) (path : List Nat) (field : Field) :
    Except Fault Target :=
  if field.typeName.isEmpty then
    match field.type? with
    | none => .ok (.plain .double)
    | some type =>
      if type.keyword.isEmpty then .error (.missingTypeName (path ++ [6])) else .ok (.plain type)
  else do
    let symbol ← context.outlook.resolve .messageOrEnum scope field.typeName
    match symbol.kind with
    | .enumeration => return .enumeration symbol.name
    | _ => return .message symbol.name

/-- Checks the default value of a field. -/
def checkDefault (context : Context) (target : Target) (field : Field) : Except Fault Unit :=
  match field.defaultValue? with
  | none => .ok ()
  | some value =>
    match target with
    | .plain type => refuseIf (!DefaultValue.isValid type value) (.defaultValue value type.keyword)
    | .message _ => .error (.defaultValue value "message type")
    | .enumeration name =>
      let names := ((context.enums.lookup name).map (·.values.map EnumValue.name)).getD []
      refuseIf (!names.contains value) (.defaultValue value name)

/-- The field with its type replaced by the target. A group stays a group. -/
def withTarget (target : Target) (field : Field) : Field :=
  match target with
  | .plain _ => field
  | .message name =>
    { field with
      typeName? := some ("." ++ name)
      typeCode? :=
        if field.type? = some .group then field.typeCode? else some FieldType.message.code }
  | .enumeration name =>
    { field with
      typeName? := some ("." ++ name)
      typeCode? := some FieldType.enumeration.code }

def jsonName (field : Field) : String :=
  field.jsonName?.getD (Name.lowerCamel field.name)

/-- An index that no oneof of the message has. -/
def isOneofMissing (owner : MessageBody) (field : Field) : Bool :=
  match field.oneofIndex? with
  | none => false
  | some index => index < 0 || owner.oneofs.length ≤ index.toNat

/-- Resolves a field of `owner`; `earlier` are the resolved fields before it. -/
def resolveField (context : Context) (ownerName : String) (owner : MessageBody) (path : List Nat)
    (earlier : List Field) (field : Field) : Except Fault Field := do
  checkNumber ownerName owner field.extendee?.isSome field.number
  let target ← fieldTarget context (Name.join ownerName field.name) path field
  checkDefault context target field
  refuseIf (isOneofMissing owner field) .oneofIndex
  refuseIf (earlier.any (·.number == field.number)) (.usedFieldNumber field.number)
  refuseIf (earlier.any fun other => jsonName other == jsonName field)
    (.usedJsonName (field.jsonName?.getD ""))
  return { withTarget target field with jsonName? := some (jsonName field) }

/-- Resolves the fields of `owner` from the one at `index` on. -/
def resolveFields (context : Context) (ownerName : String) (owner : MessageBody)
    (path : List Nat) : Nat → List Field → List Field → Except Fault (List Field)
  | _, earlier, [] => .ok earlier.reverse
  | index, earlier, field :: rest => do
    let resolved ← resolveField context ownerName owner (path ++ [2, index]) earlier field
    resolveFields context ownerName owner path (index + 1) (resolved :: earlier) rest

/-- Resolves an extension declared in `scope`. One that does not say what it extends is held to the
numbers of a field. -/
def resolveExtension (context : Context) (scope : String) (path : List Nat) (field : Field) :
    Except Fault Field := do
  let fullName := Name.join scope field.name
  let extendee ← context.outlook.resolve .message fullName (field.extendee?.getD "")
  match context.messages.lookup extendee.name with
  | some message => checkNumber extendee.name message.body field.extendee?.isSome field.number
  | none => pure ()
  let target ← fieldTarget context fullName path field
  checkDefault context target field
  return { withTarget target field with extendee? := some ("." ++ extendee.name) }

/-- Resolves the extensions in field `tag` of what is declared at `path`, from `index` on. -/
def resolveExtensions (context : Context) (scope : String) (path : List Nat) (tag : Nat) :
    Nat → List Field → Except Fault (List Field)
  | _, [] => .ok []
  | index, field :: rest => do
    let resolved ← resolveExtension context scope (path ++ [tag, index]) field
    let others ← resolveExtensions context scope path tag (index + 1) rest
    return resolved :: others

/-- Checks the values of an enum; `used` are the numbers before them. -/
def checkEnumValues (enumeration : Enumeration) : List Int → List EnumValue → Except Fault Unit
  | _, [] => .ok ()
  | used, value :: rest => do
    let number := value.number
    match enumeration.reservedRanges.find? fun range =>
        decide (range.start ≤ number ∧ number ≤ range.stop) with
    | some range => .error (.reservedEnumNumber number range.start range.stop)
    | none =>
      refuseIf (!enumeration.allowsAlias && used.contains number) (.usedEnumNumber number)
      checkEnumValues enumeration (number :: used) rest

def checkEnum (enumeration : Enumeration) : Except Fault Unit :=
  checkEnumValues enumeration [] enumeration.values

mutual

/-- Resolves a message declared in `scope` at `path`. -/
def resolveMessage (context : Context) (scope : String) (path : List Nat) :
    Message → Except Fault Message
  | .mk body nested => do
    let fullName := Name.join scope body.name
    let fields ← resolveFields context fullName body path 0 [] body.fields
    let inner ← resolveMessages context fullName path 3 0 nested
    body.enums.forM checkEnum
    let extensions ← resolveExtensions context fullName path 6 0 body.extensions
    return .mk { body with fields, extensions } inner

/-- Resolves messages in field `tag` of what is declared at `path`, from `index` on. -/
def resolveMessages (context : Context) (scope : String) (path : List Nat) (tag index : Nat) :
    List Message → Except Fault (List Message)
  | [] => .ok []
  | message :: rest => do
    let resolved ← resolveMessage context scope (path ++ [tag, index]) message
    let others ← resolveMessages context scope path tag (index + 1) rest
    return resolved :: others

end

def resolveMethod (context : Context) (scope : String) (method : Method) :
    Except Fault Method := do
  let fullName := Name.join scope method.name
  let input ← context.outlook.resolve .message fullName method.inputType
  let output ← context.outlook.resolve .message fullName method.outputType
  return { method with
    inputType? := some ("." ++ input.name)
    outputType? := some ("." ++ output.name) }

def resolveService (context : Context) (scope : String) (service : Service) :
    Except Fault Service := do
  let methods ← service.methods.mapM (resolveMethod context (Name.join scope service.name))
  return { service with methods }

/-- The imports of a file are present, and indices point at imports. -/
def checkImports (files : List File) (file : File) : Except Fault Unit := do
  match file.imports.find? fun name => !files.any (·.name == name) with
  | some name => .error (.missingImport name)
  | none =>
    let isOutside (index : Int) : Bool := index < 0 || file.imports.length ≤ index.toNat
    refuseIf ((file.publicImports ++ file.weakImports).any isOutside) .importIndex

/-- Resolves one file of a set with the given symbols. -/
def resolveFile (table : SymbolTable) (files : List File) (messages : List (String × Message))
    (enums : List (String × Enumeration)) (file : File) : Except Fault File := do
  checkImports files file
  let context : Context := ⟨⟨table, visibleFrom files file⟩, messages, enums⟩
  let resolvedMessages ← resolveMessages context file.package [] 4 0 file.messages
  file.enums.forM checkEnum
  let services ← file.services.mapM (resolveService context file.package)
  let extensions ← resolveExtensions context file.package [] 7 0 file.extensions
  return { file with messages := resolvedMessages, services, extensions }

/-- Resolves all files of a set. -/
def resolveFiles (table : SymbolTable) (files : List File) : Except Fault (List File) :=
  files.mapM (resolveFile table files (files.flatMap messagesOf) (files.flatMap enumsOf))

end ProtoSource.Pool
