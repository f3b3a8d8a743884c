/-!
# Why a pool is refused

A set of files makes a pool when its names are unique, its references resolve and its numbers and
options are valid. The first violation is the fault.
-/

namespace ProtoSource.Pool

inductive Fault where
  /-- a file is present twice -/
  | repeatedFile (file : String)
  /-- a name is already taken in the same file -/
  | definedTwice (name : String)
  /-- a name is already taken in another file -/
  | definedElsewhere (name file : String)
  /-- two fields differ only in case and underscores -/
  | closeFieldNames (earlier later : String)
  | emptyEnum
  /-- an open enum does not start at zero -/
  | nonzeroFirstValue
  | missingImport (file : String)
  | importIndex
  | fieldNumber (number : Int)
  | reservedFieldNumber (number start last : Int)
  | extensionFieldNumber (number start last : Int)
  | notExtensionNumber (message : String) (number : Int)
  /-- a field has no type name where it needs one; the path leads to it -/
  | missingTypeName (path : List Nat)
  | defaultValue (value type : String)
  | oneofIndex
  | usedFieldNumber (number : Int)
  | usedJsonName (name : String)
  | reservedEnumNumber (number start last : Int)
  | usedEnumNumber (number : Int)
  | undefined (name : String)
  /-- the first component of a name decides where the rest is looked up, and it is not there -/
  | undefinedBelow (name found : String)
  | notMessage (name : String)
  | notMessageOrEnum (name : String)
  /-- the set or the options of a declaration cannot be decoded -/
  | undecodable
  deriving DecidableEq, Repr

namespace Fault

def quoted (text : String) : String :=
  "'" ++ text ++ "'"

def quotedRange (start last : Int) : String :=
  quoted (toString start ++ " to " ++ toString last)

/-- A path as a bracketed list. -/
def pathText (path : List Nat) : String :=
  "[" ++ String.intercalate ", " (path.map toString) ++ "]"

def message : Fault → String
  | .repeatedFile file => "a different file named " ++ quoted file ++ " has already been added"
  | .definedTwice name => "name " ++ quoted name ++ " is defined twice"
  | .definedElsewhere name file =>
    "name " ++ quoted name ++ " is already defined in file " ++ quoted file
  | .closeFieldNames earlier later =>
    "camel-case name of field " ++ quoted earlier ++ " conflicts with field " ++ quoted later
  | .emptyEnum => "enums must have at least one value"
  | .nonzeroFirstValue => "the first value for proto3 enums must be 0"
  | .missingImport file => "imported file " ++ quoted file ++ " has not been added"
  | .importIndex => "invalid import index"
  | .fieldNumber number => "invalid field number " ++ quoted (toString number)
  | .reservedFieldNumber number start last =>
    "field number " ++ quoted (toString number) ++ " conflicts with reserved range " ++
      quotedRange start last
  | .extensionFieldNumber number start last =>
    "field number " ++ quoted (toString number) ++ " conflicts with extension range " ++
      quotedRange start last
  | .notExtensionNumber name number =>
    "message " ++ quoted name ++ " does not define " ++ quoted (toString number) ++
      " as an extension number"
  | .missingTypeName path => "missing required field at " ++ pathText path
  | .defaultValue value type =>
    "invalid default value " ++ quoted value ++ " for type " ++ quoted type
  | .oneofIndex => "invalid oneof index"
  | .usedFieldNumber number => "field number " ++ quoted (toString number) ++ " is already used"
  | .usedJsonName name => "a field with JSON name " ++ quoted name ++ " is already defined"
  | .reservedEnumNumber number start last =>
    "enum number " ++ quoted (toString number) ++ " conflicts with reserved range " ++
      quotedRange start last
  | .usedEnumNumber number =>
    "enum number " ++ quoted (toString number) ++ " has already been used"
  | .undefined name => "name " ++ quoted name ++ " is not defined"
  | .undefinedBelow name found =>
    quoted name ++ " resolves to " ++ quoted found ++ ", which is not defined"
  | .notMessage name => quoted name ++ " is not a message type"
  | .notMessageOrEnum name => quoted name ++ " is not a message or enum type"
  | .undecodable => "failed to decode file descriptor set"

end Fault

end ProtoSource.Pool
