import ProtoSource.Pool.Fault
import ProtoSource.Wire.Fault

/-!
# Errors

Why a descriptor set cannot be loaded or a file cannot be printed, and the words for it.
-/

namespace ProtoSource

/-- Declarations that cannot be printed without a name. -/
inductive Nameable where
  | service
  | method
  | message
  | oneof
  | field
  | enumeration
  | enumValue
  deriving DecidableEq, Repr

def Nameable.word : Nameable → String
  | .service => "service"
  | .method => "method"
  | .message => "message"
  | .oneof => "oneof"
  | .field => "field"
  | .enumeration => "enum"
  | .enumValue => "enum value"

/-- What makes a file impossible to print. -/
inductive Flaw where
  | emptyName (what : Nameable)
  | missingOneof (field message : String) (index : Int)
  | missingEntryField (entry : String) (number : Int)
  | untypedField (field : String)
  /-- anything a printer of the caller's own reports -/
  | reported (text : String)
  deriving DecidableEq, Repr

def Flaw.message : Flaw → String
  | .emptyName what => what.word ++ " with empty name"
  | .missingOneof field owner index =>
    "field " ++ field ++ " of " ++ owner ++ " refers to missing oneof " ++ toString index
  | .missingEntryField entry number =>
    "map entry " ++ entry ++ " has no field " ++ toString number
  | .untypedField field => "field " ++ field ++ " has neither a scalar type nor a type name"
  | .reported text => text

/-- Why a program stops where it has no error to report. -/
inductive Panic where
  /-- a file is written in a dialect that nobody knows -/
  | unknownDialect (word : String)
  /-- a declaration was looked up by its full name, but nothing of its kind has that name -/
  | undeclared (name : String)
  /-- a difference is not a 32-bit integer -/
  | overflow
  deriving DecidableEq, Repr

def Panic.message : Panic → String
  | .unknownDialect word => "unknown syntax '" ++ word ++ "'"
  | .undeclared name => "nothing is declared as " ++ name
  | .overflow => "attempt to subtract with overflow"

inductive Error where
  /-- the bytes are no descriptor set -/
  | undecodable (fault : Wire.Fault)
  /-- the files do not make a pool -/
  | refused (fault : Pool.Fault)
  | panicked (panic : Panic)
  | missingFile (name : String)
  /-- the set has no files -/
  | noFiles
  /-- an HTTP rule cannot be decoded; the method it belongs to may be known -/
  | httpRule (method? : Option String) (fault : Wire.Fault)
  /-- an HTTP rule has no pattern -/
  | unsetHttpRule (method : String)
  | flawed (flaw : Flaw)
  deriving DecidableEq, Repr

namespace Error

/-- Panics of every kind are answered as one on an unknown dialect is. -/
@[match_pattern]
abbrev unknownDialect (panic : Panic) : Error :=
  .panicked panic

def message : Error → String
  | .undecodable fault =>
    "Descriptor error: Failed to decode FileDescriptorSet: " ++ fault.message
  | .refused fault => "Descriptor error: Failed to create DescriptorPool: " ++ fault.message
  | .panicked panic => "Descriptor error: " ++ panic.message
  | .missingFile name => "Descriptor error: File " ++ name ++ " not found in pool"
  | .noFiles => "FileDescriptorSet contains no files"
  | .httpRule method? fault =>
    "Extension decode error: " ++ String.join (method?.toList.map (· ++ ": ")) ++ fault.message
  | .unsetHttpRule method => "HTTP rule on method " ++ method ++ " has no pattern set"
  | .flawed flaw => "Schema integrity error: " ++ flaw.message

end Error

end ProtoSource
