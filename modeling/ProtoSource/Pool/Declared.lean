import ProtoSource.Descriptor.Basic
import ProtoSource.Text.Name

/-!
# Declarations by full name

The messages, enums and services of files with their full names, at any depth of nesting.
-/

namespace ProtoSource.Pool

open ProtoSource.Descriptor
open ProtoSource.Text

mutual

/-- A message declared in `scope` and the messages nested in it, each with its full name. -/
def messageIn (scope : String) : Message → List (String × Message)
  | .mk body nested =>
    let fullName := Name.join scope body.name
    (fullName, .mk body nested) :: messagesIn fullName nested

def messagesIn (scope : String) : List Message → List (String × Message)
  | [] => []
  | message :: rest => messageIn scope message ++ messagesIn scope rest

end

def messagesOf (file : File) : List (String × Message) :=
  messagesIn file.package file.messages

/-- Enums declared in `scope`, each with its full name. -/
def enumsIn (scope : String) (enums : List Enumeration) : List (String × Enumeration) :=
  enums.map fun enumeration => (Name.join scope enumeration.name, enumeration)

def enumsOf (file : File) : List (String × Enumeration) :=
  enumsIn file.package file.enums ++
    (messagesOf file).flatMap fun entry => enumsIn entry.1 entry.2.body.enums

def servicesOf (file : File) : List (String × Service) :=
  file.services.map fun service => (Name.join file.package service.name, service)

mutual

/-- The extensions declared in a message: those of the messages nested in it, then its own. -/
def extensionsIn : Message → List Field
  | .mk body nested => extensionsInAll nested ++ body.extensions

def extensionsInAll : List Message → List Field
  | [] => []
  | message :: rest => extensionsIn message ++ extensionsInAll rest

end

/-- The extensions declared in a file: those of its messages, then its own. -/
def extensionsOf (file : File) : List Field :=
  extensionsInAll file.messages ++ file.extensions

end ProtoSource.Pool
