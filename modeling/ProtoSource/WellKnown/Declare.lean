import ProtoSource.Descriptor.Basic
import ProtoSource.Text.Name

/-!
# Declarations in code

Short forms for the declarations of the well-known files. Fields carry the JSON name that follows
from their name.
-/

namespace ProtoSource.WellKnown

open ProtoSource.Descriptor
open ProtoSource.Text

/-- A field whose type has a keyword. -/
def plain (label : Label) (name : String) (number : Int) (type : FieldType) : Field where
  name? := some name
  number? := some number
  labelCode? := some label.code
  typeCode? := some type.code
  jsonName? := some (Name.lowerCamel name)

/-- A field whose type has a name. -/
def named (label : Label) (name : String) (number : Int) (type : FieldType)
    (typeName : String) : Field :=
  { plain label name number type with typeName? := some typeName }

def enumeration (name : String) (values : List (String × Int)) : Enumeration where
  name? := some name
  values := values.map fun value => { name? := some value.1, number? := some value.2 }

/-- The numbers from `start` to before `stop`. -/
def range (start stop : Int) : Range where
  start? := some start
  stop? := some stop

def extensionRange (start stop : Int) : ExtensionRange where
  range := range start stop

end ProtoSource.WellKnown
