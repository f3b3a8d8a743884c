import ProtoSource.Pool.Basic

/-!
# Scopes and short references

A reference is written as short as it can be without leading elsewhere: relative to the package,
else without its leading dot, else in full. A spelling leads to what its first component is found
as, searched from the innermost scope outward; a lone name must be a message or an enum, a longer
one goes on from the first package, service, message or enum of that name.
-/

namespace ProtoSource.Render

open ProtoSource.Descriptor
open ProtoSource.Pool
open ProtoSource.Text

/-- What a full name stands for among `files`, as far as look-up cares. Declarations are looked up
by absolute names too, so one leading dot does not count for them. -/
def symbolKind? (files : List File) (name : String) : Option SymbolKind :=
  let declared := Name.bare name
  if files.any fun file => (messagesOf file).any (·.1 == declared) then some .message
  else if files.any fun file => (enumsOf file).any (·.1 == declared) then some .enumeration
  else if files.any fun file => (servicesOf file).any (·.1 == declared) then some .service
  else if files.any fun file => Name.isPackageAround file.package name then some .package
  else none

/-- Where a reference is written: inside `name`, in a file of `package`, among `files`. -/
structure Scope where
  files : List File
  package : String
  name : String

namespace Scope

/-- The scope of a file of `package`. -/
def ofPackage (files : List File) (package : String) : Scope :=
  ⟨files, package, package⟩

/-- The scope of a declaration in this one. -/
def nested (scope : Scope) (name : String) : Scope :=
  { scope with name := Name.join scope.name name }

/-- What a name comes to whose first component is searched in `outer`. -/
def candidate? (files : List File) (first : String) (rest : Option String) (outer : String) :
    Option String :=
  let fullName := Name.join outer first
  match symbolKind? files fullName, rest with
  | some kind, none => if kind.isType then some fullName else none
  | some _, some rest => some (Name.join fullName rest)
  | none, _ => none

/-- The full name that `name` leads to when written here. -/
def resolve (scope : Scope) (name : String) : Option String :=
  let (first, rest) := Name.splitFirst name
  (Name.enclosing scope.name).findSome? (candidate? scope.files first rest)

/-- The spellings of a full name to choose from, the shortest first. -/
def spellings (scope : Scope) (fullName : String) : List String :=
  let relative := if scope.package.isEmpty then none else Name.below? scope.package fullName
  relative.toList ++ [fullName]

/-- The shortest spelling of a type name with a leading dot that leads back to it. Other type names
are written as they are. -/
def reference (scope : Scope) (typeName : String) : String :=
  match Name.absolute? typeName with
  | none => typeName
  | some fullName =>
    ((scope.spellings fullName).find? fun spelling =>
      scope.resolve spelling == some fullName).getD typeName

end Scope

end ProtoSource.Render
