import ProtoSource.Descriptor.Basic
import ProtoSource.Pool.Fault
import ProtoSource.Text.Name

/-!
# Symbols

Every declaration of a set enters its full name once; a package may be entered again by other
files. The table of symbols says for each name what it names and which file entered it first.
-/

namespace ProtoSource.Pool

open ProtoSource.Descriptor
open ProtoSource.Text

/-- The versions of the language. -/
inductive Dialect where
  | proto2
  | proto3
  deriving DecidableEq, Repr

/-- The dialect of a file; without one it is the first. -/
def dialect? (file : File) : Option Dialect :=
  match file.dialect? with
  | none => some .proto2
  | some word =>
    if word = "proto2" then some .proto2
    else if word = "proto3" then some .proto3
    else none

inductive SymbolKind where
  | package
  | message
  | enumeration
  | service
  /-- a field, oneof, enum value, method or extension -/
  | member
  deriving DecidableEq, Repr

namespace SymbolKind

/-- Names of such things can be the first component of a longer name. -/
def isAggregate : SymbolKind → Bool
  | .member => false
  | _ => true

def isType : SymbolKind → Bool
  | .message => true
  | .enumeration => true
  | _ => false

end SymbolKind

structure Symbol where
  name : String
  kind : SymbolKind
  /-- the file that entered the name first -/
  file : String
  deriving DecidableEq, Repr

abbrev SymbolTable := List Symbol

namespace SymbolTable

def find? (table : SymbolTable) (name : String) : Option Symbol :=
  List.find? (·.name == name) table

/-- Enters a name for `file`. -/
def enter (table : SymbolTable) (file name : String) (kind : SymbolKind) :
    Except Fault SymbolTable :=
  match table.find? name with
  | none => .ok (⟨name, kind, file⟩ :: table)
  | some holder =>
    if kind = .package ∧ holder.kind = .package then
      .ok table
    else if holder.file = file then
      .error (.definedTwice name)
    else
      .error (.definedElsewhere name holder.file)

end SymbolTable

/-- What entering the names of a file comes down to, step by step. -/
inductive Step where
  | enter (name : String) (kind : SymbolKind)
  | refuse (fault : Fault)

namespace Step

def run (file : String) (table : SymbolTable) : Step → Except Fault SymbolTable
  | .enter name kind => table.enter file name kind
  | .refuse fault => .error fault

/-- Members of a declaration with the full name `scope`. -/
def members (scope : String) (names : List String) : List Step :=
  names.map fun name => .enter (Name.join scope name) .member

/-- The first name, each paired with its folded form, that folds to the same as one before it. -/
def closeNames? : List (String × String) → List (String × String) → Option Fault
  | _, [] => none
  | earlier, (folded, name) :: rest =>
    match earlier.lookup folded with
    | some other => some (.closeFieldNames other name)
    | none => closeNames? ((folded, name) :: earlier) rest

/-- In the first dialect field names may be close to each other. -/
def closeNames (dialect : Dialect) (names : List String) : List Step :=
  match dialect with
  | .proto2 => []
  | .proto3 =>
    (closeNames? [] (names.map fun name => (Name.folded name, name))).toList.map .refuse

def ofEnum (dialect : Dialect) (scope : String) (enumeration : Enumeration) : List Step :=
  [.enter (Name.join scope enumeration.name) .enumeration] ++
    (match enumeration.values with
      | [] => [.refuse .emptyEnum]
      | first :: _ =>
        if dialect ≠ .proto2 ∧ first.number ≠ 0 then [.refuse .nonzeroFirstValue] else []) ++
    members scope (enumeration.values.map EnumValue.name)

/-- The names of a message up to its nested messages. -/
def ofFields (dialect : Dialect) (fullName : String) (body : MessageBody) : List Step :=
  let names := body.fields.map Field.name
  [.enter fullName .message] ++
    closeNames dialect names ++
    members fullName (body.oneofs.map Oneof.name) ++
    members fullName names

mutual

/-- The names of a message declared in `scope` and of all that it holds. -/
def ofMessage (dialect : Dialect) (scope : String) : Message → List Step
  | .mk body nested =>
    let fullName := Name.join scope body.name
    ofFields dialect fullName body ++
      ofMessages dialect fullName nested ++
      body.enums.flatMap (ofEnum dialect fullName) ++
      members fullName (body.extensions.map Field.name)

def ofMessages (dialect : Dialect) (scope : String) : List Message → List Step
  | [] => []
  | message :: rest => ofMessage dialect scope message ++ ofMessages dialect scope rest

end

def ofService (scope : String) (service : Service) : List Step :=
  let fullName := Name.join scope service.name
  .enter fullName .service :: members fullName (service.methods.map Method.name)

def ofFile (dialect : Dialect) (file : File) : List Step :=
  (Name.packages file.package).map (.enter · .package) ++
    ofMessages dialect file.package file.messages ++
    file.enums.flatMap (ofEnum dialect file.package) ++
    file.services.flatMap (ofService file.package) ++
    members file.package (file.extensions.map Field.name)

end Step

namespace SymbolTable

/-- Enters the names of `files`; `seen` are the names of the files before them. -/
def enterFiles : SymbolTable → List String → List (Dialect × File) → Except Fault SymbolTable
  | table, _, [] => .ok table
  | table, seen, (dialect, file) :: rest =>
    if seen.contains file.name then
      .error (.repeatedFile file.name)
    else do
      let next ← (Step.ofFile dialect file).foldlM (Step.run file.name) table
      enterFiles next (file.name :: seen) rest

/-- The symbols of a set of files. -/
def ofFiles (files : List (Dialect × File)) : Except Fault SymbolTable :=
  enterFiles [] [] files

end SymbolTable

end ProtoSource.Pool
