import ProtoSource.Error
import ProtoSource.Pool.Options
import ProtoSource.Pool.Resolve

/-!
# Pools

A pool is a set of files that fit together: all names are unique, all references resolved and all
options readable.
-/

namespace ProtoSource

open ProtoSource.Descriptor
open ProtoSource.Text

/-- Files that have been checked and resolved, and the messages that they describe, by which their
options were read. -/
structure Pool where
  files : List File
  table : Pool.MessageTable

namespace Pool

/-- The checks of a pool in their order: names, references, options. -/
def ofDialects (files : List (Dialect × File)) : Except Fault Pool := do
  let symbols ← SymbolTable.ofFiles files
  let resolved ← resolveFiles symbols (files.map Prod.snd)
  let table := messageTable ((files.map Prod.fst).zip resolved)
  return ⟨← resolved.mapM (recodeFile table), table⟩

/-- Each file with its dialect, or the first word that is no dialect. -/
def dialects : List File → Except String (List (Dialect × File))
  | [] => .ok []
  | file :: rest =>
    match dialect? file with
    | none => .error (file.dialect?.getD "")
    | some dialect => (dialects rest).map ((dialect, file) :: ·)

def file? (pool : Pool) (name : String) : Option File :=
  pool.files.find? (·.name == name)

/-- What full names lead to among all declarations of a kind. One leading dot of a name does not
count, so a name that starts with a dot leads to its bare form; it is a panic if that is not
declared. -/
def lookUp {α : Type} (all : List (String × α)) (names : List String) :
    List (Except Error (String × α)) :=
  names.map fun name =>
    match all.lookup (Name.bare name) with
    | some found => .ok (Name.bare name, found)
    | none => .error (.panicked (.undeclared (Name.bare name)))

/-- The services of a file of the pool with their full names. -/
def services (pool : Pool) (file : File) : List (Except Error (String × Service)) :=
  lookUp (pool.files.flatMap servicesOf)
    (file.services.map fun service => Name.join file.package service.name)

/-- The top-level messages of a file of the pool with their full names. -/
def messages (pool : Pool) (file : File) : List (Except Error (String × Message)) :=
  lookUp (pool.files.flatMap messagesOf)
    (file.messages.map fun message => Name.join file.package message.name)

/-- The top-level enums of a file of the pool with their full names. -/
def enums (pool : Pool) (file : File) : List (Except Error (String × Enumeration)) :=
  lookUp (pool.files.flatMap enumsOf)
    (file.enums.map fun enumeration => Name.join file.package enumeration.name)

end Pool

end ProtoSource
