import ProtoSource.Pool.Symbol

/-!
# References

A reference names a message or an enum from where it stands. It must lead to a symbol that is
visible: entered by the file itself, by a file it imports, or by a file that is passed on to it.
-/

namespace ProtoSource.Pool

open ProtoSource.Descriptor
open ProtoSource.Text

/-- The files that the file named `name` passes on to those who import it: its imports at public
positions. -/
def publicImports (files : List File) (name : String) : List String :=
  match files.find? (·.name == name) with
  | none => []
  | some file =>
    file.imports.zipIdx.filterMap fun (passed, index) =>
      if file.publicImports.contains (index : Int) then some passed else none

/-- Adds what `file` passes on to the visible files. What a passed-on file passes on in turn is
added only if that file was visible already. Public imports are followed at most as deep as the
first argument says. -/
def visit (files : List File) : Nat → List String → String → List String
  | 0, visible, _ => visible
  | depth + 1, visible, file =>
    (publicImports files file).foldl
      (fun visible passed =>
        if visible.contains passed then visit files depth visible passed else passed :: visible)
      visible

/-- The number of files that pass something on. Public imports have no cycles, so no chain of them
is longer. -/
def passingCount (files : List File) : Nat :=
  files.countP fun file => !file.publicImports.isEmpty

/-- The names of the files whose symbols `file` can refer to. -/
def visibleFrom (files : List File) (file : File) : List String :=
  file.imports.foldl
    (fun visible name => visit files (passingCount files) (name :: visible) name)
    [file.name]

/-- What references of a file are looked up in. -/
structure Outlook where
  table : SymbolTable
  visible : List String

/-- What a look-up of one full name comes to. -/
inductive Outcome where
  | found (symbol : Symbol)
  | missing
  /-- the symbol exists in a file that is not visible -/
  | hidden
  /-- the symbol is of another kind than wanted -/
  | mismatched
  deriving DecidableEq, Repr

/-- What a reference may lead to. -/
inductive Wanted where
  | message
  | messageOrEnum
  deriving DecidableEq, Repr

def Wanted.admits : Wanted → SymbolKind → Bool
  | .message, kind => kind == .message
  | .messageOrEnum, kind => kind.isType

def Wanted.fault (wanted : Wanted) (name : String) : Fault :=
  match wanted with
  | .message => .notMessage name
  | .messageOrEnum => .notMessageOrEnum name

namespace Outlook

def lookUp (outlook : Outlook) (wanted : Wanted) (name : String) : Outcome :=
  match outlook.table.find? name with
  | none => .missing
  | some symbol =>
    if !outlook.visible.contains symbol.file then .hidden
    else if wanted.admits symbol.kind then .found symbol
    else .mismatched

/-- The symbol that full name `name` leads to; `absent` is the fault when there is none. -/
def settle (outlook : Outlook) (wanted : Wanted) (name : String) (absent : Fault) :
    Except Fault Symbol :=
  match outlook.lookUp wanted name with
  | .found symbol => .ok symbol
  | .missing => .error absent
  | .hidden => .error (.undefined name)
  | .mismatched => .error (wanted.fault name)

/-- Tries full names in order: the first that is found, else the first that is hidden or of another
kind decides. -/
def firstOf (outlook : Outlook) (wanted : Wanted) (absent : Fault) (names : List String) :
    Except Fault Symbol :=
  let isFound (name : String) : Bool :=
    match outlook.lookUp wanted name with
    | .found _ => true
    | _ => false
  match names.find? isFound with
  | some name => outlook.settle wanted name absent
  | none =>
    match names.find? fun name => outlook.lookUp wanted name != .missing with
    | some name => outlook.settle wanted name absent
    | none => .error absent

/-- Whether `name` is entered as something that can hold declarations. -/
def isAggregate (outlook : Outlook) (name : String) : Bool :=
  match outlook.table.find? name with
  | some symbol => symbol.kind.isAggregate
  | none => false

/-- Resolves `name` as written in `scope`. A name of several components is looked up in the
innermost scope that holds its first. -/
def resolve (outlook : Outlook) (wanted : Wanted) (scope name : String) : Except Fault Symbol :=
  match Name.absolute? name with
  | some fullName => outlook.settle wanted fullName (.undefined name)
  | none =>
    if scope.isEmpty then
      outlook.settle wanted name (.undefined name)
    else
      match Name.splitFirst name with
      | (_, none) =>
        outlook.firstOf wanted (.undefined name)
          ((Name.enclosing scope).map fun outer => Name.join outer name)
      | (first, some _) =>
        match (Name.enclosing scope).find? fun outer =>
            outlook.isAggregate (Name.join outer first) with
        | some outer =>
          outlook.settle wanted (Name.join outer name)
            (.undefinedBelow name (Name.join outer name))
        | none => .error (.undefined name)

end Outlook

end ProtoSource.Pool
