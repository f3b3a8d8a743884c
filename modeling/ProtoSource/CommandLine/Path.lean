/-!
# Paths

A path is a text of names between slashes. A slash at its start makes it begin at the root, and one
at its end asks for a directory.
-/

namespace ProtoSource.CommandLine

/-- A path by its parts. Empty names are left out; `.` and `..` are names. -/
structure Path where
  /-- it begins at the root -/
  isAbsolute : Bool
  names : List String
  /-- it ends in a slash -/
  endsInSlash : Bool
  deriving DecidableEq, Repr

/-- The texts between slashes. -/
def components : List Char → List String
  | [] => [""]
  | char :: rest =>
    if char = '/' then
      "" :: components rest
    else
      match components rest with
      | [] => [String.singleton char]
      | first :: others => (String.singleton char ++ first) :: others

def Path.ofText (text : String) : Path where
  isAbsolute := text.toList.head? == some '/'
  names := (components text.toList).filter (· != "")
  endsInSlash := text.toList.getLast? == some '/'

/-- Drops slashes and components that stay in place from the end of a reversed path. -/
def trimEnd : List Char → List Char
  | '/' :: rest => trimEnd rest
  | '.' :: '/' :: rest => trimEnd ('/' :: rest)
  | text => text

/-- The path of the directory that holds `path`; empty for a lone name. -/
def parentPath (path : String) : String :=
  String.ofList (trimEnd ((trimEnd path.toList.reverse).dropWhile (· != '/'))).reverse

end ProtoSource.CommandLine
