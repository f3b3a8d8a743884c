/-!
# Names

Declarations have dotted full names. A relative name is looked up from the scope it is written in
outward, scope by scope, to the root, whose name is empty.
-/

namespace ProtoSource.Text.Name

/-- The full name of `name` declared in `scope`. -/
def join (scope name : String) : String :=
  if scope.isEmpty then name else scope ++ "." ++ name

/-- What stands before each dot, the shortest first. -/
def stems : List Char → List (List Char)
  | [] => []
  | char :: rest =>
    if char = '.' then
      [] :: (stems rest).map (char :: ·)
    else
      (stems rest).map (char :: ·)

/-- The scope itself, the scopes around it from the inside out, and the root. -/
def enclosing (scope : String) : List String :=
  if scope.isEmpty then
    [""]
  else
    scope :: ((stems scope.toList).map String.ofList).reverse ++ [""]

/-- A package and the packages around it, the outermost first. -/
def packages (package : String) : List String :=
  if package.isEmpty then
    []
  else
    (stems package.toList).map String.ofList ++ [package]

/-- The first component, and the components after it if there are any. -/
def splitFirst (name : String) : String × Option String :=
  let first := name.toList.takeWhile (· != '.')
  match name.toList.drop first.length with
  | [] => (name, none)
  | _ :: rest => (String.ofList first, some (String.ofList rest))

/-- The last component. -/
def last (name : String) : String :=
  String.ofList (name.toList.reverse.takeWhile (· != '.')).reverse

/-- What follows the dot of an absolute name. -/
def absolute? (name : String) : Option String :=
  match name.toList with
  | '.' :: rest => some (String.ofList rest)
  | _ => none

/-- A name without the dot that makes it absolute. -/
def bare (name : String) : String :=
  (absolute? name).getD name

/-- What is left of `text` after `start`, if it starts so. -/
def rest? : List Char → List Char → Option (List Char)
  | [], text => some text
  | _ :: _, [] => none
  | expected :: start, found :: text => if found = expected then rest? start text else none

/-- The part of `name` below `package`, if it is below it. -/
def below? (package name : String) : Option String :=
  match rest? package.toList name.toList with
  | some ('.' :: rest) => some (String.ofList rest)
  | _ => none

/-- Whether `name` is `package` or a package around it. -/
def isPackageAround (package name : String) : Bool :=
  match rest? name.toList package.toList with
  | some [] => true
  | some ('.' :: _) => true
  | _ => false

/-- Drops underscores and capitalises what follows one; `capital` says that one was just dropped. -/
def camelChars : Bool → List Char → List Char
  | _, [] => []
  | capital, char :: rest =>
    if char = '_' then
      camelChars true rest
    else
      (if capital then char.toUpper else char) :: camelChars false rest

/-- The lower camel case form of a field name. -/
def lowerCamel (name : String) : String :=
  String.ofList (camelChars false name.toList)

/-- Names with the same folded form are too close for one message. -/
def folded (name : String) : String :=
  String.ofList ((name.toList.filter (· != '_')).map Char.toLower)

end ProtoSource.Text.Name
