import ProtoSource.CommandLine.Path
import ProtoSource.Wire.Record

/-!
# Files and streams

The operations on files and streams that commands need, and a model of a machine that provides
them. A path is followed name by name from the root of the file tree or from its working directory.
Whatever is written to may break down in the middle of a write, and then keeps what it has taken.
-/

namespace ProtoSource.CommandLine

open ProtoSource.Wire

/-- Why an operation on a file fails. -/
inductive FileFault where
  | missing
  | present
  | notDirectory
  | isDirectory
  | nameTooLong
  | other (code : Nat) (text : String)
  deriving DecidableEq, Repr

namespace FileFault

def code : FileFault → Nat
  | .missing => 2
  | .present => 17
  | .notDirectory => 20
  | .isDirectory => 21
  | .nameTooLong => 36
  | .other code _ => code

def text : FileFault → String
  | .missing => "No such file or directory"
  | .present => "File exists"
  | .notDirectory => "Not a directory"
  | .isDirectory => "Is a directory"
  | .nameTooLong => "File name too long"
  | .other _ text => text

def message (fault : FileFault) : String :=
  fault.text ++ " (os error " ++ toString fault.code ++ ")"

end FileFault

/-- Access to files and to the standard streams. -/
structure FileAccess (m : Type → Type) where
  read : String → m (Except FileFault Bytes)
  /-- makes a directory and the directories around it, as far as they are missing -/
  makeDirectories : String → m (Except FileFault Unit)
  write : String → Bytes → m (Except FileFault Unit)
  /-- writes to the standard output -/
  print : Bytes → m (Except FileFault Unit)
  /-- passes on what the standard output holds back -/
  flush : m (Except FileFault Unit)
  /-- writes to the standard error stream -/
  note : Bytes → m (Except FileFault Unit)

/-- How something that is written to breaks down. -/
structure Breakdown where
  /-- the number of bytes it still takes -/
  room : Nat
  fault : FileFault
  deriving DecidableEq, Repr

/-- What is taken of `content` up to a breakdown, and whether that is all of it. -/
def accepted (breakdown? : Option Breakdown) (content : Bytes) : Except FileFault Unit × Bytes :=
  match breakdown? with
  | none => (.ok (), content)
  | some breakdown =>
    if content.length ≤ breakdown.room then (.ok (), content)
    else (.error breakdown.fault, content.take breakdown.room)

/-- A stream that leads out of the machine. -/
structure Stream where
  /-- all that it has taken -/
  taken : Bytes := []
  breakdown? : Option Breakdown := none
  /-- why it cannot be flushed, if it cannot -/
  flushFault? : Option FileFault := none
  deriving DecidableEq, Repr

namespace Stream

def write (content : Bytes) (stream : Stream) : Except FileFault Unit × Stream :=
  let (result, part) := accepted stream.breakdown? content
  (result, { stream with
    taken := stream.taken ++ part
    breakdown? := stream.breakdown?.map fun breakdown =>
      { breakdown with room := breakdown.room - part.length } })

def flush (stream : Stream) : Except FileFault Unit :=
  match stream.flushFault? with
  | none => .ok ()
  | some fault => .error fault

/-- What the stream has taken, as text. -/
def text (stream : Stream) : String :=
  (ofUtf8? stream.taken).getD ""

end Stream

/-! ## A tree -/

/-- The longest name, in bytes. -/
def nameLimit : Nat := 255

/-- The longest path, in bytes. -/
def pathLimit : Nat := 4095

/-- A file with its content, or a directory of nodes by name. -/
inductive Node where
  | file (content : Bytes)
  | directory (entries : List (String × Node))

namespace Node

/-- What stands at the end of a list of names. -/
def at? : Node → List String → Option Node
  | node, [] => some node
  | .file _, _ :: _ => none
  | .directory entries, name :: rest => (entries.lookup name).bind fun node => at? node rest

/-- Gives `name` a node, in place of the one it has. -/
def setEntry (name : String) (node : Node) : List (String × Node) → List (String × Node)
  | [] => [(name, node)]
  | (found, old) :: rest =>
    if found = name then (name, node) :: rest else (found, old) :: setEntry name node rest

/-- Puts `new` at the end of a list of names. -/
def put (new : Node) : List String → Node → Node
  | [], _ => new
  | _ :: _, .file content => .file content
  | name :: rest, .directory entries =>
    let old := (entries.lookup name).getD (.directory [])
    .directory (setEntry name (put new rest old) entries)

mutual

/-- The files of a node by the names that lead to them. -/
def files : Node → List (List String × Bytes)
  | .file content => [([], content)]
  | .directory entries => filesOf entries

/-- The files of the entries of a directory. -/
def filesOf : List (String × Node) → List (List String × Bytes)
  | [] => []
  | (name, node) :: rest =>
    (files node).map (fun (names, content) => (name :: names, content)) ++ filesOf rest

end

end Node

/-- Files that keep nothing of what is written to them. -/
inductive Device where
  | output
  | notes
  | null
  deriving DecidableEq, Repr

/-- The devices of every machine, by the names that lead to them. -/
def standardDevices : List (List String × Device) :=
  [(["dev", "stdout"], .output), (["dev", "stderr"], .notes), (["dev", "null"], .null)]

/-- All nodes below a root, the directory where relative paths begin, the devices by the names that
lead to them, and how the disk breaks down that holds the files. -/
structure FileTree where
  root : Node := .directory []
  working : List String := []
  devices : List (List String × Device) := standardDevices
  disk? : Option Breakdown := none

/-- Where a path leads. -/
inductive Place where
  | directory
  | device (device : Device)
  | file (names : List String) (content : Bytes)
  /-- nothing is there, but the directory around it is -/
  | vacant (names : List String)

namespace FileTree

/-- The names on a way from the root, which is kept from its end. -/
def namesOf (way : List (String × Node)) : List String :=
  (way.map Prod.fst).reverse

/-- The node at the end of a way. -/
def endOf (tree : FileTree) (way : List (String × Node)) : Node :=
  (way.head?.map Prod.snd).getD tree.root

/-- Follows names from the end of a way. -/
def follow (tree : FileTree) : List (String × Node) → List String → Except FileFault Place
  | way, [] =>
    match tree.endOf way with
    | .file content => .ok (.file (namesOf way) content)
    | .directory _ => .ok .directory
  | way, name :: rest =>
    match tree.endOf way with
    | .file _ => .error .notDirectory
    | .directory entries =>
      if name = "." then tree.follow way rest
      else if name = ".." then tree.follow way.tail rest
      else if nameLimit < name.utf8ByteSize then .error .nameTooLong
      else
        match tree.devices.lookup (namesOf way ++ [name]) with
        | some device => if rest.isEmpty then .ok (.device device) else .error .notDirectory
        | none =>
          match entries.lookup name with
          | some node => tree.follow ((name, node) :: way) rest
          | none => if rest.isEmpty then .ok (.vacant (namesOf way ++ [name])) else .error .missing

/-- The parts of a path that can be followed: it is not empty and not too long. -/
def pathOf (text : String) : Except FileFault Path :=
  if text.isEmpty then .error .missing
  else if pathLimit < text.utf8ByteSize then .error .nameTooLong
  else .ok (.ofText text)

/-- Where a path leads, whatever its end asks for. -/
def place (tree : FileTree) (path : Path) : Except FileFault Place :=
  tree.follow [] (if path.isAbsolute then path.names else tree.working ++ path.names)

def put (tree : FileTree) (names : List String) (node : Node) : FileTree :=
  { tree with root := Node.put node names tree.root }

/-- The files below the working directory. -/
def files (tree : FileTree) : List (List String × Bytes) :=
  (tree.root.at? tree.working).toList.flatMap Node.files

/-- What a device can be read as. Streams are only written to. -/
def deviceContent : Device → Except FileFault Bytes
  | .null => .ok []
  | _ => .error (.other 13 "Permission denied")

def read (text : String) (tree : FileTree) : Except FileFault Bytes := do
  let path ← pathOf text
  match ← tree.place path with
  | .file _ content => if path.endsInSlash then throw .notDirectory else return content
  | .device device => if path.endsInSlash then throw .notDirectory else deviceContent device
  | .directory => throw .isDirectory
  | .vacant _ => throw .missing

/-- Makes one directory. -/
def makeDirectory (text : String) (tree : FileTree) : Except FileFault FileTree := do
  match ← tree.place (← pathOf text) with
  | .vacant names => return tree.put names (.directory [])
  | _ => throw .present

def isDirectory (tree : FileTree) (text : String) : Bool :=
  match pathOf text >>= tree.place with
  | .ok .directory => true
  | _ => false

/-- Makes a directory unless it is there already. -/
def ensureDirectory (path : String) (tree : FileTree) : Except FileFault FileTree :=
  if tree.isDirectory path then .ok tree else tree.makeDirectory path

/-- Where a path leads that is written to. If the path asks for a directory, only what is around
that counts. -/
def destination (text : String) (tree : FileTree) : Except FileFault Place := do
  let path ← pathOf text
  let around := { path with names := path.names.dropLast ++ ["."] }
  tree.place (if path.endsInSlash then around else path)

/-- Runs an operation that changes the tree if it succeeds. -/
def change (operation : FileTree → Except FileFault FileTree) :
    StateM FileTree (Except FileFault Unit) := fun tree =>
  match operation tree with
  | .ok changed => (.ok (), changed)
  | .error fault => (.error fault, tree)

/-- Makes a directory and those around it; a path has at most as many of them as characters. What
has been made stays if the rest fails. -/
def makeDirectoriesTo : Nat → String → StateM FileTree (Except FileFault Unit)
  | 0, path => change (ensureDirectory path)
  | depth + 1, path => do
    match ← change (ensureDirectory path) with
    | .error .missing =>
      match ← makeDirectoriesTo depth (parentPath path) with
      | .ok () => change (ensureDirectory path)
      | .error fault => return .error fault
    | result => return result

def makeDirectories (path : String) : StateM FileTree (Except FileFault Unit) :=
  makeDirectoriesTo path.length path

end FileTree

/-! ## A machine -/

/-- Files and the standard streams. -/
structure Machine where
  files : FileTree
  output : Stream := {}
  notes : Stream := {}

namespace Machine

/-- Passes `content` on to a device. -/
def pass (device : Device) (content : Bytes) (machine : Machine) :
    Except FileFault Unit × Machine :=
  match device with
  | .output =>
    let (result, output) := machine.output.write content
    (result, { machine with output })
  | .notes =>
    let (result, notes) := machine.notes.write content
    (result, { machine with notes })
  | .null => (.ok (), machine)

/-- Writes a file, which may replace one but no directory. It is emptied or made first, so it is
left with what the disk takes. -/
def write (path : String) (content : Bytes) (machine : Machine) :
    Except FileFault Unit × Machine :=
  match machine.files.destination path with
  | .error fault => (.error fault, machine)
  | .ok .directory => (.error .isDirectory, machine)
  | .ok (.device device) => machine.pass device content
  | .ok (.file names _) | .ok (.vacant names) =>
    let (result, part) := accepted machine.files.disk? content
    (result, { machine with files := machine.files.put names (.file part) })

/-- Runs an operation on the files. -/
def onFiles {α : Type} (operation : StateM FileTree α) : StateM Machine α := fun machine =>
  let (result, files) := operation.run machine.files
  (result, { machine with files })

end Machine

/-- Access to the files and streams of a machine. -/
def FileTree.access : FileAccess (StateM Machine) where
  read path := Machine.onFiles fun tree => (tree.read path, tree)
  makeDirectories path := Machine.onFiles (FileTree.makeDirectories path)
  write path content := Machine.write path content
  print content := Machine.pass .output content
  flush := fun machine => (machine.output.flush, machine)
  note content := Machine.pass .notes content

end ProtoSource.CommandLine
