import ProtoSource.CommandLine.Arguments
import ProtoSource.CommandLine.Files
import ProtoSource.Render.Basic
import ProtoSource.Summary.Text

/-!
# Running a command

`render` prints the source text of a set, or writes it to a file; `inspect` prints a summary. The
result goes to the standard output, everything else to the error stream. Text is rendered before
anything is made or written, so only a write that breaks off leaves a part of it behind.
-/

namespace ProtoSource.CommandLine

open ProtoSource.Wire

/-- Why a command failed: what it was doing, and the causes from the outermost inward. -/
structure Failure where
  code : Nat := 1
  context : String
  causes : List String

/-- Continues the lines of `text` after the first with an indentation. -/
def indentLines (indentation : String) (text : String) : String :=
  String.ofList (text.toList.flatMap fun char =>
    if char = '\n' then '\n' :: indentation.toList else [char])

/-- A single cause is indented; several are numbered. -/
def causeLines : List String → List String
  | [cause] => ["    " ++ indentLines "    " cause]
  | causes =>
    causes.mapIdx fun index cause =>
      "    " ++ toString index ++ ": " ++ indentLines "       " cause

def Failure.notes (failure : Failure) : String :=
  "Error: " ++ failure.context ++ "\n\nCaused by:\n" ++
    String.join ((causeLines failure.causes).map (· ++ "\n"))

/-- The code of a run that ends in a panic, which no command can report. -/
def abortCode : Nat := 101

def exitCode : Error → Nat
  | .panicked _ => abortCode
  | _ => 1

def Failure.ofError (context : String) (error : Error) : Failure :=
  ⟨exitCode error, context, [error.message]⟩

def Failure.ofFile (context : String) (fault : FileFault) : Failure :=
  { context, causes := [fault.message] }

/-- It is a panic if a message cannot be printed. -/
def Failure.ofStream (name : String) (fault : FileFault) : Failure :=
  ⟨abortCode, "failed printing to " ++ name, [fault.message]⟩

/-! ## Commands -/

variable {m : Type → Type} [Monad m]

/-- An operation whose faults are failures. -/
def orFail {α : Type} (failure : FileFault → Failure) (operation : m (Except FileFault α)) :
    ExceptT Failure m α :=
  ExceptT.mk do return (← operation).mapError failure

/-- Writes a message to the error stream. -/
def note (files : FileAccess m) (text : String) : ExceptT Failure m Unit :=
  orFail (.ofStream "stderr") (files.note (utf8 text))

/-- Makes the directory for a file that is to be written. -/
def makeParent (files : FileAccess m) (path : String) : ExceptT Failure m Unit := do
  let parent := parentPath path
  if !parent.isEmpty then
    orFail (.ofFile ("Failed to create " ++ parent)) (files.makeDirectories parent)

/-- Delivers rendered text: to a file, with a note, or else as output. -/
def deliver (files : FileAccess m) (output? : Option String) (content : Bytes) :
    ExceptT Failure m Unit :=
  match output? with
  | none => do
    orFail (.ofFile "Failed to write to stdout") (files.print content)
    orFail (.ofFile "Failed to flush stdout") files.flush
  | some path => do
    makeParent files path
    orFail (.ofFile ("Failed to write " ++ path)) (files.write path content)
    note files ("✓ Wrote " ++ path ++ " (" ++ toString content.length ++ " bytes)\n")

def render (files : FileAccess m) (input : String) (output? : Option String)
    (settings : Settings) : ExceptT Failure m Unit := do
  note files ("→ Rendering: " ++ input ++ "\n")
  let bytes ← orFail (.ofFile ("Failed to read descriptor set " ++ input)) (files.read input)
  match Render.render settings bytes with
  | .error error => throw (.ofError "Failed to render FileDescriptorSet" error)
  | .ok source => deliver files output? (utf8 source)

def inspect (files : FileAccess m) (verbose : Bool) (input : String) (synthesize json : Bool) :
    ExceptT Failure m Unit := do
  let loading := "Failed to load FileDescriptorSet " ++ input
  let unread (fault : FileFault) : Failure :=
    { context := loading, causes := ["IO error: " ++ fault.message, fault.message] }
  let bytes ← orFail unread (files.read input)
  match Load.load synthesize bytes with
  | .error error => throw (.ofError loading error)
  | .ok loaded =>
    match Summary.ofLoaded loaded with
    | .error error => throw (.ofError "Failed to summarize FileDescriptorSet" error)
    | .ok summary =>
      let text := if json then summary.json else summary.listing verbose
      orFail (.ofStream "stdout") (files.print (utf8 text))

def execute (files : FileAccess m) (verbose : Bool) : Command → ExceptT Failure m Unit
  | .render input output? settings => render files input output? settings
  | .inspect input synthesize json => inspect files verbose input synthesize json

def versionText : String := "proto-renderer 0.1.0\n"

def usageText : String :=
  "usage: proto-renderer [-v] render -i FILE [-o FILE] [-s STRATEGY] [--indent N]\n" ++
    "       proto-renderer [-v] inspect -i FILE [--synthesize] [--json]\n"

/-- Does what `arguments` ask for, and gives the exit code. Nobody minds if the last words of a
program cannot be printed. -/
def perform (files : FileAccess m) (arguments : List String) : m Nat := do
  match request? arguments with
  | none =>
    let _ ← files.note (utf8 usageText)
    return 2
  | some .version =>
    let _ ← files.print (utf8 versionText)
    return 0
  | some (.run verbose command) =>
    match ← (execute files verbose command).run with
    | .ok () => return 0
    | .error failure =>
      let _ ← files.note (utf8 failure.notes)
      return failure.code

/-- How a run ended, and what is on the streams then. -/
structure Report where
  code : Nat
  output : String := ""
  notes : String := ""
  deriving DecidableEq, Repr

/-- Does what `arguments` ask for on a tree of files, and reports it. -/
def run (files : FileAccess (StateM Machine)) (arguments : List String)
    (output notes : Stream := {}) : StateM FileTree Report := fun tree =>
  let (code, machine) := (perform files arguments).run ⟨tree, output, notes⟩
  ({ code, output := machine.output.text, notes := machine.notes.text }, machine.files)

end ProtoSource.CommandLine
