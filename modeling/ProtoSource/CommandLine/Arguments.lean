import ProtoSource.Settings
import ProtoSource.Text.Decimal

/-!
# Arguments

What a command line asks for. Options come before or after a value of their own: as `--name value`,
`--name=value`, `-n value`, `-nvalue` or `-n=value`; short flags may be written together. No option
may be given twice in the same place, and nothing may be left over.
-/

namespace ProtoSource.CommandLine

structure OptionSpec where
  long : String
  short? : Option Char
  takesValue : Bool
  deriving DecidableEq

/-- An option that was given, by its long name, and its value if it takes one. -/
structure Given where
  name : String
  value? : Option String
  deriving DecidableEq, Repr

/-- How one argument ends. -/
inductive Ending where
  | complete
  /-- the next argument is the value of this option -/
  | needsValue (name : String)
  | malformed

/-- Reads the short options that are written together in one argument. -/
def readShort (specs : List OptionSpec) : List Char → List Given × Ending
  | [] => ([], .complete)
  | char :: rest =>
    match specs.find? (·.short? == some char) with
    | none => ([], .malformed)
    | some spec =>
      if spec.takesValue then
        match rest with
        | [] => ([], .needsValue spec.long)
        | '=' :: value => ([⟨spec.long, some (String.ofList value)⟩], .complete)
        | value => ([⟨spec.long, some (String.ofList value)⟩], .complete)
      else
        let (given, ending) := readShort specs rest
        (⟨spec.long, none⟩ :: given, ending)

/-- Reads a long option, of which a value may follow an equals sign. -/
def readLong (specs : List OptionSpec) (text : List Char) : List Given × Ending :=
  let name := String.ofList (text.takeWhile (· != '='))
  match specs.find? (·.long == name), text.dropWhile (· != '=') with
  | none, _ => ([], .malformed)
  | some spec, [] =>
    if spec.takesValue then ([], .needsValue spec.long) else ([⟨spec.long, none⟩], .complete)
  | some spec, _ :: value =>
    if spec.takesValue then
      ([⟨spec.long, some (String.ofList value)⟩], .complete)
    else
      ([], .malformed)

/-- The forms of an argument. -/
inductive Form where
  | plain
  /-- nothing after this is an option -/
  | terminator
  | options (given : List Given) (ending : Ending)

def formOf (specs : List OptionSpec) (argument : String) : Form :=
  match argument.toList with
  | ['-', '-'] => .terminator
  | '-' :: '-' :: text => let (given, ending) := readLong specs text; .options given ending
  | ['-'] => .plain
  | '-' :: text => let (given, ending) := readShort specs text; .options given ending
  | _ => .plain

/-- A value does not look like an option. -/
def isValue (argument : String) : Bool :=
  match argument.toList with
  | '-' :: _ :: _ => false
  | _ => true

/-- Reads options up to the first plain argument. What was read comes first, then the arguments that
are left, or nothing if an argument is malformed. -/
def scan (specs : List OptionSpec) : List String → List Given × Option (List String)
  | [] => ([], some [])
  | argument :: rest =>
    match formOf specs argument with
    | .plain => ([], some (argument :: rest))
    | .terminator => ([], if rest.isEmpty then some [] else none)
    | .options given .complete =>
      let (others, left) := scan specs rest
      (given ++ others, left)
    | .options given .malformed => (given, none)
    | .options given (.needsValue name) =>
      match rest with
      | [] => (given, none)
      | value :: after =>
        if isValue value then
          let (others, left) := scan specs after
          (given ++ ⟨name, some value⟩ :: others, left)
        else
          (given, none)

/-! ## Commands -/

inductive Command where
  | render (input : String) (output? : Option String) (settings : Settings)
  | inspect (input : String) (synthesize json : Bool)
  deriving DecidableEq, Repr

/-- What a command line asks for. -/
inductive Request where
  | version
  | run (verbose : Bool) (command : Command)
  deriving DecidableEq, Repr

def verboseSpec : OptionSpec := ⟨"verbose", some 'v', false⟩

def topSpecs : List OptionSpec := [verboseSpec, ⟨"version", some 'V', false⟩]

def renderSpecs : List OptionSpec :=
  [verboseSpec, ⟨"input", some 'i', true⟩, ⟨"output", some 'o', true⟩,
    ⟨"strategy", some 's', true⟩, ⟨"indent", none, true⟩]

def inspectSpecs : List OptionSpec :=
  [verboseSpec, ⟨"input", some 'i', true⟩, ⟨"synthesize", none, false⟩, ⟨"json", none, false⟩]

/-- All options of a command, each given once, with nothing left over. -/
def commandOptions? (specs : List OptionSpec) (arguments : List String) : Option (List Given) :=
  let (given, left) := scan specs arguments
  if left = some [] ∧ (given.map Given.name).Nodup then some given else none

def has (name : String) (given : List Given) : Bool :=
  given.any (·.name == name)

def value? (name : String) (given : List Given) : Option String :=
  (given.find? (·.name == name)).bind Given.value?

/-- A path, which is not empty. -/
def path? (text : String) : Option String :=
  if text.isEmpty then none else some text

/-- A natural number that fits 64 bits. -/
def width? (text : String) : Option Nat :=
  (Text.Decimal.natural? text.toList).filter (· < 2 ^ 64)

/-- The value of an option that may be left out. -/
def optional? {α : Type} (read : String → Option α) (absent : α) : Option String → Option α
  | none => some absent
  | some text => read text

def renderCommand? (given : List Given) : Option Command := do
  let default : Settings := {}
  let input ← path? (← value? "input" given)
  let output? ← optional? (fun text => (path? text).map some) none (value? "output" given)
  let strategy ← optional? Strategy.ofWord? default.strategy (value? "strategy" given)
  let indentWidth ← optional? width? default.indentWidth (value? "indent" given)
  return .render input output? { strategy, indentWidth }

def inspectCommand? (given : List Given) : Option Command := do
  let input ← path? (← value? "input" given)
  return .inspect input (has "synthesize" given) (has "json" given)

/-- The command named `word` with its arguments, and whether it was asked to be verbose. -/
def command? (word : String) (arguments : List String) : Option (Bool × Command) :=
  if word = "render" then do
    let given ← commandOptions? renderSpecs arguments
    return (has "verbose" given, ← renderCommand? given)
  else if word = "inspect" then do
    let given ← commandOptions? inspectSpecs arguments
    return (has "verbose" given, ← inspectCommand? given)
  else
    none

/-- What the options before the command come to. -/
inductive TopOptions where
  | version
  | verbose (isSet : Bool)
  | repeated

/-- The version is asked for as soon as its option is read. -/
def topOptions (verbose : Bool) : List Given → TopOptions
  | [] => .verbose verbose
  | given :: rest =>
    if given.name = "version" then .version
    else if verbose then .repeated
    else topOptions true rest

/-- What `arguments` ask for, or nothing if they are malformed. -/
def request? (arguments : List String) : Option Request :=
  let (given, left) := scan topSpecs arguments
  match topOptions false given, left with
  | .version, _ => some .version
  | .verbose verbose, some (word :: rest) => do
    let (inner, command) ← command? word rest
    return .run (verbose || inner) command
  | _, _ => none

end ProtoSource.CommandLine
