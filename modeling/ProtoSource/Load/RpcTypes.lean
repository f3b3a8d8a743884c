import ProtoSource.Load.Synthesis
import ProtoSource.Pool.Options

/-!
# Methods without a type

A method may leave out its request or response type. It then means the empty message, so the
reference and the import it needs are filled in. The set is edited as records, which keeps whatever
it holds beyond descriptors; an edited set is written in canonical form.
-/

namespace ProtoSource.Load

open ProtoSource.Descriptor
open ProtoSource.Pool
open ProtoSource.WellKnown
open ProtoSource.Wire
open ProtoSource.Wire.Records

def lacksType (method : Method) : Bool :=
  method.inputType.isEmpty || method.outputType.isEmpty

/-- Some method of the file lacks a type. -/
def needsTypes (file : File) : Bool :=
  file.services.any (·.methods.any lacksType)

/-- Names the empty message in field `number` of a method that names nothing there. -/
def fillType (number : Nat) (method : List Record) : List Record :=
  if ((text? number method).getD "").isEmpty then
    method ++ [.text number emptyType]
  else
    method

/-- Applies `edit` to each message in field `number`. -/
def editMessages (number : Nat) (edit : List Record → List Record) (records : List Record) :
    List Record :=
  records.map fun record =>
    match record with
    | .message found _ inner => if found = number then .embed number (edit inner) else record
    | _ => record

def addImport (file : List Record) : List Record :=
  if (texts 3 file).contains emptyPath then file else file ++ [.text 3 emptyPath]

/-- Fills in the types of all methods of a file and the import for them. -/
def fillFile (file : List Record) : List Record :=
  addImport (editMessages 6 (editMessages 2 fun method => fillType 3 (fillType 2 method)) file)

/-- Fills in the files that need it. -/
def fillFiles (set : List Record) : List Record :=
  editMessages 1 (fun file => if needsTypes (.ofRecords file) then fillFile file else file) set

/-- The type of descriptor sets and the schema that describes all there is in them. -/
def setName : String := "google.protobuf.FileDescriptorSet"

def setSchema : Schema String := schemaOf descriptorTable

/-- The encoded set with all types filled in, or nothing if no method lacks one. -/
def fillTypes (bytes : Bytes) : Except Error (Option Bytes) := do
  let files ← decodeFiles bytes
  if files.any needsTypes then
    let records ← (setSchema.decode setName bytes).mapError Error.undecodable
    let filled := encode (setSchema.canonical setName (fillFiles records))
    let front := if hasFile files emptyPath then [] else encodeSet [emptyFile]
    return some (front ++ filled)
  else
    return none

end ProtoSource.Load
