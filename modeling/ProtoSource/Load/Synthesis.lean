import ProtoSource.Descriptor.Read
import ProtoSource.Descriptor.Write
import ProtoSource.Error
import ProtoSource.WellKnown.Descriptor
import ProtoSource.WellKnown.Empty

/-!
# Well-known files for incomplete sets

A set that was compiled without its imports lacks the well-known files that its references lead to.
Those files are put in front of it, so that the last file of the set stays the last. On the wire
this is putting bytes in front: the bytes of the set itself are never touched.
-/

namespace ProtoSource.Load

open ProtoSource.Descriptor
open ProtoSource.WellKnown
open ProtoSource.Wire

/-- The files of an encoded set. -/
def decodeFiles (bytes : Bytes) : Except Error (List File) :=
  (decodeSet bytes).mapError .undecodable

def hasFile (files : List File) (name : String) : Bool :=
  files.any (·.name == name)

/-- Some file of `package` declares the message `name` at its top. -/
def declares (files : List File) (package name : String) : Bool :=
  files.any fun file => file.package == package && file.messages.any (·.name == name)

/-- The file of the HTTP option that goes with `files`: it declares HTTP rules if they do not. -/
def annotationsFor (files : List File) : File :=
  if declares files httpPackage "HttpRule" then annotationsImportingRules else annotationsWithRules

/-- The well-known files that a set lacks, each after the files it imports. -/
def missingFiles (files : List File) : List File :=
  (if hasFile files descriptorPath then [] else [descriptorFile]) ++
    (if hasFile files emptyPath then [] else [emptyFile]) ++
    (if hasFile files annotationsPath then [] else [annotationsFor files])

/-- A set with the well-known files it lacks. -/
def completed (files : List File) : List File :=
  missingFiles files ++ files

/-- The bytes to put in front of an encoded set that holds `files`. -/
def missingBytes (files : List File) : Bytes :=
  encodeSet (missingFiles files)

/-- An encoded set with the well-known files it lacks. -/
def complete (bytes : Bytes) : Except Error Bytes := do
  let files ← decodeFiles bytes
  return missingBytes files ++ bytes

end ProtoSource.Load
