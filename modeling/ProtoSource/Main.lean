import ProtoSource.CommandLine.Run

/-!
# The program

Runs a command line on the files of the machine.
-/

namespace ProtoSource.CommandLine

open ProtoSource.Wire

/-- The fault behind an error of the machine. Codes may come with a minus sign. -/
def faultOf (error : IO.Error) : FileFault :=
  match error with
  | .noFileOrDirectory _ _ _ => .missing
  | .alreadyExists _ _ _ => .present
  | .inappropriateType _ code _ => if code = 20 ∨ -code = 20 then .notDirectory else .isDirectory
  | .invalidArgument _ code _ => if code = 36 then .nameTooLong else .other 22 "Invalid argument"
  | other => .other 5 (toString other)

/-- Runs an action on files. -/
def attempt {α : Type} (action : IO α) : IO (Except FileFault α) := do
  try
    return .ok (← action)
  catch error =>
    return .error (faultOf error)

/-- Access to the files and streams of the machine. -/
def machineFiles : FileAccess IO where
  read path := attempt do return (← IO.FS.readBinFile path).toList
  makeDirectories path := attempt (IO.FS.createDirAll path)
  write path content := attempt (IO.FS.writeBinFile path (ByteArray.mk content.toArray))
  print content := attempt do (← IO.getStdout).write (ByteArray.mk content.toArray)
  flush := attempt do (← IO.getStdout).flush
  note content := attempt do (← IO.getStderr).write (ByteArray.mk content.toArray)

end ProtoSource.CommandLine

def main (arguments : List String) : IO UInt32 := do
  return UInt32.ofNat
    (← ProtoSource.CommandLine.perform ProtoSource.CommandLine.machineFiles arguments)
