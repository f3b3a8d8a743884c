import ProtoSource.Load.RpcTypes
import ProtoSource.Pool.Basic

/-!
# Loading

An encoded set becomes a pool and a target: the last file of the set. Missing method types are
always filled in; missing well-known files only on request.
-/

namespace ProtoSource

open ProtoSource.Descriptor
open ProtoSource.Wire

/-- A pool and the name of the file in it that is wanted. -/
structure Loaded where
  pool : Pool
  target : String

namespace Load

/-- The name of the last file. -/
def targetName (files : List File) : Except Error String :=
  match files.getLast? with
  | some file => .ok file.name
  | none => .error .noFiles

/-- The pool of an encoded set. -/
def poolOf (bytes : Bytes) : Except Error Pool := do
  let files ← (decodePreserving bytes).mapError fun _ => Error.refused .undecodable
  let dialects ← (Pool.dialects files).mapError fun word => Error.panicked (.unknownDialect word)
  (Pool.ofDialects dialects).mapError Error.refused

/-- Loads an encoded set, with the well-known files it lacks if `synthesize` is set. -/
def load (synthesize : Bool) (bytes : Bytes) : Except Error Loaded := do
  let target ← targetName (← decodeFiles bytes)
  let filled := (← fillTypes bytes).getD bytes
  let pool ← poolOf (← if synthesize then complete filled else pure filled)
  return ⟨pool, target⟩

end Load

/-- The file that was asked for. -/
def Loaded.file (loaded : Loaded) : Except Error File :=
  match loaded.pool.file? loaded.target with
  | some file => .ok file
  | none => .error (.missingFile loaded.target)

end ProtoSource
