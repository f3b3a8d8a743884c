import ProtoSource.Load.Basic
import ProtoSource.Render.Printer
import ProtoSource.Settings

/-!
# Rendering

An encoded descriptor set becomes the source text of its last file.
-/

namespace ProtoSource.Render

open ProtoSource.Descriptor
open ProtoSource.Wire

/-- Something that prints a file of a pool. -/
abbrev Printer := Pool → File → Except Error String

/-- Text that ends its last line. -/
def endLine (text : String) : String :=
  if text.toList.getLast? = some '\n' then text else text ++ "\n"

/-- Prints the last file of a set that carries all it needs. -/
def renderDirect (width : Nat) (bytes : Bytes) : Except Error String := do
  let loaded ← Load.load false bytes
  printFile width loaded.pool (← loaded.file)

/-- Supplies the well-known files that a set lacks and prints its last file. -/
def renderSynthesizing (printer : Printer) (bytes : Bytes) : Except Error String := do
  let loaded ← Load.load true bytes
  let text ← printer loaded.pool (← loaded.file)
  return endLine text

/-- The source text of the last file of an encoded set. -/
def render (settings : Settings) (bytes : Bytes) : Except Error String :=
  match settings.strategy with
  | .direct => renderDirect settings.indentWidth bytes
  | .synthesizing => renderSynthesizing (printFile settings.indentWidth) bytes

end ProtoSource.Render
