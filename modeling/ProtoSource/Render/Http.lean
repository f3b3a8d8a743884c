import ProtoSource.Http.Summary
import ProtoSource.Text.Layout
import ProtoSource.Text.Quoted

/-!
# HTTP rules in source text

The body of the option block of a rule: its pattern, the bodies that are set, and a block for each
additional binding.
-/

namespace ProtoSource.Render

open ProtoSource.Http
open ProtoSource.Text

/-- A key with quoted text. -/
def entryLine (key value : String) : Item :=
  .line (key ++ ": " ++ quote value)

def patternItem : Pattern → Item
  | .custom kind path => .block "custom" [entryLine "kind" kind, entryLine "path" path] ""
  | pattern => entryLine pattern.keyword pattern.path

/-- A line for text that is not empty. -/
def entryLines (key value : String) : List Item :=
  if value.isEmpty then [] else [entryLine key value]

/-- The items of a binding of `method`. -/
def bindingItems (method : String) (binding : Binding) : Except Error (List Item) := do
  let pattern ← binding.pattern method
  return patternItem pattern :: entryLines "body" binding.body ++
    entryLines "response_body" binding.responseBody

mutual

/-- The items of a rule of `method`. -/
def ruleItems (method : String) : Rule → Except Error (List Item)
  | .mk binding additional => do
    let own ← bindingItems method binding
    let blocks ← additionalBlocks method additional
    return own ++ blocks

/-- A block for each additional binding. -/
def additionalBlocks (method : String) : List Rule → Except Error (List Item)
  | [] => .ok []
  | rule :: rest => do
    let items ← ruleItems method rule
    let others ← additionalBlocks method rest
    return .block "additional_bindings" items "" :: others

end

end ProtoSource.Render
