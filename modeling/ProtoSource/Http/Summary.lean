import ProtoSource.Descriptor.Basic
import ProtoSource.Error
import ProtoSource.Http.Wire
import ProtoSource.Text.UpperCase

/-!
# Rules of methods

The HTTP rule that the options of a method carry, and the short form of a rule: verb in upper case,
path, and body if there is one.
-/

namespace ProtoSource.Http

open ProtoSource.Descriptor
open ProtoSource.Text

namespace Binding

/-- The pattern, which a rule of `method` must have. -/
def pattern (method : String) (binding : Binding) : Except Error Pattern :=
  match binding.pattern? with
  | some pattern => .ok pattern
  | none => .error (.unsetHttpRule method)

end Binding

/-- The short form of a rule. -/
structure Summary where
  verb : String
  path : String
  body? : Option String
  deriving DecidableEq, Repr

/-- The short form of the primary binding of a rule of `method`. -/
def Rule.summary (method : String) (rule : Rule) : Except Error Summary := do
  let pattern ← rule.binding.pattern method
  return {
    verb := upperCase pattern.verb
    path := pattern.path
    body? := if rule.binding.body.isEmpty then none else some rule.binding.body }

/-- The rule of a method with the given full name. -/
def ruleOf (fullName : String) (method : Method) : Except Error (Option Rule) :=
  match Rule.ofOptions ((method.options?.map (·.payload)).getD []) with
  | .ok rule? => .ok rule?
  | .error fault => .error (.httpRule (some fullName) fault)

end ProtoSource.Http
