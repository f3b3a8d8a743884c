import ProtoSource.Json.Reader
import ProtoSource.Settings

/-!
# Settings from JSON

Settings are an object with the members `strategy` and `indent_width`, or an array of the two in
this order; what is missing has its default. Other members are ignored, a repeated one is refused.
A strategy is its word, or an object whose only member is that word with the value null.
-/

namespace ProtoSource.Settings

open ProtoSource.Json

def strategyOf? : Value → Option Strategy
  | .string (some word) => Strategy.ofWord? word
  | .object [(some word, .null)] => Strategy.ofWord? word
  | _ => none

/-- A width fits 64 bits. -/
def widthOf? : Value → Option Nat
  | .natural width => if width < 2 ^ 64 then some width else none
  | _ => none

/-- The values of the members named `key`. -/
def membersNamed (key : String) (members : List (Option String × Value)) : List Value :=
  (members.filter (·.1 == some key)).map Prod.snd

/-- The value of a member that may be left out but not repeated. -/
def member? {α : Type} (read : Value → Option α) (absent : α) : List Value → Option α
  | [] => some absent
  | [value] => read value
  | _ => none

def ofMembers? (strategies widths : List Value) : Option Settings := do
  let default : Settings := {}
  let strategy ← member? strategyOf? default.strategy strategies
  let indentWidth ← member? widthOf? default.indentWidth widths
  return { strategy, indentWidth }

def ofValue? : Value → Option Settings
  | .object members =>
    if members.all (·.1.isSome) then
      ofMembers? (membersNamed "strategy" members) (membersNamed "indent_width" members)
    else
      none
  | .array [] => ofMembers? [] []
  | .array [strategy] => ofMembers? [strategy] []
  | .array [strategy, width] => ofMembers? [strategy] [width]
  | _ => none

/-- The settings that a JSON text describes. -/
def ofJson? (text : String) : Option Settings := do
  ofValue? (← read? text)

end ProtoSource.Settings
