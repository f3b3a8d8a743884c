/-!
# Settings

How a descriptor set is prepared for printing, and how the text is indented.
-/

namespace ProtoSource

/-- What happens to a set before it is printed. -/
inductive Strategy where
  /-- print the set as it is -/
  | direct
  /-- supply the well-known files it lacks -/
  | synthesizing
  deriving DecidableEq, Repr

namespace Strategy

def word : Strategy → String
  | .direct => "direct"
  | .synthesizing => "synthesizing"

def ofWord? (word : String) : Option Strategy :=
  if word = "direct" then some .direct
  else if word = "synthesizing" then some .synthesizing
  else none

def synthesizes : Strategy → Bool
  | .direct => false
  | .synthesizing => true

end Strategy

structure Settings where
  strategy : Strategy := .direct
  /-- spaces per level -/
  indentWidth : Nat := 2
  deriving DecidableEq, Repr

end ProtoSource
