import ProtoSource.Wire.Fault
import ProtoSource.Wire.Input

/-!
# Reading

A reader consumes input or stops with a fault. Loops run on the number of bytes that are left:
every step of a loop reads at least one byte, so a loop that has used up its turns has also used up
its input.
-/

namespace ProtoSource.Wire

abbrev Reader := StateT Input (Except Fault)

namespace Reader

def fail {α : Type} (reason : Reason) : Reader α :=
  fun _ => .error ⟨[], reason⟩

/-- Number of bytes left. -/
def remaining : Reader Nat :=
  fun input => .ok (input.size, input)

/-- The next `count` bytes without moving past them. -/
def peek (count : Nat) : Reader Bytes :=
  fun input => .ok (input.bytes.take count, input)

/-- The next `count` bytes. -/
def take (count : Nat) : Reader Bytes := fun input =>
  match input.split? count with
  | some taken => .ok taken
  | none => .error ⟨[], .underflow⟩

@[simp]
theorem take_append (front rest : Bytes) :
    take front.length (Input.ofBytes (front ++ rest)) = .ok (front, Input.ofBytes rest) := by
  simp [take]

/-- Faults of `reader` happened inside `place`. -/
def within {α : Type} (place : Option String) (reader : Reader α) : Reader α := fun input =>
  match reader input with
  | .ok result => .ok result
  | .error fault => .error (fault.within place)

/-- Takes `step` again and again while more than `stop` bytes are left, for at most the given
number of turns. -/
def turnsTo {α : Type} (stop : Nat) (step : Reader (List α)) : Nat → Reader (List α)
  | 0, input => .ok ([], input)
  | turns + 1, input =>
    if input.size ≤ stop then
      .ok ([], input)
    else
      match step input with
      | .error fault => .error fault
      | .ok (first, rest) =>
        match turnsTo stop step turns rest with
        | .error fault => .error fault
        | .ok (others, last) => .ok (first ++ others, last)

/-- Takes `step` until `stop` bytes or fewer are left. -/
def repeatTo {α : Type} (stop : Nat) (step : Reader (List α)) : Reader (List α) := fun input =>
  turnsTo stop step input.size input

/-- Reads the next `length` bytes as a list of items. An item may end past them only at the price
of a fault. -/
def region {α : Type} (length : Nat) (step : Reader (List α)) : Reader (List α) := do
  let size ← remaining
  if size < length then
    fail .underflow
  else
    let items ← repeatTo (size - length) step
    if (← remaining) = size - length then
      return items
    else
      fail .overrun

end Reader

end ProtoSource.Wire
