/-!
# Unread input

The bytes of an encoded message that are still to be read. The number of bytes left is kept beside
them, so a length can be compared with it without walking the list.
-/

namespace ProtoSource.Wire

abbrev Bytes := List UInt8

/-- What is left to read, with its size. -/
structure Input where
  bytes : Bytes
  size : Nat
  size_eq : bytes.length = size

namespace Input

def ofBytes (bytes : Bytes) : Input :=
  ⟨bytes, bytes.length, rfl⟩

/-- The first byte and what follows it. -/
def next? : Input → Option (UInt8 × Input)
  | ⟨[], _, _⟩ => none
  | ⟨byte :: rest, size, size_eq⟩ =>
    some (byte, ⟨rest, size - 1, by simp at size_eq; omega⟩)

/-- The next `count` bytes and what follows them, or nothing when fewer are left. -/
def split? (count : Nat) (input : Input) : Option (Bytes × Input) :=
  if count ≤ input.size then
    some (input.bytes.take count,
      ⟨input.bytes.drop count, input.size - count, by simp [input.size_eq]⟩)
  else
    none

@[simp]
theorem ofBytes_bytes (bytes : Bytes) : (ofBytes bytes).bytes = bytes := rfl

@[simp]
theorem ofBytes_size (bytes : Bytes) : (ofBytes bytes).size = bytes.length := rfl

@[simp]
theorem next?_ofBytes_cons (byte : UInt8) (rest : Bytes) :
    (ofBytes (byte :: rest)).next? = some (byte, ofBytes rest) := rfl

@[simp]
theorem split?_ofBytes_append (front rest : Bytes) :
    (ofBytes (front ++ rest)).split? front.length = some (front, ofBytes rest) := by
  simp [split?, ofBytes]

/-- Splitting loses nothing. -/
theorem append_of_split? {input rest : Input} {count : Nat} {taken : Bytes}
    (hsplit : input.split? count = some (taken, rest)) :
    taken ++ rest.bytes = input.bytes := by
  unfold split? at hsplit
  split at hsplit
  · simp only [Option.some.injEq, Prod.mk.injEq] at hsplit
    obtain ⟨rfl, rfl⟩ := hsplit
    simp
  · simp at hsplit

end Input

end ProtoSource.Wire
