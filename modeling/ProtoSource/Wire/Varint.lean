import ProtoSource.Powers
import ProtoSource.Wire.Reader

/-!
# Numbers on the wire

A varint is a 64-bit number in digits of seven bits, the lowest first; the top bit of a byte says
that more digits follow. It has at most ten bytes, and the tenth may only be 0 or 1. Fixed-width
numbers are written lowest byte first.
-/

namespace ProtoSource.Wire

namespace Varint

/-- The digits of `value`, of which there are at most `room`. -/
def digits : Nat → Nat → Bytes
  | 0, _ => []
  | room + 1, value =>
    if value < 128 then
      [UInt8.ofNat value]
    else
      UInt8.ofNat (value % 128 + 128) :: digits room (value / 128)

/-- The shortest varint of a number below `2 ^ 64`. -/
def encode (value : Nat) : Bytes :=
  digits 10 value

/-- Reads a varint that has at most `room` bytes; the last of them may hold one bit. -/
def readDigits : Nat → Reader Nat
  | 0, _ => .error ⟨[], .malformedVarint⟩
  | room + 1, input =>
    match input.next? with
    | none => .error ⟨[], .malformedVarint⟩
    | some (byte, rest) =>
      if byte.toNat < 128 then
        if room = 0 ∧ 2 ≤ byte.toNat then
          .error ⟨[], .malformedVarint⟩
        else
          .ok (byte.toNat, rest)
      else
        match readDigits room rest with
        | .error fault => .error fault
        | .ok (high, last) => .ok (byte.toNat - 128 + 128 * high, last)

def read : Reader Nat :=
  readDigits 10

theorem toNat_ofNat_of_lt {value : Nat} (hvalue : value < 256) :
    (UInt8.ofNat value).toNat = value := by
  rw [UInt8.toNat_ofNat']
  exact Nat.mod_eq_of_lt hvalue

/-- Reading undoes writing, whatever follows. -/
theorem readDigits_digits (room value : Nat) (hvalue : value < 2 * 128 ^ room) (rest : Bytes) :
    readDigits (room + 1) (Input.ofBytes (digits (room + 1) value ++ rest)) =
      .ok (value, Input.ofBytes rest) := by
  induction room generalizing value with
  | zero =>
    have hsmall : value < 128 := by omega
    have hbyte := toNat_ofNat_of_lt (show value < 256 by omega)
    have htwo : ¬ 2 ≤ value := by omega
    simp [digits, readDigits, hsmall, hbyte, htwo]
  | succ room ih =>
    by_cases hsmall : value < 128
    · have hbyte := toNat_ofNat_of_lt (show value < 256 by omega)
      simp [digits, readDigits, hsmall, hbyte]
    · have hhigh : value / 128 < 2 * 128 ^ room := by
        rw [Nat.div_lt_iff_lt_mul (by decide)]
        rw [Nat.pow_succ] at hvalue
        omega
      have hbyte := toNat_ofNat_of_lt (show value % 128 + 128 < 256 by omega)
      have hmore : ¬ value % 128 + 128 < 128 := by omega
      have hvalue : value % 128 + 128 - 128 + 128 * (value / 128) = value := by omega
      rw [digits, readDigits]
      simp only [hsmall, if_false, List.cons_append, Input.next?_ofBytes_cons, hbyte, hmore,
        ih (value / 128) hhigh, hvalue]

/-- Reading undoes writing of a 64-bit number, whatever follows. -/
theorem read_encode (value : Nat) (hvalue : value < 2 ^ 64) (rest : Bytes) :
    read (Input.ofBytes (encode value ++ rest)) = .ok (value, Input.ofBytes rest) :=
  readDigits_digits 9 value hvalue rest

end Varint

namespace Fixed

/-- The lowest `width` bytes of `value`. -/
def encode : Nat → Nat → Bytes
  | 0, _ => []
  | width + 1, value => UInt8.ofNat (value % 256) :: encode width (value / 256)

def decode : Bytes → Nat
  | [] => 0
  | byte :: rest => byte.toNat + 256 * decode rest

def read (width : Nat) : Reader Nat :=
  decode <$> Reader.take width

@[simp]
theorem length_encode (width value : Nat) : (encode width value).length = width := by
  induction width generalizing value with
  | zero => rfl
  | succ width ih => simp [encode, ih]

theorem decode_encode (width value : Nat) (hvalue : value < 256 ^ width) :
    decode (encode width value) = value := by
  induction width generalizing value with
  | zero =>
    simp at hvalue
    simp [encode, decode, hvalue]
  | succ width ih =>
    have hhigh : value / 256 < 256 ^ width := by
      rw [Nat.div_lt_iff_lt_mul (by decide)]
      rwa [Nat.pow_succ] at hvalue
    have hbyte := Varint.toNat_ofNat_of_lt (show value % 256 < 256 by omega)
    rw [encode, decode, ih _ hhigh, hbyte]
    omega

end Fixed

/-- The number of bytes that follow, and those bytes. -/
def readDelimited : Reader Bytes := do
  Reader.take (← Varint.read)

def encodeDelimited (bytes : Bytes) : Bytes :=
  Varint.encode bytes.length ++ bytes

theorem readDelimited_encodeDelimited (bytes rest : Bytes) (hlength : bytes.length < 2 ^ 64) :
    readDelimited (Input.ofBytes (encodeDelimited bytes ++ rest)) =
      .ok (bytes, Input.ofBytes rest) := by
  have hread := Varint.read_encode bytes.length hlength (bytes ++ rest)
  simp [readDelimited, encodeDelimited, bind, StateT.bind, Except.bind, List.append_assoc, hread]

/-- Field number and wire type of the value that follows. -/
structure Key where
  number : Nat
  wire : WireType
  deriving DecidableEq, Repr

namespace Key

def encode (key : Key) : Bytes :=
  Varint.encode (8 * key.number + key.wire.code)

/-- A key fits 32 bits, names a wire type and a field number other than zero. -/
def read : Reader Key := do
  let raw ← Varint.read
  if 2 ^ 32 ≤ raw then
    Reader.fail (.oversizedKey raw)
  else
    match WireType.ofCode? (raw % 8) with
    | none => Reader.fail (.unknownWireType (raw % 8))
    | some wire =>
      if raw / 8 = 0 then
        Reader.fail .zeroFieldNumber
      else
        return ⟨raw / 8, wire⟩

/-- Reading undoes writing of a key, whatever follows. -/
theorem read_encode (key : Key) (hnumber : 0 < key.number) (hbound : key.number < 2 ^ 29)
    (rest : Bytes) :
    read (Input.ofBytes (key.encode ++ rest)) = .ok (key, Input.ofBytes rest) := by
  have hcode := key.wire.code_lt
  have hraw : 8 * key.number + key.wire.code < 2 ^ 32 := by omega
  have hread := Varint.read_encode (8 * key.number + key.wire.code) (by omega) rest
  have hwire : (8 * key.number + key.wire.code) % 8 = key.wire.code := by omega
  have hfield : (8 * key.number + key.wire.code) / 8 = key.number := by omega
  have hfits : ¬ 2 ^ 32 ≤ 8 * key.number + key.wire.code := by omega
  have hsome : key.number ≠ 0 := by omega
  unfold read encode
  simp only [bind, StateT.bind, Except.bind, hread, if_neg hfits, hwire, WireType.ofCode?_code,
    hfield, if_neg hsome]
  rfl

end Key

end ProtoSource.Wire
