import ProtoSource.Proofs.Wire.Raw

/-!
# Forms of fields

What the fields of a message look like on the wire, said without reading them: a
varint is digits of seven bits, perhaps more of them than it needs, and the value
of a field is as long as its wire type says.  Every field of such a form is read raw.
-/

namespace ProtoSource.Wire

open Reader

/-! ## Forms -/

/-- Digits of seven bits, the lowest first.  All but the last have their top bit set,
and the last ones may be zero. -/
inductive Digits : Bytes → Nat → Prop where
  | last {byte : UInt8} : byte.toNat < 128 → Digits [byte] byte.toNat
  | more {byte : UInt8} {rest : Bytes} {high : Nat} :
      128 ≤ byte.toNat → Digits rest high → Digits (byte :: rest) (byte.toNat - 128 + 128 * high)

/-- At most ten digits of a 64-bit number. -/
structure IsVarint (bytes : Bytes) (value : Nat) : Prop where
  digits : Digits bytes value
  room : bytes.length ≤ 10
  fits : value < 2 ^ 64

/-- What follows the key of a field that is no group. -/
inductive IsValue : WireType → Bytes → Prop where
  | varint {bytes : Bytes} {value : Nat} : IsVarint bytes value → IsValue .varint bytes
  | fixed64 {bytes : Bytes} : bytes.length = 8 → IsValue .fixed64 bytes
  | fixed32 {bytes : Bytes} : bytes.length = 4 → IsValue .fixed32 bytes
  | delimited {size payload : Bytes} :
      IsVarint size payload.length → IsValue .delimited (size ++ payload)

/-- Fields one after the other, none of them a group and none of the given number. -/
inductive FieldsBut (number : Nat) : Bytes → Prop where
  | nil : FieldsBut number []
  | cons {other : Nat} {wire : WireType} {key value rest : Bytes} :
      IsFieldNumber other → other ≠ number → IsVarint key (8 * other + wire.code) →
        IsValue wire value → FieldsBut number rest → FieldsBut number (key ++ value ++ rest)

/-! ## Reading them -/

theorem Digits.reads {room value : Nat} {bytes : Bytes} (hdigits : Digits bytes value)
    (hroom : bytes.length ≤ room + 1) (hvalue : value < 2 * 128 ^ room) :
    Reads (Varint.readDigits (room + 1)) bytes value := by
  induction hdigits generalizing room with
  | @last byte hlast =>
      intro rest
      have hfits : ¬ (room = 0 ∧ 2 ≤ byte.toNat) := by
        rintro ⟨rfl, htwo⟩
        simp at hvalue
        omega
      rw [List.singleton_append, Varint.readDigits, Input.next?_ofBytes_cons]
      simp only [if_pos hlast, if_neg hfits]
  | @more byte bytes high hmore hhigh ih =>
      intro rest
      obtain ⟨room, rfl⟩ : ∃ less, room = less + 1 := by
        cases room with
        | zero =>
            cases hhigh with
            | last _ => simp at hroom
            | more _ _ => simp at hroom
        | succ less => exact ⟨less, rfl⟩
      have hpow : 128 ^ (room + 1) = 128 * 128 ^ room := by rw [Nat.pow_succ, Nat.mul_comm]
      have hrest := @ih room (by simpa using hroom) (by omega) rest
      rw [List.cons_append, Varint.readDigits, Input.next?_ofBytes_cons]
      simp only [if_neg (Nat.not_lt.2 hmore), hrest]

theorem IsVarint.reads {bytes : Bytes} {value : Nat} (hvarint : IsVarint bytes value) :
    Reads Varint.read bytes value :=
  hvarint.digits.reads hvarint.room hvarint.fits

theorem IsVarint.reads_key {number : Nat} {wire : WireType} {bytes : Bytes}
    (hnumber : IsFieldNumber number) (hvarint : IsVarint bytes (8 * number + wire.code)) :
    Reads Key.read bytes ⟨number, wire⟩ := by
  intro rest
  -- Only the digits of a key may differ from its shortest form.
  have hshortest := @Key.reads_encode ⟨number, wire⟩ hnumber rest
  have hcode := wire.code_lt
  have hfits : 8 * number + wire.code < 2 ^ 64 := by
    have hbound := hnumber.2
    omega
  unfold Key.read at hshortest ⊢
  rw [bind_eq_ok] at hshortest ⊢
  obtain ⟨raw, middle, hraw, hkey⟩ := hshortest
  obtain ⟨rfl, rfl⟩ := (Varint.reads_encode hfits).eq_of_append hraw
  exact ⟨_, _, hvarint.reads rest, hkey⟩

theorem IsValue.exists_flatValue {wire : WireType} {bytes : Bytes} (hvalue : IsValue wire bytes)
    (number : Nat) : ∃ record, FlatValue ⟨number, wire⟩ bytes record := by
  cases hvalue with
  | varint hvarint => exact ⟨_, .varint hvarint.reads⟩
  | fixed64 hlength =>
      have hreads := (reads_take bytes).map Fixed.decode
      rw [hlength] at hreads
      exact ⟨_, .fixed64 hreads⟩
  | fixed32 hlength =>
      have hreads := (reads_take bytes).map Fixed.decode
      rw [hlength] at hreads
      exact ⟨_, .fixed32 hreads⟩
  | delimited hsize => exact ⟨_, .bytes (reads_readDelimited_iff.2 ⟨_, rfl, hsize.reads⟩)⟩

/-- The raw records of such fields have other numbers and hold no groups. -/
theorem FieldsBut.exists_holdsRaw {number : Nat} {bytes : Bytes}
    (hfields : FieldsBut number bytes) :
    ∃ raws, HoldsRaw bytes raws ∧
      ∀ raw ∈ raws, raw.number ≠ number ∧ passDepthOfRecord raw = 1 := by
  induction hfields with
  | nil => exact ⟨[], Steps.nil, by simp⟩
  | @cons other _ _ _ _ hnumber hother hkey hvalue _ ih =>
      obtain ⟨raws, hraws, hall⟩ := ih
      obtain ⟨record, hflat⟩ := hvalue.exists_flatValue other
      have hrecord : ReadsRaw _ record :=
        ⟨_, _, _, rfl, hkey.reads_key hnumber, reads_readUnknown_iff.2 (Or.inl hflat)⟩
      refine ⟨record :: raws, .cons hrecord hraws, List.forall_mem_cons.2 ⟨?_, hall⟩⟩
      exact ⟨by rwa [hflat.number_eq], hflat.passDepthOfRecord_eq⟩

end ProtoSource.Wire
