import ProtoSource.Proofs.Wire.Interpretation

/-!
# Canonical numbers and texts

The canonical value of a number is one that can stand in its place: it fits the
same width, it is canonical itself, and what is written for a number reads back
as its canonical value.
-/

namespace ProtoSource.Wire

open Reader

/-! ## Texts -/

@[simp]
theorem ofUtf8?_utf8 (text : String) : ofUtf8? (utf8 text) = some text := by
  have hbytes : ByteArray.mk text.toUTF8.data.toList.toArray = text.toUTF8 := by simp
  unfold ofUtf8? utf8 String.fromUTF8?
  rw [hbytes]
  simp [String.fromUTF8, text.isValidUTF8]

theorem utf8_of_ofUtf8? {bytes : Bytes} {text : String} (htext : ofUtf8? bytes = some text) :
    utf8 text = bytes := by
  unfold ofUtf8? String.fromUTF8? at htext
  split at htext
  · simp only [Option.some.injEq] at htext
    subst htext
    simp [utf8, String.fromUTF8]
  · simp at htext

/-! ## Numbers -/

theorem bmod_emod_of_dvd {small large : Nat} (hdvd : small ∣ large) (value : Int) :
    (value % large).bmod small = value.bmod small := by
  rw [← Int.emod_bmod, Int.emod_emod_of_dvd value (Int.natCast_dvd_natCast.2 hdvd), Int.emod_bmod]

theorem toInt32_ofInt (value : Int) : toInt32 (ofInt value) = value.bmod (2 ^ 32) := by
  have hnonneg : 0 ≤ value % 2 ^ 64 := Int.emod_nonneg value (by decide)
  have hcast : (2 : Int) ^ 64 = ((2 ^ 64 : Nat) : Int) := by simp only [Int.natCast_pow]; rfl
  have hdvd : 2 ^ 32 ∣ 2 ^ 64 := Nat.pow_dvd_pow 2 (by decide)
  have hnat : ((ofInt value : Nat) : Int) = value % ((2 ^ 64 : Nat) : Int) := by
    rw [← hcast]
    exact Int.toNat_of_nonneg hnonneg
  unfold toInt32
  rw [hnat]
  exact bmod_emod_of_dvd hdvd value

theorem toInt32_ofInt_toInt32 (value : Nat) : toInt32 (ofInt (toInt32 value)) = toInt32 value := by
  rw [toInt32_ofInt]
  unfold toInt32
  exact Int.bmod_bmod

theorem ofInt_lt (value : Int) : ofInt value < 2 ^ 64 := by
  have hlt := Int.emod_lt_of_pos value (show (0 : Int) < 2 ^ 64 by decide)
  have hnonneg := Int.emod_nonneg value (show (2 : Int) ^ 64 ≠ 0 by decide)
  unfold ofInt
  omega

namespace Scalar

variable {scalar : Scalar}

/-- The numbers of the type are below. -/
def bound (scalar : Scalar) : Nat :=
  if scalar.wire = .fixed32 then 2 ^ 32 else 2 ^ 64

theorem canonical_canonical (scalar : Scalar) (value : Nat) :
    scalar.canonical (scalar.canonical value) = scalar.canonical value := by
  cases scalar <;> simp [canonical, toInt32_ofInt_toInt32]

theorem canonical_lt {value : Nat} (hvalue : value < scalar.bound) :
    scalar.canonical value < scalar.bound := by
  have hint := ofInt_lt (toInt32 value)
  cases scalar with
  | int32 => exact hint
  | enumeration => exact hint
  | uint32 => exact Nat.lt_of_le_of_lt (Nat.mod_le _ _) hvalue
  | sint32 => exact Nat.lt_of_le_of_lt (Nat.mod_le _ _) hvalue
  | bool =>
      simp only [canonical, bound]
      split <;> decide
  | _ => exact hvalue

/-- Types of fixed width have no other form of a value. -/
theorem canonical_eq_self (hwire : scalar.wire ≠ .varint) (value : Nat) :
    scalar.canonical value = value := by
  cases scalar <;> simp_all [canonical, wire]

theorem same_canonical (scalar : Scalar) (left value : Nat) :
    scalar.same left (scalar.canonical value) = scalar.same left value := by
  cases scalar with
  | double => rfl
  | float => rfl
  | _ => simp [same, canonical_canonical]

@[simp]
theorem numbers_wireRecord (scalar : Scalar) (number value : Nat) :
    (scalar.wireRecord number value).numbers = [value] := by
  cases scalar <;> rfl

@[simp]
theorem flat_wireRecord (scalar : Scalar) (number value : Nat) :
    (scalar.wireRecord number value).flat = scalar.wireRecord number value := by
  cases scalar <;> rfl

theorem writable_wireRecord {number value : Nat} (hnumber : IsFieldNumber number)
    (hvalue : value < scalar.bound) : (scalar.wireRecord number value).Writable := by
  cases scalar with
  | double => exact writable_fixed64 hnumber hvalue
  | fixed64 => exact writable_fixed64 hnumber hvalue
  | sfixed64 => exact writable_fixed64 hnumber hvalue
  | float => exact writable_fixed32 hnumber hvalue
  | fixed32 => exact writable_fixed32 hnumber hvalue
  | sfixed32 => exact writable_fixed32 hnumber hvalue
  | _ => exact writable_varint hnumber hvalue

theorem lt_of_reads_readNumber {bytes : Bytes} {value : Nat}
    (hreads : Reads (readNumber scalar) bytes value) : value < scalar.bound := by
  unfold readNumber at hreads
  unfold bound
  split at hreads
  · next hwire =>
      rw [hwire, if_neg (by decide)]
      exact Fixed.lt_of_reads hreads
  · next hwire =>
      rw [hwire, if_pos rfl]
      exact Fixed.lt_of_reads hreads
  · next hfixed32 =>
      rw [if_neg hfixed32]
      exact Varint.lt_of_reads hreads

theorem reads_encode {value : Nat} (hvalue : value < scalar.bound) :
    Reads (readNumber scalar) (scalar.encode value) (scalar.canonical value) := by
  have hcanonical := canonical_lt hvalue
  unfold bound at hvalue hcanonical
  by_cases hfixed64 : scalar.wire = .fixed64
  · rw [canonical_eq_self (by simp [hfixed64])]
    rw [hfixed64, if_neg (by decide)] at hvalue
    simp only [readNumber, encode, hfixed64]
    exact Fixed.reads_encode (Nat.lt_of_lt_of_eq hvalue (by decide))
  by_cases hfixed32 : scalar.wire = .fixed32
  · rw [canonical_eq_self (by simp [hfixed32])]
    rw [if_pos hfixed32] at hvalue
    simp only [readNumber, encode, hfixed32]
    exact Fixed.reads_encode (Nat.lt_of_lt_of_eq hvalue (by decide))
  have hvarint : scalar.wire = .varint := by
    cases scalar <;> simp_all [wire]
  rw [if_neg hfixed32] at hcanonical
  simp only [readNumber, encode, hvarint]
  exact Varint.reads_encode hcanonical

/-- What is written for a packed list reads back as its canonical values. -/
theorem steps_flatMap_encode {values : List Nat}
    (hvalues : ∀ value ∈ values, value < scalar.bound) :
    Steps (([·]) <$> readNumber scalar) (values.flatMap scalar.encode)
      (values.map scalar.canonical) := by
  induction values with
  | nil => exact .nil
  | cons value rest ih =>
      rw [List.forall_mem_cons] at hvalues
      exact .cons ((reads_encode hvalues.1).map _) (ih hvalues.2)

theorem lt_of_mem_steps {bytes : Bytes} {values : List Nat}
    (hsteps : Steps (([·]) <$> readNumber scalar) bytes values) :
    ∀ value ∈ values, value < scalar.bound := by
  induction hsteps with
  | nil => simp
  | cons hreads _ ih =>
      obtain ⟨value, hvalue, rfl⟩ := hreads.of_map (local_readNumber scalar)
      rw [List.singleton_append, List.forall_mem_cons]
      exact ⟨lt_of_reads_readNumber hvalue, ih⟩

end Scalar

end ProtoSource.Wire
