import ProtoSource.Proofs.Wire.Reading
import ProtoSource.Wire.Decode

/-!
# Numbers, keys and lengths

The readers of single values are local, what they read is bounded, and they read
back what is written.
-/

namespace ProtoSource.Wire

open Reader

theorem Input.next?_eq_some {bytes : Bytes} {byte : UInt8} {rest : Input}
    (hnext : (Input.ofBytes bytes).next? = some (byte, rest)) :
    bytes = byte :: rest.bytes := by
  cases bytes with
  | nil => simp [Input.ofBytes, Input.next?] at hnext
  | cons head tail =>
      simp only [Input.next?_ofBytes_cons, Option.some.injEq, Prod.mk.injEq] at hnext
      obtain ⟨rfl, rfl⟩ := hnext
      rfl

theorem Varint.local_readDigits (room : Nat) : Local (Varint.readDigits room) := by
  induction room with
  | zero =>
      intro bytes value rest hok
      simp [Varint.readDigits] at hok
  | succ room ih =>
      intro bytes value rest hok
      rw [Varint.readDigits] at hok
      split at hok
      · simp at hok
      · next byte middle hnext =>
          obtain rfl := Input.next?_eq_some hnext
          split at hok
          · next hlast =>
              split at hok
              · simp at hok
              · next hfits =>
                  simp only [Except.ok.injEq, Prod.mk.injEq] at hok
                  obtain ⟨rfl, rfl⟩ := hok
                  refine ⟨[byte], rfl, fun rest => ?_⟩
                  simp only [List.cons_append, List.nil_append, Varint.readDigits,
                    Input.next?_ofBytes_cons, hlast, if_true, if_neg hfits]
          · next hmore =>
              split at hok
              · simp at hok
              · next high last hhigh =>
                  simp only [Except.ok.injEq, Prod.mk.injEq] at hok
                  obtain ⟨rfl, rfl⟩ := hok
                  rw [middle.eq_ofBytes] at hhigh
                  obtain ⟨front, hfront, hreads⟩ := ih _ high last hhigh
                  refine ⟨byte :: front, by rw [hfront]; rfl, fun rest => ?_⟩
                  simp only [List.cons_append, Varint.readDigits, Input.next?_ofBytes_cons,
                    if_neg hmore, hreads rest]

theorem Varint.local_read : Local Varint.read :=
  Varint.local_readDigits 10

theorem Varint.hungry_read : Hungry Varint.read := by
  intro value rest hok
  simp [Varint.read, Varint.readDigits, Input.ofBytes, Input.next?] at hok

theorem Varint.readDigits_lt {room value : Nat} {input rest : Input}
    (hok : Varint.readDigits (room + 1) input = .ok (value, rest)) :
    value < 2 * 128 ^ room := by
  induction room generalizing value input rest with
  | zero =>
      rw [Varint.readDigits] at hok
      split at hok
      · simp at hok
      · split at hok
        · split at hok
          · simp at hok
          · next hfits =>
              simp only [Except.ok.injEq, Prod.mk.injEq] at hok
              obtain ⟨rfl, rfl⟩ := hok
              simp only [true_and, Nat.not_le] at hfits
              simpa using hfits
        · split at hok
          · simp at hok
          · next hhigh => simp [Varint.readDigits] at hhigh
  | succ room ih =>
      rw [Varint.readDigits] at hok
      have hpow : 128 ^ (room + 1) = 128 * 128 ^ room := by rw [Nat.pow_succ, Nat.mul_comm]
      have hpos : 0 < 128 ^ room := Nat.pow_pos (by decide)
      split at hok
      · simp at hok
      · next byte middle hnext =>
          split at hok
          · next hlast =>
              split at hok
              · simp at hok
              · simp only [Except.ok.injEq, Prod.mk.injEq] at hok
                obtain ⟨rfl, rfl⟩ := hok
                omega
          · split at hok
            · simp at hok
            · next high last hhigh =>
                simp only [Except.ok.injEq, Prod.mk.injEq] at hok
                obtain ⟨rfl, rfl⟩ := hok
                have hbyte := byte.toNat_lt
                have hbound := ih hhigh
                omega

theorem Varint.lt_of_reads {front : Bytes} {value : Nat} (hreads : Reads Varint.read front value) :
    value < 2 ^ 64 := by
  have hbound := Varint.readDigits_lt (hreads [])
  exact hbound

theorem Varint.reads_encode {value : Nat} (hvalue : value < 2 ^ 64) :
    Reads Varint.read (Varint.encode value) value :=
  fun rest => Varint.read_encode value hvalue rest

theorem reads_take (bytes : Bytes) : Reads (take bytes.length) bytes bytes :=
  fun rest => take_append bytes rest

theorem take_eq_ok {count : Nat} {bytes taken : Bytes} {rest : Input}
    (hok : take count (.ofBytes bytes) = .ok (taken, rest)) :
    taken.length = count ∧ bytes = taken ++ rest.bytes := by
  unfold take at hok
  split at hok
  · next pair hsplit =>
      simp only [Except.ok.injEq] at hok
      subst hok
      refine ⟨?_, (Input.append_of_split? hsplit).symm⟩
      unfold Input.split? at hsplit
      split at hsplit
      · next hcount =>
          simp only [Option.some.injEq, Prod.mk.injEq] at hsplit
          rw [← hsplit.1, List.length_take]
          exact Nat.min_eq_left hcount
      · simp at hsplit
  · simp at hok

theorem local_take (count : Nat) : Local (take count) := by
  intro bytes taken rest hok
  obtain ⟨rfl, hbytes⟩ := take_eq_ok hok
  exact ⟨taken, hbytes, reads_take taken⟩

theorem eq_of_reads_take {count : Nat} {front taken : Bytes}
    (hreads : Reads (take count) front taken) :
    taken = front ∧ front.length = count := by
  obtain ⟨hcount, hbytes⟩ := take_eq_ok (hreads [])
  have hfront : front = taken := by simpa using hbytes
  exact ⟨hfront.symm, by rw [hfront, hcount]⟩

theorem Fixed.local_read (width : Nat) : Local (Fixed.read width) :=
  (local_take width).map _

theorem Fixed.hungry_read {width : Nat} (hwidth : 0 < width) : Hungry (Fixed.read width) := by
  intro value rest hok
  obtain ⟨taken, htaken, -⟩ := map_eq_ok.1 hok
  obtain ⟨hcount, hbytes⟩ := take_eq_ok htaken
  simp only [List.nil_eq, List.append_eq_nil_iff] at hbytes
  simp [hbytes.1] at hcount
  omega

theorem Fixed.decode_lt (bytes : Bytes) : Fixed.decode bytes < 256 ^ bytes.length := by
  induction bytes with
  | nil => simp [Fixed.decode]
  | cons byte bytes ih =>
      have hbyte := byte.toNat_lt
      simp only [Fixed.decode, List.length_cons, Nat.pow_succ]
      omega

theorem Fixed.lt_of_reads {width : Nat} {front : Bytes} {value : Nat}
    (hreads : Reads (Fixed.read width) front value) : value < 256 ^ width := by
  obtain ⟨taken, htaken, rfl⟩ := hreads.of_map (local_take width)
  obtain ⟨rfl, rfl⟩ := eq_of_reads_take htaken
  exact Fixed.decode_lt taken

theorem Fixed.reads_encode {width value : Nat} (hvalue : value < 256 ^ width) :
    Reads (Fixed.read width) (Fixed.encode width value) value := by
  have htake := reads_take (Fixed.encode width value)
  rw [Fixed.length_encode] at htake
  have hreads := htake.map Fixed.decode
  rwa [Fixed.decode_encode width value hvalue] at hreads

theorem local_readDelimited : Local readDelimited :=
  Varint.local_read.bind fun _ => local_take _

theorem reads_encodeDelimited {bytes : Bytes} (hlength : bytes.length < 2 ^ 64) :
    Reads readDelimited (encodeDelimited bytes) bytes :=
  fun rest => readDelimited_encodeDelimited bytes rest hlength

/-- Delimited bytes are a length and so many bytes. -/
theorem reads_readDelimited_iff {front bytes : Bytes} :
    Reads readDelimited front bytes ↔
      ∃ size, front = size ++ bytes ∧ Reads Varint.read size bytes.length := by
  constructor
  · intro hreads
    obtain ⟨length, size, back, rfl, hsize, hback⟩ :=
      hreads.of_bind Varint.local_read fun _ => local_take _
    obtain ⟨rfl, rfl⟩ := eq_of_reads_take hback
    exact ⟨size, rfl, hsize⟩
  · rintro ⟨size, rfl, hsize⟩
    exact hsize.bind (reads_take bytes)

theorem Key.local_read : Local Key.read := by
  refine Varint.local_read.bind fun raw => ?_
  split
  · exact local_fail _
  · split
    · exact local_fail _
    · split
      · exact local_fail _
      · exact local_pure _

theorem Key.hungry_read : Hungry Key.read :=
  Varint.hungry_read.bind

/-- The field numbers that keys can hold. -/
def IsFieldNumber (number : Nat) : Prop :=
  0 < number ∧ number < 2 ^ 29

theorem Key.isFieldNumber_of_reads {front : Bytes} {key : Key} (hreads : Reads Key.read front key) :
    IsFieldNumber key.number := by
  obtain ⟨raw, rest, -, hkey⟩ := bind_eq_ok.1 (hreads [])
  split at hkey
  · simp [fail] at hkey
  · next hfits =>
      cases hwire : WireType.ofCode? (raw % 8) with
      | none => simp [hwire, fail] at hkey
      | some wire =>
          simp only [hwire] at hkey
          split at hkey
          · simp [fail] at hkey
          · obtain ⟨rfl, -⟩ := pure_eq_ok.1 hkey
            simp only [IsFieldNumber]
            omega

theorem Key.reads_encode {key : Key} (hnumber : IsFieldNumber key.number) :
    Reads Key.read key.encode key :=
  fun rest => Key.read_encode key hnumber.1 hnumber.2 rest

end ProtoSource.Wire
