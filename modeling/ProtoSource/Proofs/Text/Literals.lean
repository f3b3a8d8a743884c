import Mathlib.Data.List.TakeWhile
import ProtoSource.Proofs.Text.Names
import ProtoSource.Proofs.Wire.Scalars
import ProtoSource.Text.Quoted

/-!
# Reading quoted text back

A literal is scanned from its opening quote to the first quote that is not escaped.
A letter escape or an octal escape of up to three digits denotes one byte, and any
other character the bytes of its UTF-8 form.  Scanning what is written for a text
gives the bytes of the text and stops where the literal ends, whatever follows it.
-/

namespace ProtoSource.Text

open ProtoSource.Wire

namespace Quoted

def isOctal (char : Char) : Bool :=
  '0'.toNat ≤ char.toNat && char.toNat ≤ '7'.toNat

def octalValue (digits : List Char) : Nat :=
  digits.foldl (fun total digit => 8 * total + (digit.toNat - '0'.toNat)) 0

/-- The byte that an escape denotes and the number of its characters, from what
follows the backslash. -/
def escaped? (chars : List Char) : Option (UInt8 × Nat) :=
  match chars.head? with
  | some 'n' => some (10, 1)
  | some 'r' => some (13, 1)
  | some 't' => some (9, 1)
  | some '"' => some (34, 1)
  | some '\\' => some (92, 1)
  | _ =>
    let digits := (chars.take 3).takeWhile isOctal
    if digits.isEmpty then none else some (UInt8.ofNat (octalValue digits), digits.length)

/-- Bytes before those of the rest of a literal. -/
def prepend (bytes : Bytes) (scanned : Option (Bytes × List Char)) : Option (Bytes × List Char) :=
  scanned.map fun (more, rest) => (bytes ++ more, rest)

/-- The bytes up to the closing quote and what follows it.  The first characters, as
many as `skip` says, belong to an escape that has been read. -/
def scanTo : Nat → List Char → Option (Bytes × List Char)
  | _, [] => none
  | skip + 1, _ :: rest => scanTo skip rest
  | 0, char :: rest =>
    if char = '"' then
      some ([], rest)
    else if char = '\\' then
      (escaped? rest).bind fun (byte, length) => prepend [byte] (scanTo length rest)
    else
      prepend (String.utf8EncodeChar char) (scanTo 0 rest)

/-- The bytes of a literal and what follows it. -/
def scan? : List Char → Option (Bytes × List Char)
  | '"' :: rest => scanTo 0 rest
  | _ => none

theorem toNat_octalDigit (digit : Nat) : (octalDigit digit).toNat = '0'.toNat + digit % 8 := by
  have hvalid : ('0'.toNat + digit % 8).isValidChar := Or.inl (by
    have hzero : '0'.toNat = 48 := rfl
    omega)
  rw [octalDigit, Char.ofNat, dif_pos hvalid]
  rfl

theorem isOctal_octalDigit (digit : Nat) : isOctal (octalDigit digit) = true := by
  have hzero : '0'.toNat = 48 := rfl
  have hseven : '7'.toNat = 55 := rfl
  rw [isOctal, toNat_octalDigit, Bool.and_eq_true, decide_eq_true_eq, decide_eq_true_eq]
  omega

theorem escaped?_octal (byte : UInt8) (rest : List Char) :
    escaped? ((octal byte).tail ++ rest) = some (byte, 3) := by
  have hdigits : (((octal byte).tail ++ rest).take 3).takeWhile isOctal = (octal byte).tail := by
    have htake : ((octal byte).tail ++ rest).take 3 = (octal byte).tail := rfl
    rw [htake, List.takeWhile_eq_self_iff]
    intro char hchar
    simp only [octal, List.tail_cons, List.mem_cons, List.not_mem_nil, or_false] at hchar
    obtain rfl | rfl | rfl := hchar <;> exact isOctal_octalDigit _
  have hvalue : UInt8.ofNat (octalValue (octal byte).tail) = byte := by
    have hbyte : byte.toNat < 256 := byte.toNat_lt
    have hzero : '0'.toNat = 48 := rfl
    have hsum : octalValue (octal byte).tail = byte.toNat := by
      simp only [octalValue, octal, List.tail_cons, List.foldl_cons, List.foldl_nil,
        toNat_octalDigit]
      omega
    rw [hsum, UInt8.ofNat_toNat]
  have hfirst : ((octal byte).tail ++ rest).head? = some (octalDigit (byte.toNat / 64)) := rfl
  have hunlike (char : Char) (hchar : isOctal char = false) :
      octalDigit (byte.toNat / 64) ≠ char := by
    rintro rfl
    rw [isOctal_octalDigit] at hchar
    contradiction
  unfold escaped?
  rw [hfirst]
  split
  · next hsame => exact absurd (Option.some.inj hsame) (hunlike _ (by decide))
  · next hsame => exact absurd (Option.some.inj hsame) (hunlike _ (by decide))
  · next hsame => exact absurd (Option.some.inj hsame) (hunlike _ (by decide))
  · next hsame => exact absurd (Option.some.inj hsame) (hunlike _ (by decide))
  · next hsame => exact absurd (Option.some.inj hsame) (hunlike _ (by decide))
  · simp only [hdigits, hvalue]
    rfl

@[simp]
theorem prepend_nil (scanned : Option (Bytes × List Char)) : prepend [] scanned = scanned := by
  cases scanned <;> rfl

@[simp]
theorem prepend_prepend (bytes more : Bytes) (scanned : Option (Bytes × List Char)) :
    prepend bytes (prepend more scanned) = prepend (bytes ++ more) scanned := by
  cases scanned <;> simp [prepend]

theorem scanTo_octal (bytes : Bytes) (rest : List Char) :
    scanTo 0 (bytes.flatMap octal ++ rest) = prepend bytes (scanTo 0 rest) := by
  induction bytes with
  | nil => simp
  | cons byte bytes ih =>
      have hescape : scanTo 0 (octal byte ++ (bytes.flatMap octal ++ rest)) =
          (escaped? ((octal byte).tail ++ (bytes.flatMap octal ++ rest))).bind
            fun (found, length) => prepend [found]
              (scanTo length ((octal byte).tail ++ (bytes.flatMap octal ++ rest))) := rfl
      have hskip : scanTo 3 ((octal byte).tail ++ (bytes.flatMap octal ++ rest)) =
          scanTo 0 (bytes.flatMap octal ++ rest) := by
        generalize bytes.flatMap octal ++ rest = more
        cases more <;> rfl
      rw [List.flatMap_cons, List.append_assoc, hescape, escaped?_octal, Option.bind_some]
      simp only [hskip, ih, prepend_prepend, List.singleton_append]

theorem scanTo_escape (char : Char) (rest : List Char) :
    scanTo 0 (escape char ++ rest) = prepend (String.utf8EncodeChar char) (scanTo 0 rest) := by
  -- A letter escape is read, and its letter is skipped.
  have hletter (letter : Char) (byte : UInt8)
      (hbyte : escaped? (letter :: rest) = some (byte, 1)) :
      scanTo 0 (['\\', letter] ++ rest) = prepend [byte] (scanTo 0 rest) := by
    have hstep : scanTo 0 (['\\', letter] ++ rest) = (escaped? (letter :: rest)).bind
        fun (found, length) => prepend [found] (scanTo length (letter :: rest)) := rfl
    rw [hstep, hbyte]
    cases rest <;> rfl
  unfold escape
  split_ifs with hquote hslash hfeed hreturn htab hcontrol
  · subst hquote
    exact hletter '"' 34 rfl
  · subst hslash
    exact hletter '\\' 92 rfl
  · subst hfeed
    exact hletter 'n' 10 rfl
  · subst hreturn
    exact hletter 'r' 13 rfl
  · subst htab
    exact hletter 't' 9 rfl
  · exact scanTo_octal _ rest
  · rw [List.singleton_append, scanTo, if_neg hquote, if_neg hslash]

theorem scanTo_flatMap_escape (chars rest : List Char) :
    scanTo 0 (chars.flatMap escape ++ '"' :: rest) =
      some (chars.flatMap String.utf8EncodeChar, rest) := by
  induction chars with
  | nil => rfl
  | cons char chars ih =>
      rw [List.flatMap_cons, List.append_assoc, scanTo_escape, ih]
      rfl

/-! ## No control characters -/

theorem isControl_octalDigit (digit : Nat) : isControl (octalDigit digit) = false := by
  have hzero : '0'.toNat = 48 := rfl
  rw [isControl, toNat_octalDigit, Bool.or_eq_false_iff, Bool.and_eq_false_iff]
  simp only [decide_eq_false_iff_not]
  omega

theorem isControl_of_mem_octal {byte : UInt8} {char : Char} (hchar : char ∈ octal byte) :
    isControl char = false := by
  simp only [octal, List.mem_cons, List.not_mem_nil, or_false] at hchar
  obtain rfl | hdigit := hchar
  · rfl
  · obtain rfl | rfl | rfl := hdigit <;> exact isControl_octalDigit _

theorem isControl_of_mem_escape {char written : Char} (hwritten : written ∈ escape char) :
    isControl written = false := by
  have hletter {letter : Char} (hcontrol : isControl letter = false)
      (hmem : written ∈ ['\\', letter]) : isControl written = false := by
    simp only [List.mem_cons, List.not_mem_nil, or_false] at hmem
    obtain rfl | rfl := hmem
    · rfl
    · exact hcontrol
  unfold escape at hwritten
  split_ifs at hwritten with _ _ _ _ _ hcontrol
  · exact hletter rfl hwritten
  · exact hletter rfl hwritten
  · exact hletter rfl hwritten
  · exact hletter rfl hwritten
  · exact hletter rfl hwritten
  · obtain ⟨byte, -, hdigit⟩ := List.mem_flatMap.1 hwritten
    exact isControl_of_mem_octal hdigit
  · obtain rfl := List.mem_singleton.1 hwritten
    exact Bool.eq_false_iff.2 hcontrol

end Quoted

/-- A literal has no control characters, so it stays on one line. -/
theorem isControl_of_mem_quote {text : String} {char : Char} (hchar : char ∈ (quote text).toList) :
    Quoted.isControl char = false := by
  rw [quote, String.toList_ofList] at hchar
  simp only [List.mem_cons, List.mem_append, List.mem_flatMap, List.not_mem_nil, or_false] at hchar
  obtain (rfl | ⟨_, -, hescape⟩) | rfl := hchar
  · rfl
  · exact Quoted.isControl_of_mem_escape hescape
  · rfl

theorem utf8_eq_flatMap (text : String) : utf8 text = text.toList.flatMap String.utf8EncodeChar :=
  bytes_eq_flatMap text

/-- The literal of a text is scanned as the text, whatever follows. -/
theorem scan?_quote (text : String) (rest : List Char) :
    Quoted.scan? ((quote text).toList ++ rest) = some (utf8 text, rest) := by
  rw [quote, String.toList_ofList, List.append_assoc, utf8_eq_flatMap]
  exact Quoted.scanTo_flatMap_escape text.toList rest

/-- In any context the literal of a text is scanned as the text up to where the literal
ends, and it has no character below space and none from delete to the end of C1. -/
theorem scan?_quote_append (text more : String) :
    Quoted.scan? (quote text ++ more).toList = some (utf8 text, more.toList) ∧
      ∀ char ∈ (quote text).toList,
        0x20 ≤ char.toNat ∧ (char.toNat < 0x7f ∨ 0xa0 ≤ char.toNat) := by
  constructor
  · rw [String.toList_append, scan?_quote]
  · intro char hchar
    have hcontrol := isControl_of_mem_quote hchar
    rw [Quoted.isControl, Bool.or_eq_false_iff, Bool.and_eq_false_iff] at hcontrol
    simp only [decide_eq_false_iff_not] at hcontrol
    omega

/-- The text that a literal denotes, if it is one and nothing follows. -/
def unquote? (chars : List Char) : Option String :=
  match Quoted.scan? chars with
  | some (bytes, []) => ofUtf8? bytes
  | _ => none

@[simp]
theorem unquote?_quote (text : String) : unquote? (quote text).toList = some text := by
  have hscan : Quoted.scan? (quote text).toList = some (utf8 text, []) := by
    rw [← List.append_nil (quote text).toList, scan?_quote]
  rw [unquote?, hscan]
  exact ofUtf8?_utf8 text

end ProtoSource.Text
