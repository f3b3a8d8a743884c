import ProtoSource.Proofs.Pool.Words
import ProtoSource.Proofs.Text.Blocks
import ProtoSource.Proofs.Text.Literals
import ProtoSource.Text.Decimal

/-!
# Lexemes

Source text is read as a list of lexemes.  A run of word characters is one lexeme, a
number if it has digits only; a literal is one, whatever it holds; any other character
is a mark of its own; and blanks only keep lexemes apart.  What two texts are read as
one after the other is read from both together unless a run would go on across the
border.
-/

namespace ProtoSource.Text

open ProtoSource.Wire

inductive Lexeme where
  | word (text : String)
  | number (value : Nat)
  /-- a literal, by the bytes that it denotes -/
  | literal (bytes : Bytes)
  | mark (char : Char)
  deriving DecidableEq, Repr

namespace Lexeme

def isBlank (char : Char) : Bool :=
  char == ' ' || char == '\n'

/-- A run of word characters is a number if it has digits only. -/
def ofRun (run : List Char) : Lexeme :=
  match Decimal.digits? run with
  | some value => .number value
  | none => .word (String.ofList run)

/-- The lexemes of a text.  The first characters, as many as `skip` says, belong to a
lexeme that has been read. -/
def readTo : Nat → List Char → Option (List Lexeme)
  | _, [] => some []
  | skip + 1, _ :: rest => readTo skip rest
  | 0, char :: rest =>
    if isBlank char then
      readTo 0 rest
    else if char = '"' then
      (Quoted.scanTo 0 rest).bind fun (bytes, after) =>
        (readTo (rest.length - after.length) rest).map (.literal bytes :: ·)
    else if Name.isWordChar char then
      let more := rest.takeWhile Name.isWordChar
      (readTo more.length rest).map (ofRun (char :: more) :: ·)
    else
      (readTo 0 rest).map (.mark char :: ·)

/-- The lexemes of a text, unless a literal in it does not end. -/
def read? (text : String) : Option (List Lexeme) :=
  readTo 0 text.toList

theorem readTo_length (front rest : List Char) :
    readTo front.length (front ++ rest) = readTo 0 rest := by
  induction front with
  | nil => rfl
  | cons char front ih => exact ih

end Lexeme

/-- No run of word characters goes on across the border of two texts. -/
def Apart (chars rest : List Char) : Prop :=
  ∀ last ∈ chars.getLast?, ∀ next ∈ rest.head?,
    Name.isWordChar last = false ∨ Name.isWordChar next = false

/-- The characters are read as these lexemes, whatever follows apart from them. -/
def Lexes (chars : List Char) (lexemes : List Lexeme) : Prop :=
  ∀ rest, Apart chars rest →
    Lexeme.readTo 0 (chars ++ rest) = (Lexeme.readTo 0 rest).map (lexemes ++ ·)

theorem apart_of_head? {chars rest : List Char} (hrest : rest.head?.any Name.isWordChar = false) :
    Apart chars rest := by
  intro last _ next hnext
  rw [Option.mem_def.1 hnext] at hrest
  exact .inr hrest

theorem apart_of_getLast? {chars : List Char} (hchars : chars.getLast?.any Name.isWordChar = false)
    (rest : List Char) : Apart chars rest := by
  intro last hlast next _
  rw [Option.mem_def.1 hlast] at hchars
  exact .inl hchars

namespace Lexes

theorem append {chars more : List Char} {lexemes others : List Lexeme}
    (hchars : Lexes chars lexemes)
    (hmore : Lexes more others) (hapart : Apart chars more) :
    Lexes (chars ++ more) (lexemes ++ others) := by
  intro rest hrest
  have hfirst : Apart chars (more ++ rest) := by
    cases more with
    | nil => rwa [List.append_nil] at hrest
    | cons next more => exact hapart
  have hsecond : Apart more rest := fun last hlast =>
    hrest last (by rw [List.getLast?_append, Option.mem_def.1 hlast]; rfl)
  rw [List.append_assoc, hchars _ hfirst, hmore _ hsecond, Option.map_map]
  congr 1
  funext found
  rw [Function.comp_apply, List.append_assoc]

theorem blanks {chars : List Char} (hchars : ∀ char ∈ chars, Lexeme.isBlank char = true) :
    Lexes chars [] := by
  have hskip (rest : List Char) : Lexeme.readTo 0 (chars ++ rest) = Lexeme.readTo 0 rest := by
    induction chars with
    | nil => rfl
    | cons char chars ih =>
        rw [List.forall_mem_cons] at hchars
        rw [List.cons_append, Lexeme.readTo, if_pos hchars.1, ih hchars.2]
  intro rest _
  rw [hskip]
  simp

theorem mark {char : Char} (hblank : Lexeme.isBlank char = false) (hquote : char ≠ '"')
    (hword : Name.isWordChar char = false) : Lexes [char] [.mark char] := by
  intro rest _
  rw [List.singleton_append, Lexeme.readTo, if_neg (by simp [hblank]), if_neg hquote,
    if_neg (by simp [hword])]
  rfl

/-- A run is read to its end. -/
theorem run {run : List Char} (hrun : run ≠ [])
    (hword : ∀ char ∈ run, Name.isWordChar char = true) :
    Lexes run [Lexeme.ofRun run] := by
  intro rest hrest
  obtain ⟨first, more, rfl⟩ := List.exists_cons_of_ne_nil hrun
  have hends : rest.takeWhile Name.isWordChar = [] := by
    cases rest with
    | nil => rfl
    | cons next rest =>
        have hlast : Name.isWordChar ((first :: more).getLast hrun) = true :=
          hword _ (List.getLast_mem hrun)
        have hnext := hrest _ (List.getLast?_eq_some_getLast hrun) next rfl
        rw [List.takeWhile_cons_of_neg]
        simpa [hlast] using hnext
  rw [List.forall_mem_cons] at hword
  have htake : (more ++ rest).takeWhile Name.isWordChar = more := by
    rw [List.takeWhile_append_of_pos hword.2, hends, List.append_nil]
  have hblank : Lexeme.isBlank first = false := by
    rw [Bool.eq_false_iff]
    intro hblank
    have hchar : first = ' ' ∨ first = '\n' := by simpa [Lexeme.isBlank] using hblank
    obtain rfl | rfl := hchar <;> exact absurd hword.1 (by decide)
  have hquote : first ≠ '"' := by
    rintro rfl
    exact absurd hword.1 (by decide)
  rw [List.cons_append, Lexeme.readTo, if_neg (by simp [hblank]), if_neg hquote,
    if_pos hword.1, htake]
  simp only [Lexeme.readTo_length, List.singleton_append]

theorem word {text : String} (htext : Name.IsWord text)
    (hletter : text.toList.all Char.isDigit = false) : Lexes text.toList [.word text] := by
  have hrun : Lexeme.ofRun text.toList = .word text := by
    rw [Lexeme.ofRun, Decimal.digits?, hletter, Bool.and_false, String.ofList_toList]
    rfl
  rw [← hrun]
  exact .run (by simpa using htext.1) htext.2

/-- A literal is read as the text that it was written for. -/
theorem quote (text : String) : Lexes (quote text).toList [.literal (utf8 text)] := by
  intro rest _
  have hscan := scan?_quote text rest
  have hopen : (Text.quote text).toList =
      '"' :: (text.toList.flatMap Quoted.escape ++ ['"']) := by
    rw [Text.quote, String.toList_ofList]
    rfl
  rw [hopen, List.cons_append] at hscan ⊢
  have hlength : ((text.toList.flatMap Quoted.escape ++ ['"']) ++ rest).length - rest.length =
      (text.toList.flatMap Quoted.escape ++ ['"']).length := by
    rw [List.length_append, Nat.add_sub_cancel]
  rw [Lexeme.readTo, if_neg (by decide), if_pos rfl]
  rw [Quoted.scan?] at hscan
  simp only [hscan, Option.bind_some, hlength, Lexeme.readTo_length, List.singleton_append]

end Lexes

namespace Lexeme

/-- The lexemes of a number. -/
def ofInt (number : Int) : List Lexeme :=
  if 0 ≤ number then [.number number.toNat] else [.mark '-', .number (-number).toNat]

end Lexeme

theorem Decimal.digits?_repr (natural : Nat) : digits? natural.repr.toList = some natural := by
  have hdigits : ∀ char ∈ Nat.toDigits 10 natural, char.isDigit = true := fun char hchar =>
    Nat.isDigit_of_mem_toDigits (by decide) (by decide) hchar
  have hvalue : value (Nat.toDigits 10 natural) = natural := by
    have hsame := Nat.ofDigitChars_toDigits (n := natural) (by decide : 1 < 10) (Nat.le_refl 10)
    rwa [Nat.ofDigitChars_eq_foldl] at hsame
  rw [digits?, Nat.toList_repr, if_pos, hvalue]
  rw [Bool.and_eq_true, Bool.not_eq_true', List.isEmpty_eq_false_iff, List.all_eq_true]
  exact ⟨Nat.toDigits_ne_nil, hdigits⟩

theorem lexes_repr (natural : Nat) : Lexes natural.repr.toList [.number natural] := by
  have hrun : Lexeme.ofRun natural.repr.toList = .number natural := by
    rw [Lexeme.ofRun, Decimal.digits?_repr]
  rw [← hrun]
  refine Lexes.run ?_ fun char hchar => ?_
  · rw [Nat.toList_repr]
    exact Nat.toDigits_ne_nil
  · rw [Nat.toList_repr] at hchar
    have hdigit := Nat.isDigit_of_mem_toDigits (by decide) (by decide) hchar
    simp [Name.isWordChar, Char.isAlphanum, hdigit]

theorem lexes_toString (number : Int) : Lexes (toString number).toList (Lexeme.ofInt number) := by
  rw [Int.toString_eq_repr, Int.repr_eq_if, Lexeme.ofInt]
  split
  · exact lexes_repr _
  · rw [String.toList_append]
    exact (Lexes.mark (by decide) (by decide) (by decide)).append (lexes_repr _)
      (apart_of_getLast? (by decide) _)

/-- Entries with commas between them. -/
theorem Lexes.intercalate {α : Type} {text : α → String} {lexemes : α → List Lexeme}
    {values : List α}
    (hvalues : ∀ value ∈ values, Lexes (text value).toList (lexemes value)) :
    Lexes (String.intercalate ", " (values.map text)).toList
      (List.intercalate [.mark ','] (values.map lexemes)) := by
  have hblank : Lexes [' '] [] := .blanks (by decide)
  have hcomma : Lexes ", ".toList [.mark ','] :=
    (Lexes.mark (by decide) (by decide) (by decide)).append hblank (apart_of_head? (by decide))
  induction values with
  | nil => exact .blanks (by simp)
  | cons value values ih =>
      rw [List.forall_mem_cons] at hvalues
      cases values with
      | nil => simpa using hvalues.1
      | cons next values =>
          have hrest := ih hvalues.2
          rw [List.map_cons, List.map_cons, String.intercalate_cons_cons, List.map_cons,
            List.map_cons, List.intercalate_cons_cons, String.toList_append, String.toList_append,
              List.append_assoc,
            List.append_assoc]
          exact hvalues.1.append (hcomma.append hrest (apart_of_getLast? (by decide) _))
            (apart_of_head? (by simp; decide))

/-- Lines are read one after the other, however far they are indented. -/
theorem lexes_lines (width depth : Nat) {texts : List String} {parts : List (List Lexeme)}
    (hparts : List.Forall₂ (fun text part => Lexes text.toList part) texts parts) :
    Lexes (String.join ((texts.map (Line.mk depth)).map (Line.render width))).toList
      parts.flatten := by
  rw [String.toList_join, List.flatMap_map]
  induction hparts with
  | nil => exact .blanks (by simp)
  | @cons text part texts parts hpart _ ih =>
      have hbreak : Lexes ['\n'] [] := .blanks (by decide)
      have hshown : Lexes (Line.shown width ⟨depth, text⟩) part := by
        rw [Line.shown]
        split
        · next hempty =>
            obtain rfl : text = "" := String.isEmpty_iff.1 hempty
            exact hpart
        · have hindent : ∀ char ∈ List.replicate (depth * width) ' ', Lexeme.isBlank char = true :=
            fun char hchar => List.eq_of_mem_replicate hchar ▸ rfl
          refine (Lexes.blanks hindent).append hpart (apart_of_getLast? ?_ _)
          rw [List.getLast?_replicate]
          split <;> rfl
      rw [List.map_cons, List.flatMap_cons, Line.toList_render, List.append_assoc,
        List.flatten_cons]
      exact hshown.append (hbreak.append ih (apart_of_getLast? (by decide) _))
        (apart_of_head? (by simp; decide))

end ProtoSource.Text
