import ProtoSource.Proofs.Render.Printing
import ProtoSource.Proofs.Text.Depths
import ProtoSource.Proofs.Text.Lexemes

/-!
# Reserved numbers and names read back

Statements of reserved numbers and names are read as lists of lexemes between commas,
each list up to a semicolon.  Ranges are written closed, a range of one number as that
number, and a word stands for the highest one; names are literals, so it does not
matter what they hold.  What is read from the text of a message or an enum are its
ranges and its names in the order of declaration.
-/

namespace ProtoSource.Render

open ProtoSource.Descriptor
open ProtoSource.Text
open ProtoSource.Wire

/-- What one statement reserves. -/
inductive Reserved where
  /-- ranges, each with its first and its last number -/
  | ranges (ranges : List (Int × Int))
  | names (names : List String)
  deriving DecidableEq, Repr

namespace Reserved

def number? : List Lexeme → Option Int
  | [.number value] => some value
  | [.mark '-', .number value] => some (-value)
  | _ => none

/-- The last number of a range. -/
def last? (max : Int) (lexemes : List Lexeme) : Option Int :=
  if lexemes = [.word "max"] then some max else number? lexemes

/-- A number by itself is a range. -/
def range? (max : Int) (lexemes : List Lexeme) : Option (Int × Int) :=
  match lexemes.splitOn (.word "to") with
  | [only] => (number? only).map fun number => (number, number)
  | [first, last] => do return (← number? first, ← last? max last)
  | _ => none

def name? : List Lexeme → Option String
  | [.literal bytes] => ofUtf8? bytes
  | _ => none

/-- The statement that the lexemes before a semicolon make. -/
def statement? (max : Int) : List Lexeme → Option Reserved
  | .word "reserved" :: lexemes =>
    let entries := lexemes.splitOn (.mark ',')
    match entries.mapM name? with
    | some found => some (names found)
    | none => (entries.mapM (range? max)).map ranges
  | _ => none

/-- The statements of a text.  Nothing follows the last semicolon. -/
def read? (max : Int) (text : String) : Option (List Reserved) := do
  let parts := (← Lexeme.read? text).splitOn (.mark ';')
  if parts.getLast? = some [] then parts.dropLast.mapM (statement? max) else none

/-- The statements for ranges and names.  There is none for an empty list. -/
def statements (reservedRanges : List (Int × Int)) (reservedNames : List String) : List Reserved :=
  (if reservedRanges = [] then [] else [ranges reservedRanges]) ++
    if reservedNames = [] then [] else [names reservedNames]

end Reserved

/-- The lexemes of a range. -/
def rangeLexemes (max first last : Int) : List Lexeme :=
  if first = last then Lexeme.ofInt first
  else if last = max then Lexeme.ofInt first ++ .word "to" :: [.word "max"]
  else Lexeme.ofInt first ++ .word "to" :: Lexeme.ofInt last

theorem lexes_rangeText (max first last : Int) :
    Lexes (rangeText max first last).toList (rangeLexemes max first last) := by
  have hblank : Lexes [' '] [] := .blanks (by decide)
  have hword : Lexes "to".toList [.word "to"] := .word (by decide) (by decide)
  have hmax : Lexes "max".toList [.word "max"] := .word (by decide) (by decide)
  -- The word stands between blanks, so what is before and behind it is apart.
  have hto {more : List Char} {lexemes : List Lexeme} (hmore : Lexes more lexemes) :
      Lexes ((toString first).toList ++ ([' '] ++ ("to".toList ++ ([' '] ++ more))))
        (Lexeme.ofInt first ++ .word "to" :: lexemes) :=
    (lexes_toString first).append
      (hblank.append
        (hword.append (hblank.append hmore (apart_of_getLast? (by decide) _))
          (apart_of_head? (by simp; decide)))
        (apart_of_getLast? (by decide) _))
      (apart_of_head? (by simp; decide))
  unfold rangeText rangeLexemes
  split_ifs
  · exact lexes_toString first
  · rw [String.toList_append]
    exact hto hmax
  · rw [String.toList_append, String.toList_append, List.append_assoc]
    exact hto (lexes_toString last)

theorem number?_ofInt (number : Int) : Reserved.number? (Lexeme.ofInt number) = some number := by
  unfold Lexeme.ofInt
  split
  · next hnumber => exact congrArg some (Int.toNat_of_nonneg hnumber)
  · next hnumber =>
      rw [Reserved.number?, Int.toNat_of_nonneg (by omega), Int.neg_neg]

theorem notMem_ofInt {lexeme : Lexeme} (hnumber : ∀ value, lexeme ≠ .number value)
    (hminus : lexeme ≠ .mark '-') (number : Int) : lexeme ∉ Lexeme.ofInt number := by
  unfold Lexeme.ofInt
  split
  · simp [hnumber]
  · simp [hnumber, hminus]

theorem last?_ofInt (max number : Int) :
    Reserved.last? max (Lexeme.ofInt number) = some number := by
  have hne : Lexeme.ofInt number ≠ [.word "max"] := by
    intro hmax
    have hmem : .word "max" ∈ Lexeme.ofInt number := hmax ▸ List.mem_singleton_self _
    exact notMem_ofInt (by simp) (by simp) number hmem
  rw [Reserved.last?, if_neg hne, number?_ofInt]

/-- A range is read back whatever its numbers, also if it is written as one number or
up to the highest. -/
theorem range?_rangeLexemes (max first last : Int) :
    Reserved.range? max (rangeLexemes max first last) = some (first, last) := by
  have hnumber (number : Int) : .word "to" ∉ Lexeme.ofInt number :=
    notMem_ofInt (by simp) (by simp) number
  unfold rangeLexemes
  split_ifs with hone hmax
  · rw [Reserved.range?, List.splitOn_eq_singleton (hnumber first)]
    simp [number?_ofInt, hone]
  · rw [Reserved.range?, List.splitOn_append_cons_self_of_not_mem (hnumber first),
      List.splitOn_eq_singleton (by simp)]
    simp [number?_ofInt, Reserved.last?, hmax]
  · rw [Reserved.range?, List.splitOn_append_cons_self_of_not_mem (hnumber first),
      List.splitOn_eq_singleton (hnumber last)]
    simp [number?_ofInt, last?_ofInt]

theorem notMem_rangeLexemes {lexeme : Lexeme} (hnumber : ∀ value, lexeme ≠ .number value)
    (hword : ∀ text, lexeme ≠ .word text) (hminus : lexeme ≠ .mark '-') (max first last : Int) :
    lexeme ∉ rangeLexemes max first last := by
  have hint := notMem_ofInt hnumber hminus
  unfold rangeLexemes
  split_ifs
  · exact hint first
  · simp [hint, hword]
  · simp [hint, hword]

/-- A range is no name. -/
theorem name?_rangeLexemes (max first last : Int) :
    Reserved.name? (rangeLexemes max first last) = none := by
  unfold rangeLexemes Lexeme.ofInt
  split_ifs <;> rfl

/-- The text is read as the statement. -/
def Says (max : Int) (text : String) (statement : Reserved) : Prop :=
  ∃ lexemes, Lexes text.toList (lexemes ++ [.mark ';']) ∧ .mark ';' ∉ lexemes ∧
    Reserved.statement? max lexemes = some statement

section Entries

variable {α β : Type} {values : List α}

theorem mapM_map_eq_some {f : α → β} {read : β → Option α}
    (hread : ∀ value, read (f value) = some value) : (values.map f).mapM read = some values := by
  induction values with
  | nil => rfl
  | cons value values ih =>
      rw [List.map_cons, List.mapM_cons, hread, ih]
      rfl

/-- The lexemes of a list of entries, which are found again between its commas. -/
theorem lexes_reservedLine {text : α → String} {lexemes : α → List Lexeme}
    (hvalues : ∀ value, Lexes (text value).toList (lexemes value)) :
    Lexes ("reserved " ++ String.intercalate ", " (values.map text) ++ ";").toList
      (.word "reserved" :: List.intercalate [.mark ','] (values.map lexemes) ++ [.mark ';']) := by
  have hword : Lexes "reserved".toList [.word "reserved"] := .word (by decide) (by decide)
  have hblank : Lexes [' '] [] := .blanks (by decide)
  have hopen : Lexes "reserved ".toList [.word "reserved"] :=
    hword.append hblank (apart_of_head? (by decide))
  have hentries := Lexes.intercalate fun value (_ : value ∈ values) => hvalues value
  rw [String.toList_append, String.toList_append]
  exact (hopen.append hentries (apart_of_getLast? (by decide) _)).append
    (Lexes.mark (by decide) (by decide) (by decide)) (apart_of_head? (by decide))

theorem notMem_intercalate {lexeme : Lexeme} (hlexeme : lexeme ≠ .mark ',')
    {parts : List (List Lexeme)}
    (hparts : ∀ part ∈ parts, lexeme ∉ part) : lexeme ∉ List.intercalate [.mark ','] parts := by
  induction parts with
  | nil => simp
  | cons part parts ih =>
      rw [List.forall_mem_cons] at hparts
      cases parts with
      | nil => simpa using hparts.1
      | cons next parts =>
          rw [List.intercalate_cons_cons, List.mem_append, List.mem_append, not_or, not_or]
          exact ⟨⟨hparts.1, by simpa using hlexeme⟩, ih hparts.2⟩

end Entries

/-- Ranges are read back from their statement. -/
theorem says_ranges (max : Int) {ranges : List (Int × Int)} (hranges : ranges ≠ []) :
    Says max ("reserved " ++ String.intercalate ", "
      (ranges.map fun range => rangeText max range.1 range.2) ++ ";") (.ranges ranges) := by
  have hmark {char : Char} (hchar : char ≠ '-') : ∀ part ∈ ranges.map fun range =>
      rangeLexemes max range.1 range.2, Lexeme.mark char ∉ part :=
    List.forall_mem_map.2 fun range _ =>
      notMem_rangeLexemes (by simp) (by simp) (by simpa using hchar) max range.1 range.2
  refine ⟨_, lexes_reservedLine fun range => lexes_rangeText max range.1 range.2, ?_, ?_⟩
  · rw [List.mem_cons, not_or]
    exact ⟨by simp, notMem_intercalate (by simp) (hmark (by decide))⟩
  · have hname : (ranges.map fun range => rangeLexemes max range.1 range.2).mapM Reserved.name? =
        none := by
      obtain ⟨range, rest, rfl⟩ := List.exists_cons_of_ne_nil hranges
      rw [List.map_cons, List.mapM_cons, name?_rangeLexemes]
      rfl
    rw [Reserved.statement?, List.splitOn_intercalate _ (hmark (by decide))
      (by simpa using hranges), hname,
      mapM_map_eq_some fun range => range?_rangeLexemes max range.1 range.2]
    rfl

/-- Names are read back from their statement, whatever characters they have. -/
theorem says_names (max : Int) {names : List String} (hnames : names ≠ []) :
    Says max ("reserved " ++ String.intercalate ", " (names.map quote) ++ ";") (.names names) := by
  have hmark (char : Char) : ∀ part ∈ names.map fun name => [Lexeme.literal (utf8 name)],
      Lexeme.mark char ∉ part :=
    List.forall_mem_map.2 fun name _ => by simp
  refine ⟨_, lexes_reservedLine fun name => Lexes.quote name, ?_, ?_⟩
  · rw [List.mem_cons, not_or]
    exact ⟨by simp, notMem_intercalate (by simp) (hmark ';')⟩
  · have hread : (names.map fun name => [Lexeme.literal (utf8 name)]).mapM Reserved.name? =
        some names :=
      mapM_map_eq_some fun name => ofUtf8?_utf8 name
    rw [Reserved.statement?, List.splitOn_intercalate _ (hmark ',') (by simpa using hnames), hread]

/-- Lines that are each read as a statement are read as these statements. -/
theorem exists_read?_of_says {max : Int} {texts : List String} {statements : List Reserved}
    (hreading : List.Forall₂ (Says max) texts statements) (layout : Layout) (width : Nat) :
    ∃ written, (layout.write (texts.map .line)).render width = layout.render width ++ written ∧
      Reserved.read? max written = some statements := by
  obtain ⟨parts, hlexes, hparts, hread⟩ : ∃ parts : List (List Lexeme),
      List.Forall₂ (fun text part => Lexes text.toList part) texts (parts.map (· ++ [.mark ';'])) ∧
        (∀ part ∈ parts, .mark ';' ∉ part) ∧
          parts.mapM (Reserved.statement? max) = some statements := by
    induction hreading with
    | nil => exact ⟨[], .nil, by simp, rfl⟩
    | cons hone _ ih =>
        obtain ⟨part, hlexes, hpart, hread⟩ := hone
        obtain ⟨parts, hlexes', hparts, hread'⟩ := ih
        refine ⟨part :: parts, .cons hlexes hlexes', List.forall_mem_cons.2 ⟨hpart, hparts⟩, ?_⟩
        rw [List.mapM_cons, hread, hread']
        rfl
  refine ⟨String.join ((texts.map (Line.mk layout.depth)).map (Line.render width)), ?_, ?_⟩
  · rw [Layout.write_map_line, Layout.render, Layout.lines_extend, List.map_append,
      String.join_append]
    rfl
  · have hlines := lexes_lines width layout.depth hlexes [] (apart_of_head? (by simp))
    rw [List.append_nil, ← List.flatMap_def] at hlines
    have hlexemes : Lexeme.read? (String.join ((texts.map (Line.mk layout.depth)).map
        (Line.render width))) = some (parts.flatMap (· ++ [.mark ';'])) := by
      rw [Lexeme.read?, hlines]
      simp [Lexeme.readTo]
    rw [Reserved.read?, hlexemes, Option.bind_eq_bind, Option.bind_some,
      splitOn_flatMap_concat hparts]
    simpa using hread

/-- Ranges and names are read back, with no statement for those that there are none
of. -/
theorem exists_read?_reservedLines (max : Int) (ranges : List (Int × Int)) (names : List String)
    (layout : Layout) (width : Nat) :
    ∃ written,
      (layout.write (reservedLine (ranges.map fun range => rangeText max range.1 range.2) ++
        reservedLine (names.map quote))).render width = layout.render width ++ written ∧
      Reserved.read? max written = some (Reserved.statements ranges names) ∧
      (ranges = [] → names = [] → written = "") := by
  -- A statement has a line of its own, and an empty list has none.
  have hline {α : Type} {values : List α} {text : α → String} {statement : Reserved}
      (hreading : values ≠ [] →
        Says max ("reserved " ++ String.intercalate ", " (values.map text) ++ ";")
        statement) :
      ∃ texts, reservedLine (values.map text) = texts.map .line ∧
        List.Forall₂ (Says max) texts (if values = [] then [] else [statement]) := by
    by_cases hvalues : values = []
    · subst hvalues
      exact ⟨[], rfl, .nil⟩
    · refine ⟨["reserved " ++ String.intercalate ", " (values.map text) ++ ";"], ?_, ?_⟩
      · rw [reservedLine, if_neg (by simpa using hvalues)]
        rfl
      · rw [if_neg hvalues]
        exact .cons (hreading hvalues) .nil
  obtain ⟨texts, htexts, hranges⟩ := hline (says_ranges max)
  obtain ⟨texts', htexts', hnames⟩ := hline (says_names max)
  obtain ⟨written, hwritten, hread⟩ :=
    exists_read?_of_says (List.rel_append hranges hnames) layout width
  rw [List.map_append, ← htexts, ← htexts'] at hwritten
  refine ⟨written, hwritten, hread, ?_⟩
  rintro rfl rfl
  have hnone : layout.render width ++ "" = layout.render width ++ written := by
    rw [String.append_empty]
    exact hwritten
  exact ((String.append_right_inj _).1 hnone).symm

/-- The ranges and names reserved by a message or an enum are read back from the lines
they are written as, in their order and below any text.  A message has half-open
ranges, written closed: taking one from the end of a range never leaves the 32-bit
integers, unless the range ends at the lowest of them. -/
theorem read?_reserved (layout : Layout) (width : Nat) :
    (∀ body : MessageBody,
      ((∀ range ∈ body.reservedRanges, -2 ^ 31 < range.stop) → ∃ items written,
        messageReserved body = .ok items ∧
          (layout.write items).render width = layout.render width ++ written ∧
          Reserved.read? 536870911 written = some (Reserved.statements
            (body.reservedRanges.map fun range => (range.start, range.stop - 1))
            body.reservedNames) ∧
          (body.reservedRanges = [] → body.reservedNames = [] → written = "")) ∧
        ∀ range ∈ body.reservedRanges, -2 ^ 31 < range.stop → range.stop < 2 ^ 31 →
          (Int32.ofInt range.stop - 1).toInt = range.stop - 1) ∧
      ∀ enumeration : Enumeration, ∃ written,
        (layout.write (enumReserved enumeration)).render width = layout.render width ++ written ∧
          Reserved.read? 2147483647 written = some (Reserved.statements
            (enumeration.reservedRanges.map fun range => (range.start, range.stop))
            enumeration.reservedNames) ∧
          (enumeration.reservedRanges = [] → enumeration.reservedNames = [] → written = "") := by
  refine ⟨fun body => ⟨fun hlow => ?_, fun range _ hlow hhigh => ?_⟩, fun enumeration => ?_⟩
  · obtain ⟨written, hwritten, hread, hempty⟩ := exists_read?_reservedLines maxFieldNumber
      (body.reservedRanges.map fun range => (range.start, range.stop - 1)) body.reservedNames layout
      width
    rw [List.map_map] at hwritten
    exact ⟨_, written, messageReserved_eq_ok.2 ⟨hlow, rfl⟩, hwritten, hread,
      fun hranges => hempty (by rw [hranges]; rfl)⟩
  · have hstop : (Int32.ofInt range.stop).toInt = range.stop :=
      Int32.toInt_ofInt_of_le (by omega) hhigh
    have hone : (1 : Int32).toInt = 1 := rfl
    rw [Int32.toInt_sub, hstop, hone, Int.bmod_eq_of_le (by omega) (by omega)]
  · have hread := exists_read?_reservedLines maxEnumNumber
      (enumeration.reservedRanges.map fun range => (range.start, range.stop))
      enumeration.reservedNames layout width
    simp only [List.map_map, List.map_eq_nil_iff] at hread
    exact hread

/-- Ranges of one number, up to the highest, without bounds, and down to the lowest
number of all, and a name that looks like the end of a statement. -/
def reservedBody : MessageBody where
  reservedRanges := [⟨some 2, some 3⟩, ⟨some 9, some 12⟩, ⟨some 100, some 536870912⟩,
    ⟨some 536870911, some 536870912⟩, ⟨none, none⟩, ⟨some 5, some (-2147483647)⟩]
  reservedNames := ["foo", "a\", \n;"]

theorem read?_reserved_reservedBody :
    (∀ range ∈ reservedBody.reservedRanges, -2 ^ 31 < range.stop) ∧
      (∃ items written, messageReserved reservedBody = .ok items ∧
        (Layout.write items {}).render 2 = "" ++ written ∧
        "" ++ written =
          "reserved 2, 9 to 11, 100 to max, 536870911, 0 to -1, 5 to -2147483648;\n" ++
            "reserved \"foo\", \"a\\\", \\n;\";\n" ∧
        Reserved.read? 536870911 written = some
          [.ranges [(2, 2), (9, 11), (100, 536870911), (536870911, 536870911), (0, -1),
            (5, -2147483648)], .names ["foo", "a\", \n;"]]) ∧
      -2 ^ 31 < (-2147483647 : Int) ∧ (-2147483647 : Int) < 2 ^ 31 ∧
      (Int32.ofInt (-2147483647) - 1).toInt = -2147483648 := by
  have hlow : ∀ range ∈ reservedBody.reservedRanges, -2 ^ 31 < range.stop := by decide
  have hprinted : (messageReserved reservedBody).toOption.map (fun items =>
      (Layout.write items {}).render 2) =
        some ("reserved 2, 9 to 11, 100 to max, 536870911, 0 to -1, 5 to -2147483648;\n" ++
          "reserved \"foo\", \"a\\\", \\n;\";\n") := by
    decide
  have hreads := (read?_reserved {} 2).1 reservedBody
  obtain ⟨items, written, hitems, hwritten, hread, -⟩ := hreads.1 hlow
  rw [hitems, Except.toOption, Option.map_some, Option.some.injEq] at hprinted
  exact ⟨hlow, ⟨items, written, hitems, hwritten, hwritten.symm.trans hprinted, hread⟩, by decide,
    by decide, hreads.2 ⟨some 5, some (-2147483647)⟩ (by decide) (by decide) (by decide)⟩

end ProtoSource.Render
