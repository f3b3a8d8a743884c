import Mathlib.Data.List.DropRight
import ProtoSource.Proofs.Text.Names
import ProtoSource.Text.Layout

/-!
# Reading blocks back

Laid-out text shows its structure: a line that ends in an opening brace starts a
block, a line that starts with a closing brace ends one, and any other line that is
not empty is a statement.  This module states that reading and proves that what is
read from the text of some items are the items, whatever the width of a level, as
long as no line of theirs can be mistaken for something else.
-/

namespace ProtoSource.Text

/-- What has been read: the statements of the innermost open block, the last one
first, and for each block that is open its header and the statements before it. -/
structure Reading where
  done : List Item := []
  around : List (String × List Item) := []

/-- The header of a block, from the line that opens it. -/
def headerOf (line : List Char) : String :=
  String.ofList (line.dropLast.rdropWhile (· == ' '))

namespace Reading

/-- Reads one line.  A block cannot end where none is open. -/
def step (reading : Reading) (line : List Char) : Option Reading :=
  let text := line.dropWhile (· == ' ')
  if text.getLast? = some '\x7b' then
    some ⟨[], (headerOf text, reading.done) :: reading.around⟩
  else if text.head? = some '\x7d' then
    match reading.around with
    | [] => none
    | (header, before) :: outer =>
      some ⟨.block header reading.done.reverse (String.ofList text.tail) :: before, outer⟩
  else if text.isEmpty then
    some reading
  else
    some { reading with done := .line (String.ofList text) :: reading.done }

/-- The statements at the top, once every block is closed. -/
def result (reading : Reading) : Option (List Item) :=
  if reading.around.isEmpty then some reading.done.reverse else none

/-- More statements have been read in the innermost block. -/
def push (reading : Reading) (items : List Item) : Reading :=
  { reading with done := items.reverse ++ reading.done }

@[simp]
theorem push_nil (reading : Reading) : reading.push [] = reading := rfl

theorem push_append (reading : Reading) (items others : List Item) :
    reading.push (items ++ others) = (reading.push items).push others := by
  simp [push]

end Reading

/-- The statements of a text, with the blocks they stand in. -/
def readItems (text : String) : Option (List Item) := do
  let reading ← (text.toList.splitOn '\n').foldlM Reading.step {}
  reading.result

mutual

/-- An item as it is read back: a blank line says nothing. -/
def Item.statements : Item → List Item
  | .line text => [.line text]
  | .blank => []
  | .block header items suffix => [.block header (statementsOf items) suffix]

def statementsOf : List Item → List Item
  | [] => []
  | item :: rest => item.statements ++ statementsOf rest

end

theorem statementsOf_eq_flatMap (items : List Item) :
    statementsOf items = items.flatMap Item.statements := by
  induction items with
  | nil => rfl
  | cons item rest ih => rw [statementsOf, List.flatMap_cons, ih]

@[simp]
theorem statementsOf_append (items others : List Item) :
    statementsOf (items ++ others) = statementsOf items ++ statementsOf others := by
  simp only [statementsOf_eq_flatMap, List.flatMap_append]

theorem statementsOf_eq_self {items : List Item}
    (hitems : ∀ item ∈ items, item.statements = [item]) :
    statementsOf items = items := by
  rw [statementsOf_eq_flatMap, List.flatMap_congr hitems, List.flatMap_singleton']

/-- The text stays on one line. -/
def OneLine (text : String) : Prop :=
  '\n' ∉ text.toList

instance (text : String) : Decidable (OneLine text) :=
  inferInstanceAs (Decidable (_ ∉ _))

/-- The text can start a line that neither ends a block nor loses an indentation of
its own. -/
structure StartsLine (text : String) : Prop where
  oneLine : OneLine text
  first : ∃ char ∈ text.toList.head?, char ≠ ' ' ∧ char ≠ '\x7d'

instance (text : String) : Decidable (StartsLine text) :=
  decidable_of_iff (OneLine text ∧ ∃ char ∈ text.toList.head?, char ≠ ' ' ∧ char ≠ '\x7d')
    ⟨fun ⟨hline, hfirst⟩ => ⟨hline, hfirst⟩, fun htext => ⟨htext.oneLine, htext.first⟩⟩

/-- Every line of the item is read as what it is. -/
inductive Item.Readable : Item → Prop where
  | line {text : String} (hstarts : StartsLine text)
      (hlast : text.toList.getLast? ≠ some '\x7b') : Readable (.line text)
  | blank : Readable .blank
  | block {header : String} {items : List Item} {suffix : String} (hstarts : StartsLine header)
      (hlast : header.toList.getLast? ≠ some ' ') (hitems : ∀ item ∈ items, Readable item)
      (hsuffix : OneLine suffix) (hend : suffix.toList.getLast? ≠ some '\x7b') :
      Readable (.block header items suffix)

theorem oneLine_append {text more : String} :
    OneLine (text ++ more) ↔ OneLine text ∧ OneLine more := by
  simp [OneLine]

theorem StartsLine.append {text more : String} (htext : StartsLine text) (hmore : OneLine more) :
    StartsLine (text ++ more) where
  oneLine := oneLine_append.2 ⟨htext.oneLine, hmore⟩
  first := by
    obtain ⟨char, hchar, hne⟩ := htext.first
    refine ⟨char, ?_, hne⟩
    rw [String.toList_append, List.head?_append, Option.mem_def.1 hchar]
    rfl

/-- A line as it stands in the text, without its break. -/
def Line.shown (width : Nat) (line : Line) : List Char :=
  if line.text.isEmpty then [] else List.replicate (line.depth * width) ' ' ++ line.text.toList

theorem Line.toList_render (width : Nat) (line : Line) :
    (line.render width).toList = line.shown width ++ ['\n'] := by
  unfold render shown
  split <;> simp

theorem Line.notMem_shown (width : Nat) {line : Line} (hline : OneLine line.text) :
    '\n' ∉ line.shown width := by
  unfold shown
  split
  · simp
  · rw [List.mem_append, not_or]
    exact ⟨fun hmem => absurd (List.eq_of_mem_replicate hmem) (by decide), hline⟩

/-- The lines are read as the items, in whatever block they stand. -/
structure ReadsAs (lines : List Line) (items : List Item) : Prop where
  oneLine : ∀ line ∈ lines, OneLine line.text
  foldlM_step : ∀ width reading,
    (lines.map (Line.shown width)).foldlM Reading.step reading = some (reading.push items)

theorem dropWhile_shown (width depth : Nat) {text : String} {first : Char}
    (hfirst : first ∈ text.toList.head?) (hblank : first ≠ ' ') :
    (Line.shown width ⟨depth, text⟩).dropWhile (· == ' ') = text.toList := by
  obtain ⟨rest, hchars⟩ := List.head?_eq_some_iff.1 hfirst
  have hempty : text.isEmpty = false := by
    rw [Bool.eq_false_iff, ne_eq, String.isEmpty_iff]
    rintro rfl
    simp at hfirst
  rw [Line.shown, if_neg (by simp [hempty]), List.dropWhile_append_of_pos]
  · rw [hchars, List.dropWhile_cons_of_neg]
    simpa using hblank
  · intro char hchar
    simp [List.eq_of_mem_replicate hchar]

namespace ReadsAs

theorem nil : ReadsAs [] [] :=
  ⟨by simp, fun _ _ => rfl⟩

theorem append {lines others : List Line} {items more : List Item} (hlines : ReadsAs lines items)
    (hothers : ReadsAs others more) : ReadsAs (lines ++ others) (items ++ more) where
  oneLine := List.forall_mem_append.2 ⟨hlines.oneLine, hothers.oneLine⟩
  foldlM_step := fun width reading => by
    rw [List.map_append, List.foldlM_append, hlines.foldlM_step, Reading.push_append]
    exact hothers.foldlM_step width _

theorem empty (depth : Nat) : ReadsAs [⟨depth, ""⟩] [] where
  oneLine := by simp [OneLine]
  foldlM_step := fun width reading => by
    have hshown : Line.shown width ⟨depth, ""⟩ = [] := rfl
    rw [List.map_singleton, hshown]
    rfl

theorem line (depth : Nat) {text : String} (hstarts : StartsLine text)
    (hlast : text.toList.getLast? ≠ some '\x7b') : ReadsAs [⟨depth, text⟩] [.line text] where
  oneLine := by simpa using hstarts.oneLine
  foldlM_step := fun width reading => by
    obtain ⟨first, hfirst, hblank, hbrace⟩ := hstarts.first
    have hhead : text.toList.head? = some first := hfirst
    have hempty : text.toList.isEmpty = false := by
      rw [Bool.eq_false_iff, ne_eq, List.isEmpty_iff]
      intro hnil
      simp [hnil] at hhead
    have hstep : reading.step (Line.shown width ⟨depth, text⟩) =
        some (reading.push [.line text]) := by
      rw [Reading.step, dropWhile_shown width depth hfirst hblank, if_neg hlast, hhead,
        if_neg (by simpa using hbrace), hempty]
      simp [Reading.push]
    rw [List.map_singleton, List.foldlM_cons, hstep]
    rfl

/-- A block is read once its items are. -/
theorem block (depth depth' : Nat) {header suffix : String} {lines : List Line} {items : List Item}
    (hstarts : StartsLine header) (hlast : header.toList.getLast? ≠ some ' ')
    (hlines : ReadsAs lines items) (hsuffix : OneLine suffix)
    (hend : suffix.toList.getLast? ≠ some '\x7b') :
    ReadsAs (⟨depth, header ++ " \x7b"⟩ :: lines ++ [⟨depth', "\x7d" ++ suffix⟩])
      [.block header items suffix] where
  oneLine := by
    have hopen : OneLine (header ++ " \x7b") :=
      oneLine_append.2 ⟨hstarts.oneLine, by decide⟩
    have hclose : OneLine ("\x7d" ++ suffix) := oneLine_append.2 ⟨by decide, hsuffix⟩
    rw [List.forall_mem_append, List.forall_mem_cons, List.forall_mem_singleton]
    exact ⟨⟨hopen, hlines.oneLine⟩, hclose⟩
  foldlM_step := fun width reading => by
    have hopen : reading.step (Line.shown width ⟨depth, header ++ " \x7b"⟩) =
        some ⟨[], (header, reading.done) :: reading.around⟩ := by
      have hwhole : StartsLine (header ++ " \x7b") := hstarts.append (by decide)
      obtain ⟨first, hfirst, hblank, -⟩ := hwhole.first
      have htext : (header ++ " \x7b").toList = header.toList ++ [' ', '\x7b'] := by simp
      have hheader : headerOf (header ++ " \x7b").toList = header := by
        have hkept : (header.toList ++ [' ']).rdropWhile (· == ' ') = header.toList := by
          rw [List.rdropWhile_concat_pos _ _ _ (by simp), List.rdropWhile_eq_self_iff]
          intro hne hblank
          refine hlast ?_
          rw [List.getLast?_eq_getLast_of_ne_nil hne, beq_iff_eq.1 hblank]
        rw [headerOf, htext, show header.toList ++ [' ', '\x7b'] =
          (header.toList ++ [' ']) ++ ['\x7b'] by simp, List.dropLast_concat, hkept,
          String.ofList_toList]
      rw [Reading.step, dropWhile_shown width depth hfirst hblank, hheader]
      simp [htext]
    have hclose (inner : List Item) : Reading.step ⟨inner, (header, reading.done) :: reading.around⟩
          (Line.shown width ⟨depth', "\x7d" ++ suffix⟩) =
        some (reading.push [.block header inner.reverse suffix]) := by
      have hchars : ("\x7d" ++ suffix).toList = '\x7d' :: suffix.toList := by simp
      have hunlike : ('\x7d' :: suffix.toList).getLast? ≠ some '\x7b' := by
        cases hrest : suffix.toList with
        | nil => decide
        | cons char rest =>
            rw [List.getLast?_cons_cons, ← hrest]
            exact hend
      have hfirst : '\x7d' ∈ ("\x7d" ++ suffix).toList.head? := by simp
      rw [Reading.step, dropWhile_shown width depth' hfirst (by decide), hchars]
      simp [hunlike, Reading.push]
    rw [List.map_append, List.map_cons, List.map_singleton, List.cons_append,
      List.foldlM_cons, hopen, Option.bind_eq_bind, Option.bind_some, List.foldlM_append,
        hlines.foldlM_step,
      Option.bind_eq_bind, Option.bind_some, List.foldlM_cons]
    rw [Reading.push, hclose]
    simp

end ReadsAs

/-! ## Items -/

/-- The layout has grown by lines that are read as the items. -/
def Layout.Grows (layout grown : Layout) (items : List Item) : Prop :=
  ∃ added, grown.lines = layout.lines ++ added ∧ grown.depth = layout.depth ∧ ReadsAs added items

namespace Layout

theorem Grows.refl (layout : Layout) : layout.Grows layout [] :=
  ⟨[], by simp, rfl, .nil⟩

theorem Grows.trans {layout grown further : Layout} {items more : List Item}
    (hgrows : layout.Grows grown items) (hfurther : grown.Grows further more) :
    layout.Grows further (items ++ more) := by
  obtain ⟨added, hlines, hdepth, hreads⟩ := hgrows
  obtain ⟨added', hlines', hdepth', hreads'⟩ := hfurther
  exact ⟨added ++ added', by rw [hlines', hlines, List.append_assoc], hdepth'.trans hdepth,
    hreads.append hreads'⟩

theorem write_append (items others : List Item) (layout : Layout) :
    layout.write (items ++ others) = (layout.write items).write others := by
  induction items generalizing layout with
  | nil => rfl
  | cons item rest ih =>
      rw [List.cons_append, write, write]
      exact ih _

theorem grows_write {items : List Item}
    (hitems : ∀ item ∈ items, ∀ layout : Layout,
      layout.Grows (layout.writeItem item) item.statements)
    (layout : Layout) : layout.Grows (layout.write items) (statementsOf items) := by
  induction items generalizing layout with
  | nil =>
      rw [write, statementsOf]
      exact .refl layout
  | cons item rest ih =>
      rw [List.forall_mem_cons] at hitems
      rw [write, statementsOf]
      exact (hitems.1 layout).trans (ih hitems.2 _)

theorem grows_writeItem {item : Item} (hitem : item.Readable) (layout : Layout) :
    layout.Grows (layout.writeItem item) item.statements := by
  induction hitem generalizing layout with
  | line hstarts hlast =>
      rw [writeItem, Item.statements]
      exact ⟨_, lines_line _ _, rfl, .line _ hstarts hlast⟩
  | blank =>
      rw [writeItem, Item.statements, blank]
      split
      · exact .refl layout
      · exact ⟨_, lines_line _ _, rfl, .empty _⟩
  | @block header _ _ hstarts hlast _ hsuffix hend ih =>
      obtain ⟨added, hlines, hdepth, hreads⟩ := grows_write ih (layout.enter header)
      rw [writeItem, Item.statements]
      refine ⟨_, ?_, ?_, .block layout.depth ((layout.enter header).depth - 1) hstarts hlast hreads
        hsuffix hend⟩
      · rw [lines_leave, hlines, hdepth, lines_enter, List.append_assoc, List.append_assoc,
          List.singleton_append, ← List.cons_append]
      · -- The depth that the block was entered at is restored.
        rw [leave, line, hdepth]
        simp [enter]

end Layout

/-- Parts that are each ended by the same element are found again. -/
theorem splitOn_flatMap_concat {α : Type} [BEq α] [LawfulBEq α] {last : α} {parts : List (List α)}
    (hparts : ∀ part ∈ parts, last ∉ part) :
    (parts.flatMap (· ++ [last])).splitOn last = parts ++ [[]] := by
  induction parts with
  | nil => rfl
  | cons part rest ih =>
      rw [List.forall_mem_cons] at hparts
      rw [List.flatMap_cons, List.append_assoc, List.singleton_append,
        List.splitOn_append_cons_self_of_not_mem hparts.1, ih hparts.2]
      rfl

/-- The lines of a text are the lines that were put together, and nothing follows the
last of them. -/
theorem splitOn_join_render (width : Nat) {lines : List Line}
    (hlines : ∀ line ∈ lines, OneLine line.text) :
    (String.join (lines.map (Line.render width))).toList.splitOn '\n' =
      lines.map (Line.shown width) ++ [[]] := by
  have hchars : (String.join (lines.map (Line.render width))).toList =
      (lines.map (Line.shown width)).flatMap (· ++ ['\n']) := by
    rw [String.toList_join, List.flatMap_map, List.flatMap_map]
    exact List.flatMap_congr fun line _ => line.toList_render width
  rw [hchars, splitOn_flatMap_concat]
  exact List.forall_mem_map.2 fun line hline => Line.notMem_shown width (hlines line hline)

/-- What follows in the text of some items is read as the items that follow. -/
theorem readItems_render {items : List Item} (hitems : ∀ item ∈ items, item.Readable)
    (layout : Layout) (width : Nat) :
    ∃ body, (layout.write items).render width = layout.render width ++ body ∧
      readItems body = some (statementsOf items) := by
  obtain ⟨added, hlines, -, honeLine, hreads⟩ :=
    Layout.grows_write (fun item hitem => Layout.grows_writeItem (hitems item hitem)) layout
  refine ⟨String.join (added.map (Line.render width)), ?_, ?_⟩
  · rw [Layout.render, hlines, List.map_append, String.join_append]
    rfl
  · rw [readItems, splitOn_join_render width honeLine, List.foldlM_append, hreads]
    simp [Reading.step, Reading.result, Reading.push]

end ProtoSource.Text
