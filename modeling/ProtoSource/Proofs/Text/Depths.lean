import ProtoSource.Proofs.Text.Blocks

/-!
# Depths of lines

Items are laid out without a width: every line has a depth, one more inside of each
block, and the depth that items start at is the depth that they end at.  Putting the
lines together under a width gives the text that is written directly under it, where
each blank line depends on the text before it.  So that text decides the same for
every width.
-/

namespace ProtoSource.Text

/-- The lines of items at a depth.  The items of a block are one deeper than the lines
that open and close it. -/
inductive LaidOut : Nat → List Item → List Line → Prop where
  | nil {depth : Nat} : LaidOut depth [] []
  | line {depth : Nat} {text : String} {rest : List Item} {lines : List Line} :
      LaidOut depth rest lines → LaidOut depth (.line text :: rest) (⟨depth, text⟩ :: lines)
  | noBlank {depth : Nat} {rest : List Item} {lines : List Line} :
      LaidOut depth rest lines → LaidOut depth (.blank :: rest) lines
  | blank {depth : Nat} {rest : List Item} {lines : List Line} :
      LaidOut depth rest lines → LaidOut depth (.blank :: rest) (⟨depth, ""⟩ :: lines)
  | block {depth : Nat} {header suffix : String} {items rest : List Item}
    {inner lines : List Line} :
      LaidOut (depth + 1) items inner → LaidOut depth rest lines →
        LaidOut depth (.block header items suffix :: rest)
          (⟨depth, header ++ " \x7b"⟩ :: inner ++ ⟨depth, "\x7d" ++ suffix⟩ :: lines)

namespace LaidOut

variable {depth : Nat} {items : List Item} {lines : List Line}

theorem depth_head? (hlaid : LaidOut depth items lines) :
    ∀ line ∈ lines.head?, line.depth = depth := by
  induction hlaid with
  | noBlank _ ih => exact ih
  | _ => simp

theorem depth_getLast? (hlaid : LaidOut depth items lines) :
    ∀ line ∈ lines.getLast?, line.depth = depth := by
  have hcons {depth : Nat} (text : String) {rest : List Line}
      (hrest : ∀ line ∈ rest.getLast?, line.depth = depth) :
      ∀ line ∈ (⟨depth, text⟩ :: rest : List Line).getLast?, line.depth = depth := by
    cases rest with
    | nil => simp
    | cons next rest => rwa [List.getLast?_cons_cons]
  induction hlaid with
  | nil => simp
  | line _ ih => exact hcons _ ih
  | noBlank _ ih => exact ih
  | blank _ ih => exact hcons _ ih
  | block _ _ _ ih =>
      rw [List.getLast?_append_of_ne_nil _ (List.cons_ne_nil _ _)]
      exact hcons _ ih

end LaidOut

namespace Layout

/-- The layout has grown by the lines of the items, and the depth is what it was. -/
def LaysOut (layout grown : Layout) (items : List Item) : Prop :=
  ∃ added, grown.lines = layout.lines ++ added ∧ grown.depth = layout.depth ∧
    LaidOut layout.depth items added

theorem LaysOut.cons {layout middle grown : Layout} {item : Item} {rest : List Item}
    (hitem : layout.LaysOut middle [item]) (hrest : middle.LaysOut grown rest) :
    layout.LaysOut grown (item :: rest) := by
  obtain ⟨added, hlines, hdepth, hadded⟩ := hitem
  obtain ⟨more, hlines', hdepth', hmore⟩ := hrest
  rw [hdepth] at hmore
  refine ⟨added ++ more, by rw [hlines', hlines, List.append_assoc], hdepth'.trans hdepth, ?_⟩
  cases hadded with
  | line hnil => cases hnil; exact .line hmore
  | noBlank hnil => cases hnil; exact .noBlank hmore
  | blank hnil => cases hnil; exact .blank hmore
  | block hinner hnil =>
      cases hnil
      simpa using LaidOut.block hinner hmore

mutual

theorem laysOut_writeItem (item : Item) (layout : Layout) :
    layout.LaysOut (layout.writeItem item) [item] := by
  cases item with
  | line text => exact ⟨_, lines_line text layout, rfl, .line .nil⟩
  | blank =>
      rw [writeItem, blank]
      split
      · exact ⟨[], (List.append_nil _).symm, rfl, .noBlank .nil⟩
      · exact ⟨_, lines_line "" layout, rfl, .blank .nil⟩
  | block header items suffix =>
      obtain ⟨inner, hlines, hdepth, hinner⟩ := laysOut_write items (layout.enter header)
      have hleave : (write items (layout.enter header)).depth - 1 = layout.depth := by
        rw [hdepth]
        rfl
      refine ⟨_, ?_, ?_, .block hinner .nil⟩
      · rw [writeItem, lines_leave, hlines, lines_enter, hleave]
        simp
      · rw [writeItem, leave, line]
        exact hleave

theorem laysOut_write (items : List Item) (layout : Layout) :
    layout.LaysOut (layout.write items) items := by
  cases items with
  | nil => exact ⟨[], (List.append_nil _).symm, rfl, .nil⟩
  | cons item rest =>
      rw [write]
      exact (laysOut_writeItem item layout).cons (laysOut_write rest _)

end

end Layout

/-- The layout with more lines written. -/
def Layout.extend (layout : Layout) (lines : List Line) : Layout :=
  { layout with written := lines.reverse ++ layout.written }

namespace Layout

@[simp]
theorem depth_extend (layout : Layout) (lines : List Line) :
    (layout.extend lines).depth = layout.depth := rfl

theorem lines_extend (layout : Layout) (lines : List Line) :
    (layout.extend lines).lines = layout.lines ++ lines := by
  simp [extend, Layout.lines]

theorem extend_extend (layout : Layout) (lines others : List Line) :
    (layout.extend lines).extend others = layout.extend (lines ++ others) := by
  simp [extend]

theorem write_map_line (texts : List String) (layout : Layout) :
    layout.write (texts.map .line) = layout.extend (texts.map (Line.mk layout.depth)) := by
  induction texts generalizing layout with
  | nil => rfl
  | cons text rest ih =>
      rw [List.map_cons, write, writeItem, ih]
      exact extend_extend layout [⟨layout.depth, text⟩] _

/-- A block of lines is written one level further in. -/
theorem writeItem_block (header suffix : String) (texts : List String) (layout : Layout) :
    layout.writeItem (.block header (texts.map .line) suffix) = layout.extend
      (⟨layout.depth, header ++ " \x7b"⟩ :: texts.map (Line.mk (layout.depth + 1)) ++
        [⟨layout.depth, "\x7d" ++ suffix⟩]) := by
  rw [writeItem, write_map_line]
  simp [leave, enter, line, extend]

end Layout

/-! ## Text by width -/

/-- After this text a blank line separates something: the text is not empty, and it ends
neither in an opening brace nor in an empty line. -/
def separates (text : String) : Bool :=
  !(text.toList.isEmpty || ['\x7b', '\n'].isSuffixOf text.toList ||
    ['\n', '\n'].isSuffixOf text.toList)

/-- Text that is written directly, and the depth of the next line. -/
structure Sheet where
  text : String := ""
  depth : Nat := 0

namespace Sheet

variable (width : Nat)

def line (text : String) (sheet : Sheet) : Sheet :=
  { sheet with text := sheet.text ++ Line.render width ⟨sheet.depth, text⟩ }

def blank (sheet : Sheet) : Sheet :=
  if separates sheet.text then { sheet with text := sheet.text ++ "\n" } else sheet

def enter (header : String) (sheet : Sheet) : Sheet :=
  { sheet.line width (header ++ " \x7b") with depth := sheet.depth + 1 }

def leave (suffix : String) (sheet : Sheet) : Sheet :=
  line width ("\x7d" ++ suffix) { sheet with depth := sheet.depth - 1 }

mutual

def writeItem : Item → Sheet → Sheet
  | .line text, sheet => sheet.line width text
  | .blank, sheet => sheet.blank
  | .block header items suffix, sheet => (write items (sheet.enter width header)).leave width suffix

/-- Writes items one after the other, each line with its indentation. -/
def write : List Item → Sheet → Sheet
  | [], sheet => sheet
  | item :: rest, sheet => write rest (writeItem item sheet)

end

end Sheet

namespace Layout

mutual

/-- What is written stays written. -/
theorem written_writeItem (item : Item) {layout : Layout} (hwritten : layout.written ≠ []) :
    (layout.writeItem item).written ≠ [] := by
  cases item with
  | line text => simp [writeItem, line]
  | blank =>
      rw [writeItem, blank]
      split
      · exact hwritten
      · simp [line]
  | block header items suffix => simp [writeItem, leave, line]

theorem written_write (items : List Item) {layout : Layout} (hwritten : layout.written ≠ []) :
    (layout.write items).written ≠ [] := by
  cases items with
  | nil => exact hwritten
  | cons item rest => exact written_write rest (written_writeItem item hwritten)

end

theorem getLast?_render (width : Nat) {layout : Layout} (hwritten : layout.written ≠ []) :
    (layout.render width).toList.getLast? = some '\n' := by
  obtain ⟨last, before, hlines⟩ := List.exists_cons_of_ne_nil hwritten
  have hlast : (last.render width).toList.getLast? = some '\n' := by
    unfold Line.render
    split
    · rfl
    · simp
  rw [render, lines, hlines, List.reverse_cons, List.map_append, String.toList_join,
    List.flatMap_append, List.getLast?_append]
  simp [hlast]

section Sheets

variable (width : Nat)

/-- What has been written of a layout. -/
def sheet (layout : Layout) : Sheet :=
  ⟨layout.render width, layout.depth⟩

theorem render_line (text : String) (layout : Layout) :
    (layout.line text).render width = layout.render width ++
      Line.render width ⟨layout.depth, text⟩ := by
  rw [render, lines_line, List.map_append, String.join_append]
  simp [render]

theorem isSuffixOf_concat (char : Char) (chars : List Char) :
    [char, '\n'].isSuffixOf (chars ++ ['\n']) = (chars.getLast? == some char) := by
  have hreverse : [char, '\n'].isSuffixOf (chars ++ ['\n']) =
      ['\n', char].isPrefixOf ('\n' :: chars.reverse) := by
    rw [List.isSuffixOf, List.reverse_append]
    rfl
  rw [hreverse, ← List.head?_reverse]
  cases chars.reverse with
  | nil => simp
  | cons last rest => simp [List.isPrefixOf, BEq.comm]

/-- A line ends as its text does, indented or not, and after an empty line only another
line that has ended counts. -/
theorem separates_render (layout : Layout) :
    separates (layout.render width) = !needsNoBlank layout.written := by
  obtain ⟨written, depth⟩ := layout
  cases written with
  | nil => rfl
  | cons last before =>
      have hrender : (render width ⟨last :: before, depth⟩).toList =
          ((render width ⟨before, depth⟩).toList ++ last.shown width) ++ ['\n'] := by
        rw [render, lines, List.reverse_cons, List.map_append, String.join_append,
          String.toList_append]
        simp [render, lines, Line.toList_render]
      have hfilled :
          (((render width ⟨before, depth⟩).toList ++ last.shown width) ++ ['\n']).isEmpty =
          false := by
        rw [List.isEmpty_eq_false_iff]
        exact List.append_ne_nil_of_right_ne_nil _ (by simp)
      rw [separates, hrender, hfilled, isSuffixOf_concat, isSuffixOf_concat, List.getLast?_append,
        needsNoBlank]
      cases hlast : last.text.toList.getLast? with
      | none =>
          have hempty : last.text = "" := by simpa using hlast
          have hshown : last.shown width = [] := by simp [Line.shown, hempty]
          rw [hshown]
          cases before with
          | nil => rfl
          | cons line rest =>
              rw [getLast?_render width (by simp)]
              simp
      | some char =>
          have hshown : (last.shown width).getLast? = some char := by
            have hne : last.text ≠ "" := by
              rintro hempty
              simp [hempty] at hlast
            simp [Line.shown, hne, List.getLast?_append, hlast]
          simp [hshown]

theorem sheet_line (text : String) (layout : Layout) :
    (layout.line text).sheet width = (layout.sheet width).line width text := by
  simp only [sheet, Sheet.line, render_line]
  rfl

theorem sheet_blank (layout : Layout) : layout.blank.sheet width = (layout.sheet width).blank := by
  have hseparates : separates (layout.sheet width).text = !needsNoBlank layout.written :=
    separates_render width layout
  rw [blank, Sheet.blank, hseparates]
  cases needsNoBlank layout.written with
  | true => rfl
  | false => exact sheet_line width "" layout

theorem sheet_enter (header : String) (layout : Layout) :
    (layout.enter header).sheet width = (layout.sheet width).enter width header := by
  rw [Sheet.enter, ← sheet_line]
  rfl

theorem sheet_leave (suffix : String) (layout : Layout) :
    (layout.leave suffix).sheet width = (layout.sheet width).leave width suffix := by
  rw [leave, sheet_line]
  rfl

mutual

/-- Writing directly gives the text of the layout, whatever the width. -/
theorem sheet_writeItem (item : Item) (layout : Layout) :
    (layout.writeItem item).sheet width = (layout.sheet width).writeItem width item := by
  cases item with
  | line text => exact sheet_line width text layout
  | blank => exact sheet_blank width layout
  | block header items suffix =>
      rw [writeItem, Sheet.writeItem, sheet_leave, sheet_write items, sheet_enter]

theorem sheet_write (items : List Item) (layout : Layout) :
    (layout.write items).sheet width = (layout.sheet width).write width items := by
  cases items with
  | nil => rfl
  | cons item rest =>
      rw [write, Sheet.write, sheet_write rest, sheet_writeItem item]

end

end Sheets

end Layout

end ProtoSource.Text
