/-!
# Layout

Text is laid out as lines, each at a nesting depth. The width of a level enters only when the lines
are put together. A blank line separates blocks: none is added at the very start, after an opening
brace or after another blank line.
-/

namespace ProtoSource.Text

/-- A line without its indentation. -/
structure Line where
  depth : Nat
  text : String
  deriving DecidableEq, Repr

/-- An empty line is not indented. -/
def Line.render (width : Nat) (line : Line) : String :=
  if line.text.isEmpty then
    "\n"
  else
    String.ofList (List.replicate (line.depth * width) ' ') ++ line.text ++ "\n"

/-- The lines written so far, the last one first, and the depth of the next. -/
structure Layout where
  written : List Line := []
  depth : Nat := 0
  deriving DecidableEq, Repr

namespace Layout

def lines (layout : Layout) : List Line :=
  layout.written.reverse

def line (text : String) (layout : Layout) : Layout :=
  { layout with written := ⟨layout.depth, text⟩ :: layout.written }

/-- After these lines a blank line would separate nothing. -/
def needsNoBlank : List Line → Bool
  | [] => true
  | last :: before =>
    match last.text.toList.getLast? with
    | none => !before.isEmpty
    | some char => char == '\x7b' || char == '\n'

def blank (layout : Layout) : Layout :=
  if needsNoBlank layout.written then layout else layout.line ""

/-- Starts a block. -/
def enter (header : String) (layout : Layout) : Layout :=
  let opened := layout.line (header ++ " \x7b")
  { opened with depth := layout.depth + 1 }

/-- Ends a block; without an open one the depth stays zero. -/
def leave (suffix : String) (layout : Layout) : Layout :=
  line ("\x7d" ++ suffix) { layout with depth := layout.depth - 1 }

/-- All lines, each level indented by `width` spaces. -/
def render (width : Nat) (layout : Layout) : String :=
  String.join (layout.lines.map (Line.render width))

@[simp]
theorem lines_line (text : String) (layout : Layout) :
    (layout.line text).lines = layout.lines ++ [⟨layout.depth, text⟩] := by
  simp [line, lines]

theorem lines_blank (layout : Layout) :
    layout.blank.lines =
      layout.lines ++ if needsNoBlank layout.written then [] else [⟨layout.depth, ""⟩] := by
  unfold blank
  split <;> simp

@[simp]
theorem lines_enter (header : String) (layout : Layout) :
    (layout.enter header).lines = layout.lines ++ [⟨layout.depth, header ++ " \x7b"⟩] := by
  simp [enter, line, lines]

@[simp]
theorem lines_leave (suffix : String) (layout : Layout) :
    (layout.leave suffix).lines = layout.lines ++ [⟨layout.depth - 1, "\x7d" ++ suffix⟩] := by
  simp [leave, line, lines]

end Layout

/-- A piece of laid-out text. -/
inductive Item where
  | line (text : String)
  | blank
  /-- A header, the items in braces, and what follows the closing brace. -/
  | block (header : String) (items : List Item) (suffix : String)

mutual

def Layout.writeItem : Item → Layout → Layout
  | .line text, layout => layout.line text
  | .blank, layout => layout.blank
  | .block header items suffix, layout => (write items (layout.enter header)).leave suffix

/-- Writes items one after the other. -/
def Layout.write : List Item → Layout → Layout
  | [], layout => layout
  | item :: rest, layout => write rest (writeItem item layout)

end

/-- The text of `items` with levels of `width` spaces. -/
def Item.render (width : Nat) (items : List Item) : String :=
  (Layout.write items {}).render width

end ProtoSource.Text
