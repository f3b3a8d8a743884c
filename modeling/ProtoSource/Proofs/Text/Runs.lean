import Mathlib.Data.List.Chain
import ProtoSource.Proofs.Text.Depths

/-!
# Runs of calls

A layout is written by calls in any order, and blocks need not be balanced: a block
that is not open cannot be closed, so its end leaves the depth at zero.  After each
call the text has grown by whole lines.  Whether a blank line is among them can be
told from the lines of the text before, and from the end of that text alone.  If no
line is written empty, every empty line in the text of a whole run separates something.
-/

namespace ProtoSource.Text

/-- One call on a layout. -/
inductive Call where
  | line (text : String)
  | blank
  | enter (header : String)
  | leave (suffix : String)
  deriving DecidableEq, Repr

namespace Call

/-- The text that the call is given. -/
def text : Call → String
  | .line text => text
  | .blank => ""
  | .enter header => header
  | .leave suffix => suffix

def apply (layout : Layout) : Call → Layout
  | .line text => layout.line text
  | .blank => layout.blank
  | .enter header => layout.enter header
  | .leave suffix => layout.leave suffix

/-- How many blocks are open after the call if `depth` are open before. -/
def depthAfter (depth : Nat) : Call → Nat
  | .line _ => depth
  | .blank => depth
  | .enter _ => depth + 1
  | .leave _ => depth - 1

end Call

/-- The layout after calls. -/
def Layout.ofCalls (calls : List Call) : Layout :=
  calls.foldl Call.apply {}

/-- How many blocks are open after calls. -/
def openBlocks (calls : List Call) : Nat :=
  calls.foldl Call.depthAfter 0

/-- The text after calls, each level indented by `width` spaces. -/
def textOf (width : Nat) (calls : List Call) : String :=
  (Layout.ofCalls calls).render width

/-- The lines of a text, each without the break that ends it. -/
def linesOf (text : String) : List (List Char) :=
  (text.toList.splitOn '\n').dropLast

/-- The text of lines, each ended by a break. -/
def ofLines (lines : List (List Char)) : String :=
  String.join (lines.map fun line => String.ofList line ++ "\n")

/-- A blank line after these would separate nothing: there are none, the last one ends
in an opening brace, or it is empty and not the only one. -/
def SeparatesNothing (lines : List (List Char)) : Prop :=
  lines = [] ∨ (∃ last ∈ lines.getLast?, last.getLast? = some '\x7b') ∨
    lines.getLast? = some [] ∧ lines.length ≠ 1

instance (lines : List (List Char)) : Decidable (SeparatesNothing lines) :=
  inferInstanceAs (Decidable (_ ∨ _ ∨ _ ∧ _))

/-- The lines that a call adds at a depth, below the lines of the text so far. -/
def Call.added (width depth : Nat) (above : List (List Char)) : Call → List (List Char)
  | .line text => [Line.shown width ⟨depth, text⟩]
  | .blank => if SeparatesNothing above then [] else [[]]
  | .enter header => [Line.shown width ⟨depth, header ++ " \x7b"⟩]
  | .leave suffix => [Line.shown width ⟨depth - 1, "\x7d" ++ suffix⟩]

/-- Every empty line separates something: the text does not start with one, and none
follows another empty line or a line that ends in an opening brace. -/
structure WellSeparated (lines : List (List Char)) : Prop where
  first : lines.head? ≠ some []
  next : lines.IsChain fun line next => next = [] → line ≠ [] ∧ line.getLast? ≠ some '\x7b'

section Lines

variable (width : Nat)

theorem Line.shown_eq_nil_iff {line : Line} : line.shown width = [] ↔ line.text = "" := by
  unfold shown
  split
  · next hempty => simpa using hempty
  · next hfilled => simp_all

theorem Line.getLast?_shown (line : Line) :
    (line.shown width).getLast? = line.text.toList.getLast? := by
  unfold shown
  split
  · next hempty => simp [String.isEmpty_iff.1 hempty]
  · next hfilled =>
      refine List.getLast?_append_of_ne_nil _ ?_
      simpa using hfilled

theorem linesOf_render {layout : Layout} (hlines : ∀ line ∈ layout.lines, OneLine line.text) :
    linesOf (layout.render width) = layout.lines.map (Line.shown width) := by
  rw [linesOf, Layout.render, splitOn_join_render width hlines, List.dropLast_concat]

theorem render_eq_ofLines (layout : Layout) :
    layout.render width = ofLines (layout.lines.map (Line.shown width)) := by
  rw [Layout.render, ofLines, List.map_map]
  congr 1
  refine List.map_congr_left fun line _ => ?_
  rw [← String.ofList_toList (s := line.render width), Line.toList_render]
  simp

theorem ofLines_append (lines more : List (List Char)) :
    ofLines (lines ++ more) = ofLines lines ++ ofLines more := by
  rw [ofLines, List.map_append, String.join_append]
  rfl

/-- The last line decides as its text does. -/
theorem needsNoBlank_iff {layout : Layout} (hlines : ∀ line ∈ layout.lines, OneLine line.text) :
    Layout.needsNoBlank layout.written = true ↔
      SeparatesNothing (layout.lines.map (Line.shown width)) := by
  obtain ⟨written, depth⟩ := layout
  cases written with
  | nil => simp [Layout.needsNoBlank, Layout.lines, SeparatesNothing]
  | cons last before =>
      have hshown : ((Layout.mk (last :: before) depth).lines.map (Line.shown width)).getLast? =
          some (last.shown width) := by
        simp [Layout.lines]
      have hcount : ((Layout.mk (last :: before) depth).lines.map (Line.shown width)).length =
          before.length + 1 := by
        simp [Layout.lines]
      have hfilled : (Layout.mk (last :: before) depth).lines.map (Line.shown width) ≠ [] := by
        simp [Layout.lines]
      have honeLine : OneLine last.text := hlines last (by simp [Layout.lines])
      simp only [SeparatesNothing, hshown, hcount, hfilled, false_or, Option.mem_def,
        Option.some.injEq, exists_eq_left', Line.getLast?_shown, Line.shown_eq_nil_iff,
        Layout.needsNoBlank]
      cases hend : last.text.toList.getLast? with
      | none =>
          have hempty : last.text = "" := by simpa using hend
          simp [hempty]
      | some char =>
          have hbreak : char ≠ '\n' := fun heq => honeLine (heq ▸ List.mem_of_getLast? hend)
          have hsome : last.text ≠ "" := by
            rintro hempty
            simp [hempty] at hend
          simp [hbreak, hsome]

end Lines

theorem ofCalls_concat (calls : List Call) (call : Call) :
    Layout.ofCalls (calls ++ [call]) = call.apply (Layout.ofCalls calls) := by
  rw [Layout.ofCalls, List.foldl_concat]
  rfl

theorem depth_ofCalls (calls : List Call) : (Layout.ofCalls calls).depth = openBlocks calls := by
  induction calls using List.reverseRecOn with
  | nil => rfl
  | append_singleton calls call ih =>
      rw [ofCalls_concat, openBlocks, List.foldl_concat, ← openBlocks, ← ih]
      cases call with
      | blank =>
          rw [Call.apply, Layout.blank]
          split <;> rfl
      | _ => rfl

/-- The lines that a call adds to a layout, as they stand in the text. -/
theorem lines_apply (width : Nat) (call : Call) {layout : Layout}
    (hlines : ∀ line ∈ layout.lines, OneLine line.text) (hcall : OneLine call.text) :
    (∀ line ∈ (call.apply layout).lines, OneLine line.text) ∧
      (call.apply layout).lines.map (Line.shown width) = layout.lines.map (Line.shown width) ++
        call.added width layout.depth (layout.lines.map (Line.shown width)) := by
  -- Whatever the text, a line of its own is added.
  have hadd {text : String} (depth : Nat) (htext : OneLine text) {added : List Line}
      (hadded : added = layout.lines ++ [⟨depth, text⟩]) :
      (∀ line ∈ added, OneLine line.text) ∧ added.map (Line.shown width) =
        layout.lines.map (Line.shown width) ++ [Line.shown width ⟨depth, text⟩] := by
    subst hadded
    refine ⟨List.forall_mem_append.2 ⟨hlines, List.forall_mem_singleton.2 htext⟩, ?_⟩
    rw [List.map_append, List.map_singleton]
  cases call with
  | line text => exact hadd layout.depth hcall (Layout.lines_line text layout)
  | enter header =>
      exact hadd layout.depth (oneLine_append.2 ⟨hcall, by decide⟩)
        (Layout.lines_enter header layout)
  | leave suffix =>
      exact hadd (layout.depth - 1) (oneLine_append.2 ⟨by decide, hcall⟩)
        (Layout.lines_leave suffix layout)
  | blank =>
      have hnone := needsNoBlank_iff width hlines
      rw [Call.apply, Layout.lines_blank, Call.added]
      by_cases hneeds : Layout.needsNoBlank layout.written = true
      · rw [if_pos hneeds, if_pos (hnone.1 hneeds), List.append_nil, List.append_nil]
        exact ⟨hlines, rfl⟩
      · rw [if_neg hneeds, if_neg fun hlines => hneeds (hnone.2 hlines)]
        exact hadd layout.depth (by decide) rfl

/-! ## Runs -/

section Runs

variable (width : Nat)

theorem oneLine_ofCalls {calls : List Call} (hcalls : ∀ call ∈ calls, OneLine call.text) :
    ∀ line ∈ (Layout.ofCalls calls).lines, OneLine line.text := by
  induction calls using List.reverseRecOn with
  | nil => simp [Layout.ofCalls, Layout.lines]
  | append_singleton calls call ih =>
      rw [List.forall_mem_append, List.forall_mem_singleton] at hcalls
      rw [ofCalls_concat]
      exact (lines_apply 0 call (ih hcalls.1) hcalls.2).1

theorem linesOf_textOf {calls : List Call} (hcalls : ∀ call ∈ calls, OneLine call.text) :
    linesOf (textOf width calls) = (Layout.ofCalls calls).lines.map (Line.shown width) :=
  linesOf_render width (oneLine_ofCalls hcalls)

/-- The text is made of its lines, so it is empty or its last line has ended. -/
theorem ofLines_linesOf {calls : List Call} (hcalls : ∀ call ∈ calls, OneLine call.text) :
    ofLines (linesOf (textOf width calls)) = textOf width calls := by
  rw [linesOf_textOf width hcalls, textOf, render_eq_ofLines]

/-- A call adds its lines and changes none. -/
theorem linesOf_textOf_concat {calls : List Call} {call : Call}
    (hcalls : ∀ call ∈ calls, OneLine call.text) (hcall : OneLine call.text) :
    linesOf (textOf width (calls ++ [call])) = linesOf (textOf width calls) ++
      call.added width (openBlocks calls) (linesOf (textOf width calls)) := by
  have hconcat : ∀ given ∈ calls ++ [call], OneLine given.text :=
    List.forall_mem_append.2 ⟨hcalls, List.forall_mem_singleton.2 hcall⟩
  rw [linesOf_textOf width hconcat, linesOf_textOf width hcalls, ofCalls_concat, ← depth_ofCalls]
  exact (lines_apply width call (oneLine_ofCalls hcalls) hcall).2

theorem textOf_concat {calls : List Call} {call : Call}
    (hcalls : ∀ call ∈ calls, OneLine call.text) (hcall : OneLine call.text) :
    textOf width (calls ++ [call]) = textOf width calls ++
      ofLines (call.added width (openBlocks calls) (linesOf (textOf width calls))) := by
  have hconcat : ∀ given ∈ calls ++ [call], OneLine given.text :=
    List.forall_mem_append.2 ⟨hcalls, List.forall_mem_singleton.2 hcall⟩
  rw [← ofLines_linesOf width hconcat, linesOf_textOf_concat width hcalls hcall, ofLines_append,
    ofLines_linesOf width hcalls]

theorem textOf_blank {calls : List Call} (hcalls : ∀ call ∈ calls, OneLine call.text) :
    textOf width (calls ++ [.blank]) = textOf width calls ++
      if SeparatesNothing (linesOf (textOf width calls)) then "" else "\n" := by
  rw [textOf_concat width hcalls (by decide), Call.added]
  split <;> rfl

/-- The end of the text says what its lines say. -/
theorem separates_textOf {calls : List Call} (hcalls : ∀ call ∈ calls, OneLine call.text) :
    separates (textOf width calls) = !decide (SeparatesNothing (linesOf (textOf width calls))) := by
  rw [linesOf_textOf width hcalls, textOf, Layout.separates_render]
  congr 1
  rw [Bool.eq_iff_iff, decide_eq_true_iff]
  exact needsNoBlank_iff width (oneLine_ofCalls hcalls)

theorem textOf_eq_empty_or_getLast? (calls : List Call) :
    textOf width calls = "" ∨ (textOf width calls).toList.getLast? = some '\n' := by
  by_cases hwritten : (Layout.ofCalls calls).written = []
  · left
    rw [textOf, Layout.render, Layout.lines, hwritten]
    rfl
  · exact .inr (Layout.getLast?_render width hwritten)

end Runs

/-! ## Empty lines -/

namespace WellSeparated

theorem nil : WellSeparated [] :=
  ⟨by simp, .nil⟩

/-- A line can follow unless it is empty and separates nothing. -/
theorem concat {lines : List (List Char)} {line : List Char} (hlines : WellSeparated lines)
    (hline : line = [] → ¬ SeparatesNothing lines) : WellSeparated (lines ++ [line]) where
  first := by
    cases lines with
    | nil =>
        intro hempty
        exact hline (Option.some.inj hempty) (Or.inl rfl)
    | cons first rest => exact hlines.first
  next := by
    rw [List.isChain_append]
    refine ⟨hlines.next, .singleton _, fun last hlast next hnext hempty => ?_⟩
    obtain rfl : line = next := Option.some.inj hnext
    have hseparates := hline hempty
    refine ⟨?_, fun hbrace => hseparates (Or.inr (Or.inl ⟨last, hlast, hbrace⟩))⟩
    rintro rfl
    -- An empty line that is the only one would be the first.
    refine hseparates (Or.inr (Or.inr ⟨hlast, fun hcount => ?_⟩))
    obtain ⟨only, rfl⟩ := List.length_eq_one_iff.1 hcount
    exact hlines.first hlast

end WellSeparated

/-- Only a blank line can add an empty one. -/
theorem Call.separates_of_mem_added (width depth : Nat) (above : List (List Char)) {call : Call}
    (hcall : call ≠ .line "") (hempty : [] ∈ call.added width depth above) :
    ¬ SeparatesNothing above := by
  cases call with
  | line text =>
      have htext : text = "" := Line.shown_eq_nil_iff width |>.1 (List.mem_singleton.1 hempty).symm
      exact absurd (htext ▸ rfl) hcall
  | blank =>
      intro hnothing
      rw [added, if_pos hnothing] at hempty
      exact List.not_mem_nil hempty
  | enter header =>
      have htext := (Line.shown_eq_nil_iff width).1 (List.mem_singleton.1 hempty).symm
      simp at htext
  | leave suffix =>
      have htext := (Line.shown_eq_nil_iff width).1 (List.mem_singleton.1 hempty).symm
      simp at htext

theorem Call.added_eq_nil_or_singleton (width depth : Nat) (above : List (List Char))
    (call : Call) :
    call.added width depth above = [] ∨ ∃ line, call.added width depth above = [line] := by
  cases call with
  | blank =>
      rw [added]
      split
      · exact .inl rfl
      · exact .inr ⟨[], rfl⟩
  | _ => exact .inr ⟨_, rfl⟩

theorem wellSeparated_textOf (width : Nat) {calls : List Call}
    (hcalls : ∀ call ∈ calls, OneLine call.text) (hfilled : .line "" ∉ calls) :
    WellSeparated (linesOf (textOf width calls)) := by
  induction calls using List.reverseRecOn with
  | nil => exact .nil
  | append_singleton calls call ih =>
      rw [List.forall_mem_append, List.forall_mem_singleton] at hcalls
      rw [List.mem_append, not_or, List.mem_singleton] at hfilled
      have hbefore := ih hcalls.1 hfilled.1
      have hempty := Call.separates_of_mem_added width (openBlocks calls)
        (linesOf (textOf width calls)) (Ne.symm hfilled.2)
      rw [linesOf_textOf_concat width hcalls.1 hcalls.2]
      obtain hnone | ⟨line, hline⟩ :=
        call.added_eq_nil_or_singleton width (openBlocks calls) (linesOf (textOf width calls))
      · rwa [hnone, List.append_nil]
      · rw [hline] at hempty ⊢
        exact hbefore.concat fun hnil => hempty (List.mem_singleton.2 hnil.symm)

/-- Each call adds whole lines to the text and changes none of those before, a line
with a text is indented by the width of a level for each open block, and a blank line is
left out exactly if it would separate nothing, as the end of the text shows.  So in a
run without empty lines of its own every empty line separates something. -/
theorem textOf_grows_by_lines (width : Nat) {calls : List Call}
    (hcalls : ∀ call ∈ calls, OneLine call.text) :
    (∀ before call, before ++ [call] <+: calls →
      textOf width (before ++ [call]) = textOf width before ++
          ofLines (call.added width (openBlocks before) (linesOf (textOf width before))) ∧
        linesOf (textOf width (before ++ [call])) = linesOf (textOf width before) ++
          call.added width (openBlocks before) (linesOf (textOf width before)) ∧
        (textOf width (before ++ [call]) = "" ∨
          (textOf width (before ++ [call])).toList.getLast? = some '\n')) ∧
      (∀ before, before ++ [.blank] <+: calls →
        (textOf width (before ++ [.blank]) = textOf width before ↔
          SeparatesNothing (linesOf (textOf width before))) ∧
        (textOf width (before ++ [.blank]) = textOf width before ++ "\n" ↔
          ¬ SeparatesNothing (linesOf (textOf width before))) ∧
        (separates (textOf width before) = true ↔
          ¬ SeparatesNothing (linesOf (textOf width before)))) ∧
      (.line "" ∉ calls → WellSeparated (linesOf (textOf width calls))) := by
  have hfront {before : List Call} {call : Call} (hstart : before ++ [call] <+: calls) :
      (∀ given ∈ before, OneLine given.text) ∧ OneLine call.text := by
    have hgiven : ∀ given ∈ before ++ [call], OneLine given.text :=
      fun given hmem => hcalls given (hstart.subset hmem)
    rwa [List.forall_mem_append, List.forall_mem_singleton] at hgiven
  refine ⟨fun before call hstart => ?_, fun before hstart => ?_, wellSeparated_textOf width hcalls⟩
  · obtain ⟨hbefore, hcall⟩ := hfront hstart
    exact ⟨textOf_concat width hbefore hcall, linesOf_textOf_concat width hbefore hcall,
      textOf_eq_empty_or_getLast? width _⟩
  · obtain ⟨hbefore, -⟩ := hfront hstart
    have hbreak : textOf width before ≠ textOf width before ++ "\n" := fun hsame => by
      simpa using congrArg String.length hsame
    rw [textOf_blank width hbefore, separates_textOf width hbefore]
    by_cases hnothing : SeparatesNothing (linesOf (textOf width before))
    · simp [hnothing, hbreak]
    · simp [hnothing, hbreak.symm]

/-- A run that closes a block before it opens one, and more than it opens. -/
def unbalancedCalls : List Call :=
  [.leave ";", .blank, .enter "message M", .blank, .line "\x7b", .blank, .line "x", .blank, .blank,
    .leave "", .leave ""]

theorem textOf_grows_by_lines_unbalancedCalls :
    (∀ call ∈ unbalancedCalls, OneLine call.text) ∧ .line "" ∉ unbalancedCalls ∧
      textOf 2 unbalancedCalls = "\x7d;\n\nmessage M \x7b\n  \x7b\n  x\n\n\x7d\n\x7d\n" ∧
      WellSeparated (linesOf (textOf 2 unbalancedCalls)) := by
  have hcalls : ∀ call ∈ unbalancedCalls, OneLine call.text := by decide
  have hfilled : .line "" ∉ unbalancedCalls := by decide
  exact ⟨hcalls, hfilled, by decide, (textOf_grows_by_lines 2 hcalls).2.2 hfilled⟩

end ProtoSource.Text
