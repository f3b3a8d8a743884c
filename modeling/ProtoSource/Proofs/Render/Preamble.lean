import ProtoSource.Proofs.Render.Readable
import ProtoSource.Proofs.Text.Depths

/-!
# The name of a file in its text

The name of a file is written as it is into the comment that says what the text was
printed from.  Nothing below the preamble depends on it.  The preamble has the four
lines that it should have unless the name breaks the line or ends in a brace: after a
break the rest of the name is no comment, and after a brace, as if a block had been
opened, no empty line follows.
-/

namespace ProtoSource.Text

namespace Layout

/-- The layout below other lines, the last of them first. -/
def below (base : List Line) (layout : Layout) : Layout :=
  { layout with written := layout.written ++ base }

/-- The first line of the layout is not empty. -/
structure Grounded (layout : Layout) : Prop where
  ne_nil : layout.written ≠ []
  first : ∀ line ∈ layout.written.getLast?, line.text ≠ ""

theorem Grounded.cons {layout : Layout} (hgrounded : layout.Grounded) (line : Line) (depth : Nat) :
    Grounded ⟨line :: layout.written, depth⟩ where
  ne_nil := List.cons_ne_nil _ _
  first := by
    obtain ⟨last, before, hwritten⟩ := List.exists_cons_of_ne_nil hgrounded.ne_nil
    have hfirst := hgrounded.first
    simp only [hwritten] at hfirst ⊢
    rwa [List.getLast?_cons_cons]

/-- Lines above a grounded layout do not decide about its blank lines. -/
theorem Grounded.needsNoBlank_below {layout : Layout} (hgrounded : layout.Grounded)
    (base : List Line) :
    needsNoBlank (layout.below base).written = needsNoBlank layout.written := by
  obtain ⟨written, depth⟩ := layout
  cases written with
  | nil => exact absurd rfl hgrounded.ne_nil
  | cons last before =>
      rw [below, List.cons_append, needsNoBlank, needsNoBlank]
      cases hlast : last.text.toList.getLast? with
      | some char => rfl
      | none =>
          cases before with
          | cons line rest => rfl
          | nil => exact absurd (by simpa using hlast) (hgrounded.first last rfl)

mutual

theorem below_writeItem (item : Item) {layout : Layout} (hgrounded : layout.Grounded)
    (base : List Line) :
    (layout.below base).writeItem item = (layout.writeItem item).below base ∧
      (layout.writeItem item).Grounded := by
  cases item with
  | line text => exact ⟨rfl, hgrounded.cons _ _⟩
  | blank =>
      rw [writeItem, writeItem, blank, blank, hgrounded.needsNoBlank_below]
      split
      · exact ⟨rfl, hgrounded⟩
      · exact ⟨rfl, hgrounded.cons _ _⟩
  | block header items suffix =>
      have hinner := below_write items
        (hgrounded.cons ⟨layout.depth, header ++ " \x7b"⟩ (layout.depth + 1)) base
      rw [writeItem, writeItem]
      exact ⟨congrArg (leave suffix) hinner.1, hinner.2.cons _ _⟩

theorem below_write (items : List Item) {layout : Layout} (hgrounded : layout.Grounded)
    (base : List Line) : (layout.below base).write items = (layout.write items).below base ∧
      (layout.write items).Grounded := by
  cases items with
  | nil => exact ⟨rfl, hgrounded⟩
  | cons item rest =>
      obtain ⟨hitem, hgrounded'⟩ := below_writeItem item hgrounded base
      rw [write, write, hitem]
      exact below_write rest hgrounded' base

end

theorem lines_below (base : List Line) (layout : Layout) :
    (layout.below base).lines = base.reverse ++ layout.lines := by
  simp [below, lines]

/-- Below a grounded layout the same text is written, whatever is above it. -/
theorem Grounded.exists_render_write {layout : Layout} (hgrounded : layout.Grounded)
    (items : List Item) (width : Nat) : ∃ body, ∀ base,
      ((layout.below base).write items).render width = (layout.below base).render width ++
        body := by
  obtain ⟨added, hlines, -, -⟩ := laysOut_write items layout
  refine ⟨String.join (added.map (Line.render width)), fun base => ?_⟩
  rw [(below_write items hgrounded base).1, render, render, lines_below, lines_below, hlines,
    ← String.join_append, ← List.map_append, List.append_assoc]

end Layout

end ProtoSource.Text

namespace ProtoSource.Render

open ProtoSource.Descriptor
open ProtoSource.Pool
open ProtoSource.Success
open ProtoSource.Text

/-- The layout of the line that names the dialect. -/
def dialectLayout : Layout where
  written := [⟨0, "syntax = \"proto3\";"⟩]

theorem grounded_dialectLayout : dialectLayout.Grounded where
  ne_nil := by decide
  first := by decide

theorem exists_write_preambleItems (file : File) :
    ∃ base, Layout.write (preambleItems file) {} = dialectLayout.below base := by
  let above : Layout := ⟨[⟨0, "// source: " ++ file.name⟩, ⟨0, generatedHeader⟩], 0⟩
  have hdepth : above.blank.depth = 0 := by
    rw [Layout.blank]
    split <;> rfl
  refine ⟨above.blank.written, ?_⟩
  change above.blank.line "syntax = \"proto3\";" = _
  rw [Layout.line, hdepth]
  rfl

/-- The text below the preamble is printed whatever the name. -/
theorem exists_printFile_renamed {width : Nat} {pool : Pool} {file : File} {text : String}
    (hprint : printFile width pool file = .ok text) :
    ∃ body, ∀ name?, printFile width pool { file with name? := name? } =
      .ok (preamble { file with name? := name? } ++ body) := by
  obtain ⟨services, messages, enums, hservices, hmessages, henums, -⟩ := printFile_eq_ok.1 hprint
  obtain ⟨body, hbody⟩ := grounded_dialectLayout.exists_render_write
    (openingItems file ++ spaced services ++ spaced messages ++ spaced enums) width
  refine ⟨body, fun name? =>
    printFile_eq_ok.2 ⟨services, messages, enums, hservices, hmessages, henums, ?_⟩⟩
  obtain ⟨base, hbase⟩ := exists_write_preambleItems { file with name? := name? }
  rw [← render_preambleItems _ width, Item.render, Layout.write_append, hbase, ← hbody base]
  rfl

/-- The first lines of a file of this name, as they should be. -/
def preambleLines (name : String) : List (List Char) :=
  [generatedHeader, "// source: " ++ name, "", "syntax = \"proto3\";"].map String.toList

/-- What follows the line of the name. -/
def afterName (file : File) : List Char :=
  (if file.name.toList.getLast? = some '\x7b' ∨ file.name.toList.getLast? = some '\n' then []
    else ['\n']) ++ "syntax = \"proto3\";".toList

theorem toList_preamble (file : File) (body : String) : (preamble file ++ body).toList =
    generatedHeader.toList ++ '\n' ::
      ("// source: ".toList ++ file.name.toList ++
        '\n' :: (afterName file ++ '\n' :: body.toList)) := by
  simp only [preamble, afterName, String.toList_append]
  split_ifs <;> simp

theorem splitOn_preamble (file : File) (body : String) :
    (preamble file ++ body).toList.splitOn '\n' =
    generatedHeader.toList ::
      ("// source: ".toList ++ file.name.toList ++
        '\n' :: (afterName file ++ '\n' :: body.toList)).splitOn
        '\n' := by
  rw [toList_preamble, List.splitOn_append_cons_self_of_not_mem (by decide)]

section Names

variable {file : File} {body : String}

theorem splitOn_preamble_of_oneLine (hname : OneLine file.name) :
    (preamble file ++ body).toList.splitOn '\n' = generatedHeader.toList ::
      ("// source: ".toList ++ file.name.toList) ::
        (afterName file ++ '\n' :: body.toList).splitOn '\n' := by
  have hline : '\n' ∉ "// source: ".toList ++ file.name.toList := by
    rw [List.mem_append, not_or]
    exact ⟨by decide, hname⟩
  rw [splitOn_preamble, List.splitOn_append_cons_self_of_not_mem hline]

theorem take_preamble_of_oneLine (hname : OneLine file.name)
    (hbrace : file.name.toList.getLast? ≠ some '\x7b') :
    ((preamble file ++ body).toList.splitOn '\n').take 4 = preambleLines file.name := by
  have hbreak : file.name.toList.getLast? ≠ some '\n' := fun hlast =>
    hname (List.mem_of_getLast? hlast)
  have hafter : afterName file ++ '\n' :: body.toList =
      [] ++ '\n' :: ("syntax = \"proto3\";".toList ++ '\n' :: body.toList) := by
    simp [afterName, hbrace, hbreak]
  rw [splitOn_preamble_of_oneLine hname, hafter,
    List.splitOn_append_cons_self_of_not_mem (by simp),
    List.splitOn_append_cons_self_of_not_mem (by decide)]
  simp [preambleLines]

/-- After a brace the line of the dialect takes the place of the empty line. -/
theorem take_preamble_of_brace (hname : OneLine file.name)
    (hbrace : file.name.toList.getLast? = some '\x7b') :
    ((preamble file ++ body).toList.splitOn '\n').take 4 ≠ preambleLines file.name := by
  have hafter : afterName file ++ '\n' :: body.toList =
      "syntax = \"proto3\";".toList ++ '\n' :: body.toList := by
    simp [afterName, hbrace]
  rw [splitOn_preamble_of_oneLine hname, hafter,
    List.splitOn_append_cons_self_of_not_mem (by decide)]
  simp [preambleLines]

/-- The line of the name ends where the name breaks it. -/
theorem take_preamble_of_break (hname : ¬ OneLine file.name) :
    ((preamble file ++ body).toList.splitOn '\n').take 4 ≠ preambleLines file.name := by
  obtain ⟨front, back, hsplit, hfront⟩ := List.eq_append_cons_of_mem (not_not.1 hname)
  have hline : '\n' ∉ "// source: ".toList ++ front := by
    rw [List.mem_append, not_or]
    exact ⟨by decide, hfront⟩
  have hbroken : "// source: ".toList ++ file.name.toList ++
      '\n' :: (afterName file ++ '\n' :: body.toList) =
      ("// source: ".toList ++ front) ++
        '\n' :: (back ++ '\n' :: (afterName file ++ '\n' :: body.toList)) := by
    simp [hsplit]
  rw [splitOn_preamble, hbroken, List.splitOn_append_cons_self_of_not_mem hline]
  intro hlines
  have hsecond : "// source: ".toList ++ front = "// source: ".toList ++ file.name.toList := by
    simpa [preambleLines] using (List.cons.inj (List.cons.inj hlines).2).1
  exact hfront (List.append_cancel_left hsecond ▸ not_not.1 hname)

end Names

/-- The preamble has its four lines unless the name breaks the second one or ends in a
brace. -/
theorem take_preamble_iff (file : File) (body : String) :
    ((preamble file ++ body).toList.splitOn '\n').take 4 = preambleLines file.name ↔
      OneLine file.name ∧ file.name.toList.getLast? ≠ some '\x7b' := by
  constructor
  · intro hlines
    have hname : OneLine file.name := by
      by_contra hname
      exact take_preamble_of_break hname hlines
    exact ⟨hname, fun hbrace => take_preamble_of_brace hname hbrace hlines⟩
  · rintro ⟨hname, hbrace⟩
    exact take_preamble_of_oneLine hname hbrace

/-- The text of a file starts with its preamble, and nothing below depends on the name.
The four lines are there unless the name breaks its line or ends in a brace. -/
theorem preamble_of_printFile {width : Nat} {pool : Pool} {file : File} {text : String}
    (hprint : printFile width pool file = .ok text) :
    (∃ body, ∀ name?, printFile width pool { file with name? := name? } =
      .ok (preamble { file with name? := name? } ++ body)) ∧
      ((text.toList.splitOn '\n').take 4 = preambleLines file.name ↔
        OneLine file.name ∧ file.name.toList.getLast? ≠ some '\x7b') := by
  obtain ⟨body, hbody⟩ := exists_printFile_renamed hprint
  obtain rfl : text = preamble file ++ body := Except.ok.inj (hprint.symm.trans (hbody file.name?))
  exact ⟨⟨body, hbody⟩, take_preamble_iff file body⟩

/-- A file with nothing in it but its name. -/
def bareFile (name : String) : File where
  name? := some name
  dialect? := some "proto3"

/-- A bare file of this name is accepted and printed as this text. -/
def PrintsBare (name text : String) : Prop :=
  ∃ pool, Pool.ofDialects [(.proto3, bareFile name)] = .ok pool ∧
    ∃ file ∈ pool.files, file.name = name ∧ printFile 2 pool file = .ok text

theorem printsBare_of_check {name text : String}
    (hcheck : (Pool.ofDialects [(.proto3, bareFile name)]).toOption.map (fun pool =>
      decide (∃ file ∈ pool.files, file.name = name ∧
        (printFile 2 pool file).toOption = some text)) =
        some true) : PrintsBare name text := by
  obtain ⟨pool, hpool, hfound⟩ := exists_ok_of_map_eq_some hcheck
  obtain ⟨file, hfile, hname, hprint⟩ := of_decide_eq_true hfound
  exact ⟨pool, hpool, file, hfile, hname, toOption_eq_some.1 hprint⟩

theorem preamble_of_printFile_bareFile :
    PrintsBare "demo.proto" (preamble (bareFile "demo.proto")) ∧
      ((preamble (bareFile "demo.proto")).toList.splitOn '\n').take 4 =
        preambleLines "demo.proto" := by
  have hprints : PrintsBare "demo.proto" (preamble (bareFile "demo.proto")) :=
    printsBare_of_check (by decide)
  obtain ⟨pool, -, file, -, hname, hprint⟩ := id hprints
  obtain ⟨-, hlines⟩ := preamble_of_printFile hprint
  rw [hname] at hlines
  exact ⟨hprints, hlines.2 ⟨by decide, by decide⟩⟩

/-- What a bare file is printed as whose name ends in a brace. -/
def bracedText : String :=
  generatedHeader ++ "\n// source: demo\x7b\nsyntax = \"proto3\";\n"

/-- What a bare file is printed as whose name has a message on its second line. -/
def brokenText : String :=
  generatedHeader ++ "\n// source: a.proto\nmessage Extra \x7b\x7d\n\nsyntax = \"proto3\";\n"

/-- After a name that ends in a brace there is no empty line, and what a name has after
a line break stands outside of the comment. -/
theorem names_leave_comment :
    (PrintsBare "demo\x7b" bracedText ∧
      (bracedText.toList.splitOn '\n').take 4 ≠ preambleLines "demo\x7b") ∧
    PrintsBare "a.proto\nmessage Extra \x7b\x7d" brokenText ∧
      (brokenText.toList.splitOn '\n').take 4 ≠ preambleLines "a.proto\nmessage Extra \x7b\x7d" ∧
      "message Extra \x7b\x7d".toList ∈ brokenText.toList.splitOn '\n' :=
  ⟨⟨printsBare_of_check (by decide +kernel), by decide +kernel⟩,
    printsBare_of_check (by decide +kernel), by decide +kernel, by decide +kernel⟩

end ProtoSource.Render
