import ProtoSource.Proofs.Render.Printing
import ProtoSource.Proofs.Text.Depths

/-!
# Indentation

Whether a file is printed, and as which lines, does not depend on the width of a level.
-/

namespace ProtoSource.Render

open ProtoSource.Descriptor
open ProtoSource.Pool
open ProtoSource.Success
open ProtoSource.Text

/-- The lines of items, each with its depth. -/
theorem exists_laidOut (items : List Item) : ∃ lines, LaidOut 0 items lines ∧ ∀ width,
    Item.render width items = String.join (lines.map (Line.render width)) ∧
      (Sheet.write width items {}).text = String.join (lines.map (Line.render width)) := by
  obtain ⟨lines, hlines, -, hlaid⟩ := Layout.laysOut_write items {}
  rw [show Layout.lines {} = [] from rfl, List.nil_append] at hlines
  refine ⟨lines, hlaid, fun width => ?_⟩
  have hrender : Item.render width items = String.join (lines.map (Line.render width)) := by
    rw [Item.render, Layout.render, hlines]
  have hsheet := congrArg Sheet.text (Layout.sheet_write width items {})
  exact ⟨hrender, hsheet.symm.trans hrender⟩

theorem fileItems_eq_cons {pool : Pool} {file : File} {items : List Item}
    (hitems : fileItems pool file = .ok items) : ∃ rest, items = .line generatedHeader :: rest := by
  simp only [fileItems, bind_eq_ok, pure_eq_ok] at hitems
  obtain ⟨services, -, messages, -, enums, -, rfl⟩ := hitems
  exact ⟨_, rfl⟩

/-- A file fails to print with the same error under every width, or it has one list of
lines, the first and the last at the top and those inside a block one deeper than the
lines that open and close it.  Under every width these lines, indented, are the text
that is printed, and the text that is written directly with its blank lines decided by
the text before them. -/
theorem printFile_by_depth (pool : Pool) (file : File) :
    (∃ error, ∀ width, printFile width pool file = .error error) ∨
      ∃ items lines, fileItems pool file = .ok items ∧ LaidOut 0 items lines ∧
        lines.head?.map Line.depth = some 0 ∧ lines.getLast?.map Line.depth = some 0 ∧
        ∀ width, printFile width pool file = .ok (String.join (lines.map fun line =>
            if line.text = "" then "\n"
            else String.ofList (List.replicate (line.depth * width) ' ') ++ line.text ++ "\n")) ∧
          printFile width pool file = .ok (Sheet.write width items {}).text := by
  cases hitems : fileItems pool file with
  | error error =>
      refine .inl ⟨error, fun width => ?_⟩
      rw [printFile, hitems]
      rfl
  | ok items =>
      obtain ⟨lines, hlaid, hrender⟩ := exists_laidOut items
      obtain ⟨rest, hrest⟩ := fileItems_eq_cons hitems
      have hne : lines ≠ [] := by
        rintro rfl
        rw [hrest] at hlaid
        cases hlaid
      refine .inr ⟨items, lines, rfl, hlaid, ?_, ?_, fun width => ?_⟩
      · rw [List.head?_eq_some_head hne, Option.map_some]
        exact congrArg some (hlaid.depth_head? _ (List.head?_eq_some_head hne))
      · rw [List.getLast?_eq_some_getLast hne, Option.map_some]
        exact congrArg some (hlaid.depth_getLast? _ (List.getLast?_eq_some_getLast hne))
      · have hprint : printFile width pool file = .ok (Item.render width items) := by
          rw [printFile, hitems]
          rfl
        obtain ⟨hlines, hsheet⟩ := hrender width
        rw [hprint, hsheet, hlines]
        refine ⟨congrArg (fun texts => Except.ok (String.join texts)) ?_, rfl⟩
        refine List.map_congr_left fun line _ => ?_
        simp [Line.render]

end ProtoSource.Render
