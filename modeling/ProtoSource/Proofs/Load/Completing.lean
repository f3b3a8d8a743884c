import ProtoSource.Load.Synthesis
import ProtoSource.Proofs.Descriptor.Written
import ProtoSource.Proofs.Success
import ProtoSource.Proofs.Wire.Writing

/-!
# Sets with well-known files in front

The well-known files are read back as they were written, so a completed set holds
them and, after them, the files it held before.
-/

namespace ProtoSource.Load

open ProtoSource.Descriptor
open ProtoSource.Success
open ProtoSource.WellKnown
open ProtoSource.Wire
open ProtoSource.Wire.Records

theorem decodeFiles_eq_ok {bytes : Bytes} {files : List File} :
    decodeFiles bytes = .ok files ↔
      ∃ records, schema.Holds nestingLimit .set bytes records ∧ filesOfRecords records = files := by
  unfold decodeFiles decodeSet
  simp only [mapError_eq_ok, map_eq_ok, Schema.decode_eq_ok]

theorem filesOfRecords_append (records others : List Record) :
    filesOfRecords (records ++ others) = filesOfRecords records ++ filesOfRecords others := by
  simp [filesOfRecords, messages]

theorem decodeFiles_append {front bytes : Bytes} {added files : List File}
    (hfront : decodeFiles front = .ok added) (hbytes : decodeFiles bytes = .ok files) :
    decodeFiles (front ++ bytes) = .ok (added ++ files) := by
  obtain ⟨records, hrecords, rfl⟩ := decodeFiles_eq_ok.1 hfront
  obtain ⟨others, hothers, rfl⟩ := decodeFiles_eq_ok.1 hbytes
  exact decodeFiles_eq_ok.2 ⟨_, hrecords.append hothers, filesOfRecords_append _ _⟩

/-! ## The well-known files -/

/-- The files that can be put in front of a set. -/
def wellKnownFiles : List File :=
  [descriptorFile, emptyFile, annotationsImportingRules, annotationsWithRules]

theorem writes_wellKnownFiles : ∀ file ∈ wellKnownFiles,
    (∀ record ∈ Write.many 1 File.records [file], schema.writes nestingLimit .set record) ∧
      Record.sizeAll (Write.many 1 File.records [file]) < 2 ^ 64 := by
  decide +kernel

theorem tidy_wellKnownFiles : ∀ file ∈ wellKnownFiles, file.Tidy := by
  decide +kernel

/-- A well-known file is read back as it was written. -/
theorem decodeFiles_encodeSet_singleton {file : File} (hfile : file ∈ wellKnownFiles) :
    decodeFiles (encodeSet [file]) = .ok [file] := by
  obtain ⟨hwrites, hsize⟩ := writes_wellKnownFiles file hfile
  have hembeds : Record.EmbedAll (Write.many 1 File.records [file]) :=
    (embedAll_many 1).2 fun file _ => file.embedAll_records
  have htidy : ∀ known ∈ [file], known.Tidy := by
    simpa using tidy_wellKnownFiles file hfile
  refine decodeFiles_eq_ok.2 ⟨_, ?_, filesOfRecords_many htidy⟩
  refine Schema.holds_encode isFlat_schema (fun record hrecord => ?_) ?_
  · exact Schema.writes_of_check (Record.embedAll_iff.1 hembeds record hrecord)
      (hwrites record hrecord)
  · rw [Record.length_encode _ hembeds]
    exact hsize

theorem decodeFiles_encodeSet {files : List File} (hfiles : ∀ file ∈ files, file ∈ wellKnownFiles) :
    decodeFiles (encodeSet files) = .ok files := by
  induction files with
  | nil => exact decodeFiles_eq_ok.2 ⟨[], Reader.Steps.nil, rfl⟩
  | cons file rest ih =>
      rw [List.forall_mem_cons] at hfiles
      have hbytes : encodeSet (file :: rest) = encodeSet [file] ++ encodeSet rest := by
        simp [encodeSet, Write.many, encode]
      rw [hbytes]
      exact decodeFiles_append (decodeFiles_encodeSet_singleton hfiles.1) (ih hfiles.2)

theorem mem_wellKnownFiles_of_mem_missingFiles {files : List File} :
    ∀ file ∈ missingFiles files, file ∈ wellKnownFiles := by
  intro file hfile
  simp only [missingFiles, annotationsFor, List.mem_append] at hfile
  obtain (hfile | hfile) | hfile := hfile
  · split at hfile
    · simp at hfile
    · simp_all [wellKnownFiles]
  · split at hfile
    · simp at hfile
    · simp_all [wellKnownFiles]
  · split at hfile
    · simp at hfile
    · split at hfile <;> simp_all [wellKnownFiles]

/-- A completed set holds the files it lacked in front of those it had. -/
theorem decodeFiles_complete {bytes bytes' : Bytes} {files : List File}
    (hdecode : decodeFiles bytes = .ok files) (hcomplete : complete bytes = .ok bytes') :
    decodeFiles bytes' = .ok (completed files) := by
  obtain rfl : missingBytes files ++ bytes = bytes' := by
    simpa [complete, hdecode, bind, Except.bind, pure, Except.pure] using hcomplete
  exact decodeFiles_append (decodeFiles_encodeSet mem_wellKnownFiles_of_mem_missingFiles) hdecode

theorem complete_eq_map (bytes : Bytes) :
    complete bytes = (decodeFiles bytes).map fun files => missingBytes files ++ bytes := by
  unfold complete
  cases decodeFiles bytes with
  | error error => rfl
  | ok files => rfl

/-- Completing an encoded set is completing the set.  It fails exactly as reading
the set does; otherwise it puts bytes in front, and what is then read is the set
with the files it lacked. -/
theorem decodeFiles_complete_eq_completed (bytes : Bytes) :
    (∀ error, complete bytes = .error error ↔ decodeFiles bytes = .error error) ∧
      ∀ files, decodeFiles bytes = .ok files → ∃ whole, complete bytes = .ok whole ∧
        bytes <:+ whole ∧ decodeFiles whole = .ok (completed files) := by
  refine ⟨fun error => ?_, fun files hfiles => ?_⟩
  · rw [complete_eq_map]
    cases decodeFiles bytes <;> simp [Except.map]
  · have hcomplete : complete bytes = .ok (missingBytes files ++ bytes) := by
      rw [complete_eq_map, hfiles]
      rfl
    exact ⟨_, hcomplete, List.suffix_append _ _, decodeFiles_complete hfiles hcomplete⟩

/-- A file whose length is written in one byte more than it needs, and after it a
group in a field that is not known. -/
def looseSet : Bytes := [10, 131, 0, 10, 1, 97, 19, 8, 1, 20]

theorem decodeFiles_complete_looseSet :
    decodeFiles looseSet = .ok [{ name? := some "a" }] ∧
      ∃ whole, complete looseSet = .ok whole ∧ looseSet <:+ whole ∧
        decodeFiles whole = .ok (completed [{ name? := some "a" }]) := by
  have hdecode : decodeFiles looseSet = .ok [{ name? := some "a" }] := by
    with_unfolding_all rfl
  exact ⟨hdecode, (decodeFiles_complete_eq_completed looseSet).2 _ hdecode⟩

/-! ## Names -/

theorem hasFile_iff {files : List File} {path : String} :
    hasFile files path = true ↔ path ∈ files.map File.name := by
  simp [hasFile]

/-- The names of the files that a set is completed with. -/
def wellKnownPaths : List String :=
  [descriptorPath, emptyPath, annotationsPath]

theorem name_mem_wellKnownPaths {file : File} (hfile : file ∈ wellKnownFiles) :
    file.name ∈ wellKnownPaths := by
  simp only [wellKnownFiles, List.mem_cons, List.not_mem_nil, or_false] at hfile
  obtain rfl | rfl | rfl | rfl := hfile <;> simp [wellKnownPaths, File.name, descriptorFile,
    emptyFile, annotationsImportingRules, annotationsWithRules]

/-- The files that a set lacks are those of the well-known names it has no file
for. -/
theorem names_missingFiles (files : List File) :
    (missingFiles files).map File.name = wellKnownPaths.filter (!hasFile files ·) := by
  have hdescriptor : descriptorFile.name = descriptorPath := rfl
  have hempty : emptyFile.name = emptyPath := rfl
  have hannotations : (annotationsFor files).name = annotationsPath := by
    unfold annotationsFor
    split <;> rfl
  simp only [missingFiles, wellKnownPaths, List.filter_cons, List.filter_nil]
  cases hasFile files descriptorPath <;> cases hasFile files emptyPath <;>
    cases hasFile files annotationsPath <;> simp [hdescriptor, hempty, hannotations]

/-- A completed set has the files it had and all well-known files. -/
theorem hasFile_completed {files : List File} {path : String} :
    hasFile (completed files) path = true ↔ hasFile files path = true ∨ path ∈ wellKnownPaths := by
  rw [hasFile_iff, completed, List.map_append, names_missingFiles, List.mem_append, List.mem_filter,
    ← hasFile_iff]
  cases hasFile files path <;> simp

/-- A completed set lacks nothing. -/
theorem missingFiles_completed (files : List File) : missingFiles (completed files) = [] := by
  rw [← List.map_eq_nil_iff (f := File.name), names_missingFiles, List.filter_eq_nil_iff]
  intro path hpath
  simp [hasFile_completed.2 (Or.inr hpath)]

theorem complete_complete {bytes whole : Bytes} (hcomplete : complete bytes = .ok whole) :
    complete whole = .ok whole := by
  obtain ⟨files, hfiles, -⟩ := map_eq_ok.1 ((complete_eq_map bytes).symm.trans hcomplete)
  rw [complete_eq_map, decodeFiles_complete hfiles hcomplete]
  simp [Except.map, missingBytes, missingFiles_completed, encodeSet, Write.many, encode]

end ProtoSource.Load
