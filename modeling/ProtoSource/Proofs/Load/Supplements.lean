import Mathlib.Data.List.Flatten
import ProtoSource.Proofs.Load.Completing
import ProtoSource.Proofs.Pool.Declared
import ProtoSource.Proofs.Pool.Siblings

/-!
# What completing adds

A well-known file is missing if no file of the set has its name; the messages of
HTTP rules are missing if none of them is declared by one of its names.  Imports go
by file name and declarations by full name, so a set that has the well-known
declarations in other files is completed to one that does not fit together.
-/

namespace ProtoSource.Load

open ProtoSource.Descriptor
open ProtoSource.Pool
open ProtoSource.Success
open ProtoSource.WellKnown

theorem mem_missingFiles {files : List File} {added : File} :
    added ∈ missingFiles files ↔
      (hasFile files descriptorPath = false ∧ added = descriptorFile) ∨
        (hasFile files emptyPath = false ∧ added = emptyFile) ∨
        (hasFile files annotationsPath = false ∧ added = annotationsFor files) := by
  simp only [missingFiles, List.mem_append, List.mem_ite_nil_left, List.mem_singleton,
    Bool.not_eq_true, or_assoc]

/-- The imports of an added file are satisfied but for that of the HTTP rules, and
that one is unless the set declares the rules elsewhere. -/
theorem imports_missingFiles (files : List File) :
    (∀ added ∈ missingFiles files, ∀ path ∈ added.imports,
      path = httpPath ∨ hasFile (completed files) path = true) ∧
    ((∀ added ∈ missingFiles files, ∀ path ∈ added.imports, hasFile (completed files) path = true) ↔
      hasFile files annotationsPath = true ∨ declares files httpPackage "HttpRule" = false ∨
        hasFile files httpPath = true) := by
  have hdescriptor : hasFile (completed files) descriptorPath = true :=
    hasFile_completed.2 (Or.inr (by decide))
  have hhttp : hasFile (completed files) httpPath = true ↔ hasFile files httpPath = true := by
    rw [hasFile_completed]
    exact or_iff_left (by decide)
  -- Only the file of the HTTP option has imports at all.
  have himports {accepts : String → Prop} :
      (∀ added ∈ missingFiles files, ∀ path ∈ added.imports, accepts path) ↔
        (hasFile files annotationsPath = false → ∀ path ∈ (annotationsFor files).imports,
          accepts path) := by
    constructor
    · intro hall hannotations
      exact hall _ (mem_missingFiles.2 (Or.inr (Or.inr ⟨hannotations, rfl⟩)))
    · intro hall added hadded
      obtain ⟨-, rfl⟩ | ⟨-, rfl⟩ | ⟨hannotations, rfl⟩ := mem_missingFiles.1 hadded
      · simp [descriptorFile]
      · simp [emptyFile]
      · exact hall hannotations
  rw [himports, himports]
  unfold annotationsFor
  cases hrules : declares files httpPackage "HttpRule" with
  | false =>
      have hwith : annotationsWithRules.imports = [descriptorPath] := rfl
      simp [hwith, hdescriptor]
  | true =>
      have himporting : annotationsImportingRules.imports = [httpPath, descriptorPath] := rfl
      simp only [if_true, himporting, List.forall_mem_cons, hdescriptor, hhttp]
      cases hasFile files annotationsPath <;> simp

/-- A set that declares the HTTP rules in a file of its own choice. -/
def ownRulesSet : List File :=
  [{ name? := some "rules.proto", package? := some httpPackage,
     messages := [.mk { name? := some "HttpRule" } []] }]

theorem not_imports_ownRulesSet :
    ¬ ∀ added ∈ missingFiles ownRulesSet, ∀ path ∈ added.imports,
      hasFile (completed ownRulesSet) path = true := by
  intro hall
  have hannotations : annotationsImportingRules ∈ missingFiles ownRulesSet :=
    mem_missingFiles.2 (Or.inr (Or.inr ⟨by decide, rfl⟩))
  have hhttp : hasFile (completed ownRulesSet) httpPath = true :=
    hall _ hannotations httpPath (by simp [annotationsImportingRules])
  obtain hfile | hpath := hasFile_completed.1 hhttp
  · exact absurd hfile (by decide)
  · exact absurd hpath (by decide)

/-- The messages of HTTP rules. -/
def httpTypes : List String :=
  ["google.api.Http", "google.api.HttpRule", "google.api.CustomHttpPattern"]

theorem typesOf_emptyFile : typesOf emptyFile = ["google.protobuf.Empty"] :=
  rfl

theorem typesOf_annotationsFor (files : List File) :
    typesOf (annotationsFor files) =
      if declares files httpPackage "HttpRule" = true then [] else httpTypes := by
  have hwith : typesOf annotationsWithRules = httpTypes := rfl
  have himporting : typesOf annotationsImportingRules = [] := rfl
  unfold annotationsFor
  split_ifs
  · exact himporting
  · exact hwith

/-- The types that completing adds. -/
theorem exists_mem_typesOf_missingFiles_iff {files : List File} {name : String} :
    (∃ added ∈ missingFiles files, name ∈ typesOf added) ↔
      (hasFile files descriptorPath = false ∧ name ∈ typesOf descriptorFile) ∨
        (hasFile files emptyPath = false ∧ name = "google.protobuf.Empty") ∨
        (hasFile files annotationsPath = false ∧
          declares files httpPackage "HttpRule" = false ∧ name ∈ httpTypes) := by
  have hannotations : name ∈ typesOf (annotationsFor files) ↔
      declares files httpPackage "HttpRule" = false ∧ name ∈ httpTypes := by
    rw [typesOf_annotationsFor]
    cases declares files httpPackage "HttpRule" <;> simp
  have hempty : name ∈ typesOf emptyFile ↔ name = "google.protobuf.Empty" := by
    rw [typesOf_emptyFile, List.mem_singleton]
  rw [← hannotations, ← hempty]
  constructor
  · rintro ⟨added, hadded, hname⟩
    obtain ⟨hmissing, rfl⟩ | ⟨hmissing, rfl⟩ | ⟨hmissing, rfl⟩ := mem_missingFiles.1 hadded
    · exact Or.inl ⟨hmissing, hname⟩
    · exact Or.inr (Or.inl ⟨hmissing, hname⟩)
    · exact Or.inr (Or.inr ⟨hmissing, hname⟩)
  · rintro (⟨hmissing, hname⟩ | ⟨hmissing, hname⟩ | ⟨hmissing, hname⟩)
    · exact ⟨_, mem_missingFiles.2 (Or.inl ⟨hmissing, rfl⟩), hname⟩
    · exact ⟨_, mem_missingFiles.2 (Or.inr (Or.inl ⟨hmissing, rfl⟩)), hname⟩
    · exact ⟨_, mem_missingFiles.2 (Or.inr (Or.inr ⟨hmissing, rfl⟩)), hname⟩

/-! ## The well-known files fit together -/

/-- A well-known file with its dialect. -/
def withDialect (file : File) : Dialect × File :=
  ((dialect? file).getD .proto2, file)

theorem hasDistinctNames_wellKnownFiles : ∀ file ∈ wellKnownFiles, HasDistinctNames file := by
  decide +kernel

theorem declaresWell_wellKnownFiles : ∀ file ∈ wellKnownFiles,
    (dialect? file).isSome ∧ DeclaresWell (withDialect file) := by
  decide +kernel

theorem dialects_append {files others : List File} {first second : List (Dialect × File)}
    (hfiles : dialects files = .ok first) (hothers : dialects others = .ok second) :
    dialects (files ++ others) = .ok (first ++ second) := by
  induction files generalizing first with
  | nil =>
      obtain rfl : [] = first := by simpa [dialects] using hfiles
      exact hothers
  | cons file rest ih =>
      rw [dialects] at hfiles
      rw [List.cons_append, dialects]
      split at hfiles
      · contradiction
      · next dialect hdialect =>
          obtain ⟨found, hrest, rfl⟩ := map_eq_ok.1 hfiles
          simp only [ih hrest, Except.map, List.cons_append]

theorem dialects_wellKnownFiles {files : List File}
    (hfiles : ∀ file ∈ files, file ∈ wellKnownFiles) :
    dialects files = .ok (files.map withDialect) := by
  induction files with
  | nil => rfl
  | cons file rest ih =>
      rw [List.forall_mem_cons] at hfiles
      obtain ⟨dialect, hdialect⟩ :=
        Option.isSome_iff_exists.1 (declaresWell_wellKnownFiles file hfiles.1).1
      rw [dialects, hdialect]
      simp only [ih hfiles.2, Except.map, List.map_cons, withDialect, hdialect, Option.getD_some]

/-- The names of all that can be missing are accepted. -/
theorem exists_ofFiles_wellKnown (files : List File) :
    ∃ table,
      SymbolTable.ofFiles ([descriptorFile, emptyFile, annotationsFor files].map withDialect) =
      .ok table := by
  have hdescriptor : HasDistinctNames descriptorFile :=
    hasDistinctNames_wellKnownFiles _ (by simp [wellKnownFiles])
  have hempty : HasDistinctNames emptyFile :=
    hasDistinctNames_wellKnownFiles _ (by simp [wellKnownFiles])
  have hmem : annotationsFor files ∈ wellKnownFiles := by
    unfold annotationsFor
    split <;> simp [wellKnownFiles]
  have hannotations : HasDistinctNames (annotationsFor files) :=
    hasDistinctNames_wellKnownFiles _ hmem
  have hpackage : (annotationsFor files).package = httpPackage := by
    unfold annotationsFor
    split <;> rfl
  have hname : (annotationsFor files).name = annotationsPath := by
    unfold annotationsFor
    split <;> rfl
  rw [SymbolTable.exists_ofFiles_iff]
  refine ⟨?_, ?_, ?_⟩
  · rw [List.map_map]
    simp only [List.map_cons, List.map_nil, Function.comp_def, withDialect, hname]
    decide
  · simp only [List.map_cons, List.map_nil, List.forall_mem_cons]
    exact ⟨(declaresWell_wellKnownFiles _ (by simp [wellKnownFiles])).2,
      (declaresWell_wellKnownFiles _ (by simp [wellKnownFiles])).2,
      (declaresWell_wellKnownFiles _ hmem).2, by simp⟩
  · simp only [List.map_cons, List.map_nil, List.flatMap_cons, List.flatMap_nil, List.append_nil,
      List.pairwise_append, withDialect, List.forall_mem_append]
    refine ⟨hdescriptor.pairwise_entriesOf, ⟨hempty.pairwise_entriesOf,
      hannotations.pairwise_entriesOf, ?_⟩, fun entry hentry => ⟨?_, ?_⟩⟩
    · apply hempty.apart_of_package hannotations <;> rw [hpackage] <;> decide
    · exact hdescriptor.apart_of_topNames hempty rfl (by decide) entry hentry
    · apply hdescriptor.apart_of_package hannotations _ _ entry hentry <;> rw [hpackage] <;> decide

theorem exists_ofFiles_missingFiles (files : List File) :
    ∃ table, SymbolTable.ofFiles ((missingFiles files).map withDialect) = .ok table := by
  have hsublist : List.Sublist ((missingFiles files).map withDialect)
      ([descriptorFile, emptyFile, annotationsFor files].map withDialect) := by
    apply List.Sublist.map
    unfold missingFiles
    cases hasFile files descriptorPath <;> cases hasFile files emptyPath <;>
      cases hasFile files annotationsPath <;> simp
  obtain ⟨hnames, hwell, hpairwise⟩ :=
    SymbolTable.exists_ofFiles_iff.1 (exists_ofFiles_wellKnown files)
  refine SymbolTable.exists_ofFiles_iff.2 ⟨hnames.sublist (hsublist.map _),
    fun file hfile => hwell file (hsublist.subset hfile), hpairwise.sublist ?_⟩
  exact hsublist.flatMap entriesOf

/-! ## Completed sets -/

/-- No type is declared once more if and only if every well-known type that the set
declares comes with what it is looked for by.  The names of a set that were accepted
stay accepted unless an added file and a file of the set enter one name, which is not
a package of both. -/
theorem declarations_completed (files : List File) :
    ((∀ added ∈ missingFiles files, ∀ file ∈ files, ∀ name ∈ typesOf added, name ∉ typesOf file) ↔
      ∀ file ∈ files, ∀ name ∈ typesOf file,
        (name ∈ typesOf descriptorFile → hasFile files descriptorPath = true) ∧
        (name = "google.protobuf.Empty" → hasFile files emptyPath = true) ∧
        (name ∈ httpTypes →
          hasFile files annotationsPath = true ∨ declares files httpPackage "HttpRule" = true)) ∧
    ∀ own table, dialects files = .ok own → SymbolTable.ofFiles own = .ok table →
      ∃ added, dialects (missingFiles files) = .ok added ∧
        dialects (completed files) = .ok (added ++ own) ∧
        ((∃ whole, SymbolTable.ofFiles (added ++ own) = .ok whole) ↔
          ∀ front ∈ added, ∀ file ∈ own, ∀ entry ∈ entriesOf front, ∀ other ∈ entriesOf file,
            Apart entry other) := by
  constructor
  · have hcases (name : String) : (¬ ∃ added ∈ missingFiles files, name ∈ typesOf added) ↔
        (name ∈ typesOf descriptorFile → hasFile files descriptorPath = true) ∧
        (name = "google.protobuf.Empty" → hasFile files emptyPath = true) ∧
        (name ∈ httpTypes →
          hasFile files annotationsPath = true ∨ declares files httpPackage "HttpRule" = true) := by
      rw [exists_mem_typesOf_missingFiles_iff]
      simp only [← Bool.not_eq_true]
      tauto
    simp only [← hcases]
    constructor
    · rintro hall file hfile name hname ⟨added, hadded, hname'⟩
      exact hall added hadded file hfile name hname' hname
    · intro hall added hadded file hfile name hname hname'
      exact hall file hfile name hname' ⟨added, hadded, hname⟩
  · intro own table hown htable
    have hmissing : dialects (missingFiles files) = .ok ((missingFiles files).map withDialect) :=
      dialects_wellKnownFiles mem_wellKnownFiles_of_mem_missingFiles
    refine ⟨_, hmissing, dialects_append hmissing hown, ?_⟩
    rw [SymbolTable.exists_ofFiles_append_iff (exists_ofFiles_missingFiles files) ⟨table, htable⟩]
    refine and_iff_right fun front hfront file hfile hname => ?_
    -- An added file has a name that no file of the set has.
    obtain ⟨added, hadded, rfl⟩ := List.mem_map.1 hfront
    have hpath : added.name ∈ (missingFiles files).map File.name := List.mem_map_of_mem hadded
    rw [names_missingFiles, List.mem_filter, Bool.not_eq_true', ← Bool.not_eq_true, hasFile_iff]
      at hpath
    apply hpath.2
    rw [← dialects_eq_ok hown, List.map_map]
    exact List.mem_map.2 ⟨file, hfile, hname.symm⟩

/-- What is declared in another package is apart from the well-known files. -/
theorem apart_wellKnownFiles {front file : Dialect × File} (hfront : front.2 ∈ wellKnownFiles)
    (hfile : HasDistinctNames file.2)
    (hpackage : ∀ package ∈ ["google.protobuf", httpPackage],
      ¬ package.toList <+: file.2.package.toList ∧ ¬ file.2.package.toList <+: package.toList) :
    ∀ entry ∈ entriesOf front, ∀ other ∈ entriesOf file, Apart entry other := by
  have hpackages : ∀ file ∈ wellKnownFiles, file.package ∈ ["google.protobuf", httpPackage] := by
    decide
  obtain ⟨hbelow, haround⟩ := hpackage _ (hpackages _ hfront)
  exact (hasDistinctNames_wellKnownFiles _ hfront).apart_of_package hfile hbelow haround

/-- A set with a message in a package of its own. -/
def plainSet : List File :=
  [{ name? := some "demo.proto", package? := some "demo",
     messages := [.mk { name? := some "M" } []] }]

theorem declarations_completed_plainSet :
    ∃ added own whole, dialects plainSet = .ok own ∧
      dialects (completed plainSet) = .ok (added ++ own) ∧
      SymbolTable.ofFiles (added ++ own) = .ok whole := by
  have hown : dialects plainSet = .ok (plainSet.map withDialect) := rfl
  obtain ⟨added, hadded, hcompleted, haccepted⟩ :=
    (declarations_completed plainSet).2 _ _ hown rfl
  obtain ⟨whole, hwhole⟩ := haccepted.2 (by
    intro front hfront file hfile
    have hknown : front.2 ∈ wellKnownFiles := by
      apply mem_wellKnownFiles_of_mem_missingFiles
      rw [← dialects_eq_ok hadded]
      exact List.mem_map_of_mem hfront
    obtain rfl := List.mem_singleton.1 hfile
    exact apart_wellKnownFiles hknown (by decide) (by decide))
  exact ⟨added, _, whole, hown, hcompleted, hwhole⟩

/-- A set that declares the empty message in a file of its own choice. -/
def ownEmptySet : List File :=
  [{ name? := some "nothing.proto", package? := some "google.protobuf",
     messages := [.mk { name? := some "Empty" } []] }]

theorem redeclares_ownEmptySet :
    (∃ name, (∃ added ∈ missingFiles ownEmptySet, name ∈ typesOf added) ∧
      ∃ file ∈ ownEmptySet, name ∈ typesOf file) ∧
    (∃ own table, dialects ownEmptySet = .ok own ∧ SymbolTable.ofFiles own = .ok table) ∧
    ¬ ∃ whole table, dialects (completed ownEmptySet) = .ok whole ∧
      SymbolTable.ofFiles whole = .ok table := by
  have hmissing : emptyFile ∈ missingFiles ownEmptySet :=
    mem_missingFiles.2 (Or.inr (Or.inl ⟨rfl, rfl⟩))
  have hown : dialects ownEmptySet = .ok (ownEmptySet.map withDialect) := rfl
  refine ⟨⟨"google.protobuf.Empty", ⟨emptyFile, hmissing, by simp [typesOf_emptyFile]⟩,
    _, List.mem_singleton_self _, by decide⟩, ⟨_, _, hown, rfl⟩, ?_⟩
  rintro ⟨whole, table, hwhole, htable⟩
  have hdialects : dialects (completed ownEmptySet) =
    .ok ((missingFiles ownEmptySet).map withDialect ++
      ownEmptySet.map withDialect) :=
    dialects_append (dialects_wellKnownFiles mem_wellKnownFiles_of_mem_missingFiles) hown
  obtain rfl := Except.ok.inj (hdialects.symm.trans hwhole)
  have hapart := ((SymbolTable.exists_ofFiles_append_iff (exists_ofFiles_missingFiles ownEmptySet)
    ⟨_, rfl⟩).1 ⟨table, htable⟩).2 _ (List.mem_map_of_mem hmissing) _ (List.mem_singleton_self _)
    ("google.protobuf.Empty", .message) (by decide)
    ("google.protobuf.Empty", .message) (by decide) rfl
  simp at hapart

end ProtoSource.Load
