import ProtoSource.Proofs.Load.Both
import ProtoSource.Proofs.Render.Widened
import ProtoSource.Proofs.Text.Depths

/-!
# Both strategies

A set that has the HTTP option, or nothing that options are described by, is printed
the same whether the well-known files are supplied or not, unless its last file lies
below the root of their names.  There the packages that are supplied take part in
look-up, and a reference may have to be spelled in full.
-/

namespace ProtoSource.Render

open ProtoSource.Descriptor
open ProtoSource.Load
open ProtoSource.Pool
open ProtoSource.Related
open ProtoSource.Success
open ProtoSource.Text
open ProtoSource.WellKnown
open ProtoSource.Wire

theorem endLine_of_printFile {width : Nat} {pool : Pool} {file : File} {text : String}
    (hprint : printFile width pool file = .ok text) : endLine text = text := by
  simp only [printFile, fileItems, bind_eq_ok, pure_eq_ok] at hprint
  obtain ⟨_, ⟨services, -, messages, -, enums, -, rfl⟩, rfl⟩ := hprint
  refine if_pos (Layout.getLast?_render width ?_)
  simp only [headItems, List.append_assoc, List.cons_append]
  rw [Layout.write]
  exact Layout.written_write _ (by simp [Layout.writeItem, Layout.line])

/-! ## The last file in both pools -/

/-- If a file is printed the rules of its methods can be read. -/
theorem readsRules_of_printFile {width : Nat} {pool : Pool} {file : File} {text : String}
    (hlisted : pool.services file = (servicesOf file).map .ok)
    (hprint : printFile width pool file = .ok text) :
    ReadsRules file := by
  intro service hservice method hmethod
  have hmem : .ok (Name.join file.package service.name, service) ∈ pool.services file := by
    rw [hlisted]
    exact List.mem_map_of_mem (List.mem_map_of_mem hservice)
  obtain ⟨rule?, hrule⟩ := exists_rule_of_printFile hprint hmem hmethod
  exact ⟨rule?, ruleOf_eq_ok.1 hrule⟩

/-- The name below which all well-known files declare. -/
def wellKnownRoot : String := "google"

/-- A file lies below the root of its package. -/
theorem liesBelow_of_mem_packages {root : String} {file : File} (hfile : HasDistinctNames file)
    (hroot : Name.IsIdentifier root) (hpackage : root ∈ Name.packages file.package) :
    LiesBelow root file := by
  have haround {name : String} (hname : name ∈ Name.packages file.package) :
      root ∈ Name.packages name := Name.mem_packages_of_mem_packages hroot hpackage hname
  have hentries : ∀ entry ∈ entriesOf (.proto2, file), root ∈ Name.packages entry.1 ∧
      (entry.1 = root → entry.2 = .package) := by
    intro entry hentry
    obtain ⟨hkind, hname⟩ | ⟨name, -, hwithin⟩ := hfile.mem_entriesOf hentry
    · exact ⟨haround hname, fun _ => hkind⟩
    · have hbelow : file.package ∈ Name.packages entry.1 :=
        Name.mem_packages_of_join (Name.mem_packages.1 hpackage).1 hwithin
      refine ⟨Name.mem_packages_trans hpackage hbelow, ?_⟩
      rintro rfl
      exact absurd hpackage (Name.notMem_packages_of_join hwithin)
  refine ⟨hpackage, fun name hname => ?_, fun htype => ?_, fun hservice => ?_⟩
  · obtain ⟨kind, -, hentry⟩ := (mem_holdersOf_iff .proto2).1 hname
    exact (hentries _ hentry).1
  · obtain ⟨kind, hkind, hentry⟩ := (mem_typesOf_iff .proto2).1 htype
    obtain rfl : kind = .package := (hentries _ hentry).2 rfl
    simp [SymbolKind.isType] at hkind
  · have hentry : (root, .service) ∈ entriesOf (.proto2, file) :=
      (mem_entriesOf_iff (by simp)).2 (by simp [hservice])
    simpa using (hentries _ hentry).2 rfl

theorem liesBelow_wellKnownFiles : ∀ file ∈ wellKnownFiles, LiesBelow wellKnownRoot file := by
  have hpackages : ∀ file ∈ wellKnownFiles, wellKnownRoot ∈ Name.packages file.package := by
    decide +kernel
  exact fun file hfile => liesBelow_of_mem_packages (hasDistinctNames_wellKnownFiles file hfile)
    (by decide) (hpackages file hfile)

/-- The last file of a set is printed the same from both pools. -/
theorem printFile_eq_of_buildsBoth {bytes : Bytes} {own : List (Dialect × File)}
    {symbols wider : SymbolTable} {resolved resolved' : List File} {pool pool' : Pool}
    (hown : decodeFiles bytes = .ok (own.map Prod.snd))
    (hboth : BuildsBoth own symbols wider resolved resolved' pool pool')
    (hbrings : BringsRulesOrNothing (own.map Prod.snd))
    (hlacks : missingFiles (own.map Prod.snd) ≠ [])
    {source : File} (hsource : (own.map Prod.snd).getLast? = some source)
    (hpackage : wellKnownRoot ∉ Name.packages source.package)
    (hshort : ∀ file ∈ pool.files, HasShortOptions file)
    (hshort' : ∀ file ∈ pool'.files, HasShortOptions file) {width : Nat} {file : File}
    {text : String}
    (hfile : pool.file? source.name = some file) (hprint : printFile width pool file = .ok text) :
    ∃ file', pool'.file? source.name = some file' ∧ printFile width pool' file' = .ok text := by
  obtain ⟨hwidened, hbuilds, hbuilds'⟩ := id hboth
  have hsource' :
      (((missingFiles (own.map Prod.snd)).map withDialect ++ own).map Prod.snd).getLast? =
      some source := by
    rw [List.map_append, List.getLast?_append, hsource]
    rfl
  have hmem : source ∈ own.map Prod.snd := List.mem_of_getLast? hsource
  obtain ⟨middle, found, hresolve, hrecode, hlast, hfound⟩ := exists_last_of_builds hbuilds hsource
  obtain ⟨middle', file', hresolve', hrecode', hlast', hfound'⟩ :=
    exists_last_of_builds hbuilds' hsource'
  obtain rfl : found = file := Option.some.inj (hfound.symm.trans hfile)
  obtain rfl : middle = middle' := by
    rw [List.map_append] at hresolve'
    exact resolveFile_eq (hwidened.agrees hmem _ _ _ _) hresolve hresolve'
  have hfiles : found ∈ pool.files := List.mem_of_getLast? hlast
  have hfiles' : file' ∈ pool'.files := List.mem_of_getLast? hlast'
  have hheld : HeldAllOptions source := fun service hservice method hmethod =>
    heldOptions_of_decodeFiles hown hmem hservice hmethod
  have hrules : ReadsRules found :=
    readsRules_of_printFile (hbuilds.services_eq_of_wellNamed hwidened.wellNamed hfiles) hprint
  have hmeaning : SaysTheSame found file' := hboth.saysTheSame hbrings hlacks
    (hheld.resolveFile hresolve) hrecode hrecode' (hshort found hfiles) (hshort' file' hfiles')
    hrules
  have hbelow : ∀ front ∈ (missingFiles (own.map Prod.snd)).map withDialect,
      LiesBelow wellKnownRoot front.2 :=
    List.forall_mem_map.2 fun front hfront =>
      liesBelow_wellKnownFiles front (mem_wellKnownFiles_of_mem_missingFiles front hfront)
  have houtside : wellKnownRoot ∉ Name.packages found.package := by
    rwa [(names_of_recodeFile hrecode).2.1, (names_of_resolveFile hresolve).2.1]
  refine ⟨file', hfound', ?_⟩
  rw [← printFile_eq_of_widened hwidened hbuilds hbuilds' (by decide) hbelow (by simpa using hlacks)
    hfiles hfiles' houtside hmeaning width, hprint]

/-! ## Both strategies -/

theorem file_eq_ok {loaded : Loaded} {file : File} :
    loaded.file = .ok file ↔ loaded.pool.file? loaded.target = some file := by
  unfold Loaded.file
  cases loaded.pool.file? loaded.target <;> simp

/-- Well-known files that are supplied for the set are no part of how its last file
`source` is printed: that lies outside of their names, and the set does not describe
options without them. -/
structure StandsApart (files : List File) (source : File) : Prop where
  wellNamed : ∀ file ∈ files, WellNamed file
  outside : wellKnownRoot ∉ Name.packages source.package
  brings : BringsRulesOrNothing files

/-- If a set can be loaded with the well-known files, its last file is printed with them
as it is printed without them, provided that it stands apart from them if it lacks
any. -/
theorem renderSynthesizing_eq_renderDirect {bytes : Bytes} {files : List File} {source : File}
    (hfiles : decodeFiles bytes = .ok files) (hsource : files.getLast? = some source)
    (hapart : missingFiles files ≠ [] → StandsApart files source)
    (hfilled : FillsShortly bytes)
    (hshort : ∀ synthesize loaded, load synthesize bytes = .ok loaded →
      ∀ file ∈ loaded.pool.files, HasShortOptions file)
    {loaded' : Loaded} (hload' : load true bytes = .ok loaded') {width : Nat} {text : String}
    (hdirect : renderDirect width bytes = .ok text) :
    renderSynthesizing (printFile width) bytes = .ok text := by
  simp only [renderDirect, bind_eq_ok] at hdirect
  obtain ⟨loaded, hload, file, hfile, hprint⟩ := hdirect
  suffices hprinted : ∃ file', loaded'.file = .ok file' ∧
      printFile width loaded'.pool file' = .ok text by
    obtain ⟨file', hfile', hprint'⟩ := hprinted
    simp only [renderSynthesizing, bind_eq_ok, pure_eq_ok]
    exact ⟨loaded', hload', file', hfile', text, hprint', endLine_of_printFile hprint'⟩
  obtain ⟨set, front, files', whole, hset, hfront, hfills, hpool, hcomplete, hpool', htarget,
    htarget'⟩ := exists_set_of_loads hfiles hsource hload hload' hfilled
  have hfound : loaded.pool.file? source.name = some file := by
    rw [← htarget]
    exact file_eq_ok.1 hfile
  simp only [file_eq_ok, htarget']
  by_cases hlacks : missingFiles (front ++ files') = []
  · -- Nothing is supplied, so both pools are of the same bytes.
    have hsame : whole = set := by
      rw [complete_eq_map, hset] at hcomplete
      simpa [Except.map, missingBytes, hlacks, encodeSet, Write.many, encode] using hcomplete.symm
    rw [hsame] at hpool'
    rw [← Except.ok.inj (hpool.symm.trans hpool')]
    exact ⟨file, hfound, hprint⟩
  · obtain ⟨hwell, hpackage, hbrings⟩ :=
      hapart fun hnothing => hlacks (missingFiles_filled front hfills hnothing)
    obtain ⟨own, symbols, wider, resolved, resolved', hown, hboth⟩ := exists_buildsBoth hset
      (wellNamed_of_fills hfront hfills hwell) hpool hcomplete hpool'
    obtain ⟨filled, hlast, hfill⟩ := forall₂_getLast? hfills hsource
    have hlast' : (front ++ files').getLast? = some filled := by
      rw [List.getLast?_append, hlast]
      rfl
    rw [← hown] at hset hlacks hlast'
    have hbrings' : BringsRulesOrNothing (own.map Prod.snd) := hown ▸ hbrings.filled hfront hfills
    rw [← hfill.package_eq] at hpackage
    rw [← hfill.name_eq] at hfound ⊢
    exact printFile_eq_of_buildsBoth hset hboth hbrings' hlacks hlast' hpackage
      (hshort false loaded hload) (hshort true loaded' hload') hfound hprint

/-- A set with descriptions of its own that lacks the empty message only; its last file
has a method with an HTTP rule. -/
def describedSet : Bytes :=
  oneMethodSet
    [openDescriptor, { name? := some annotationsPath, package? := some httpPackage }] getOption

theorem renderSynthesizing_describedSet : ∃ text, renderDirect 2 describedSet = .ok text ∧
    renderSynthesizing (printFile 2) describedSet = .ok text := by
  have hset : (decodeFiles describedSet).toOption.map (fun files =>
      (decide (∀ file ∈ files, WellNamed file), decide (BringsRulesOrNothing files),
        files.getLast?.map fun source =>
          decide (wellKnownRoot ∉ Name.packages source.package))) =
            some (true, true, some true) := by
    decide +kernel
  have hfill : (fillTypes describedSet).toOption = some none := by
    decide +kernel
  have hloads : ∀ synthesize, (load synthesize describedSet).toOption.map (fun loaded =>
      loaded.pool.files.all fun file => file.services.all fun service =>
        service.methods.all fun method => decide ((payloadOf method).length < 2 ^ 64)) =
      some true := by
    decide +kernel
  have hdirect : (renderDirect 2 describedSet).toOption.isSome := by
    decide +kernel
  obtain ⟨text, htext⟩ := exists_ok_of_isSome hdirect
  obtain ⟨files, hfiles, hset⟩ := exists_ok_of_map_eq_some hset
  obtain ⟨loaded', hload', -⟩ := exists_ok_of_map_eq_some (hloads true)
  simp only [Prod.mk.injEq, decide_eq_true_eq, Option.map_eq_some_iff] at hset
  obtain ⟨hwell, hbrings, source, hsource, hpackage⟩ := hset
  refine ⟨text, htext, renderSynthesizing_eq_renderDirect hfiles hsource
    (fun _ => ⟨hwell, hpackage, hbrings⟩) ?_ ?_ hload' htext⟩
  · intro filled hfilled
    simp [hfilled, Except.toOption] at hfill
  · intro synthesize loaded hload
    obtain ⟨_, hloaded, hlengths⟩ := exists_ok_of_map_eq_some (hloads synthesize)
    obtain rfl := Except.ok.inj (hloaded.symm.trans hload)
    simp only [List.all_eq_true, decide_eq_true_eq] at hlengths
    exact hlengths

/-- A file below the root of the well-known names that refers to a package named like
one of theirs. -/
def capturedSet : Bytes :=
  encodeSet [openDescriptor] ++ encode
    [.embed 1 [.text 1 "api.proto", .text 2 "api", .embed 4 [.text 1 "Foo"]],
     .embed 1 [.text 1 "demo.proto", .text 2 "google.demo", .text 3 "api.proto",
       .embed 4 [.text 1 "M",
         .embed 2 [.text 1 "f", .varint 3 1, .varint 5 11, .text 6 ".api.Foo"]],
       .text 12 "proto3"]]

/-- The package that is supplied for the HTTP option captures the first component of the
reference. -/
theorem renderSynthesizing_capturedSet : ∃ text text', renderDirect 2 capturedSet = .ok text ∧
    renderSynthesizing (printFile 2) capturedSet = .ok text' ∧ text' ≠ text := by
  have hcomputed : (renderDirect 2 capturedSet).toOption.isSome ∧
      (renderSynthesizing (printFile 2) capturedSet).toOption.isSome ∧
      (renderSynthesizing (printFile 2) capturedSet).toOption ≠
        (renderDirect 2 capturedSet).toOption := by
    decide +kernel
  obtain ⟨hdirect, hsynthesizing, hne⟩ := hcomputed
  obtain ⟨text, htext⟩ := exists_ok_of_isSome hdirect
  obtain ⟨text', htext'⟩ := exists_ok_of_isSome hsynthesizing
  refine ⟨text, text', htext, htext', fun hsame => hne ?_⟩
  rw [htext, htext', hsame]

end ProtoSource.Render
