import ProtoSource.Proofs.Pool.Outline
import ProtoSource.Proofs.Render.Plain

/-!
# Printing with more files in front

Files in front of a set whose names all lie below one root do not change the text of
a file outside that root: its references lead to types of the set, and its scopes do
not lie below the root, because a declaration of that name would clash with the
package.
-/

namespace ProtoSource.Pool

open ProtoSource.Descriptor
open ProtoSource.Related
open ProtoSource.Text

/-- What lies around a holder is a package or a message of the same file. -/
theorem WellNamed.mem_scopes_of_mem_holdersOf {file : File} (hfile : WellNamed file)
    {name front : String} {rest : List Char} (hname : name ∈ holdersOf file)
    (hcut : name.toList = front.toList ++ '.' :: rest) :
    front ∈ Name.packages file.package ∨ front ∈ (messagesOf file).map Prod.fst := by
  simp only [holdersOf, List.mem_append] at hname
  obtain (hpackage | htype) | hservice := hname
  · have hnonempty : name ≠ "" := by
      rintro rfl
      simp at hcut
    have hfront : front ∈ Name.packages name := Name.mem_packages.2 ⟨hnonempty, Or.inr ⟨rest, hcut⟩⟩
    exact Or.inl (Name.mem_packages_trans hfront hpackage)
  · exact hfile.mem_scopes_of_cut htype hcut
  · obtain ⟨⟨_, service⟩, hentry, rfl⟩ := List.mem_map.1 hservice
    have hidentifier := hfile.services _ hentry
    obtain ⟨_, -, heq⟩ := List.mem_map.1 hentry
    obtain ⟨rfl, rfl⟩ := Prod.mk.inj heq
    exact Or.inl (Name.mem_packages_of_toList_join hidentifier.2 hcut)

/-- The scopes around a holder are holders of the same file. -/
theorem WellNamed.mem_holdersOf_of_mem_packages {file : File} (hfile : WellNamed file)
    {name front : String} (hname : name ∈ holdersOf file) (hfront : front ∈ Name.packages name) :
    front ∈ holdersOf file := by
  obtain ⟨-, rfl | ⟨rest, hcut⟩⟩ := Name.mem_packages.1 hfront
  · exact hname
  · exact mem_holdersOf_of_mem_scopes (hfile.mem_scopes_of_mem_holdersOf hname hcut)

theorem WellNamed.bare_serviceNames {source file : File} (hsource : WellNamed source)
    (hkeeps : KeepsNames source file) : ∀ name ∈ serviceNames file, Name.bare name = name := by
  intro name hname
  rw [hkeeps.services] at hname
  exact Name.bare_eq_self (hsource.isDotted_of_mem_holdersOf (List.mem_append_right _ hname)).head

/-- The services of a well-named file are listed as they are declared. -/
theorem Builds.services_eq_of_wellNamed {files : List (Dialect × File)} {symbols : SymbolTable}
    {resolved : List File} {pool : Pool} (hbuilds : Builds files symbols resolved pool)
    (hfiles : ∀ file ∈ files, WellNamed file.2) {file : File} (hfile : file ∈ pool.files) :
    pool.services file = (servicesOf file).map .ok := by
  obtain ⟨source, hsource, hkeeps⟩ := forall₂_exists_of_mem hbuilds.keepsNames.flip hfile
  obtain ⟨dialected, hdialected, rfl⟩ := List.mem_map.1 hsource
  exact hbuilds.services_eq hfile ((hfiles dialected hdialected).bare_serviceNames hkeeps)

/-- A package of the files in front is at most a package in the set. -/
theorem Widened.notMem_holdersOf {added own : List (Dialect × File)} {table wider : SymbolTable}
    (hwidened : Widened added own table wider) {front file : Dialect × File}
    (hfront : front ∈ added)
    (hfile : file ∈ own) {root : String} (hroot : root ∈ Name.packages front.2.package)
    (hpackage : root ∉ Name.packages file.2.package) : root ∉ holdersOf file.2 := by
  intro hholder
  obtain ⟨kind, hkind, hentry⟩ := (mem_holdersOf_iff file.1).1 hholder
  have hentered : (root, .package) ∈ entriesOf front :=
    (mem_entriesOf_iff (by simp)).2 (Or.inl ⟨rfl, hroot⟩)
  obtain ⟨-, hsame⟩ := hwidened.apart front hfront file hfile _ hentered _ hentry rfl
  obtain rfl : kind = .package := hsame
  exact hpackage (by simpa using (mem_entriesOf_iff (by simp)).1 hentry)

end ProtoSource.Pool

namespace ProtoSource.Render

open ProtoSource.Descriptor
open ProtoSource.Pool
open ProtoSource.Related
open ProtoSource.Text

/-- The name is relative and does not lie below `root`. -/
def Outside (root name : String) : Prop :=
  name.toList.head? ≠ some '.' ∧ root ∉ Name.packages name

theorem outside_of_mem_holdersOf {file : File} (hfile : WellNamed file) {root : String}
    (hroot : root ∉ holdersOf file) {name : String} (hname : name ∈ holdersOf file) :
    Outside root name :=
  ⟨(hfile.isDotted_of_mem_holdersOf hname).head,
    fun hmem => hroot (hfile.mem_holdersOf_of_mem_packages hname hmem)⟩

theorem Outside.join {root scope : String} (hscope : Outside root scope) (hempty : scope ≠ "")
    (hroot : '.' ∉ root.toList) (name : String) : Outside root (Name.join scope name) :=
  ⟨Name.head_join hempty name ▸ hscope.1,
    fun hmem => hscope.2 (Name.mem_packages_of_mem_join hroot hempty hmem)⟩

theorem serviceNames_plain (file : File) : serviceNames file.plain = serviceNames file := by
  rw [serviceNames_eq, serviceNames_eq]
  exact List.map_map

section Widened

variable {added own : List (Dialect × File)} {table wider : SymbolTable}
  (hwidened : Widened added own table wider) {resolved resolved' : List File} {pool pool' : Pool}
  (hbuilds : Builds own table resolved pool)
  (hbuilds' : Builds (added ++ own) wider resolved' pool')
  {root : String} (hroot : Name.IsIdentifier root)
  (hbelow : ∀ front ∈ added, LiesBelow root front.2)

include hwidened hbuilds hbuilds' hroot hbelow

/-- Outside the root the types of the set are spelled alike. -/
theorem spellsAlike_of_widened (package : String) :
    SpellsAlike pool.files pool'.files package (Outside root) table.LeadsTo := by
  intro name typeName houtside hleads
  have hfront : ∀ front ∈ added.map Prod.snd, LiesBelow root front := List.forall_mem_map.2 hbelow
  have hwell : ∀ file ∈ own.map Prod.snd, WellNamed file := List.forall_mem_map.2 hwidened.wellNamed
  have hnames := hbuilds'.keepsNames
  rw [List.map_append] at hnames
  rw [reference_congr hbuilds.keepsNames, reference_congr hnames,
    reference_append hroot hfront package houtside.1 houtside.2 hwell
      (isType_of_leadsTo hwidened.enters hleads)]

/-- A file outside the root that says the same in both pools is printed the same. -/
theorem printFile_eq_of_widened (hadded : added ≠ []) {file file' : File}
    (hfile : file ∈ pool.files) (hfile' : file' ∈ pool'.files)
    (hpackage : root ∉ Name.packages file.package) (hmeaning : SaysTheSame file file')
    (width : Nat) :
    printFile width pool file = printFile width pool' file' := by
  obtain ⟨source, hsource, hkeeps⟩ := forall₂_exists_of_mem hbuilds.keepsNames.flip hfile
  obtain ⟨dialected, hdialected, rfl⟩ := List.mem_map.1 hsource
  have hwell := hwidened.wellNamed dialected hdialected
  obtain ⟨front, hfront⟩ := List.exists_mem_of_ne_nil added hadded
  have hholders : root ∉ holdersOf dialected.2 :=
    hwidened.notMem_holdersOf hfront hdialected (hbelow front hfront).package
      (hkeeps.package ▸ hpackage)
  have hnamed : ∀ name ∈ serviceNames file, name ∈ holdersOf dialected.2 ∧ name ≠ "" := by
    rw [hkeeps.services]
    intro name hname
    refine ⟨List.mem_append_right _ hname, ?_⟩
    obtain ⟨⟨_, service⟩, hentry, rfl⟩ := List.mem_map.1 hname
    have hidentifier := hwell.services _ hentry
    obtain ⟨_, -, heq⟩ := List.mem_map.1 hentry
    obtain ⟨rfl, rfl⟩ := Prod.mk.inj heq
    exact Name.join_ne_empty hidentifier.1 _
  have hsame : serviceNames file' = serviceNames file := by
    rw [← serviceNames_plain, hmeaning.plain_eq, serviceNames_plain]
  have hrefers := hbuilds.refersTo hfile
  refine printFile_congr hmeaning (hbuilds.services_eq_of_wellNamed hwidened.wellNamed hfile)
    (hbuilds'.services_eq hfile' (hsame ▸ hwell.bare_serviceNames hkeeps))
    (spellsAlike_of_widened hwidened hbuilds hbuilds' hroot hbelow file.package) ?_
    hrefers.fields ?_
    hrefers.methods width
  · intro entry hentry
    refine outside_of_mem_holdersOf hwell hholders ?_
    have hmem : entry.1 ∈ (messagesOf dialected.2).map Prod.fst := by
      rw [← hkeeps.messages]
      exact List.mem_map_of_mem hentry
    simp only [holdersOf, typesOf, List.mem_append]
    exact Or.inl (Or.inr (Or.inl hmem))
  · intro service hservice method _
    have hmem : Name.join file.package service.name ∈ serviceNames file := by
      rw [serviceNames_eq]
      exact List.mem_map_of_mem hservice
    obtain ⟨hholder, hempty⟩ := hnamed _ hmem
    exact (outside_of_mem_holdersOf hwell hholders hholder).join hempty hroot.2 method.name

end Widened

end ProtoSource.Render
