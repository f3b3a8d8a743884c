import ProtoSource.Proofs.Pool.Entering

/-!
# Names are entered once

The files of a set that was entered have different names, and no two of their
services, or of their messages, share a full name.  So files and services of a pool
are found by name.
-/

namespace ProtoSource.Pool

open ProtoSource.Descriptor
open ProtoSource.Text

section Entered

variable {files : List (Dialect × File)} {table : SymbolTable}

/-- The files of an entered set have different names. -/
theorem SymbolTable.nodup_fileNames (henter : ofFiles files = .ok table) :
    (files.map fun file => file.2.name).Nodup :=
  (exists_ofFiles_iff.1 ⟨table, henter⟩).1

/-- The names that files enter for one kind of declaration are different, unless it is
packages. -/
theorem SymbolTable.nodup_of_sublist (henter : ofFiles files = .ok table) {kind : SymbolKind}
    (hkind : kind ≠ .package) {names : File → List String}
    (hnames : ∀ file : Dialect × File,
      ((names file.2).map fun name => (name, kind)).Sublist (entriesOf file)) :
    ((files.map Prod.snd).flatMap names).Nodup := by
  have hsublist : List.Sublist
      (((files.map Prod.snd).flatMap names).map fun name => (name, kind))
      (files.flatMap entriesOf) := by
    rw [List.flatMap_map, List.map_flatMap]
    clear henter
    induction files with
    | nil => simp
    | cons file rest ih =>
        rw [List.flatMap_cons, List.flatMap_cons]
        exact (hnames file).append ih
  have hapart := (exists_ofFiles_iff.1 ⟨table, henter⟩).2.2.sublist hsublist
  rw [List.pairwise_map] at hapart
  exact hapart.imp fun {left right} hentries (hsame : left = right) => hkind (hentries hsame).1

end Entered

theorem sublist_services_entriesOf (file : Dialect × File) :
    ((serviceNames file.2).map fun name => (name, SymbolKind.service)).Sublist
    (entriesOf file) := by
  have hservices (services : List Service) :
      (((services.map fun service => (Name.join file.2.package service.name, service)).map
          Prod.fst).map fun name => (name, SymbolKind.service)).Sublist
        (Step.entries (services.flatMap (Step.ofService file.2.package))) := by
    induction services with
    | nil => simp
    | cons service rest ih =>
        rw [List.flatMap_cons, Step.entries_append, Step.ofService, Step.entries_enter]
        exact (ih.trans (List.sublist_append_right _ _)).cons_cons _
  unfold entriesOf Step.ofFile
  simp only [Step.entries_append]
  exact (hservices file.2.services).trans
    ((List.sublist_append_right _ _).trans (List.sublist_append_left _ _))

mutual

theorem sublist_messageIn_entries (dialect : Dialect) (scope : String) (message : Message) :
    (((messageIn scope message).map Prod.fst).map fun name => (name, SymbolKind.message)).Sublist
      (Step.entries (Step.ofMessage dialect scope message)) := by
  obtain ⟨body, nested⟩ := message
  have hnested := sublist_messagesIn_entries dialect (Name.join scope body.name) nested
  simp only [messageIn, Step.ofMessage, Step.ofFields, List.map_cons, List.cons_append,
    List.nil_append, Step.entries_enter, Step.entries_append, List.append_assoc]
  refine List.Sublist.cons_cons _ ?_
  exact ((hnested.trans (List.sublist_append_left _ _)).trans (List.sublist_append_right _ _)).trans
    ((List.sublist_append_right _ _).trans (List.sublist_append_right _ _))

/-- Messages are entered at any depth. -/
theorem sublist_messagesIn_entries (dialect : Dialect) (scope : String) (messages : List Message) :
    (((messagesIn scope messages).map Prod.fst).map fun name => (name, SymbolKind.message)).Sublist
      (Step.entries (Step.ofMessages dialect scope messages)) := by
  cases messages with
  | nil => simp [messagesIn]
  | cons message rest =>
      rw [messagesIn, Step.ofMessages, Step.entries_append, List.map_append, List.map_append]
      exact (sublist_messageIn_entries dialect scope message).append
        (sublist_messagesIn_entries dialect scope rest)

end

theorem sublist_messages_entriesOf (file : Dialect × File) :
    (((messagesOf file.2).map Prod.fst).map fun name => (name, SymbolKind.message)).Sublist
      (entriesOf file) := by
  unfold entriesOf Step.ofFile
  simp only [Step.entries_append, List.append_assoc]
  exact (sublist_messagesIn_entries file.1 file.2.package file.2.messages).trans
    ((List.sublist_append_left _ _).trans (List.sublist_append_right _ _))

theorem lookup_eq_some_of_mem {α : Type} {entries : List (String × α)}
    (hnodup : (entries.map Prod.fst).Nodup) {name : String} {value : α}
    (hmem : (name, value) ∈ entries) : entries.lookup name = some value := by
  induction entries with
  | nil => simp at hmem
  | cons entry rest ih =>
      obtain ⟨found, other⟩ := entry
      rw [List.map_cons, List.nodup_cons] at hnodup
      obtain hhead | hrest := List.mem_cons.1 hmem
      · obtain ⟨rfl, rfl⟩ := Prod.mk.inj hhead
        rw [List.lookup_cons, beq_self_eq_true]
      · have hne : (name == found) = false := by
          rw [beq_eq_false_iff_ne]
          rintro rfl
          exact hnodup.1 (List.mem_map.2 ⟨_, hrest, rfl⟩)
        rw [List.lookup_cons, hne]
        exact ih hnodup.2 hrest

section Built

variable {files : List (Dialect × File)} {symbols : SymbolTable} {resolved : List File}
    {pool : Pool}

/-- A file of a pool is found by its name. -/
theorem Builds.file?_name (hbuilds : Builds files symbols resolved pool) {file : File}
    (hfile : file ∈ pool.files) : pool.file? file.name = some file := by
  have hnodup : (pool.files.map File.name).Nodup := by
    rw [hbuilds.map_names.1]
    exact SymbolTable.nodup_fileNames hbuilds.enters
  unfold Pool.file?
  refine List.find?_eq_some_iff_append.2 ⟨by simp, ?_⟩
  obtain ⟨front, back, hsplit⟩ := List.append_of_mem hfile
  refine ⟨front, back, hsplit, fun other hother => ?_⟩
  rw [hsplit, List.map_append, List.nodup_append] at hnodup
  have hne := hnodup.2.2 other.name (List.mem_map_of_mem hother) file.name (by simp)
  simpa using hne

/-- A service is found by its full name. -/
theorem Builds.lookup_service (hbuilds : Builds files symbols resolved pool) {file : File}
    (hfile : file ∈ pool.files) {name : String} {service : Service}
    (hservice : (name, service) ∈ servicesOf file) :
    (pool.files.flatMap servicesOf).lookup name = some service := by
  have hnames : (pool.files.flatMap servicesOf).map Prod.fst =
      (files.map Prod.snd).flatMap serviceNames := by
    calc (pool.files.flatMap servicesOf).map Prod.fst
        = (pool.files.map serviceNames).flatten := by
          rw [List.map_flatMap, List.flatMap_def]
          rfl
      _ = (files.map fun file => serviceNames file.2).flatten := by rw [hbuilds.map_names.2]
      _ = (files.map Prod.snd).flatMap serviceNames := by rw [List.flatMap_map, List.flatMap_def]
  refine lookup_eq_some_of_mem ?_ (List.mem_flatMap.2 ⟨file, hfile, hservice⟩)
  rw [hnames]
  exact SymbolTable.nodup_of_sublist hbuilds.enters (by decide) sublist_services_entriesOf

/-- A service is listed under its full name unless that starts with a dot. -/
theorem Builds.mem_services (hbuilds : Builds files symbols resolved pool) {file : File}
    (hfile : file ∈ pool.files) {name : String} {service : Service}
    (hservice : (name, service) ∈ servicesOf file) (hbare : Name.bare name = name) :
    .ok (name, service) ∈ pool.services file := by
  obtain ⟨_, hmem, heq⟩ := List.mem_map.1 hservice
  obtain ⟨rfl, rfl⟩ := Prod.mk.inj heq
  refine List.mem_map.2 ⟨_, List.mem_map_of_mem hmem, ?_⟩
  simp only [hbare, hbuilds.lookup_service hfile hservice]

/-- If no full name starts with a dot the services are listed as they are declared. -/
theorem Builds.services_eq (hbuilds : Builds files symbols resolved pool) {file : File}
    (hfile : file ∈ pool.files) (hbare : ∀ name ∈ serviceNames file, Name.bare name = name) :
    pool.services file = (servicesOf file).map .ok := by
  rw [Pool.services, lookUp, servicesOf, List.map_map, List.map_map]
  refine List.map_congr_left fun service hservice => ?_
  have hentry : (Name.join file.package service.name, service) ∈ servicesOf file :=
    List.mem_map_of_mem hservice
  simp only [Function.comp_apply, hbare _ (List.mem_map_of_mem hentry),
    hbuilds.lookup_service hfile hentry]

end Built

end ProtoSource.Pool
