import ProtoSource.Proofs.Load.Rules
import ProtoSource.Proofs.Load.Tables
import ProtoSource.Proofs.Render.Plain

/-!
# Files with and without the well-known files in front

Whether the options of a file are read with the well-known files in front or without
them, the file says the same: either they add nothing that options are made of, or
they describe options as they are described anyway.
-/

namespace ProtoSource.Load

open ProtoSource.Descriptor
open ProtoSource.Http
open ProtoSource.Pool
open ProtoSource.Related
open ProtoSource.Render (SaysTheSame)
open ProtoSource.WellKnown
open ProtoSource.Wire

/-- The options of all methods can be read. -/
def HeldAllOptions (file : File) : Prop :=
  ∀ service ∈ file.services, ∀ method ∈ service.methods, HeldOptions method

theorem HeldAllOptions.resolveFile {file : File} (hheld : HeldAllOptions file)
    {symbols : SymbolTable} {files : List File} {messages : List (String × Message)}
    {enums : List (String × Enumeration)} {resolved : File}
    (hresolve : resolveFile symbols files messages enums file = .ok resolved) :
    HeldAllOptions resolved := by
  intro service hservice method hmethod
  obtain ⟨source, hsource, -, hmethods⟩ :=
    forall₂_exists_of_mem (pairMethods_resolveFile hresolve).flip hservice
  obtain ⟨before, hbefore, hoptions⟩ := forall₂_exists_of_mem hmethods.flip hmethod
  unfold HeldOptions
  rw [hoptions]
  exact hheld source hsource before hbefore

/-- The rules of all methods can be read. -/
def ReadsRules (file : File) : Prop :=
  ∀ service ∈ file.services, ∀ method ∈ service.methods,
    ∃ rule?, Rule.ofOptions (payloadOf method) = .ok rule?

/-- A file whose rules can be read without the well-known description of options says
the same with it. -/
theorem DescribesOptions.saysTheSame {table table' : MessageTable}
    (hdescribes : DescribesOptions table') (hnone : ∀ kind, table.lookup (optionsName kind) = none)
    {source file file' : File} (hheld : HeldAllOptions source)
    (hfile : recodeFile table source = .ok file) (hfile' : recodeFile table' source = .ok file')
    (hshort : HasShortOptions file) (hshort' : HasShortOptions file') (hrules : ReadsRules file) :
    SaysTheSame file file' := by
  obtain ⟨hsame, hservices⟩ := (hdescribes.recodeAlike hnone).recodeFile_eq hfile hfile'
  have hmethods : List.Forall₂ (fun service service' => service'.plain = service.plain ∧
      List.Forall₂ (fun method method' =>
        ∀ fullName, ruleOf fullName method' = ruleOf fullName method)
        service.methods service'.methods) file.services file'.services := by
    refine forall₂_imp_of_mem (fun service hservice service' hservice' hrecodes => ?_) hservices
    obtain ⟨before, hbefore, hsame, hmethods⟩ := hrecodes
    have hboth : List.Forall₂ (fun method method' => method'.plain = method.plain ∧
        ∀ fullName, ruleOf fullName method' = ruleOf fullName method)
        service.methods service'.methods := by
      refine forall₂_imp_of_mem (fun method hmethod method' hmethod' hrecodes => ?_) hmethods
      obtain ⟨origin, horigin, hrecode, hrecode'⟩ := hrecodes
      obtain ⟨rule?, hrule⟩ := hrules service hservice method hmethod
      obtain ⟨hplain, hkept⟩ := hdescribes.recodeMethod_eq hnone
        (hheld before hbefore origin horigin) hrecode hrecode'
          (hshort service hservice method hmethod)
        (hshort' service' hservice' method' hmethod')
      refine ⟨hplain, fun fullName => ?_⟩
      rw [ruleOf_eq_ok.2 hrule, ruleOf_eq_ok.2 (hkept rule? hrule)]
    refine ⟨?_, hboth.imp fun _ _ => And.right⟩
    have hplains := map_eq_map_of_forall₂ hboth fun _ _ hmethod => hmethod.1.symm
    rw [← hsame]
    simp only [Service.plain, hplains]
  refine ⟨?_, hmethods.imp fun _ _ => And.right⟩
  have hplains := map_eq_map_of_forall₂ hmethods fun _ _ hservice => hservice.1.symm
  rw [← hsame]
  simp only [File.plain, hplains]

theorem eq_of_recodeOptions_eq {table table' : MessageTable}
    (hrecode : ∀ {kind : OptionsKind} (options : Options kind),
      recodeOptions table' options = recodeOptions table options)
    {source file file' : File} (hfile : recodeFile table source = .ok file)
    (hfile' : recodeFile table' source = .ok file') : file' = file := by
  have halike : RecodeAlike table table' := fun _ _ => hrecode
  rw [halike.recodeFile_congr hrecode, hfile] at hfile'
  exact (Except.ok.inj hfile').symm

/-! ## Sets with well-known files in front -/

section Widened

variable {added own : List (Dialect × File)} {symbols wider : SymbolTable}
  (hwidened : Widened added own symbols wider) {resolved resolved' : List File} {pool pool' : Pool}
  (hbuilds : Builds own symbols resolved pool)
  (hbuilds' : Builds (added ++ own) wider resolved' pool')

include hwidened hbuilds

/-- The set has neither a message of the files in front nor an extension of one. -/
theorem apart_of_declaredMessages {name : String}
    (hname : name ∈ (declaredMessages added).map Prod.fst) :
    name ∉ (declaredMessages ((own.map Prod.fst).zip resolved)).map Prod.fst ∧
      LeavesAlone ((own.map Prod.fst).zip resolved) name := by
  have hnot : ∀ file ∈ own, name ∉ typesOf file.2 := by
    obtain ⟨⟨_, _, message⟩, hmem, rfl⟩ := List.mem_map.1 hname
    obtain ⟨front, hfront, -, hmessage⟩ := mem_declaredMessages hmem
    exact hwidened.notMem_typesOf hfront (List.mem_append_left _ (List.mem_map_of_mem hmessage))
  refine ⟨fun hmem => ?_, hbuilds.leavesAlone hnot⟩
  obtain ⟨file, hfile, htype⟩ := hbuilds.exists_mem_typesOf hmem
  exact hnot file hfile htype

include hbuilds'

variable {source file file' : File}

/-- A file of a set without descriptors says the same with the well-known files in
front. -/
theorem saysTheSame_of_optionsFront {empty : List File} (hempty : empty ∈ [[], [emptyFile]])
    (hadded : added = optionsFront empty) (hheld : HeldAllOptions source)
    (hfile : recodeFile pool.table source = .ok file)
    (hfile' : recodeFile pool'.table source = .ok file') (hshort : HasShortOptions file)
    (hshort' : HasShortOptions file') (hrules : ReadsRules file) : SaysTheSame file file' := by
  subst hadded
  have hapart {name : String} (hname : name ∈ allOptionTypes) :=
    apart_of_declaredMessages hwidened hbuilds (mem_declaredMessages_optionsFront empty hname)
  have hdescribes : DescribesOptions pool'.table := by
    rw [hwidened.table_eq (settledTogether_optionsFront hempty) hbuilds hbuilds']
    exact describesOptions_append hempty fun name hname => (hapart hname).2
  have hnone (kind : OptionsKind) : pool.table.lookup (optionsName kind) = none := by
    have hname : optionsName kind ∈ allOptionTypes := by
      cases kind <;> decide
    rw [hbuilds.table_eq, lookup_messageTable, lookup_eq_none_iff_notMem.2 (hapart hname).1,
      Option.map_none]
  exact hdescribes.saysTheSame hnone hheld hfile hfile' hshort hshort' hrules

/-- With the descriptors in front, but not the HTTP option, nothing changes. -/
theorem eq_of_descriptorFront {empty : List File} (hempty : empty ∈ [[], [emptyFile]])
    (hadded : added = descriptorFront empty) (hfile : recodeFile pool.table source = .ok file)
    (hfile' : recodeFile pool'.table source = .ok file') : file' = file := by
  subst hadded
  have hfront : ∀ name ∈ optionsName .method :: optionTypes,
      name ∈ (declaredMessages (descriptorFront empty)).map Prod.fst := by
    intro name hname
    rw [descriptorFront_eq, declaredMessages_append, List.map_append]
    exact List.mem_append_left _ (mem_declaredMessages_descriptorFile name hname)
  have hapart {name : String} (hname : name ∈ optionsName .method :: optionTypes) :=
    apart_of_declaredMessages hwidened hbuilds (hfront name hname)
  have hlookup : ∀ name ∈ optionsName .method :: optionTypes,
      pool'.table.lookup name = descriptorTable.lookup name := by
    intro name hname
    rw [hwidened.table_eq (settledTogether_descriptorFront hempty) hbuilds hbuilds']
    exact lookup_descriptorFront hempty hname (hapart hname).2
  have hrecode {kind : OptionsKind} (options : Options kind) :
      recodeOptions pool'.table options = recodeOptions pool.table options := by
    have hkind : optionsName kind ∈ optionsName .method :: optionTypes := by
      cases kind <;> decide
    have htable : optionsTable pool.table kind = descriptorTable := by
      rw [optionsTable, hbuilds.table_eq, lookup_messageTable,
        lookup_eq_none_iff_notMem.2 (hapart hkind).1]
      rfl
    have htable' : optionsTable pool'.table kind = pool'.table :=
      if_pos (by rw [hlookup _ hkind]; exact isSome_lookup_optionsName kind)
    unfold recodeOptions recode
    rw [htable, htable', (agreesOn_of_lookup (List.Subset.refl _) (List.subset_cons_self _ _)
      hlookup).recode_eq hkind]
    rfl
  exact eq_of_recodeOptions_eq hrecode hfile hfile'

/-- With only the empty message in front nothing changes. -/
theorem eq_of_emptyFile (hadded : added = [withDialect emptyFile])
    (hfile : recodeFile pool.table source = .ok file)
    (hfile' : recodeFile pool'.table source = .ok file') : file' = file := by
  subst hadded
  have hsettled : SettledTogether [withDialect emptyFile] :=
    List.forall_mem_singleton.2 (isSettled_emptyFile _ _)
  have hname : "google.protobuf.Empty" ∈
      (declaredMessages [withDialect emptyFile]).map Prod.fst := by
    rw [declaredMessages_emptyFile]
    exact List.mem_cons_self
  obtain ⟨hnot, halone⟩ := apart_of_declaredMessages hwidened hbuilds hname
  have hrecode {kind : OptionsKind} (options : Options kind) :
      recodeOptions pool'.table options = recodeOptions pool.table options := by
    rw [hwidened.table_eq hsettled hbuilds hbuilds', hbuilds.table_eq]
    exact recodeOptions_emptyFile hnot halone options
  exact eq_of_recodeOptions_eq hrecode hfile hfile'

end Widened

end ProtoSource.Load
