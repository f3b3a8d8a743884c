import ProtoSource.Proofs.Load.Alike

/-!
# Loading a set in both ways

Filling in types leaves the names of a set as they are.  With synthesis the pool is
built from the same files as without it, after the well-known files that they lack.
-/

namespace ProtoSource.Load

open ProtoSource.Descriptor
open ProtoSource.Pool
open ProtoSource.Related
open ProtoSource.Render (SaysTheSame)
open ProtoSource.Success
open ProtoSource.WellKnown
open ProtoSource.Wire

mutual

theorem messageIn_plain (scope : String) (message : Message) :
    messageIn scope message.plain =
      (messageIn scope message).map fun entry => (entry.1, entry.2.plain) := by
  obtain ⟨body, nested⟩ := message
  rw [Message.plain, messageIn, messageIn, messagesIn_plain, List.map_cons, Message.plain]
  rfl

theorem messagesIn_plain (scope : String) (messages : List Message) :
    messagesIn scope (Message.plainAll messages) =
      (messagesIn scope messages).map fun entry => (entry.1, entry.2.plain) := by
  cases messages with
  | nil => rfl
  | cons message rest =>
      rw [Message.plainAll, messagesIn, messagesIn, messageIn_plain, messagesIn_plain,
        List.map_append]

end

/-- The encoded form of options has no part in the names of a file. -/
theorem wellNamed_plain {file : File} : WellNamed file.plain ↔ WellNamed file := by
  have hmessages : messagesOf file.plain =
      (messagesOf file).map fun entry => (entry.1, entry.2.plain) := by
    rw [messagesOf, messagesOf, ← messagesIn_plain, Message.plainAll_eq_map]
    rfl
  have henumsIn (scope : String) (enums : List Enumeration) :
      enumsIn scope (enums.map Enumeration.plain) =
        (enumsIn scope enums).map fun entry => (entry.1, entry.2.plain) := by
    simp only [enumsIn, List.map_map]
    rfl
  have henums : enumsOf file.plain = (enumsOf file).map fun entry => (entry.1, entry.2.plain) := by
    rw [enumsOf, enumsOf, hmessages, List.flatMap_map, List.map_append, List.map_flatMap]
    simp only [← henumsIn]
    refine congrArg (_ ++ ·) (List.flatMap_congr fun entry _ => ?_)
    obtain ⟨_, body, nested⟩ := entry
    rfl
  have hservices : servicesOf file.plain =
      (servicesOf file).map fun entry => (entry.1, entry.2.plain) := by
    rw [servicesOf, servicesOf, List.map_map]
    exact List.map_map
  rw [wellNamed_iff, wellNamed_iff, hmessages, henums, hservices]
  simp only [List.forall_mem_map, Render.name_plain]
  rfl

theorem wellNamed_filledFile {file : File} (hfile : WellNamed file) :
    WellNamed (filledFile file) := by
  unfold filledFile
  split
  · refine ⟨hfile.package, hfile.messages, hfile.enums, fun entry hentry => ?_⟩
    simp only [servicesOf, List.map_map, List.mem_map] at hentry
    obtain ⟨service, hservice, rfl⟩ := hentry
    exact hfile.services (_, service) (List.mem_map_of_mem hservice)
  · exact hfile

theorem Fills.wellNamed {file file' : File} (hfills : Fills file file') (hfile : WellNamed file) :
    WellNamed file' := by
  rw [← wellNamed_plain, hfills.plain_eq, wellNamed_plain]
  exact wellNamed_filledFile hfile

theorem Fills.messageNames_eq {file file' : File} (hfills : Fills file file') :
    file'.messages.map Message.name = file.messages.map Message.name := by
  have hfilled : (filledFile file).messages = file.messages := by
    unfold filledFile
    split <;> rfl
  have hplain (messages : List Message) :
      (messages.map Message.plain).map Message.name = messages.map Message.name := by
    simp only [List.map_map, Function.comp_def, Render.name_plain]
  have hmessages : file'.plain.messages = (filledFile file).plain.messages := by
    rw [hfills.plain_eq]
  change file'.messages.map Message.plain =
    (filledFile file).messages.map Message.plain at hmessages
  rw [← hplain file'.messages, hmessages, hplain, hfilled]

theorem wellNamed_of_fills {front files files' : List File} (hfront : front ∈ [[], [emptyFile]])
    (hfills : List.Forall₂ Fills files files') (hwell : ∀ file ∈ files, WellNamed file) :
    ∀ file ∈ front ++ files', WellNamed file := by
  rw [List.forall_mem_append]
  constructor
  · simp only [List.mem_cons, List.not_mem_nil, or_false] at hfront
    obtain rfl | rfl := hfront <;> decide
  · intro file hfile
    obtain ⟨source, hsource, hfill⟩ := forall₂_exists_of_mem hfills.flip hfile
    exact hfill.wellNamed (hwell source hsource)

/-! ## What a set brings along -/

/-- The set has the HTTP option, or neither that nor the descriptors nor a message for
its rules. -/
def BringsRulesOrNothing (files : List File) : Prop :=
  hasFile files annotationsPath = true ∨
    (hasFile files descriptorPath = false ∧ hasFile files annotationsPath = false ∧
      declares files httpPackage "HttpRule" = false)

instance (files : List File) : Decidable (BringsRulesOrNothing files) := by
  unfold BringsRulesOrNothing
  infer_instance

/-- Such a set lacks, the empty message aside, nothing, the descriptors, or all that
options are made of. -/
theorem BringsRulesOrNothing.missingFiles_cases {files : List File}
    (hbrings : BringsRulesOrNothing files) :
    ∃ empty ∈ [[], [emptyFile]], missingFiles files = empty ∨
      missingFiles files = [descriptorFile] ++ empty ∨
      missingFiles files = [descriptorFile] ++ empty ++ [annotationsWithRules] := by
  refine ⟨if hasFile files emptyPath then [] else [emptyFile], ?_, ?_⟩
  · split <;> simp
  unfold missingFiles
  obtain hannotations | ⟨hdescriptor, hannotations, hrules⟩ := hbrings
  · cases hasFile files descriptorPath <;> simp [hannotations]
  · simp [hdescriptor, hannotations, annotationsFor, hrules]

theorem map_name_of_fills {files files' : List File} (hfills : List.Forall₂ Fills files files') :
    files'.map File.name = files.map File.name :=
  (map_eq_map_of_forall₂ hfills fun _ _ hfill => hfill.name_eq.symm).symm

theorem hasFile_filled {files files' front : List File} (hfront : front ∈ [[], [emptyFile]])
    (hfills : List.Forall₂ Fills files files') {path : String} (hpath : path ≠ emptyPath) :
    hasFile (front ++ files') path = hasFile files path := by
  rw [Bool.eq_iff_iff, hasFile_iff, hasFile_iff, List.map_append, map_name_of_fills hfills,
    List.mem_append]
  refine or_iff_right fun hmem => ?_
  simp only [List.mem_cons, List.not_mem_nil, or_false] at hfront
  obtain rfl | rfl := hfront
  · simp at hmem
  · exact hpath (List.mem_singleton.1 hmem)

/-- A set that lacks nothing lacks nothing after its types are filled in. -/
theorem missingFiles_filled {files files' : List File} (front : List File)
    (hfills : List.Forall₂ Fills files files') (hnothing : missingFiles files = []) :
    missingFiles (front ++ files') = [] := by
  rw [← List.map_eq_nil_iff (f := File.name), names_missingFiles, List.filter_eq_nil_iff]
    at hnothing ⊢
  intro path hpath
  have hhas : hasFile files path = true := by simpa using hnothing path hpath
  have hfilled : hasFile (front ++ files') path = true := by
    rw [hasFile_iff] at hhas ⊢
    rw [List.map_append, map_name_of_fills hfills]
    exact List.mem_append_right _ hhas
  simp [hfilled]

theorem BringsRulesOrNothing.filled {files : List File} (hbrings : BringsRulesOrNothing files)
    {front files' : List File} (hfront : front ∈ [[], [emptyFile]])
    (hfills : List.Forall₂ Fills files files') : BringsRulesOrNothing (front ++ files') := by
  have hdeclares : declares (front ++ files') httpPackage "HttpRule" =
      declares files httpPackage "HttpRule" := by
    have hnone : declares front httpPackage "HttpRule" = false := by
      simp only [List.mem_cons, List.not_mem_nil, or_false] at hfront
      obtain rfl | rfl := hfront <;> decide
    have hfiles : declares files' httpPackage "HttpRule" = declares files httpPackage "HttpRule" :=
      any_eq_any_of_forall₂ hfills fun file file' hfill => by
        rw [hfill.package_eq, any_name_eq hfill.messageNames_eq]
    rw [declares, List.any_append]
    change (declares front _ _ || declares files' _ _) = _
    rw [hnone, hfiles, Bool.false_or]
  unfold BringsRulesOrNothing
  rw [hasFile_filled hfront hfills (by decide), hasFile_filled hfront hfills (by decide), hdeclares]
  exact hbrings

/-! ## Both pools -/

/-- Both pools come from the set with its types filled in, the second after completing
it. -/
theorem exists_set_of_loads {bytes : Bytes} {files : List File} {source : File}
    {loaded loaded' : Loaded} (hfiles : decodeFiles bytes = .ok files)
    (hsource : files.getLast? = some source) (hload : load false bytes = .ok loaded)
    (hload' : load true bytes = .ok loaded') (hfilled : FillsShortly bytes) :
    ∃ set front files' whole, decodeFiles set = .ok (front ++ files') ∧
      front ∈ [[], [emptyFile]] ∧ List.Forall₂ Fills files files' ∧
      poolOf set = .ok loaded.pool ∧ complete set = .ok whole ∧ poolOf whole = .ok loaded'.pool ∧
      loaded.target = source.name ∧ loaded'.target = source.name := by
  obtain ⟨_, _, filled?, set, hdecode, hlast, htarget, hfill, hset, hpool⟩ := load_eq_ok hload
  obtain ⟨_, _, filled?', whole, hdecode', hlast', htarget', hfill', hwhole, hpool'⟩ :=
    load_eq_ok hload'
  obtain rfl := Except.ok.inj (hfiles.symm.trans hdecode)
  obtain rfl := Except.ok.inj (hfiles.symm.trans hdecode')
  obtain rfl := Option.some.inj (hsource.symm.trans hlast)
  obtain rfl := Option.some.inj (hsource.symm.trans hlast')
  obtain rfl := Except.ok.inj (hfill.symm.trans hfill')
  obtain ⟨front, files', hfilled, hfills, hfront⟩ := exists_fills hfiles hfill
    fun filled hsome => hfilled filled (by rw [hfill, hsome])
  obtain rfl : filled?.getD bytes = set := by simpa using hset
  exact ⟨_, front, files', whole, hfilled, hfront, hfills, hpool, by simpa using hwhole, hpool',
    htarget, htarget'⟩

/-- The first pool is built from `own` and the second from `own` with the well-known
files in front that it lacks. -/
structure BuildsBoth (own : List (Dialect × File)) (symbols wider : SymbolTable)
    (resolved resolved' : List File) (pool pool' : Pool) : Prop where
  widened : Widened ((missingFiles (own.map Prod.snd)).map withDialect) own symbols wider
  builds : Builds own symbols resolved pool
  builds' : Builds ((missingFiles (own.map Prod.snd)).map withDialect ++ own) wider resolved' pool'

/-- A file of a set that lacks something says the same in both pools. -/
theorem BuildsBoth.saysTheSame {own : List (Dialect × File)} {symbols wider : SymbolTable}
    {resolved resolved' : List File} {pool pool' : Pool}
    (hboth : BuildsBoth own symbols wider resolved resolved' pool pool')
    (hbrings : BringsRulesOrNothing (own.map Prod.snd))
    (hlacks : missingFiles (own.map Prod.snd) ≠ [])
    {source file file' : File} (hheld : HeldAllOptions source)
    (hfile : recodeFile pool.table source = .ok file)
    (hfile' : recodeFile pool'.table source = .ok file') (hshort : HasShortOptions file)
    (hshort' : HasShortOptions file') (hrules : ReadsRules file) : SaysTheSame file file' := by
  obtain ⟨hwidened, hbuilds, hbuilds'⟩ := hboth
  obtain ⟨empty, hmember, hempty | hdescriptors | hall⟩ := hbrings.missingFiles_cases
  · obtain rfl : empty = [emptyFile] := by
      simp only [List.mem_cons, List.not_mem_nil, or_false] at hmember
      exact hmember.resolve_left fun hnothing => hlacks (hempty.trans hnothing)
    rw [eq_of_emptyFile hwidened hbuilds hbuilds' (by rw [hempty]; rfl) hfile hfile']
    exact .refl file
  · rw [eq_of_descriptorFront hwidened hbuilds hbuilds' hmember (by rw [hdescriptors]; rfl) hfile
      hfile']
    exact .refl file
  · exact saysTheSame_of_optionsFront hwidened hbuilds hbuilds' hmember (by rw [hall]; rfl)
      hheld hfile
      hfile' hshort hshort' hrules

theorem publicImports_wellKnownFiles : ∀ file ∈ wellKnownFiles, file.publicImports = [] := by
  decide

theorem exists_buildsBoth {bytes whole : Bytes} {files : List File} {pool pool' : Pool}
    (hfiles : decodeFiles bytes = .ok files) (hwell : ∀ file ∈ files, WellNamed file)
    (hpool : poolOf bytes = .ok pool) (hcomplete : complete bytes = .ok whole)
    (hpool' : poolOf whole = .ok pool') :
    ∃ own symbols wider resolved resolved', own.map Prod.snd = files ∧
      BuildsBoth own symbols wider resolved resolved' pool pool' := by
  obtain ⟨own, hown, hdialects⟩ := exists_ofDialects hfiles hpool
  obtain ⟨all, hall, hdialects'⟩ := exists_ofDialects (decodeFiles_complete hfiles hcomplete) hpool'
  have hmissing : ∀ file ∈ missingFiles files, file ∈ wellKnownFiles :=
    mem_wellKnownFiles_of_mem_missingFiles
  obtain rfl : (missingFiles files).map withDialect ++ own = all :=
    Except.ok.inj ((dialects_append (dialects_wellKnownFiles hmissing) hown).symm.trans hall)
  obtain ⟨symbols, resolved, hbuilds⟩ := exists_builds hdialects
  obtain ⟨wider, resolved', hbuilds'⟩ := exists_builds hdialects'
  obtain rfl := dialects_eq_ok hown
  have hadded : ((missingFiles (own.map Prod.snd)).map withDialect).map Prod.snd =
      missingFiles (own.map Prod.snd) := by
    rw [List.map_map]
    exact List.map_id _
  refine ⟨own, symbols, wider, resolved, resolved', rfl, ⟨hbuilds.enters, hbuilds'.enters, ?_, ?_⟩,
    hbuilds, hbuilds'⟩
  · rw [hadded]
    refine ⟨hbuilds.mem_of_mem_imports, fun file hfile =>
      publicImports_wellKnownFiles file (hmissing file hfile), fun file hfile hname => ?_⟩
    have hpath : file.name ∈ (missingFiles (own.map Prod.snd)).map File.name :=
      List.mem_map_of_mem hfile
    rw [names_missingFiles, List.mem_filter, Bool.not_eq_true', ← Bool.not_eq_true, hasFile_iff]
      at hpath
    exact hpath.2 hname
  · exact fun file hfile => hwell file.2 (List.mem_map_of_mem hfile)

end ProtoSource.Load
