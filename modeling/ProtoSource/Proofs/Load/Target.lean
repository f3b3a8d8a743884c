import ProtoSource.Load.Basic
import ProtoSource.Proofs.Load.RpcTypes
import ProtoSource.Proofs.Pool.Building
import ProtoSource.Proofs.Pool.Unique

/-!
# The files of a loaded set

A loaded pool holds, in their order, the files that were put in front and the files
of the set.  The target is the last of them.
-/

namespace ProtoSource.Load

open ProtoSource.Descriptor
open ProtoSource.Http (SameOption exists_passable)
open ProtoSource.Pool
open ProtoSource.Related
open ProtoSource.Success
open ProtoSource.WellKnown
open ProtoSource.Wire
open ProtoSource.Wire.Records

/-- What is read while the encoded options are kept is read the same without. -/
theorem holds_of_holds_preserving {budget : Nat} (hbudget : budget ≤ nestingLimit) {part : Part}
    {bytes : Bytes} {records : List Record}
    (hholds : preservingSchema.Holds budget part bytes records) :
    schema.Holds budget part bytes records := by
  induction budget using Nat.strongRecOn generalizing part bytes records with
  | ind budget ih =>
      have hflat : preservingSchema.IsFlat part := isFlat_schema part
      obtain ⟨raws, hraws, hall⟩ := (Schema.holds_iff hflat hbudget).1 hholds
      refine (Schema.holds_iff (isFlat_schema part) hbudget).2 ⟨raws, hraws, ?_⟩
      refine hall.imp fun raw record hinterprets => ?_
      cases hinterprets with
      | unknown hfield hpasses => exact .unknown hfield hpasses
      | known hfield _ hmeans =>
          refine .known hfield (by simp [schema]) ?_
          cases hmeans with
          | scalar hkind => exact .scalar hkind
          | packed hkind hrepeated hvalues => exact .packed hkind hrepeated hvalues
          | text hkind htext => exact .text hkind htext
          | bytes hkind => exact .bytes hkind
          | @message less _ _ _ _ hkind hinner =>
              exact .message hkind (ih less (Nat.lt_succ_self _) (by omega) hinner)

/-- The pool of an encoded set is built from its files. -/
theorem exists_ofDialects {bytes : Bytes} {files : List File} {pool : Pool}
    (hdecode : decodeFiles bytes = .ok files) (hpool : poolOf bytes = .ok pool) :
    ∃ dialected, dialects files = .ok dialected ∧ ofDialects dialected = .ok pool := by
  simp only [poolOf, decodePreserving, bind_eq_ok, mapError_eq_ok, map_eq_ok] at hpool
  obtain ⟨_, ⟨records, hrecords, rfl⟩, dialected, hdialects, hpool⟩ := hpool
  have hholds := holds_of_holds_preserving (Nat.le_refl _) (Schema.decode_eq_ok.1 hrecords)
  obtain ⟨others, hothers, rfl⟩ := decodeFiles_eq_ok.1 hdecode
  obtain rfl := hholds.eq hothers
  exact ⟨dialected, hdialects, hpool⟩

theorem pairMethods_self {bytes : Bytes} {set file : List Record}
    (hholds : schema.Holds nestingLimit .set bytes set) (hfile : file ∈ messages 1 set) :
    PairMethods (fun method method' => SameOption (payloadOf method) (payloadOf method'))
      (.ofRecords file) (.ofRecords file) := by
  unfold PairMethods File.ofRecords Service.ofRecords
  rw [List.forall₂_same, List.forall_mem_map]
  intro service hservice
  refine ⟨rfl, ?_⟩
  rw [List.forall₂_same, List.forall_mem_map]
  intro method hmethod
  have hoptions := holdsAllOptions_of_holds hholds file hfile service hservice method hmethod
  obtain ⟨raws, hpassable, -⟩ := exists_passable (isFlat_schema _) rfl rfl (by decide) hoptions
  rw [payloadOf_ofRecords]
  exact ⟨raws, raws, hpassable, hpassable, rfl⟩

/-- A file of a set and what is left of it when all types are filled in. -/
structure Fills (file file' : File) : Prop where
  plain_eq : file'.plain = (filledFile file).plain
  pairMethods : PairMethods (fun method method' =>
    SameOption (payloadOf method) (payloadOf method')) file file'

theorem names_filledFile (file : File) :
    (filledFile file).name = file.name ∧ (filledFile file).package = file.package := by
  unfold filledFile
  split <;> exact ⟨rfl, rfl⟩

theorem Fills.name_eq {file file' : File} (hfills : Fills file file') : file'.name = file.name := by
  have hname : file'.plain.name = (filledFile file).plain.name := by rw [hfills.plain_eq]
  exact hname.trans (names_filledFile file).1

theorem Fills.package_eq {file file' : File} (hfills : Fills file file') :
    file'.package = file.package := by
  have hpackage : file'.plain.package = (filledFile file).plain.package := by rw [hfills.plain_eq]
  exact hpackage.trans (names_filledFile file).2

/-- A set with all types filled in holds, after what is put in front, a file for
each of its files. -/
theorem exists_fills {bytes : Bytes} {files : List File} {filled? : Option Bytes}
    (hdecode : decodeFiles bytes = .ok files) (hfill : fillTypes bytes = .ok filled?)
    (hlength : ∀ filled ∈ filled?, filled.length < 2 ^ 64) :
    ∃ front files', decodeFiles (filled?.getD bytes) = .ok (front ++ files') ∧
      List.Forall₂ Fills files files' ∧ front ∈ [[], [emptyFile]] := by
  obtain ⟨reads, hreads, rfl⟩ := decodeFiles_eq_ok.1 hdecode
  cases hneeds : (filesOfRecords reads).any needsTypes with
  | false =>
      obtain rfl : none = filled? :=
        Except.ok.inj ((fillTypes_eq_none hdecode hneeds).symm.trans hfill)
      refine ⟨[], _, hdecode, List.forall₂_same.2 fun file hfile => ?_, by simp⟩
      have hcomplete : needsTypes file = false := by
        simpa using List.any_eq_false.1 hneeds file hfile
      obtain ⟨record, hrecord, rfl⟩ := List.mem_map.1 hfile
      exact ⟨by simp [filledFile, hcomplete], pairMethods_self hreads hrecord⟩
  | true =>
      obtain ⟨founds, hfounds, rfl⟩ := fillTypes_eq_some hdecode hneeds hfill
      have hshorter := hlength _ rfl
      rw [List.length_append] at hshorter
      obtain ⟨others, hothers, hsame⟩ := exists_holds_filled hreads hfounds (by omega)
      refine ⟨_, _, decodeFiles_append (decodeFiles_front (filesOfRecords reads))
        (decodeFiles_eq_ok.2 ⟨others, hothers, rfl⟩), ?_, frontFiles_mem _⟩
      have hplain := filesOfRecords_plain_eq_of_same hsame
      rw [filesOfRecords_fillFiles, List.map_map, ← List.forall₂_eq_eq_eq,
        List.forall₂_map_left_iff, List.forall₂_map_right_iff] at hplain
      exact List.Forall₂.mp (fun _ _ hplain hpair => ⟨hplain.symm, hpair⟩) hplain
        (pairMethods_filled hreads hothers hsame)

/-! ## Loading -/

theorem load_eq_ok {synthesize : Bool} {bytes : Bytes} {loaded : Loaded}
    (hload : load synthesize bytes = .ok loaded) :
    ∃ files source filled? whole, decodeFiles bytes = .ok files ∧ files.getLast? = some source ∧
      loaded.target = source.name ∧ fillTypes bytes = .ok filled? ∧
      (if synthesize then complete (filled?.getD bytes) else .ok (filled?.getD bytes)) = .ok whole ∧
      poolOf whole = .ok loaded.pool := by
  have hwhole : ∃ files target filled? whole pool, decodeFiles bytes = .ok files ∧
      targetName files = .ok target ∧ fillTypes bytes = .ok filled? ∧
      (if synthesize then complete (filled?.getD bytes) else .ok (filled?.getD bytes)) = .ok whole ∧
      poolOf whole = .ok pool ∧ loaded = ⟨pool, target⟩ := by
    cases synthesize with
    | false =>
        simp only [load, Bool.false_eq_true, if_false, bind_eq_ok, pure_eq_ok] at hload
        obtain ⟨files, hfiles, target, htarget, filled?, hfill, _, rfl, pool, hpool, rfl⟩ := hload
        exact ⟨files, target, filled?, _, pool, hfiles, htarget, hfill, rfl, hpool, rfl⟩
    | true =>
        simp only [load, if_true, bind_eq_ok, pure_eq_ok] at hload
        obtain ⟨files, hfiles, target, htarget, filled?, hfill, whole, hwhole, pool, hpool, rfl⟩ :=
          hload
        exact ⟨files, target, filled?, whole, pool, hfiles, htarget, hfill, hwhole, hpool, rfl⟩
  obtain ⟨files, target, filled?, whole, pool, hfiles, htarget, hfill, hwhole, hpool, rfl⟩ := hwhole
  unfold targetName at htarget
  split at htarget
  · next source hsource =>
      obtain rfl := Except.ok.inj htarget
      exact ⟨files, source, filled?, whole, hfiles, hsource, rfl, hfill, hwhole, hpool⟩
  · simp at htarget

/-- If types are filled in, the filled set has a length. -/
def FillsShortly (bytes : Bytes) : Prop :=
  ∀ filled, fillTypes bytes = .ok (some filled) → filled.length < 2 ^ 64

/-- The pool of a loaded set is built from the files of the set after those that
are put in front, which are well-known.  With synthesis the whole is a completed
set. -/
theorem exists_added_of_load {synthesize : Bool} {bytes : Bytes} {loaded : Loaded}
    (hload : load synthesize bytes = .ok loaded) (hlength : FillsShortly bytes) :
    ∃ files source added files' dialected symbols resolved, decodeFiles bytes = .ok files ∧
      files.getLast? = some source ∧ loaded.target = source.name ∧
      List.Forall₂ Fills files files' ∧ dialected.map Prod.snd = added ++ files' ∧
      Builds dialected symbols resolved loaded.pool ∧ (∀ file ∈ added, file ∈ wellKnownFiles) ∧
      (synthesize = true → ∃ others, added ++ files' = completed others) := by
  obtain ⟨files, source, filled?, whole, hfiles, hsource, htarget, hfill, hwhole, hpool⟩ :=
    load_eq_ok hload
  obtain ⟨front, files', hfilled, hfills, hfront⟩ := exists_fills hfiles hfill
    fun filled hsome => hlength filled (by rw [hfill, hsome])
  have hdecode : ∃ added, decodeFiles whole = .ok (added ++ files') ∧
      (∀ file ∈ added, file ∈ wellKnownFiles) ∧
      (synthesize = true → ∃ others, added ++ files' = completed others) := by
    cases synthesize with
    | false =>
        obtain rfl : filled?.getD bytes = whole := by simpa using hwhole
        exact ⟨front, hfilled, mem_wellKnownFiles_of_mem_front hfront, by simp⟩
    | true =>
        have hcompleted := decodeFiles_complete hfilled (by simpa using hwhole)
        refine ⟨missingFiles (front ++ files') ++ front, ?_, ?_, fun _ => ⟨front ++ files', ?_⟩⟩
        · rwa [List.append_assoc]
        · rw [List.forall_mem_append]
          exact ⟨mem_wellKnownFiles_of_mem_missingFiles, mem_wellKnownFiles_of_mem_front hfront⟩
        · rw [List.append_assoc, completed]
  obtain ⟨added, hdecode, hadded, hwhole⟩ := hdecode
  obtain ⟨dialected, hdialected, hpool⟩ := exists_ofDialects hdecode hpool
  obtain ⟨symbols, resolved, hbuilds⟩ := exists_builds hpool
  exact ⟨files, source, added, files', dialected, symbols, resolved, hfiles, hsource,
    htarget, hfills, dialects_eq_ok hdialected, hbuilds, hadded, hwhole⟩

theorem exists_builds_of_load {synthesize : Bool} {bytes : Bytes} {loaded : Loaded}
    (hload : load synthesize bytes = .ok loaded) (hlength : FillsShortly bytes) :
    ∃ files source added files' dialected symbols resolved, decodeFiles bytes = .ok files ∧
      files.getLast? = some source ∧ loaded.target = source.name ∧
      List.Forall₂ Fills files files' ∧ dialected.map Prod.snd = added ++ files' ∧
      Builds dialected symbols resolved loaded.pool := by
  obtain ⟨files, source, added, files', dialected, symbols, resolved, hfiles, hsource,
    htarget, hfills, hdialected, hbuilds, -⟩ := exists_added_of_load hload hlength
  exact ⟨files, source, added, files', dialected, symbols, resolved, hfiles, hsource,
    htarget, hfills, hdialected, hbuilds⟩

/-- The last file of a built pool comes from the last of its files. -/
theorem exists_last_of_builds {dialected : List (Dialect × File)} {symbols : SymbolTable}
    {resolved : List File} {pool : Pool} (hbuilds : Builds dialected symbols resolved pool)
    {source : File} (hsource : (dialected.map Prod.snd).getLast? = some source) :
    ∃ middle file, resolveFile symbols (dialected.map Prod.snd)
        ((dialected.map Prod.snd).flatMap messagesOf) ((dialected.map Prod.snd).flatMap enumsOf)
        source = .ok middle ∧
      recodeFile pool.table middle = .ok file ∧ pool.files.getLast? = some file ∧
      pool.file? source.name = some file := by
  obtain ⟨middle, hlast, hresolve⟩ := forall₂_getLast? hbuilds.resolves hsource
  obtain ⟨file, hfile, hrecode⟩ := forall₂_getLast? hbuilds.recodes hlast
  refine ⟨middle, file, hresolve, hrecode, hfile, ?_⟩
  rw [← (names_of_resolveFile hresolve).1, ← (names_of_recodeFile hrecode).1]
  exact hbuilds.file?_name (List.mem_of_getLast? hfile)

/-- A loaded pool has the names of the files of the set in their order, after
different names of well-known files that the set does not have; with synthesis all
well-known files are there once.  The target is found and is the last file, with
the name and package of the last file of the set.  Completing a set once more
changes nothing. -/
theorem names_of_load (bytes : Bytes) :
    (∀ synthesize loaded, load synthesize bytes = .ok loaded → FillsShortly bytes →
      ∃ files source front file, decodeFiles bytes = .ok files ∧ files.getLast? = some source ∧
        loaded.pool.files.map File.name = front ++ files.map File.name ∧ front.Nodup ∧
        (∀ path ∈ front, path ∈ wellKnownPaths ∧ path ∉ files.map File.name) ∧
        (synthesize = true →
          ∀ path ∈ wellKnownPaths, (loaded.pool.files.map File.name).count path = 1) ∧
        loaded.file = .ok file ∧ loaded.pool.files.getLast? = some file ∧
        file.name = source.name ∧ file.package = source.package) ∧
      ∀ whole, complete bytes = .ok whole → complete whole = .ok whole := by
  refine ⟨fun synthesize loaded hload hlength => ?_, fun whole => complete_complete⟩
  obtain ⟨files, source, added, files', dialected, symbols, resolved, hfiles, hsource,
    htarget, hfills, hdialected, hbuilds, hadded, hwhole⟩ := exists_added_of_load hload hlength
  have hlist : loaded.pool.files.map File.name = (added ++ files').map File.name := by
    rw [hbuilds.map_names.1, ← hdialected, List.map_map]
    rfl
  have hnames : files'.map File.name = files.map File.name :=
    (map_eq_map_of_forall₂ hfills fun _ _ hfill => hfill.name_eq.symm).symm
  have hnodup : (added.map File.name ++ files.map File.name).Nodup := by
    rw [← hnames, ← List.map_append, ← hlist, hbuilds.map_names.1]
    exact SymbolTable.nodup_fileNames hbuilds.enters
  obtain ⟨hfront, -, hapart⟩ := List.nodup_append.1 hnodup
  obtain ⟨filled, hlast, hfill⟩ := forall₂_getLast? hfills hsource
  have hall : (dialected.map Prod.snd).getLast? = some filled := by
    rw [hdialected, List.getLast?_append, hlast]
    rfl
  obtain ⟨middle, file, hresolve, hrecode, hfile, hfound⟩ := exists_last_of_builds hbuilds hall
  obtain ⟨hrecoded, hrecoded', -⟩ := names_of_recodeFile hrecode
  obtain ⟨hresolved, hresolved', -⟩ := names_of_resolveFile hresolve
  refine ⟨files, source, added.map File.name, file, hfiles, hsource, ?_, hfront, ?_, ?_, ?_, hfile,
    ?_, ?_⟩
  · rw [hlist, List.map_append, hnames]
  · intro path hpath
    obtain ⟨known, hknown, rfl⟩ := List.mem_map.1 hpath
    exact ⟨name_mem_wellKnownPaths (hadded known hknown),
      fun hmem => hapart _ hpath _ hmem rfl⟩
  · intro hsynthesize path hpath
    obtain ⟨others, hothers⟩ := hwhole hsynthesize
    have hmem : path ∈ (added ++ files').map File.name := by
      rw [hothers, ← hasFile_iff]
      exact hasFile_completed.2 (Or.inr hpath)
    rw [hlist]
    refine List.count_eq_one_of_mem ?_ hmem
    rwa [List.map_append, hnames]
  · rw [Loaded.file, htarget, ← hfill.name_eq, hfound]
  · rw [hrecoded, hresolved, hfill.name_eq]
  · rw [hrecoded', hresolved', hfill.package_eq]

/-- A set with its own description of method options and a method without types. -/
def untypedSet : Bytes :=
  encode [.embed 1 [.text 1 descriptorPath, .text 2 "google.protobuf",
      .embed 4 [.text 1 "MethodOptions", .embed 5 [.varint 1 1000, .varint 2 536870912]]],
    .embed 1 [.text 1 "demo.proto", .embed 6 [.text 1 "S", .embed 2 [.text 1 "m"]]]]

theorem names_of_load_untypedSet : ∃ loaded files source front file,
    load true untypedSet = .ok loaded ∧ decodeFiles untypedSet = .ok files ∧
      files.getLast? = some source ∧
      loaded.pool.files.map File.name = front ++ files.map File.name ∧
      (∀ path ∈ wellKnownPaths, (loaded.pool.files.map File.name).count path = 1) ∧
      loaded.file = .ok file ∧ file.name = source.name := by
  have hcomputed : (load true untypedSet).toOption.isSome ∧
      (fillTypes untypedSet).toOption.map (fun filled? => (filled?.getD []).length) = some 375 := by
    decide +kernel
  have hshort : FillsShortly untypedSet := by
    intro filled hfilled
    have hlength := hcomputed.2
    simp only [hfilled, Except.toOption, Option.map_some, Option.getD_some, Option.some.injEq]
      at hlength
    omega
  cases hload : load true untypedSet with
  | error _ => simp [hload, Except.toOption] at hcomputed
  | ok loaded =>
      obtain ⟨files, source, front, file, hfiles, hsource, hnames, -, -, hcount, hfile, -,
          hname, -⟩ :=
        (names_of_load untypedSet).1 true loaded hload hshort
      exact ⟨loaded, files, source, front, file, rfl, hfiles, hsource, hnames, hcount rfl, hfile,
        hname⟩

end ProtoSource.Load
