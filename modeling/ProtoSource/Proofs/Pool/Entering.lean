import ProtoSource.Proofs.Pool.Building

/-!
# When names are accepted

The names of a set are accepted if and only if its files have different names, no
declaration is refused for itself, and of two declarations of one name both are
packages.  What the table of symbols holds at a time are the entries made so far,
so a step depends on the steps before it only through their entries.
-/

namespace ProtoSource.Pool

open ProtoSource.Descriptor
open ProtoSource.Success

/-- A name and what it names. -/
abbrev Entered := String × SymbolKind

/-- Two entries are of different names, unless both are packages. -/
def Apart (left right : Entered) : Prop :=
  left.1 = right.1 → left.2 = .package ∧ right.2 = .package

theorem Apart.of_ne {left right : Entered} (hne : left.1 ≠ right.1) : Apart left right :=
  fun heq => absurd heq hne

namespace Step

def entry? : Step → Option Entered
  | .enter name kind => some (name, kind)
  | .refuse _ => none

/-- The entries that steps make. -/
def entries (steps : List Step) : List Entered :=
  steps.filterMap entry?

/-- No step refuses. -/
def NoneRefuses (steps : List Step) : Prop :=
  ∀ step ∈ steps, step.entry?.isSome

instance (steps : List Step) : Decidable (NoneRefuses steps) :=
  inferInstanceAs (Decidable (∀ step ∈ steps, _))

@[simp]
theorem entries_append (steps others : List Step) :
    entries (steps ++ others) = entries steps ++ entries others :=
  List.filterMap_append

@[simp]
theorem entries_enter (name : String) (kind : SymbolKind) (steps : List Step) :
    entries (.enter name kind :: steps) = (name, kind) :: entries steps := rfl

@[simp]
theorem entries_refuse (fault : Fault) (steps : List Step) :
    entries (.refuse fault :: steps) = entries steps := rfl

@[simp]
theorem noneRefuses_enter {name : String} {kind : SymbolKind} {steps : List Step} :
    NoneRefuses (.enter name kind :: steps) ↔ NoneRefuses steps := by
  simp [NoneRefuses, entry?]

theorem not_noneRefuses_refuse {fault : Fault} {steps : List Step} :
    ¬ NoneRefuses (.refuse fault :: steps) := by
  simp [NoneRefuses, entry?]

end Step

namespace SymbolTable

/-- The table holds what the entries say. -/
def Keeps (table : SymbolTable) (entries : List Entered) : Prop :=
  ∀ name kind, (table.find? name).map Symbol.kind = some kind ↔ (name, kind) ∈ entries

theorem keeps_nil : Keeps [] [] := by
  simp [Keeps, find?]

theorem find?_cons (symbol : Symbol) (table : SymbolTable) (name : String) :
    find? (symbol :: table) name =
      if symbol.name = name then some symbol else find? table name := by
  unfold find?
  rw [List.find?_cons]
  by_cases hname : symbol.name = name
  · simp [hname]
  · simp [hname, beq_eq_false_iff_ne.2 hname]

/-- A name can be entered if it is apart from the entries made before. -/
theorem Keeps.exists_enter_iff {table : SymbolTable} {entries : List Entered}
    (hkeeps : table.Keeps entries) {file name : String} {kind : SymbolKind} :
    (∃ next, table.enter file name kind = .ok next) ↔
      ∀ earlier ∈ entries, Apart earlier (name, kind) := by
  unfold enter
  cases hfind : table.find? name with
  | none =>
      refine iff_of_true ⟨_, rfl⟩ fun earlier hearlier heq => ?_
      have hheld := (hkeeps earlier.1 earlier.2).2 hearlier
      rw [show earlier.1 = name from heq, hfind] at hheld
      contradiction
  | some holder =>
      have hmem : (name, holder.kind) ∈ entries := (hkeeps _ _).1 (by rw [hfind]; rfl)
      constructor
      · rintro ⟨next, hnext⟩ earlier hearlier heq
        have hheld := (hkeeps earlier.1 earlier.2).2 hearlier
        rw [show earlier.1 = name from heq, hfind, Option.map_some, Option.some.injEq] at hheld
        by_cases hpackage : kind = .package ∧ holder.kind = .package
        · exact ⟨hheld.symm.trans hpackage.2, hpackage.1⟩
        · dsimp only at hnext
          rw [if_neg hpackage] at hnext
          split at hnext <;> simp at hnext
      · intro hapart
        obtain ⟨hholder, hkind⟩ := hapart _ hmem rfl
        exact ⟨table, if_pos ⟨hkind, hholder⟩⟩

/-- An entry that was made is held. -/
theorem Keeps.enter {table next : SymbolTable} {entries : List Entered}
    (hkeeps : table.Keeps entries) {file name : String} {kind : SymbolKind}
    (henter : table.enter file name kind = .ok next) :
    next.Keeps (entries ++ [(name, kind)]) := by
  have hapart := hkeeps.exists_enter_iff.1 ⟨next, henter⟩
  intro other held
  rw [List.mem_append, List.mem_singleton, Prod.mk.injEq, ← hkeeps]
  unfold SymbolTable.enter at henter
  split at henter
  · next hnone =>
      obtain rfl := Except.ok.inj henter
      rw [find?_cons]
      by_cases hname : name = other
      · subst hname
        simp [hnone, eq_comm]
      · simp [hname, Ne.symm hname]
  · next holder hfind =>
      split_ifs at henter with hpackage
      obtain rfl := Except.ok.inj henter
      refine (or_iff_left_of_imp ?_).symm
      rintro ⟨rfl, rfl⟩
      rw [hfind, Option.map_some, hpackage.1, hpackage.2]

/-- Steps go through if none refuses and their entries are apart from each other
and from those made before. -/
theorem Keeps.exists_foldlM_iff {table : SymbolTable} {entries : List Entered}
    (hkeeps : table.Keeps entries) {file : String} {steps : List Step} :
    (∃ next, steps.foldlM (Step.run file) table = .ok next) ↔
      Step.NoneRefuses steps ∧ (Step.entries steps).Pairwise Apart ∧
        ∀ earlier ∈ entries, ∀ entry ∈ Step.entries steps, Apart earlier entry := by
  induction steps generalizing table entries with
  | nil => simp [Step.entries, Step.NoneRefuses, pure, Except.pure]
  | cons step rest ih =>
      simp only [List.foldlM_cons, bind_eq_ok]
      cases step with
      | refuse fault =>
          refine iff_of_false ?_ fun hsteps => Step.not_noneRefuses_refuse hsteps.1
          rintro ⟨next, middle, hmiddle, -⟩
          contradiction
      | enter name kind =>
          rw [Step.entries_enter, Step.noneRefuses_enter, List.pairwise_cons]
          have hfirst : (∃ middle, Step.run file table (.enter name kind) = .ok middle) ↔
              ∀ earlier ∈ entries, Apart earlier (name, kind) := hkeeps.exists_enter_iff
          constructor
          · rintro ⟨next, middle, hmiddle, hnext⟩
            obtain ⟨hrefuse, hpairwise, hapart⟩ := (ih (hkeeps.enter hmiddle)).1 ⟨next, hnext⟩
            rw [List.forall_mem_append, List.forall_mem_singleton] at hapart
            refine ⟨hrefuse, ⟨hapart.2, hpairwise⟩, fun earlier hearlier => ?_⟩
            rw [List.forall_mem_cons]
            exact ⟨hfirst.1 ⟨middle, hmiddle⟩ earlier hearlier, hapart.1 earlier hearlier⟩
          · rintro ⟨hrefuse, ⟨hself, hpairwise⟩, hearlier⟩
            obtain ⟨middle, hmiddle⟩ :=
              hfirst.2 fun earlier hmem => hearlier earlier hmem _ List.mem_cons_self
            obtain ⟨next, hnext⟩ := (ih (hkeeps.enter hmiddle)).2 ⟨hrefuse, hpairwise, by
              rw [List.forall_mem_append, List.forall_mem_singleton]
              exact ⟨fun earlier hmem entry hentry =>
                hearlier earlier hmem entry (List.mem_cons_of_mem _ hentry), hself⟩⟩
            exact ⟨next, middle, hmiddle, hnext⟩

theorem Keeps.foldlM {table next : SymbolTable} {entries : List Entered}
    (hkeeps : table.Keeps entries) {file : String} {steps : List Step}
    (hsteps : steps.foldlM (Step.run file) table = .ok next) :
    next.Keeps (entries ++ Step.entries steps) := by
  induction steps generalizing table entries with
  | nil =>
      obtain rfl : table = next := by simpa [pure_eq_ok] using hsteps
      simpa [Step.entries] using hkeeps
  | cons step rest ih =>
      rw [List.foldlM_cons, bind_eq_ok] at hsteps
      obtain ⟨middle, hmiddle, hrest⟩ := hsteps
      cases step with
      | refuse fault => simp [Step.run] at hmiddle
      | enter name kind =>
          rw [Step.entries_enter, List.append_cons]
          exact ih (hkeeps.enter hmiddle) hrest

end SymbolTable

/-! ## Files -/

/-- The entries of a file. -/
def entriesOf (file : Dialect × File) : List Entered :=
  Step.entries (Step.ofFile file.1 file.2)

/-- Nothing that a file declares is refused for itself. -/
def DeclaresWell (file : Dialect × File) : Prop :=
  Step.NoneRefuses (Step.ofFile file.1 file.2)

instance (file : Dialect × File) : Decidable (DeclaresWell file) :=
  inferInstanceAs (Decidable (Step.NoneRefuses _))

namespace SymbolTable

theorem Keeps.exists_enterFiles_iff {table : SymbolTable} {entries : List Entered}
    (hkeeps : table.Keeps entries) {seen : List String} {files : List (Dialect × File)} :
    (∃ next, enterFiles table seen files = .ok next) ↔
      ((files.map fun file => file.2.name).Nodup ∧ ∀ file ∈ files, file.2.name ∉ seen) ∧
        (∀ file ∈ files, DeclaresWell file) ∧ (files.flatMap entriesOf).Pairwise Apart ∧
        ∀ earlier ∈ entries, ∀ entry ∈ files.flatMap entriesOf, Apart earlier entry := by
  induction files generalizing table seen entries with
  | nil => simp [enterFiles]
  | cons file rest ih =>
      obtain ⟨dialect, file⟩ := file
      unfold enterFiles
      split
      · next hseen =>
          refine iff_of_false (by simp) fun hfiles => ?_
          exact hfiles.1.2 _ List.mem_cons_self (by simpa using hseen)
      · next hseen =>
          simp only [bind_eq_ok, List.map_cons, List.nodup_cons, List.forall_mem_cons,
            List.flatMap_cons, List.pairwise_append, List.forall_mem_append]
          have hfirst : (∃ middle, (Step.ofFile dialect file).foldlM (Step.run file.name) table =
              .ok middle) ↔ _ := hkeeps.exists_foldlM_iff
          have hnew : file.name ∉ seen := by simpa using hseen
          constructor
          · rintro ⟨next, middle, hmiddle, hnext⟩
            obtain ⟨⟨hnames, hunseen⟩, hwell, hpairwise, hearlier⟩ :=
              (ih (hkeeps.foldlM hmiddle)).1 ⟨next, hnext⟩
            obtain ⟨hwell', hpairwise', hearlier'⟩ := hfirst.1 ⟨middle, hmiddle⟩
            rw [List.forall_mem_append] at hearlier
            refine ⟨⟨⟨fun hmem => ?_, hnames⟩, hnew, fun other hother hmem => ?_⟩, ⟨hwell', hwell⟩,
              ⟨hpairwise', hpairwise, hearlier.2⟩,
              fun earlier hmem => ⟨hearlier' earlier hmem, hearlier.1 earlier hmem⟩⟩
            · obtain ⟨other, hother, hsame⟩ := List.mem_map.1 hmem
              exact hunseen other hother (by simp [hsame])
            · exact hunseen other hother (List.mem_cons_of_mem _ hmem)
          · rintro ⟨⟨⟨hname, hnames⟩, -, hunseen⟩, ⟨hwell', hwell⟩, ⟨hpairwise', hpairwise, hcross⟩,
              hearlier⟩
            obtain ⟨middle, hmiddle⟩ :=
              hfirst.2 ⟨hwell', hpairwise', fun earlier hmem => (hearlier earlier hmem).1⟩
            have hrest : ∃ next, enterFiles middle (file.name :: seen) rest = .ok next := by
              refine (ih (hkeeps.foldlM hmiddle)).2 ⟨⟨hnames, fun other hother => ?_⟩, hwell,
                hpairwise, ?_⟩
              · rw [List.mem_cons, not_or]
                refine ⟨fun hsame => hname ?_, hunseen other hother⟩
                exact List.mem_map.2 ⟨other, hother, hsame⟩
              · rw [List.forall_mem_append]
                exact ⟨fun earlier hmem => (hearlier earlier hmem).2, hcross⟩
            obtain ⟨next, hnext⟩ := hrest
            exact ⟨next, middle, hmiddle, hnext⟩

/-- The names of a set are accepted if and only if its files have different names,
no declaration is refused for itself, and all entries are apart. -/
theorem exists_ofFiles_iff {files : List (Dialect × File)} :
    (∃ table, ofFiles files = .ok table) ↔ (files.map fun file => file.2.name).Nodup ∧
      (∀ file ∈ files, DeclaresWell file) ∧ (files.flatMap entriesOf).Pairwise Apart := by
  unfold ofFiles
  rw [keeps_nil.exists_enterFiles_iff]
  simp

/-- Two sets that are accepted are accepted together if and only if they have no
file name in common and their entries are apart. -/
theorem exists_ofFiles_append_iff {added files : List (Dialect × File)}
    (hadded : ∃ table, ofFiles added = .ok table) (hfiles : ∃ table, ofFiles files = .ok table) :
    (∃ table, ofFiles (added ++ files) = .ok table) ↔
      (∀ front ∈ added, ∀ file ∈ files, front.2.name ≠ file.2.name) ∧
        ∀ front ∈ added, ∀ file ∈ files, ∀ entry ∈ entriesOf front, ∀ other ∈ entriesOf file,
          Apart entry other := by
  rw [exists_ofFiles_iff] at hadded hfiles ⊢
  obtain ⟨hnames, hwell, hpairwise⟩ := hadded
  obtain ⟨hnames', hwell', hpairwise'⟩ := hfiles
  rw [List.map_append, List.nodup_append, List.forall_mem_append, List.flatMap_append,
    List.pairwise_append]
  simp only [hnames, hnames', hpairwise, hpairwise', true_and, List.mem_map, List.mem_flatMap]
  constructor
  · rintro ⟨hdifferent, -, hapart⟩
    exact ⟨fun front hfront file hfile => hdifferent _ ⟨front, hfront, rfl⟩ _ ⟨file, hfile, rfl⟩,
      fun front hfront file hfile entry hentry other hother =>
        hapart entry ⟨front, hfront, hentry⟩ other ⟨file, hfile, hother⟩⟩
  · rintro ⟨hdifferent, hapart⟩
    refine ⟨?_, ⟨hwell, hwell'⟩, ?_⟩
    · rintro _ ⟨front, hfront, rfl⟩ _ ⟨file, hfile, rfl⟩
      exact hdifferent front hfront file hfile
    · rintro entry ⟨front, hfront, hentry⟩ other ⟨file, hfile, hother⟩
      exact hapart front hfront file hfile entry hentry other hother

end SymbolTable

end ProtoSource.Pool
