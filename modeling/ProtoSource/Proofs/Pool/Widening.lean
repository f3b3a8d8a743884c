import ProtoSource.Proofs.Pool.Declared
import ProtoSource.Proofs.Pool.Entering
import ProtoSource.Proofs.Pool.Unique

/-!
# More files in front

The files of a set are entered in their order, so files that are put in front are
entered before all others.  What is found of the set stays the same: a symbol that
only the files in front enter is not visible from the set, and a package that both
enter is a package all the same.
-/

namespace ProtoSource.Pool

open ProtoSource.Descriptor
open ProtoSource.Success
open ProtoSource.Text

namespace Step

theorem entries_flatMap {α : Type} (steps : α → List Step) (values : List α) :
    entries (values.flatMap steps) = values.flatMap fun value => entries (steps value) := by
  unfold entries
  rw [List.filterMap_flatMap]

theorem kind_of_mem_members {scope : String} {names : List String} {entry : Entered}
    (hentry : entry ∈ entries (members scope names)) : entry.2 = .member := by
  obtain ⟨step, hstep, hentry⟩ := List.mem_filterMap.1 hentry
  obtain ⟨name, -, rfl⟩ := List.mem_map.1 hstep
  obtain rfl := Option.some.inj hentry
  rfl

theorem entries_closeNames (dialect : Dialect) (names : List String) :
    entries (closeNames dialect names) = [] := by
  cases dialect with
  | proto2 => rfl
  | proto3 =>
      unfold closeNames
      cases closeNames? [] (names.map fun name => (Name.folded name, name)) <;> rfl

section Aggregates

variable {dialect : Dialect} {name : String} {kind : SymbolKind} (hkind : kind ≠ .member)

include hkind

theorem notMem_members {scope : String} {names : List String} :
    (name, kind) ∉ entries (members scope names) :=
  fun hmem => hkind (kind_of_mem_members hmem)

theorem mem_entries_ofEnum {scope : String} {enumeration : Enumeration} :
    (name, kind) ∈ entries (ofEnum dialect scope enumeration) ↔
      name = Name.join scope enumeration.name ∧ kind = .enumeration := by
  rw [ofEnum, entries_append, List.mem_append, or_iff_left (notMem_members hkind), entries_append]
  cases enumeration.values with
  | nil => simp [entries, entry?]
  | cons first _ =>
      dsimp only
      split <;> simp [entries, entry?]

theorem mem_entries_ofEnums {scope : String} {enums : List Enumeration} :
    (name, kind) ∈ entries (enums.flatMap (ofEnum dialect scope)) ↔
      kind = .enumeration ∧ name ∈ (enumsIn scope enums).map Prod.fst := by
  simp only [entries_flatMap, List.mem_flatMap, mem_entries_ofEnum hkind, enumsIn, List.map_map,
    List.mem_map, Function.comp_def]
  constructor
  · rintro ⟨enumeration, hmem, rfl, rfl⟩
    exact ⟨rfl, enumeration, hmem, rfl⟩
  · rintro ⟨rfl, enumeration, hmem, rfl⟩
    exact ⟨enumeration, hmem, rfl, rfl⟩

mutual

/-- What a message enters are the messages and the enums in it, and members. -/
theorem mem_entries_ofMessage {scope : String} {message : Message} :
    (name, kind) ∈ entries (ofMessage dialect scope message) ↔
      (kind = .message ∧ name ∈ (messageIn scope message).map Prod.fst) ∨
        (kind = .enumeration ∧ ∃ outer ∈ messageIn scope message,
          name ∈ (enumsIn outer.1 outer.2.body.enums).map Prod.fst) := by
  obtain ⟨body, nested⟩ := message
  rw [ofMessage, ofFields, messageIn, entries_append, entries_append, entries_append,
    entries_append, entries_append, entries_append, entries_closeNames, List.append_nil]
  simp only [List.mem_append, notMem_members hkind, or_false, mem_entries_ofEnums hkind,
    mem_entries_ofMessages, List.map_cons, List.mem_cons, exists_eq_or_imp]
  have hself : (name, kind) ∈ entries [.enter (Name.join scope body.name) .message] ↔
      name = Name.join scope body.name ∧ kind = .message := by
    simp [entries, entry?]
  have hbody : (Message.mk body nested).body = body := rfl
  rw [hself, hbody]
  cases kind <;> simp [or_comm]

theorem mem_entries_ofMessages {scope : String} {messages : List Message} :
    (name, kind) ∈ entries (ofMessages dialect scope messages) ↔
      (kind = .message ∧ name ∈ (messagesIn scope messages).map Prod.fst) ∨
        (kind = .enumeration ∧ ∃ outer ∈ messagesIn scope messages,
          name ∈ (enumsIn outer.1 outer.2.body.enums).map Prod.fst) := by
  cases messages with
  | nil => simp [ofMessages, messagesIn, entries]
  | cons message rest =>
      rw [ofMessages, messagesIn, entries_append, List.mem_append, mem_entries_ofMessage,
        mem_entries_ofMessages, List.map_append, List.mem_append]
      simp only [List.mem_append, or_and_right, exists_or]
      cases kind <;> simp

end

theorem mem_entries_ofServices {scope : String} {services : List Service} :
    (name, kind) ∈ entries (services.flatMap (ofService scope)) ↔
      kind = .service ∧ ∃ service ∈ services, name = Name.join scope service.name := by
  simp only [entries_flatMap, List.mem_flatMap, ofService, entries_enter, List.mem_cons,
    notMem_members hkind, or_false, Prod.mk.injEq]
  constructor
  · rintro ⟨service, hservice, rfl, rfl⟩
    exact ⟨rfl, service, hservice, rfl⟩
  · rintro ⟨rfl, service, hservice, rfl⟩
    exact ⟨service, hservice, rfl, rfl⟩

end Aggregates

end Step

/-- What a file enters are its packages, types and services, and members. -/
theorem mem_entriesOf_iff {dialect : Dialect} {file : File} {name : String} {kind : SymbolKind}
    (hkind : kind ≠ .member) :
    (name, kind) ∈ entriesOf (dialect, file) ↔
      (kind = .package ∧ name ∈ Name.packages file.package) ∨
        (kind = .message ∧ name ∈ (messagesOf file).map Prod.fst) ∨
        (kind = .enumeration ∧ name ∈ (enumsOf file).map Prod.fst) ∨
        (kind = .service ∧ name ∈ (servicesOf file).map Prod.fst) := by
  have hpackages : (name, kind) ∈
      Step.entries ((Name.packages file.package).map (.enter · .package)) ↔
        kind = .package ∧ name ∈ Name.packages file.package := by
    simp [Step.entries, Step.entry?, and_comm, eq_comm]
  have henums : name ∈ (enumsOf file).map Prod.fst ↔
      name ∈ (enumsIn file.package file.enums).map Prod.fst ∨
        ∃ outer ∈ messagesOf file, name ∈ (enumsIn outer.1 outer.2.body.enums).map Prod.fst := by
    rw [enumsOf, List.map_append, List.mem_append, List.map_flatMap, List.mem_flatMap]
  have hservices : name ∈ (servicesOf file).map Prod.fst ↔
      ∃ service ∈ file.services, name = Name.join file.package service.name := by
    simp only [servicesOf, List.map_map, List.mem_map, Function.comp_def, eq_comm]
  rw [entriesOf, Step.ofFile, henums, hservices]
  simp only [Step.entries_append, List.mem_append, Step.notMem_members hkind, or_false, hpackages,
    Step.mem_entries_ofMessages hkind, Step.mem_entries_ofEnums hkind,
    Step.mem_entries_ofServices hkind, messagesOf]
  cases kind <;> simp [or_comm]

/-- The types of a file are what it enters as a type. -/
theorem mem_typesOf_iff (dialect : Dialect) {file : File} {name : String} :
    name ∈ typesOf file ↔ ∃ kind, kind.isType = true ∧
      (name, kind) ∈ entriesOf (dialect, file) := by
  rw [typesOf, List.mem_append]
  constructor
  · rintro (hname | hname)
    · exact ⟨.message, rfl, (mem_entriesOf_iff (by simp)).2 (by simp [hname])⟩
    · exact ⟨.enumeration, rfl, (mem_entriesOf_iff (by simp)).2 (by simp [hname])⟩
  · rintro ⟨kind, hkind, hmem⟩
    rw [mem_entriesOf_iff (by rintro rfl; simp [SymbolKind.isType] at hkind)] at hmem
    obtain ⟨rfl, -⟩ | ⟨rfl, hname⟩ | ⟨rfl, hname⟩ | ⟨rfl, -⟩ := hmem
    · simp [SymbolKind.isType] at hkind
    · exact Or.inl hname
    · exact Or.inr hname
    · simp [SymbolKind.isType] at hkind

/-- The holders of a file are what it enters as something that can hold. -/
theorem mem_holdersOf_iff (dialect : Dialect) {file : File} {name : String} :
    name ∈ holdersOf file ↔
      ∃ kind, kind.isAggregate = true ∧ (name, kind) ∈ entriesOf (dialect, file) := by
  have hiff {kind : SymbolKind} (hkind : kind.isAggregate = true) :
      (name, kind) ∈ entriesOf (dialect, file) ↔ _ :=
    mem_entriesOf_iff (by rintro rfl; simp [SymbolKind.isAggregate] at hkind)
  simp only [holdersOf, typesOf, List.mem_append]
  constructor
  · rintro ((hname | hname | hname) | hname)
    · exact ⟨.package, rfl, (hiff rfl).2 (by simp [hname])⟩
    · exact ⟨.message, rfl, (hiff rfl).2 (by simp [hname])⟩
    · exact ⟨.enumeration, rfl, (hiff rfl).2 (by simp [hname])⟩
    · exact ⟨.service, rfl, (hiff rfl).2 (by simp [hname])⟩
  · rintro ⟨kind, hkind, hmem⟩
    obtain ⟨-, hname⟩ | ⟨-, hname⟩ | ⟨-, hname⟩ | ⟨-, hname⟩ := (hiff hkind).1 hmem
    · exact Or.inl (Or.inl hname)
    · exact Or.inl (Or.inr (Or.inl hname))
    · exact Or.inl (Or.inr (Or.inr hname))
    · exact Or.inr hname

/-! ## Tables -/

namespace SymbolTable

theorem Keeps.enterFiles {table next : SymbolTable} {entries : List Entered}
    (hkeeps : table.Keeps entries) {seen : List String} {files : List (Dialect × File)}
    (henter : enterFiles table seen files = .ok next) :
    next.Keeps (entries ++ files.flatMap entriesOf) := by
  induction files generalizing table seen entries with
  | nil =>
      obtain rfl : table = next := by simpa [SymbolTable.enterFiles] using henter
      simpa using hkeeps
  | cons file rest ih =>
      rw [SymbolTable.enterFiles] at henter
      split at henter
      · simp at henter
      · obtain ⟨middle, hmiddle, hrest⟩ := bind_eq_ok.1 henter
        rw [List.flatMap_cons, ← List.append_assoc]
        exact ih (hkeeps.foldlM hmiddle) hrest

/-- A table holds what the files enter that it was made of. -/
theorem keeps_ofFiles {files : List (Dialect × File)} {table : SymbolTable}
    (henter : ofFiles files = .ok table) : table.Keeps (files.flatMap entriesOf) := by
  simpa using keeps_nil.enterFiles henter

/-- A type that the table holds is declared by one of the files. -/
theorem exists_mem_typesOf {files : List (Dialect × File)} {table : SymbolTable}
    (henter : ofFiles files = .ok table) {name : String} {symbol : Symbol}
    (hfind : table.find? name = some symbol) (hkind : symbol.kind.isType = true) :
    ∃ file ∈ files, name ∈ typesOf file.2 := by
  have hentry := (keeps_ofFiles henter name symbol.kind).1 (by rw [hfind]; rfl)
  obtain ⟨file, hfile, hentry⟩ := List.mem_flatMap.1 hentry
  exact ⟨file, hfile, (mem_typesOf_iff file.1).2 ⟨_, hkind, hentry⟩⟩

theorem enterFiles_append {table next : SymbolTable} {seen : List String}
    {added own : List (Dialect × File)} (henter : enterFiles table seen (added ++ own) = .ok next) :
    ∃ middle seen', enterFiles table seen added = .ok middle ∧
      enterFiles middle seen' own = .ok next := by
  induction added generalizing table seen with
  | nil => exact ⟨table, seen, rfl, henter⟩
  | cons file rest ih =>
      rw [List.cons_append, enterFiles] at henter
      split at henter
      · simp at henter
      · next hseen =>
          obtain ⟨first, hfirst, hrest⟩ := bind_eq_ok.1 henter
          obtain ⟨middle, seen', hmiddle, hnext⟩ := ih hrest
          refine ⟨middle, seen', ?_, hnext⟩
          rw [enterFiles, if_neg hseen, bind_eq_ok]
          exact ⟨first, hfirst, hmiddle⟩

/-- Entering a name adds its symbol or nothing. -/
theorem enter_eq_ok {table next : SymbolTable} {file name : String} {kind : SymbolKind}
    (henter : table.enter file name kind = .ok next) :
    next = ⟨name, kind, file⟩ :: table ∨ next = table := by
  unfold enter at henter
  split at henter
  · exact Or.inl (Except.ok.inj henter).symm
  · split_ifs at henter
    exact Or.inr (Except.ok.inj henter).symm

theorem file_mem_of_foldlM {file : String} {table next : SymbolTable} {steps : List Step}
    (hrun : steps.foldlM (Step.run file) table = .ok next) :
    ∀ symbol ∈ next, symbol ∈ table ∨ symbol.file = file := by
  induction steps generalizing table with
  | nil =>
      obtain rfl : table = next := by simpa [pure_eq_ok] using hrun
      exact fun symbol => Or.inl
  | cons step rest ih =>
      rw [List.foldlM_cons, bind_eq_ok] at hrun
      obtain ⟨middle, hstep, hrest⟩ := hrun
      intro symbol hsymbol
      obtain hmem | hfile := ih hrest symbol hsymbol
      · cases step with
        | refuse fault => simp [Step.run] at hstep
        | enter name kind =>
            obtain rfl | rfl := enter_eq_ok hstep
            · obtain rfl | hmem := List.mem_cons.1 hmem
              · exact Or.inr rfl
              · exact Or.inl hmem
            · exact Or.inl hmem
      · exact Or.inr hfile

theorem file_mem_of_enterFiles {table next : SymbolTable} {seen : List String}
    {files : List (Dialect × File)} (henter : enterFiles table seen files = .ok next) :
    ∀ symbol ∈ next, symbol ∈ table ∨ symbol.file ∈ files.map fun file => file.2.name := by
  induction files generalizing table seen with
  | nil =>
      obtain rfl : table = next := by simpa [enterFiles] using henter
      exact fun symbol => Or.inl
  | cons file rest ih =>
      rw [enterFiles] at henter
      split at henter
      · simp at henter
      · obtain ⟨middle, hmiddle, hrest⟩ := bind_eq_ok.1 henter
        intro symbol hsymbol
        obtain hmem | hfile := ih hrest symbol hsymbol
        · obtain hmem | hfile := file_mem_of_foldlM hmiddle symbol hmem
          · exact Or.inl hmem
          · exact Or.inr (by simp [hfile])
        · exact Or.inr (List.mem_cons_of_mem _ hfile)

/-- The symbols of a set are of its files. -/
theorem file_mem_of_ofFiles {files : List (Dialect × File)} {table : SymbolTable}
    (henter : ofFiles files = .ok table) :
    ∀ symbol ∈ table, symbol.file ∈ files.map fun file => file.2.name :=
  fun symbol hsymbol => (file_mem_of_enterFiles henter symbol hsymbol).resolve_left (by simp)

/-- The table `wider` was filled like `table`, but from `front` on. -/
structure Widens (front table wider : SymbolTable) : Prop where
  kept : ∀ {name symbol}, table.find? name = some symbol → ∃ other,
    wider.find? name = some other ∧ other.kind = symbol.kind ∧
      (symbol.kind ≠ .package → other = symbol)
  fresh : ∀ {name}, table.find? name = none → wider.find? name = front.find? name

theorem widens_nil (front : SymbolTable) : Widens front [] front where
  kept hfind := by simp [find?] at hfind
  fresh _ := rfl

/-- A step that goes through on both tables keeps them in step. -/
theorem Widens.enter {front table wider next next' : SymbolTable}
    (hwidens : Widens front table wider)
    {file name : String} {kind : SymbolKind} (henter : table.enter file name kind = .ok next)
    (henter' : wider.enter file name kind = .ok next') : Widens front next next' := by
  unfold SymbolTable.enter at henter henter'
  cases hfind : table.find? name with
  | some symbol =>
      obtain ⟨other, hother, hkind, -⟩ := hwidens.kept hfind
      simp only [hfind, hother] at henter henter'
      split_ifs at henter with hpackage
      rw [hkind, if_pos hpackage] at henter'
      obtain rfl := Except.ok.inj henter
      obtain rfl := Except.ok.inj henter'
      exact hwidens
  | none =>
      simp only [hfind] at henter
      obtain rfl := Except.ok.inj henter
      cases hfind' : wider.find? name with
      | none =>
          simp only [hfind'] at henter'
          obtain rfl := Except.ok.inj henter'
          refine ⟨fun {found symbol} hsymbol => ?_, fun {found} hnone => ?_⟩
          · rw [find?_cons] at hsymbol ⊢
            split_ifs at hsymbol ⊢ with hname
            · exact ⟨symbol, hsymbol, rfl, fun _ => rfl⟩
            · exact hwidens.kept hsymbol
          · rw [find?_cons] at hnone ⊢
            split_ifs at hnone ⊢ with hname
            exact hwidens.fresh hnone
      | some holder =>
          -- The name is new to the one table and a package of the other.
          simp only [hfind'] at henter'
          split_ifs at henter' with hpackage
          obtain rfl := Except.ok.inj henter'
          obtain ⟨rfl, hholder⟩ := hpackage
          refine ⟨fun {found symbol} hsymbol => ?_, fun {found} hnone => ?_⟩
          · rw [find?_cons] at hsymbol
            split at hsymbol
            · next hname =>
                obtain rfl : name = found := hname
                obtain rfl := Option.some.inj hsymbol
                exact ⟨holder, hfind', hholder, by simp⟩
            · exact hwidens.kept hsymbol
          · rw [find?_cons] at hnone
            split at hnone
            · simp at hnone
            · exact hwidens.fresh hnone

theorem Widens.foldlM {front table wider next next' : SymbolTable}
    (hwidens : Widens front table wider)
    {file : String} {steps : List Step} (hrun : steps.foldlM (Step.run file) table = .ok next)
    (hrun' : steps.foldlM (Step.run file) wider = .ok next') : Widens front next next' := by
  induction steps generalizing table wider with
  | nil =>
      obtain rfl : table = next := by simpa [pure_eq_ok] using hrun
      obtain rfl : wider = next' := by simpa [pure_eq_ok] using hrun'
      exact hwidens
  | cons step rest ih =>
      rw [List.foldlM_cons, bind_eq_ok] at hrun hrun'
      obtain ⟨middle, hstep, hrest⟩ := hrun
      obtain ⟨middle', hstep', hrest'⟩ := hrun'
      cases step with
      | refuse fault => simp [Step.run] at hstep
      | enter name kind => exact ih (hwidens.enter hstep hstep') hrest hrest'

theorem Widens.enterFiles {front table wider next next' : SymbolTable}
    (hwidens : Widens front table wider) {seen seen' : List String} {files : List (Dialect × File)}
    (henter : enterFiles table seen files = .ok next)
    (henter' : enterFiles wider seen' files = .ok next') : Widens front next next' := by
  induction files generalizing table wider seen seen' with
  | nil =>
      obtain rfl : table = next := by simpa [SymbolTable.enterFiles] using henter
      obtain rfl : wider = next' := by simpa [SymbolTable.enterFiles] using henter'
      exact hwidens
  | cons file rest ih =>
      rw [SymbolTable.enterFiles] at henter henter'
      split at henter
      · simp at henter
      · split at henter'
        · simp at henter'
        · obtain ⟨middle, hmiddle, hrest⟩ := bind_eq_ok.1 henter
          obtain ⟨middle', hmiddle', hrest'⟩ := bind_eq_ok.1 henter'
          exact ih (hwidens.foldlM hmiddle hmiddle') hrest hrest'

/-- Files in front widen the table of a set by their own. -/
theorem exists_widens {added own : List (Dialect × File)} {table wider : SymbolTable}
    (henter : ofFiles own = .ok table) (henter' : ofFiles (added ++ own) = .ok wider) :
    ∃ front, ofFiles added = .ok front ∧ Widens front table wider := by
  obtain ⟨front, seen', hfront, hown⟩ := enterFiles_append henter'
  exact ⟨front, hfront, (widens_nil front).enterFiles henter hown⟩

end SymbolTable

/-! ## Visible files -/

section Visible

variable {added own : List File}

/-- The files of the set import each other, and those in front pass nothing on and
have other names. -/
structure StandsAlone (added own : List File) : Prop where
  imports : ∀ file ∈ own, ∀ path ∈ file.imports, path ∈ own.map File.name
  passesNothing : ∀ file ∈ added, file.publicImports = []
  differ : ∀ file ∈ added, file.name ∉ own.map File.name

theorem StandsAlone.publicImports_eq (halone : StandsAlone added own) {name : String}
    (hname : name ∈ own.map File.name) :
    publicImports (added ++ own) name = publicImports own name := by
  have hnone : added.find? (·.name == name) = none := by
    rw [List.find?_eq_none]
    intro file hfile heq
    rw [beq_iff_eq] at heq
    exact halone.differ file hfile (heq ▸ hname)
  simp [publicImports, List.find?_append, hnone]

theorem StandsAlone.mem_of_mem_publicImports (halone : StandsAlone added own) {name : String} :
    ∀ passed ∈ publicImports own name, passed ∈ own.map File.name := by
  intro passed hpassed
  unfold publicImports at hpassed
  split at hpassed
  · simp at hpassed
  · next file hfind =>
      obtain ⟨⟨path, index⟩, hpath, hkept⟩ := List.mem_filterMap.1 hpassed
      dsimp only at hkept
      split_ifs at hkept
      obtain rfl := Option.some.inj hkept
      exact halone.imports file (List.mem_of_find?_eq_some hfind) _
        (List.fst_mem_of_mem_zipIdx hpath)

theorem StandsAlone.visit_eq (halone : StandsAlone added own) (depth : Nat) {visible : List String}
    {name : String} (hvisible : visible ⊆ own.map File.name) (hname : name ∈ own.map File.name) :
    visit (added ++ own) depth visible name = visit own depth visible name ∧
      visit own depth visible name ⊆ own.map File.name := by
  induction depth generalizing visible name with
  | zero => exact ⟨rfl, hvisible⟩
  | succ depth ih =>
      rw [visit, visit, halone.publicImports_eq hname]
      have hpassed : ∀ passed ∈ publicImports own name, passed ∈ own.map File.name :=
        halone.mem_of_mem_publicImports
      generalize publicImports own name = passed at hpassed
      induction passed generalizing visible with
      | nil => exact ⟨rfl, hvisible⟩
      | cons path rest ihpassed =>
          rw [List.forall_mem_cons] at hpassed
          rw [List.foldl_cons, List.foldl_cons]
          split
          · obtain ⟨heq, hsubset⟩ := ih hvisible hpassed.1
            rw [heq]
            exact ihpassed hsubset hpassed.2
          · exact ihpassed (List.cons_subset.2 ⟨hpassed.1, hvisible⟩) hpassed.2

/-- A file of the set sees the same files with others in front, and they are of the
set. -/
theorem StandsAlone.visibleFrom_eq (halone : StandsAlone added own) {file : File}
    (hfile : file ∈ own) :
    visibleFrom (added ++ own) file = visibleFrom own file ∧
      visibleFrom own file ⊆ own.map File.name := by
  have hcount : passingCount (added ++ own) = passingCount own := by
    have hzero : added.countP (fun file => !file.publicImports.isEmpty) = 0 := by
      rw [List.countP_eq_zero]
      intro file hadded
      simp [halone.passesNothing file hadded]
    rw [passingCount, List.countP_append, hzero, Nat.zero_add, passingCount]
  have hsteps (imports visible : List String) (himports : ∀ path ∈ imports,
    path ∈ own.map File.name)
      (hvisible : visible ⊆ own.map File.name) :
      imports.foldl (fun visible name =>
          visit (added ++ own) (passingCount own) (name :: visible) name) visible =
        imports.foldl (fun visible name => visit own (passingCount own) (name :: visible) name)
          visible ∧
      imports.foldl (fun visible name => visit own (passingCount own) (name :: visible) name)
          visible ⊆ own.map File.name := by
    induction imports generalizing visible with
    | nil => exact ⟨rfl, hvisible⟩
    | cons path rest ih =>
        rw [List.forall_mem_cons] at himports
        rw [List.foldl_cons, List.foldl_cons]
        obtain ⟨heq, hsubset⟩ := halone.visit_eq (passingCount own)
          (List.cons_subset.2 ⟨himports.1, hvisible⟩) himports.1
        rw [heq]
        exact ih _ himports.2 hsubset
  unfold visibleFrom
  rw [hcount]
  apply hsteps _ _ (halone.imports file hfile)
  rw [List.cons_subset]
  exact ⟨List.mem_map_of_mem hfile, List.nil_subset _⟩

end Visible

end ProtoSource.Pool
