import ProtoSource.Proofs.Render.References

/-!
# Spelling with more files in front

Files whose names all lie below one root change the spelling of a reference only
where that root can be meant.  Outside the root a component leads to it from the
outermost scope only, and what is declared below the root without them makes the
root known without them.
-/

namespace ProtoSource.Text.Name

theorem enclosing_eq (scope : String) : enclosing scope = (packages scope).reverse ++ [""] := by
  unfold enclosing packages
  split <;> simp

theorem stems_of_notMem {chars : List Char} (hchars : '.' ∉ chars) : stems chars = [] := by
  rw [List.eq_nil_iff_forall_not_mem]
  intro front hfront
  obtain ⟨rest, rfl⟩ := mem_stems.1 hfront
  simp at hchars

theorem stems_append (front rest : List Char) (hrest : '.' ∉ rest) :
    stems (front ++ '.' :: rest) = stems front ++ [front] := by
  induction front with
  | nil => simp [stems, stems_of_notMem hrest]
  | cons char front ih => by_cases hchar : char = '.' <;> simp [stems, hchar, ih]

/-- The scopes around a declaration are itself and those around its own scope. -/
theorem enclosing_join (scope : String) {name : String} (hname : IsIdentifier name) :
    enclosing (join scope name) = join scope name :: enclosing scope := by
  have hempty : (join scope name).isEmpty = false := by
    simpa using join_ne_empty hname.1 scope
  rw [enclosing, hempty]
  by_cases hscope : scope = ""
  · subst hscope
    simp [enclosing, stems_of_notMem hname.2]
  · have hscope' : scope.isEmpty = false := by simpa using hscope
    simp [enclosing, hscope', toList_join hscope, stems_append _ _ hname.2]

theorem exists_enclosing_eq_cons (scope : String) : ∃ outer, enclosing scope = scope :: outer := by
  unfold enclosing
  split
  · next hempty => exact ⟨[], by simpa using hempty⟩
  · exact ⟨_, rfl⟩

theorem join_ne_self {name : String} (hname : name ≠ "") (scope : String) :
    join scope name ≠ scope := by
  by_cases hscope : scope = ""
  · rwa [hscope, join_empty]
  · intro hsame
    have hlength := congrArg List.length ((toList_join hscope name).symm.trans (congrArg _ hsame))
    simp at hlength

/-- A full name tells the scope and the name of a declaration. -/
theorem join_inj {scope other name name' : String} (hname : '.' ∉ name.toList)
    (hname' : '.' ∉ name'.toList) (hjoin : join scope name = join other name') :
    scope = other ∧ name = name' := by
  obtain rfl : name = name' := by rw [← last_join scope hname, hjoin, last_join other hname']
  refine ⟨?_, rfl⟩
  have hchars := congrArg String.toList hjoin
  by_cases hscope : scope = "" <;> by_cases hother : other = ""
  · rw [hscope, hother]
  · rw [hscope, join_empty, toList_join hother] at hchars
    rw [hchars] at hname
    simp at hname
  · rw [hother, join_empty, toList_join hscope] at hchars
    rw [← hchars] at hname
    simp at hname
  · rw [toList_join hscope, toList_join hother] at hchars
    exact String.toList_injective (List.append_cancel_right hchars)

/-- A root is around what lies below a scope only if it is around the scope. -/
theorem mem_packages_of_mem_join {root scope name : String} (hroot : '.' ∉ root.toList)
    (hscope : scope ≠ "") (hmem : root ∈ packages (join scope name)) : root ∈ packages scope := by
  have hchars := toList_join hscope name
  refine mem_packages.2 ⟨hscope, ?_⟩
  obtain ⟨-, rfl | ⟨rest, hrest⟩⟩ := mem_packages.1 hmem
  · simp [hchars] at hroot
  · rw [hchars, List.append_eq_append_iff] at hrest
    obtain ⟨middle, hlonger, hdot⟩ | ⟨middle, hshorter, hdot⟩ := hrest
    · cases middle with
      | nil => exact Or.inl (String.toList_injective (by simpa using hlonger))
      | cons char middle =>
          obtain ⟨rfl, -⟩ := List.cons.inj hdot
          simp [hlonger] at hroot
    · cases middle with
      | nil => exact Or.inl (String.toList_injective (by simpa using hshorter.symm))
      | cons char middle =>
          obtain ⟨rfl, -⟩ := List.cons.inj hdot
          exact Or.inr ⟨middle, hshorter⟩

/-- Among the packages around a scope, the root is around all others. -/
theorem mem_packages_of_mem_packages {root scope outer : String} (hroot : IsIdentifier root)
    (hscope : root ∈ packages scope) (houter : outer ∈ packages scope) : root ∈ packages outer := by
  obtain ⟨-, rfl | ⟨rest, hrest⟩⟩ := mem_packages.1 houter
  · exact hscope
  · have hne : outer ≠ "" := by
      rintro rfl
      obtain ⟨-, rfl | ⟨rest', hrest'⟩⟩ := mem_packages.1 hscope
      · exact hroot.2 (by simp [hrest])
      · obtain ⟨char, chars, hchars⟩ := List.exists_cons_of_ne_nil
          (fun hnil => hroot.1 (String.toList_eq_nil_iff.1 hnil))
        rw [hrest', hchars] at hrest
        obtain ⟨rfl, -⟩ := List.cons.inj hrest
        exact hroot.2 (by simp [hchars])
    have hjoin : scope = join outer (String.ofList rest) := by
      apply String.toList_injective
      rw [toList_join hne, String.toList_ofList, hrest]
    exact mem_packages_of_mem_join hroot.2 hne (hjoin ▸ hscope)

theorem mem_packages_trans {root scope name : String} (hroot : root ∈ packages scope)
    (hscope : scope ∈ packages name) : root ∈ packages name := by
  obtain ⟨hname, rfl | ⟨rest, hrest⟩⟩ := mem_packages.1 hscope
  · exact hroot
  · obtain ⟨-, rfl | ⟨rest', hrest'⟩⟩ := mem_packages.1 hroot
    · exact mem_packages.2 ⟨hname, Or.inr ⟨rest, hrest⟩⟩
    · rw [hrest', List.append_assoc, List.cons_append] at hrest
      exact mem_packages.2 ⟨hname, Or.inr ⟨_, hrest⟩⟩

/-- A scope around a name without a leading dot is neither the root nor starts with
a dot. -/
theorem head_of_mem_packages {outer name : String} (hname : name.toList.head? ≠ some '.')
    (houter : outer ∈ packages name) : outer ≠ "" ∧ outer.toList.head? ≠ some '.' := by
  obtain ⟨hne, rfl | ⟨rest, hchars⟩⟩ := mem_packages.1 houter
  · exact ⟨hne, hname⟩
  · have hempty : outer ≠ "" := by
      rintro rfl
      simp [hchars] at hname
    refine ⟨hempty, ?_⟩
    rwa [hchars, List.head?_append_of_ne_nil _ (by simpa using hempty)] at hname

theorem head_join {scope : String} (hscope : scope ≠ "") (name : String) :
    (join scope name).toList.head? = scope.toList.head? := by
  rw [toList_join hscope, List.head?_append_of_ne_nil _ (by simpa using hscope)]

end ProtoSource.Text.Name

namespace ProtoSource.Render

open ProtoSource.Descriptor
open ProtoSource.Pool
open ProtoSource.Text

/-- All that a file declares lies below `root`, which is a package itself. -/
structure LiesBelow (root : String) (file : File) : Prop where
  package : root ∈ Name.packages file.package
  holders : ∀ name ∈ holdersOf file, root ∈ Name.packages name
  types : root ∉ typesOf file
  services : root ∉ (servicesOf file).map Prod.fst

instance (root : String) (file : File) : Decidable (LiesBelow root file) :=
  decidable_of_iff
    (root ∈ Name.packages file.package ∧ (∀ name ∈ holdersOf file, root ∈ Name.packages name) ∧
      root ∉ typesOf file ∧ root ∉ (servicesOf file).map Prod.fst)
    ⟨fun ⟨hpackage, hholders, htypes, hservices⟩ => ⟨hpackage, hholders, htypes, hservices⟩,
      fun hfile => ⟨hfile.package, hfile.holders, hfile.types, hfile.services⟩⟩

/-! ## Symbols -/

theorem findSome?_congr_of_mem {α β : Type} {search search' : α → Option β} {values : List α}
    (hsearch : ∀ value ∈ values, search value = search' value) :
    values.findSome? search = values.findSome? search' := by
  induction values with
  | nil => rfl
  | cons value rest ih =>
      rw [List.forall_mem_cons] at hsearch
      rw [List.findSome?_cons, List.findSome?_cons, hsearch.1, ih hsearch.2]

section Symbols

variable {front : List File} {name : String}

/-- Files that do not declare a name can at most make a package of it. -/
theorem symbolKind?_append (files : List File) (hhead : name.toList.head? ≠ some '.')
    (htypes : ∀ file ∈ front, name ∉ typesOf file)
    (hservices : ∀ file ∈ front, name ∉ (servicesOf file).map Prod.fst) :
    symbolKind? (front ++ files) name = symbolKind? files name ∨
      (symbolKind? files name = none ∧ symbolKind? (front ++ files) name = some .package ∧
        ∃ file ∈ front, Name.isPackageAround file.package name = true) := by
  have hnone {α : Type} {declared : File → List (String × α)}
      (hdeclared : ∀ file ∈ front, name ∉ (declared file).map Prod.fst) :
      (front.any fun file => (declared file).any (·.1 == name)) = false := by
    rw [← Bool.not_eq_true, List.any_eq_true]
    rintro ⟨file, hfile, hany⟩
    obtain ⟨entry, hentry, heq⟩ := List.any_eq_true.1 hany
    exact hdeclared file hfile (List.mem_map.2 ⟨entry, hentry, by simpa using heq⟩)
  have hmessages : (front.any fun file => (messagesOf file).any (·.1 == name)) = false :=
    hnone fun file hfile hmem => htypes file hfile (List.mem_append_left _ hmem)
  have henums : (front.any fun file => (enumsOf file).any (·.1 == name)) = false :=
    hnone fun file hfile hmem => htypes file hfile (List.mem_append_right _ hmem)
  unfold symbolKind?
  simp only [Name.bare_eq_self hhead, List.any_append, hmessages, henums, hnone hservices,
    Bool.false_or]
  cases hpackage : front.any fun file => Name.isPackageAround file.package name with
  | false => exact Or.inl (by simp)
  | true =>
      have haround := List.any_eq_true.1 hpackage
      split_ifs <;> simp_all

/-- Outside the root nothing is added. -/
theorem symbolKind?_append_of_notMem (files : List File) {root : String}
    (hfront : ∀ file ∈ front, LiesBelow root file)
    (hhead : name.toList.head? ≠ some '.') (hroot : root ∉ Name.packages name) :
    symbolKind? (front ++ files) name = symbolKind? files name := by
  have hholder {file : File} (hfile : file ∈ front) : name ∉ holdersOf file :=
    fun hmem => hroot ((hfront file hfile).holders name hmem)
  obtain hsame | ⟨-, -, file, hfile, haround⟩ := symbolKind?_append files hhead
    (fun file hfile hmem => hholder hfile (by simp [holdersOf, hmem]))
    (fun file hfile hmem => hholder hfile (List.mem_append_right _ hmem))
  · exact hsame
  · have hempty : file.package ≠ "" := (Name.mem_packages.1 (hfront file hfile).package).1
    have hinside := (Name.isPackageAround_iff.1 haround).imp_left Eq.symm
    refine absurd ?_ (hholder hfile)
    exact List.mem_append_left _ (List.mem_append_left _ (Name.mem_packages.2 ⟨hempty, hinside⟩))

end Symbols

/-! ## Spellings -/

section Spelled

variable {root : String} {front files : List File} (hroot : Name.IsIdentifier root)
  (hfront : ∀ file ∈ front, LiesBelow root file)

include hroot hfront

/-- From every scope but the outermost a component leads where it did. -/
theorem candidate?_append {name : String} (hname : name.toList.head? ≠ some '.')
    (houtside : root ∉ Name.packages name) (first : String) (rest : Option String)
    {outer : String} (houter : outer ∈ Name.packages name) :
    Scope.candidate? (front ++ files) first rest outer =
      Scope.candidate? files first rest outer := by
  obtain ⟨hempty, hhead⟩ := Name.head_of_mem_packages hname houter
  have hnot : root ∉ Name.packages (Name.join outer first) := fun hmem =>
    houtside (Name.mem_packages_trans (Name.mem_packages_of_mem_join hroot.2 hempty hmem) houter)
  unfold Scope.candidate?
  simp only [symbolKind?_append_of_notMem files hfront (Name.head_join hempty first ▸ hhead) hnot]

/-- From the outermost scope a component leads to a type only if it did. -/
theorem candidate?_append_outermost (hfiles : ∀ file ∈ files, WellNamed file) {fullName : String}
    (htype : isType files fullName = true) {first : String} (hfirst : '.' ∉ first.toList)
    (rest : Option String) :
    Scope.candidate? (front ++ files) first rest "" = some fullName ↔
      Scope.candidate? files first rest "" = some fullName := by
  have hhead : first.toList.head? ≠ some '.' := fun hdot => hfirst (List.mem_of_head? hdot)
  unfold Scope.candidate?
  simp only [Name.join_empty]
  by_cases hsame : first = root
  · subst hsame
    obtain hkind | ⟨hunknown, hpackage, -⟩ := symbolKind?_append files hhead
      (fun file hfile => (hfront file hfile).types) (fun file hfile => (hfront file hfile).services)
    · rw [hkind]
    · rw [hunknown, hpackage]
      cases rest with
      | none => simp [SymbolKind.isType]
      | some rest =>
          simp only [Option.some.injEq, reduceCtorEq, iff_false]
          rintro rfl
          -- A type below the root makes the root known.
          obtain ⟨file, hfile, hmem⟩ := isType_iff.1 htype
          have hholder := (hfiles file hfile).mem_holdersOf_of_cut hmem
            (Name.toList_join hroot.1 rest)
          exact symbolKind?_ne_none_of_isHolder hhead (isHolder_iff.2 ⟨file, hfile, hholder⟩)
            hunknown
  · have hnot : root ∉ Name.packages first := by
      intro hmem
      obtain ⟨-, heq | ⟨rest, hchars⟩⟩ := Name.mem_packages.1 hmem
      · exact hsame heq.symm
      · simp [hchars] at hfirst
    rw [symbolKind?_append_of_notMem files hfront hhead hnot]

variable (package : String) {name : String} (hname : name.toList.head? ≠ some '.')
  (houtside : root ∉ Name.packages name) (hfiles : ∀ file ∈ files, WellNamed file)

include hname houtside hfiles

/-- A spelling leads to a type with the files in front if and only if it does
without them. -/
theorem resolve_append {fullName : String} (htype : isType files fullName = true)
    (spelling : String) :
    Scope.resolve ⟨front ++ files, package, name⟩ spelling = some fullName ↔
      Scope.resolve ⟨files, package, name⟩ spelling = some fullName := by
  have hsearch {first : String} (hfirst : '.' ∉ first.toList) (rest : Option String) :
      (Name.enclosing name).findSome? (Scope.candidate? (front ++ files) first rest) =
          some fullName ↔
        (Name.enclosing name).findSome? (Scope.candidate? files first rest) = some fullName := by
    have hinner : (Name.packages name).reverse.findSome?
          (Scope.candidate? (front ++ files) first rest) =
        (Name.packages name).reverse.findSome? (Scope.candidate? files first rest) :=
      findSome?_congr_of_mem fun outer houter =>
        candidate?_append hroot hfront hname houtside first rest (List.mem_reverse.1 houter)
    rw [Name.enclosing_eq, List.findSome?_append, List.findSome?_append, hinner]
    cases (Name.packages name).reverse.findSome? (Scope.candidate? files first rest) with
    | some _ => simp
    | none =>
        simp only [List.findSome?_singleton, Option.none_or]
        exact candidate?_append_outermost hroot hfront hfiles htype hfirst rest
  unfold Scope.resolve
  obtain ⟨hfirst, hsplit⟩ | ⟨first, rest, hfirst, -, hsplit⟩ := Name.splitFirst_cases spelling
  · simpa only [hsplit] using hsearch hfirst none
  · simpa only [hsplit] using hsearch hfirst (some rest)

/-- A type of the set is spelled the same with the files in front. -/
theorem reference_append {typeName : String}
    (htype : ∀ fullName ∈ Name.absolute? typeName, isType files fullName = true) :
    Scope.reference ⟨front ++ files, package, name⟩ typeName =
      Scope.reference ⟨files, package, name⟩ typeName := by
  unfold Scope.reference
  cases habsolute : Name.absolute? typeName with
  | none => rfl
  | some fullName =>
      have hresolve := resolve_append hroot hfront package hname houtside hfiles
        (htype fullName habsolute)
      simp only [Scope.spellings, Bool.beq_eq_decide_eq, hresolve]

end Spelled

end ProtoSource.Render
