import ProtoSource.Proofs.Pool.Declared
import ProtoSource.Render.Scope

/-!
# Short references keep their meaning

A spelling is chosen against all files of a pool, but the printed file is read
against its imports only.  This module states how a compiler looks a spelling up
among some files and proves that the chosen spelling leads back to the type
among any of the files of the pool that include the one declaring it: leaving
files out neither opens a new capture nor loses the hit that was used.
-/

namespace ProtoSource.Render

open ProtoSource.Descriptor
open ProtoSource.Pool
open ProtoSource.Text

/-- `fullName` is a message or an enum of `files`. -/
def isType (files : List File) (fullName : String) : Bool :=
  files.any fun file => (typesOf file).contains fullName

/-- `fullName` is a package, message, enum or service of `files`. -/
def isHolder (files : List File) (fullName : String) : Bool :=
  files.any fun file => (holdersOf file).contains fullName

/-- How a compiler that sees `files` reads a type written in `scope`.  A leading
dot makes it absolute.  Otherwise its first component is searched from the
innermost scope outward: a lone name must be a type there, and a longer one goes
on below the first holder found. -/
def lookUp (files : List File) (scope spelling : String) : Option String :=
  match Name.absolute? spelling with
  | some fullName => Option.guard (isType files) fullName
  | none =>
      let places (first : String) :=
        (Name.enclosing scope).map fun outer => Name.join outer first
      match Name.splitFirst spelling with
      | (first, none) => (places first).find? (isType files)
      | (first, some rest) =>
          match (places first).find? (isHolder files) with
          | none => none
          | some holder => Option.guard (isType files) (holder ++ "." ++ rest)

theorem isType_iff {files : List File} {fullName : String} :
    isType files fullName ↔ ∃ file ∈ files, fullName ∈ typesOf file := by
  simp [isType]

theorem isHolder_iff {files : List File} {fullName : String} :
    isHolder files fullName ↔ ∃ file ∈ files, fullName ∈ holdersOf file := by
  simp [isHolder]

theorem isType_mono {files seen : List File} (hsub : seen ⊆ files) {fullName : String}
    (htype : isType seen fullName) : isType files fullName := by
  obtain ⟨file, hfile, hmem⟩ := isType_iff.1 htype
  exact isType_iff.2 ⟨file, hsub hfile, hmem⟩

theorem isHolder_mono {files seen : List File} (hsub : seen ⊆ files) {fullName : String}
    (hholder : isHolder seen fullName) : isHolder files fullName := by
  obtain ⟨file, hfile, hmem⟩ := isHolder_iff.1 hholder
  exact isHolder_iff.2 ⟨file, hsub hfile, hmem⟩

section Symbols

variable {files : List File}

theorem isDotted_of_isType (hfiles : ∀ file ∈ files, WellNamed file) {fullName : String}
    (htype : isType files fullName) : Name.IsDotted fullName := by
  obtain ⟨file, hfile, hmem⟩ := isType_iff.1 htype
  exact (hfiles file hfile).isDotted_of_mem_typesOf hmem

theorem isDotted_of_isHolder (hfiles : ∀ file ∈ files, WellNamed file) {fullName : String}
    (hholder : isHolder files fullName) : Name.IsDotted fullName := by
  obtain ⟨file, hfile, hmem⟩ := isHolder_iff.1 hholder
  exact (hfiles file hfile).isDotted_of_mem_holdersOf hmem

/-- Without a leading dot, a type is a symbol of a kind that can be written
alone. -/
theorem symbolKind?_of_isType {fullName : String} (hhead : fullName.toList.head? ≠ some '.')
    (htype : isType files fullName) :
    ∃ kind, symbolKind? files fullName = some kind ∧ kind.isType := by
  obtain ⟨file, hfile, hmem⟩ := isType_iff.1 htype
  simp only [symbolKind?, Name.bare_eq_self hhead]
  by_cases hmessage : (files.any fun file => (messagesOf file).any (·.1 == fullName)) = true
  · exact ⟨.message, by rw [if_pos hmessage], rfl⟩
  have henum : (files.any fun file => (enumsOf file).any (·.1 == fullName)) = true := by
    simp only [typesOf, List.mem_append, List.mem_map] at hmem
    obtain ⟨entry, hentry, heq⟩ | ⟨entry, hentry, heq⟩ := hmem
    · refine absurd ?_ hmessage
      simp only [List.any_eq_true, beq_iff_eq]
      exact ⟨file, hfile, entry, hentry, heq⟩
    · simp only [List.any_eq_true, beq_iff_eq]
      exact ⟨file, hfile, entry, hentry, heq⟩
  exact ⟨.enumeration, by rw [if_neg hmessage, if_pos henum], rfl⟩

/-- Without a leading dot, a holder is a symbol. -/
theorem symbolKind?_ne_none_of_isHolder {fullName : String}
    (hhead : fullName.toList.head? ≠ some '.') (hholder : isHolder files fullName) :
    symbolKind? files fullName ≠ none := by
  obtain ⟨file, hfile, hmem⟩ := isHolder_iff.1 hholder
  simp only [holdersOf, List.mem_append] at hmem
  obtain (hpackage | htype) | hservice := hmem
  · have haround : Name.isPackageAround file.package fullName := by
      obtain ⟨-, hsame | hinside⟩ := Name.mem_packages.1 hpackage
      · exact Name.isPackageAround_iff.2 (Or.inl hsame.symm)
      · exact Name.isPackageAround_iff.2 (Or.inr hinside)
    have hany : (files.any fun file => Name.isPackageAround file.package fullName) = true :=
      List.any_eq_true.2 ⟨file, hfile, haround⟩
    simp only [symbolKind?, hany, if_true]
    split_ifs <;> simp
  · obtain ⟨kind, hkind, -⟩ :=
      symbolKind?_of_isType hhead (isType_iff.2 ⟨file, hfile, htype⟩)
    simp [hkind]
  · obtain ⟨entry, hentry, heq⟩ := List.mem_map.1 hservice
    have hany : (files.any fun file =>
        (servicesOf file).any (·.1 == Name.bare fullName)) = true := by
      simp only [List.any_eq_true, beq_iff_eq, Name.bare_eq_self hhead]
      exact ⟨file, hfile, entry, hentry, heq⟩
    simp only [symbolKind?, hany, if_true]
    split_ifs <;> simp

end Symbols

section Places

variable {files : List File} {first rest outer fullName : String}

theorem not_isType_of_candidate? (hfiles : ∀ file ∈ files, WellNamed file)
    (hmiss : Scope.candidate? files first none outer = none) :
    isType files (Name.join outer first) = false := by
  by_contra htype
  rw [Bool.not_eq_false] at htype
  obtain ⟨kind, hkind, hisType⟩ :=
    symbolKind?_of_isType (isDotted_of_isType hfiles htype).head htype
  simp [Scope.candidate?, hkind, hisType] at hmiss

theorem not_isHolder_of_candidate? (hfiles : ∀ file ∈ files, WellNamed file)
    (hmiss : Scope.candidate? files first (some rest) outer = none) :
    isHolder files (Name.join outer first) = false := by
  by_contra hholder
  rw [Bool.not_eq_false] at hholder
  have hkind :=
    symbolKind?_ne_none_of_isHolder (isDotted_of_isHolder hfiles hholder).head hholder
  obtain ⟨kind, hkind⟩ := Option.ne_none_iff_exists'.1 hkind
  simp [Scope.candidate?, hkind] at hmiss

theorem join_eq_of_candidate?
    (hhit : Scope.candidate? files first none outer = some fullName) :
    Name.join outer first = fullName := by
  simp only [Scope.candidate?] at hhit
  split at hhit
  · split_ifs at hhit
    exact Option.some.inj hhit
  · contradiction
  · contradiction

theorem join_join_eq_of_candidate?
    (hhit : Scope.candidate? files first (some rest) outer = some fullName) :
    Name.join (Name.join outer first) rest = fullName := by
  simp only [Scope.candidate?] at hhit
  split at hhit
  · contradiction
  · next hrest =>
      obtain rfl := Option.some.inj hrest
      exact Option.some.inj hhit
  · contradiction

end Places

/-! ## From a spelling back to its type -/

section Spellings

variable {files seen : List File} {file : File} {scope : Scope} {spelling fullName : String}

/-- A relative spelling that leads to a type among all files leads to it among
those that a reader sees. -/
theorem lookUp_of_resolve (hfiles : ∀ file ∈ scope.files, WellNamed file)
    (hsub : seen ⊆ scope.files) (hfile : file ∈ seen) (hmem : fullName ∈ typesOf file)
    (hspelling : spelling.toList.head? ≠ some '.')
    (hresolve : scope.resolve spelling = some fullName) :
    lookUp seen scope.name spelling = some fullName := by
  have hseen : ∀ file ∈ seen, WellNamed file := fun file hfile => hfiles file (hsub hfile)
  have htype : isType seen fullName := isType_iff.2 ⟨file, hfile, hmem⟩
  have hrelative : Name.absolute? spelling = none := by
    rw [Option.eq_none_iff_forall_ne_some]
    intro rest habsolute
    rw [Name.absolute?_eq_some] at habsolute
    simp [habsolute] at hspelling
  unfold Scope.resolve at hresolve
  unfold lookUp
  rw [hrelative]
  obtain ⟨-, hsplit⟩ | ⟨first, rest, -, hchars, hsplit⟩ := Name.splitFirst_cases spelling
  · -- a lone name: the hit is the type itself, and no place before it holds a type
    rw [hsplit] at hresolve ⊢
    obtain ⟨inner, outer, others, hplaces, hhit, hmiss⟩ :=
      List.findSome?_eq_some_iff.1 hresolve
    have hfull : Name.join outer spelling = fullName := join_eq_of_candidate? hhit
    refine List.find?_eq_some_iff_append.2 ⟨htype, inner.map (Name.join · spelling),
      others.map (Name.join · spelling), ?_, ?_⟩
    · simp [hplaces, hfull]
    · intro name hname
      obtain ⟨place, hplace, rfl⟩ := List.mem_map.1 hname
      have hnone := not_isType_of_candidate? hfiles (hmiss place hplace)
      rw [Bool.not_eq_true', ← Bool.not_eq_true]
      intro hcaptured
      exact absurd (isType_mono hsub hcaptured) (by simp [hnone])
  · -- a longer name: what it goes on from is a holder of the file that declares the type
    rw [hsplit] at hresolve ⊢
    obtain ⟨inner, outer, others, hplaces, hhit, hmiss⟩ :=
      List.findSome?_eq_some_iff.1 hresolve
    have hfirst : Name.join outer first ≠ "" := by
      refine Name.join_ne_empty ?_ outer
      rintro rfl
      simp [hchars] at hspelling
    have hfull : Name.join outer first ++ "." ++ rest = fullName := by
      rw [← Name.join_eq_append hfirst]
      exact join_join_eq_of_candidate? hhit
    have hholder : isHolder seen (Name.join outer first) := by
      have hcut : fullName.toList = (Name.join outer first).toList ++ '.' :: rest.toList := by
        simp [← hfull]
      exact isHolder_iff.2 ⟨file, hfile, (hseen file hfile).mem_holdersOf_of_cut hmem hcut⟩
    have hfind : ((Name.enclosing scope.name).map (Name.join · first)).find? (isHolder seen) =
        some (Name.join outer first) := by
      refine List.find?_eq_some_iff_append.2 ⟨hholder, inner.map (Name.join · first),
        others.map (Name.join · first), by simp [hplaces], ?_⟩
      intro name hname
      obtain ⟨place, hplace, rfl⟩ := List.mem_map.1 hname
      have hnone := not_isHolder_of_candidate? hfiles (hmiss place hplace)
      rw [Bool.not_eq_true', ← Bool.not_eq_true]
      intro hcaptured
      exact absurd (isHolder_mono hsub hcaptured) (by simp [hnone])
    simp only [hfind, hfull, Option.guard, htype, if_true]

/-- The spellings of a declared type do not start with a dot. -/
theorem head?_ne_dot_of_mem_spellings (hfull : Name.IsDotted fullName)
    (hmem : spelling ∈ scope.spellings fullName) : spelling.toList.head? ≠ some '.' := by
  unfold Scope.spellings at hmem
  rw [List.mem_append, List.mem_singleton, Option.mem_toList] at hmem
  obtain hrelative | rfl := hmem
  · split_ifs at hrelative
    rw [Name.below?_eq_some] at hrelative
    intro hhead
    obtain ⟨rest, hchars⟩ := List.head?_eq_some_iff.1 hhead
    exact hfull.ne_append_dots scope.package.toList rest (by rw [hrelative, hchars])
  · exact hfull.head

theorem lookUp_reference (hfiles : ∀ file ∈ scope.files, WellNamed file)
    (hsub : seen ⊆ scope.files) (hfile : file ∈ seen) (hmem : fullName ∈ typesOf file) :
    lookUp seen scope.name (scope.reference ("." ++ fullName)) = some fullName := by
  have hfull : Name.IsDotted fullName :=
    (hfiles file (hsub hfile)).isDotted_of_mem_typesOf hmem
  have htype : isType seen fullName := isType_iff.2 ⟨file, hfile, hmem⟩
  unfold Scope.reference
  rw [Name.absolute?_dot]
  cases hfind : (scope.spellings fullName).find? fun spelling =>
      scope.resolve spelling == some fullName with
  | none => simp [lookUp, hfind, Option.guard, htype]
  | some spelling =>
      have hresolve : scope.resolve spelling = some fullName := by
        simpa using List.find?_some hfind
      have hhead : spelling.toList.head? ≠ some '.' :=
        head?_ne_dot_of_mem_spellings hfull (List.mem_of_find?_eq_some hfind)
      simp only [hfind, Option.getD_some]
      exact lookUp_of_resolve hfiles hsub hfile hmem hhead hresolve

end Spellings

theorem files_foldl_nested (scope : Scope) (path : List String) :
    (path.foldl Scope.nested scope).files = scope.files := by
  induction path generalizing scope with
  | nil => rfl
  | cons name path ih => exact ih (scope.nested name)

/-- Written anywhere in a file of any package, the chosen spelling of a type
leads back to the type for every reader who sees the file that declares it,
whatever other files of the pool the reader sees or misses. -/
theorem lookUp_reference_of_subset (files seen : List File)
    (hfiles : ∀ file ∈ files, WellNamed file) (hsub : seen ⊆ files)
    (package : String) (path : List String)
    (file : File) (hfile : file ∈ seen) (fullName : String) (hmem : fullName ∈ typesOf file) :
    lookUp seen (path.foldl Scope.nested (Scope.ofPackage files package)).name
        ((path.foldl Scope.nested (Scope.ofPackage files package)).reference
          ("." ++ fullName)) =
      some fullName := by
  have hscope : (path.foldl Scope.nested (Scope.ofPackage files package)).files = files :=
    files_foldl_nested (Scope.ofPackage files package) path
  refine lookUp_reference ?_ ?_ hfile hmem
  · rwa [hscope]
  · rwa [hscope]

/-- A file whose message `Order` has a message `Item` and one named like the
package inside. -/
def storeFile : File where
  name? := some "store.proto"
  package? := some "store"
  messages :=
    [.mk { name? := some "Order" } [.mk { name? := some "Item" } [],
     .mk { name? := some "store" } []], .mk { name? := some "Item" } []]

/-- Another file of the pool, in a package below. -/
def stockFile : File where
  name? := some "stock.proto"
  package? := some "store.stock"
  messages := [.mk { name? := some "Item" } []]

/-- Inside `Order` neither `Item` nor `store.Item` leads to `store.Item`, so it
is written in full. -/
theorem lookUp_reference_in_order :
    ((Scope.ofPackage [storeFile, stockFile] "store").nested "Order").reference
        ".store.Item" = ".store.Item" ∧
      lookUp [storeFile] "store.Order"
        (((Scope.ofPackage [storeFile, stockFile] "store").nested "Order").reference
          ".store.Item") = some "store.Item" := by
  refine ⟨by decide, ?_⟩
  exact lookUp_reference_of_subset [storeFile, stockFile] [storeFile]
    (by decide) (by simp) "store" ["Order"] storeFile (by simp) "store.Item"
    (by decide)

end ProtoSource.Render
