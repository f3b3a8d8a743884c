import Mathlib.Data.List.Chain
import Mathlib.Data.List.TakeWhile
import ProtoSource.Text.Name

/-!
# Names and their components

The functions on dotted names work on characters.  This module says what they
do in terms of components: where a name can be cut at a dot, which packages lie
around a package, and what the first component of a name is.
-/

namespace ProtoSource.Text

/-- Whether all characters of a text are such is decided by the text, not by a search
among all characters there are. -/
instance decidableForallMemChars {holds : Char → Prop} [DecidablePred holds] (chars : List Char) :
    Decidable (∀ char ∈ chars, holds char) :=
  List.decidableBAll holds chars

instance decidableExistsMemChar {holds : Char → Prop} [DecidablePred holds] (char? : Option Char) :
    Decidable (∃ char ∈ char?, holds char) :=
  Option.decidableExistsMem char?

theorem bytes_eq_flatMap (text : String) :
    text.toUTF8.data.toList = text.toList.flatMap String.utf8EncodeChar := by
  conv_lhs => rw [← String.ofList_toList (s := text)]
  rw [String.toUTF8, String.toByteArray_ofList, List.utf8Encode]
  simp

/-- The byte of a dot stands in the form of no other character. -/
theorem mem_utf8EncodeChar_iff {char : Char} :
    46 ∈ String.utf8EncodeChar char ↔ char = '.' := by
  have hchar : char = '.' ↔ char.val.toNat = 46 := by
    rw [← Char.val_inj, ← UInt32.toNat_inj]
    rfl
  have hbyte (value : Nat) : 46 = UInt8.ofNat value ↔ value % 256 = 46 := by
    rw [← UInt8.toNat_inj, UInt8.toNat_ofNat', eq_comm]
    rfl
  rw [hchar]
  dsimp only [String.utf8EncodeChar]
  split_ifs <;> simp only [List.mem_cons, List.not_mem_nil, or_false, hbyte] <;> omega

theorem mem_bytes_iff {text : String} : 46 ∈ text.toUTF8.data.toList ↔ '.' ∈ text.toList := by
  rw [bytes_eq_flatMap, List.mem_flatMap]
  simp only [mem_utf8EncodeChar_iff, exists_eq_right]

end ProtoSource.Text

namespace ProtoSource.Text.Name

/-- A name of one component. -/
def IsIdentifier (name : String) : Prop :=
  name ≠ "" ∧ '.' ∉ name.toList

/-- The dot is looked for among the bytes, which the text need not be decoded for. -/
instance (name : String) : Decidable (IsIdentifier name) :=
  decidable_of_iff (name ≠ "" ∧ 46 ∉ name.toUTF8.data.toList) (by rw [mem_bytes_iff, IsIdentifier])

/-- No component of a name is empty: dots stand neither at an end nor beside
each other.  The empty name has no components at all. -/
structure IsDotted (name : String) : Prop where
  head : name.toList.head? ≠ some '.'
  last : name.toList.getLast? ≠ some '.'
  adjacent : name.toList.IsChain fun left right => left ≠ '.' ∨ right ≠ '.'

instance (name : String) : Decidable (IsDotted name) :=
  decidable_of_iff
    (name.toList.head? ≠ some '.' ∧ name.toList.getLast? ≠ some '.' ∧
      name.toList.IsChain fun left right => left ≠ '.' ∨ right ≠ '.')
    ⟨fun ⟨hhead, hlast, hadjacent⟩ => ⟨hhead, hlast, hadjacent⟩,
      fun hname => ⟨hname.head, hname.last, hname.adjacent⟩⟩

/-- A dot before `after` belongs to `before` if `after` has none itself. -/
theorem append_dot_eq_append_dot {left rest before after : List Char}
    (hafter : '.' ∉ after) (heq : left ++ '.' :: rest = before ++ '.' :: after) :
    left = before ∨ ∃ middle, before = left ++ '.' :: middle := by
  rw [List.append_eq_append_iff] at heq
  obtain ⟨middle, hbefore, hrest⟩ | ⟨middle, hleft, hrest⟩ := heq
  · cases middle with
    | nil => exact Or.inl (by simpa using hbefore.symm)
    | cons char middle =>
        obtain ⟨rfl, -⟩ := List.cons.inj hrest
        exact Or.inr ⟨middle, hbefore⟩
  · cases middle with
    | nil => exact Or.inl (by simpa using hleft)
    | cons char middle =>
        obtain ⟨rfl, rfl⟩ := List.cons.inj hrest
        exact absurd (by simp) hafter

theorem join_eq_append {scope : String} (hscope : scope ≠ "") (name : String) :
    join scope name = scope ++ "." ++ name := by
  simp [join, hscope]

@[simp]
theorem join_empty (name : String) : join "" name = name := by
  simp [join]

theorem toList_join {scope : String} (hscope : scope ≠ "") (name : String) :
    (join scope name).toList = scope.toList ++ '.' :: name.toList := by
  simp [join_eq_append hscope]

theorem join_ne_empty {name : String} (hname : name ≠ "") (scope : String) :
    join scope name ≠ "" := by
  by_cases hempty : scope = ""
  · simpa [hempty] using hname
  · intro hjoin
    have hchars := toList_join hempty name
    simp [hjoin] at hchars

theorem IsIdentifier.isDotted {name : String} (hname : IsIdentifier name) : IsDotted name where
  head := by
    intro hhead
    exact hname.2 (List.mem_of_mem_head? hhead)
  last := by
    intro hlast
    exact hname.2 (List.mem_of_mem_getLast? hlast)
  adjacent := by
    apply List.Pairwise.isChain
    apply List.pairwise_of_forall_mem_list
    intro left hleft right _
    refine Or.inl ?_
    rintro rfl
    exact hname.2 hleft

/-- What is declared in a scope has a dotted full name. -/
theorem IsDotted.join {scope name : String} (hscope : IsDotted scope)
    (hname : IsIdentifier name) : IsDotted (join scope name) := by
  by_cases hempty : scope = ""
  · subst hempty
    simpa using hname.isDotted
  have hchars := toList_join hempty name
  have hscopeChars : scope.toList ≠ [] := by simpa using hempty
  have hnameChars : name.toList ≠ [] := by simpa using hname.1
  refine ⟨?_, ?_, ?_⟩
  · rw [hchars, List.head?_append_of_ne_nil _ hscopeChars]
    exact hscope.head
  · rw [hchars, List.getLast?_append_of_ne_nil _ (List.cons_ne_nil _ _),
      List.getLast?_cons_of_ne_nil hnameChars]
    exact hname.isDotted.last
  · rw [hchars, List.isChain_append, List.isChain_cons]
    refine ⟨hscope.adjacent, ⟨?_, hname.isDotted.adjacent⟩, ?_⟩
    · intro char hchar
      refine Or.inr ?_
      rintro rfl
      exact hname.isDotted.head hchar
    · intro char hchar other _
      refine Or.inl ?_
      rintro rfl
      exact hscope.last hchar

theorem IsDotted.ne_append_dots {name : String} (hname : IsDotted name)
    (before after : List Char) : name.toList ≠ before ++ '.' :: '.' :: after := by
  intro heq
  have hchain := hname.adjacent
  rw [heq, List.isChain_append] at hchain
  obtain ⟨-, hdots, -⟩ := hchain
  simp at hdots

theorem bare_eq_self {name : String} (hname : name.toList.head? ≠ some '.') :
    bare name = name := by
  unfold bare absolute?
  split
  · next rest hchars => simp [hchars] at hname
  · rfl

theorem absolute?_eq_some {name rest : String} :
    absolute? name = some rest ↔ name.toList = '.' :: rest.toList := by
  unfold absolute?
  split
  · next chars hchars =>
      rw [hchars, Option.some.injEq, List.cons.injEq]
      constructor
      · rintro rfl
        simp
      · rintro ⟨-, rfl⟩
        simp
  · next hother =>
      constructor
      · intro h
        simp at h
      · intro hchars
        exact absurd hchars (hother _)

@[simp]
theorem absolute?_dot (name : String) : absolute? ("." ++ name) = some name := by
  rw [absolute?_eq_some]
  simp

theorem mem_stems {front chars : List Char} :
    front ∈ stems chars ↔ ∃ rest, chars = front ++ '.' :: rest := by
  induction chars generalizing front with
  | nil => simp [stems]
  | cons char chars ih =>
      cases front with
      | nil =>
          by_cases hchar : char = '.'
          · simp [stems, hchar]
          · simp [stems, hchar]
      | cons first front =>
          by_cases hchar : char = '.'
          · simp [stems, hchar, ih, eq_comm, and_comm]
          · simp [stems, hchar, ih, eq_comm, and_comm]

theorem mem_packages {name package : String} :
    name ∈ packages package ↔
      package ≠ "" ∧ (name = package ∨ ∃ rest, package.toList = name.toList ++ '.' :: rest) := by
  have hstems : (∃ front ∈ stems package.toList, String.ofList front = name) ↔
      ∃ rest, package.toList = name.toList ++ '.' :: rest := by
    simp only [mem_stems]
    constructor
    · rintro ⟨front, ⟨rest, hchars⟩, rfl⟩
      exact ⟨rest, by simpa using hchars⟩
    · rintro ⟨rest, hchars⟩
      exact ⟨name.toList, ⟨rest, hchars⟩, by simp⟩
  unfold packages
  by_cases hempty : package = ""
  · simp [hempty]
  · simp only [String.isEmpty_iff, hempty, if_false, List.mem_append, List.mem_map, hstems,
      List.mem_singleton, ne_eq, not_false_eq_true, true_and]
    exact Or.comm

theorem IsDotted.of_mem_packages {name package : String} (hpackage : IsDotted package)
    (hname : name ∈ packages package) : IsDotted name := by
  obtain ⟨hempty, rfl | ⟨rest, hchars⟩⟩ := mem_packages.1 hname
  · exact hpackage
  have hhead := hpackage.head
  have hadjacent := hpackage.adjacent
  rw [hchars, List.isChain_append] at hadjacent
  obtain ⟨hname, -, hlast⟩ := hadjacent
  refine ⟨?_, ?_, hname⟩
  · intro hdot
    exact hhead (by rw [hchars, List.head?_append, hdot]; rfl)
  · intro hdot
    exact absurd (hlast '.' hdot '.' rfl) (by simp)

/-- Cutting the full name of a declaration at a dot leaves a scope around it. -/
theorem mem_packages_of_toList_join {scope name front : String} {rest : List Char}
    (hname : '.' ∉ name.toList)
    (hcut : (join scope name).toList = front.toList ++ '.' :: rest) : front ∈ packages scope := by
  by_cases hempty : scope = ""
  · subst hempty
    rw [join_empty] at hcut
    exact absurd (by simp [hcut]) hname
  rw [toList_join hempty] at hcut
  refine mem_packages.2 ⟨hempty, ?_⟩
  obtain hsame | hinside := append_dot_eq_append_dot hname hcut.symm
  · exact Or.inl (String.toList_injective hsame)
  · exact Or.inr hinside

/-- The scopes around a declaration are the declaration and those around its
own scope. -/
theorem mem_packages_join {scope name front : String} (hname : '.' ∉ name.toList)
    (hfront : front ∈ packages (join scope name)) :
    front = join scope name ∨ front ∈ packages scope := by
  obtain ⟨-, hsame | ⟨rest, hcut⟩⟩ := mem_packages.1 hfront
  · exact Or.inl hsame
  · exact Or.inr (mem_packages_of_toList_join hname hcut)

theorem rest?_eq_some {start text rest : List Char} :
    rest? start text = some rest ↔ text = start ++ rest := by
  fun_induction rest? start text with
  | case1 text => simp
  | case2 => simp
  | case3 start char text ih => simpa using ih
  | case4 expected start found text hne => simp [hne]

theorem isPackageAround_iff {package name : String} :
    isPackageAround package name ↔
      package = name ∨ ∃ rest, package.toList = name.toList ++ '.' :: rest := by
  unfold isPackageAround
  split
  · next hrest =>
      rw [rest?_eq_some] at hrest
      simp only [true_iff]
      exact Or.inl (String.toList_injective (by simpa using hrest))
  · next rest hrest =>
      rw [rest?_eq_some] at hrest
      simp only [true_iff]
      exact Or.inr ⟨rest, hrest⟩
  · next hnil hdot =>
      simp only [Bool.false_eq_true, false_iff]
      rintro (rfl | ⟨rest, hchars⟩)
      · exact hnil (rest?_eq_some.2 (by simp))
      · exact hdot rest (rest?_eq_some.2 hchars)

theorem below?_eq_some {package name rest : String} :
    below? package name = some rest ↔
      name.toList = package.toList ++ '.' :: rest.toList := by
  unfold below?
  split
  · next chars hrest =>
      rw [rest?_eq_some] at hrest
      rw [hrest, Option.some.injEq, List.append_cancel_left_eq, List.cons.injEq]
      constructor
      · rintro rfl
        simp
      · rintro ⟨-, rfl⟩
        simp
  · next hother =>
      constructor
      · intro h
        simp at h
      · intro hchars
        exact absurd (rest?_eq_some.2 hchars) (hother _)

theorem last_of_eq {name : String} {before after : List Char} (hafter : '.' ∉ after)
    (hname : name.toList = before ++ '.' :: after) : last name = String.ofList after := by
  have hreversed : name.toList.reverse = after.reverse ++ '.' :: before.reverse := by
    simp [hname]
  rw [last, hreversed, List.takeWhile_append_of_pos]
  · simp
  · intro char hchar
    simp only [bne_iff_ne, ne_eq]
    rintro rfl
    exact hafter (List.mem_reverse.1 hchar)

theorem last_eq_self {name : String} (hname : '.' ∉ name.toList) : last name = name := by
  have hall : name.toList.reverse.takeWhile (· != '.') = name.toList.reverse := by
    rw [List.takeWhile_eq_self_iff]
    intro char hchar
    simp only [bne_iff_ne, ne_eq]
    rintro rfl
    exact hname (List.mem_reverse.1 hchar)
  simp [last, hall]

/-- The last component of a full name is the name of what is declared. -/
theorem last_join (scope : String) {name : String} (hname : '.' ∉ name.toList) :
    last (join scope name) = name := by
  by_cases hempty : scope = ""
  · rw [hempty, join_empty, last_eq_self hname]
  · rw [last_of_eq hname (toList_join hempty name), String.ofList_toList]

/-- A leading dot does not change the last component. -/
theorem last_dot (name : String) : last ("." ++ name) = last name := by
  have hreversed : ("." ++ name).toList.reverse = name.toList.reverse ++ ['.'] := by simp
  rw [last, last, hreversed, List.takeWhile_append]
  split
  · next hlength =>
      have hall : name.toList.reverse.takeWhile (· != '.') = name.toList.reverse :=
        (List.takeWhile_sublist _).eq_of_length hlength
      simp [hall]
  · rfl

theorem splitFirst_of_not_mem {name : String} (hname : '.' ∉ name.toList) :
    splitFirst name = (name, none) := by
  have hall : name.toList.takeWhile (· != '.') = name.toList := by
    rw [List.takeWhile_eq_self_iff]
    intro char hchar
    simp only [bne_iff_ne, ne_eq]
    rintro rfl
    exact hname hchar
  simp [splitFirst, hall]

theorem splitFirst_of_eq {name : String} {first rest : List Char} (hfirst : '.' ∉ first)
    (hname : name.toList = first ++ '.' :: rest) :
    splitFirst name = (String.ofList first, some (String.ofList rest)) := by
  have htake : name.toList.takeWhile (· != '.') = first := by
    rw [hname, List.takeWhile_append_of_pos]
    · simp
    · intro char hchar
      simp only [bne_iff_ne, ne_eq]
      rintro rfl
      exact hfirst hchar
  unfold splitFirst
  rw [htake]
  simp [hname]

/-- A name either is one component or has a first component and a rest. -/
theorem splitFirst_cases (name : String) :
    ('.' ∉ name.toList ∧ splitFirst name = (name, none)) ∨
      ∃ first rest : String, '.' ∉ first.toList ∧
        name.toList = first.toList ++ '.' :: rest.toList ∧
        splitFirst name = (first, some rest) := by
  by_cases hdot : '.' ∈ name.toList
  · obtain ⟨first, rest, hchars, hfirst⟩ := List.eq_append_cons_of_mem hdot
    refine Or.inr ⟨String.ofList first, String.ofList rest, ?_, ?_, ?_⟩
    · simpa using hfirst
    · simpa using hchars
    · exact splitFirst_of_eq hfirst hchars
  · exact Or.inl ⟨hdot, splitFirst_of_not_mem hdot⟩

end ProtoSource.Text.Name
