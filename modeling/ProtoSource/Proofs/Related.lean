import Mathlib.Data.List.Forall2

/-!
# Lists that are related one by one

What is done to each element of a list relates the list to the list of results.
The lemmas here find the partner of an element, compare two runs over one list and
carry a view of the elements over to the lists.
-/

namespace ProtoSource.Related

variable {α β γ : Type} {relation : α → β → Prop} {lefts : List α} {rights : List β}

theorem forall₂_exists_of_mem (hall : List.Forall₂ relation lefts rights) {left : α}
    (hmem : left ∈ lefts) : ∃ right ∈ rights, relation left right := by
  induction hall with
  | nil => simp at hmem
  | cons hhead _ ih =>
      obtain rfl | hmem := List.mem_cons.1 hmem
      · exact ⟨_, List.mem_cons_self, hhead⟩
      · obtain ⟨right, hright, hrelation⟩ := ih hmem
        exact ⟨right, List.mem_cons_of_mem _ hright, hrelation⟩

theorem exists_forall₂ (hall : ∀ left ∈ lefts, ∃ right, relation left right) :
    ∃ rights, List.Forall₂ relation lefts rights := by
  induction lefts with
  | nil => exact ⟨[], .nil⟩
  | cons left lefts ih =>
      rw [List.forall_mem_cons] at hall
      obtain ⟨right, hright⟩ := hall.1
      obtain ⟨rights, hrights⟩ := ih hall.2
      exact ⟨right :: rights, .cons hright hrights⟩

theorem forall₂_imp_of_mem {relation' : α → β → Prop}
    (himp : ∀ left ∈ lefts, ∀ right ∈ rights, relation left right → relation' left right)
    (hall : List.Forall₂ relation lefts rights) : List.Forall₂ relation' lefts rights := by
  induction hall with
  | nil => exact .nil
  | cons hhead _ ih =>
      simp only [List.forall_mem_cons] at himp
      exact .cons (himp.1.1 hhead) (ih fun left hleft => (himp.2 left hleft).2)

theorem forall₂_getLast? (hall : List.Forall₂ relation lefts rights) {left : α}
    (hleft : lefts.getLast? = some left) :
    ∃ right, rights.getLast? = some right ∧ relation left right := by
  induction hall with
  | nil => simp at hleft
  | @cons first second lefts rights hfirst hrest ih =>
      cases hrest with
      | nil =>
          obtain rfl : first = left := by simpa using hleft
          exact ⟨second, rfl, hfirst⟩
      | cons _ _ =>
          rw [List.getLast?_cons_cons] at hleft
          obtain ⟨right, hright, hrelated⟩ := ih hleft
          exact ⟨right, by rw [List.getLast?_cons_cons, hright], hrelated⟩

theorem exists_append_of_forall₂ {first second : List α}
    (hall : List.Forall₂ relation (first ++ second) rights) :
    ∃ front back, rights = front ++ back ∧ List.Forall₂ relation first front ∧
      List.Forall₂ relation second back := by
  induction first generalizing rights with
  | nil => exact ⟨[], rights, rfl, .nil, hall⟩
  | cons value rest ih =>
      cases hall with
      | @cons _ result _ _ hresult hrest =>
          obtain ⟨front, back, rfl, hfront, hback⟩ := ih hrest
          exact ⟨result :: front, back, rfl, .cons hresult hfront, hback⟩

/-- Two runs over one list give results that go together if they do so for each
element. -/
theorem forall₂_of_runs {first : α → β → Prop} {second : α → γ → Prop} {values : List α}
    {lefts : List β} {rights : List γ} (hlefts : List.Forall₂ first values lefts)
    (hrights : List.Forall₂ second values rights) {related : β → γ → Prop}
    (hrelated : ∀ value ∈ values, ∀ left right, first value left → second value right →
      related left right) : List.Forall₂ related lefts rights := by
  induction hlefts generalizing rights with
  | nil =>
      cases hrights
      exact .nil
  | cons hleft _ ih =>
      rw [List.forall_mem_cons] at hrelated
      cases hrights with
      | cons hright hrest => exact .cons (hrelated.1 _ _ hleft hright) (ih hrest hrelated.2)

theorem eq_of_runs {first second : α → β → Prop} {values : List α} {lefts rights : List β}
    (hlefts : List.Forall₂ first values lefts) (hrights : List.Forall₂ second values rights)
    (hsame : ∀ value ∈ values, ∀ left right, first value left → second value right →
      left = right) : lefts = rights := by
  have hall : List.Forall₂ Eq lefts rights := forall₂_of_runs hlefts hrights hsame
  rwa [List.forall₂_eq_eq_eq] at hall

theorem eq_of_forall₂ {relation : α → α → Prop} {values results : List α}
    (hall : List.Forall₂ relation values results)
    (hsame : ∀ value ∈ values, ∀ result, relation value result → result = value) :
    results = values := by
  have hself : List.Forall₂ Eq values values := List.forall₂_same.2 fun _ _ => rfl
  refine eq_of_runs hall hself fun value hvalue left right hleft hright => ?_
  rw [← hright, hsame value hvalue left hleft]

theorem map_eq_of_forall₂ {f : α → γ} {g : β → γ}
    (hsame : ∀ left ∈ lefts, ∀ right ∈ rights, relation left right → f left = g right)
    (hall : List.Forall₂ relation lefts rights) : lefts.map f = rights.map g := by
  rw [← List.forall₂_eq_eq_eq, List.forall₂_map_left_iff, List.forall₂_map_right_iff]
  exact forall₂_imp_of_mem hsame hall

theorem map_eq_map_of_forall₂ {f : α → γ} {g : β → γ} (hall : List.Forall₂ relation lefts rights)
    (hrelation : ∀ left right, relation left right → f left = g right) :
    lefts.map f = rights.map g :=
  map_eq_of_forall₂ (fun left _ right _ => hrelation left right) hall

theorem any_eq_any_of_forall₂ {test : α → Bool} {test' : β → Bool}
    (hall : List.Forall₂ relation lefts rights)
    (hrelation : ∀ left right, relation left right → test' right = test left) :
    rights.any test' = lefts.any test := by
  induction hall with
  | nil => rfl
  | cons hfirst _ ih => rw [List.any_cons, List.any_cons, hrelation _ _ hfirst, ih]

/-- Whether one of some things has a name depends on their names only. -/
theorem any_name_eq {f : α → String} {g : β → String} (hnames : rights.map g = lefts.map f)
    (name : String) :
    (rights.any fun right => g right == name) = lefts.any fun left => f left == name := by
  have hmap {δ : Type} (h : δ → String) (values : List δ) :
      (values.any fun value => h value == name) = (values.map h).any (· == name) := by
    rw [List.any_map]
    rfl
  rw [hmap g, hnames, ← hmap f]

end ProtoSource.Related
