import ProtoSource.Proofs.Related

/-!
# Computations that succeed

A computation that can fail succeeds if its steps do.  The lemmas here take a
success apart, one form of composition at a time.
-/

namespace ProtoSource.Success

variable {ε ε' α β : Type}

theorem bind_eq_ok {first : Except ε α} {next : α → Except ε β} {result : β} :
    (first >>= next) = .ok result ↔ ∃ value, first = .ok value ∧ next value = .ok result := by
  cases first with
  | error fault => simp [bind, Except.bind]
  | ok value => simp [bind, Except.bind]

theorem pure_eq_ok {value result : α} :
    (pure value : Except ε α) = .ok result ↔ value = result := by
  simp [pure, Except.pure]

theorem map_eq_ok {first : Except ε α} {f : α → β} {result : β} :
    first.map f = .ok result ↔ ∃ value, first = .ok value ∧ f value = result := by
  cases first with
  | error fault => simp [Except.map]
  | ok value => simp [Except.map]

theorem mapError_eq_ok {first : Except ε α} {f : ε → ε'} {result : α} :
    first.mapError f = .ok result ↔ first = .ok result := by
  cases first with
  | error fault => simp [Except.mapError]
  | ok value => simp [Except.mapError]

/-- What was computed of a result is there if the result is. -/
theorem exists_ok_of_map_eq_some {result : Except ε α} {f : α → β} {value : β}
    (hresult : result.toOption.map f = some value) :
    ∃ found, result = .ok found ∧ f found = value := by
  cases result with
  | error _ => simp [Except.toOption] at hresult
  | ok found => exact ⟨found, rfl, Option.some.inj hresult⟩

theorem toOption_eq_some {result : Except ε α} {value : α} :
    result.toOption = some value ↔ result = .ok value := by
  cases result <;> simp [Except.toOption]

theorem exists_ok_of_isSome {result : Except ε α} (hresult : result.toOption.isSome) :
    ∃ found, result = .ok found := by
  cases result with
  | error _ => simp [Except.toOption] at hresult
  | ok found => exact ⟨found, rfl⟩

/-- A list is worked through if each of its elements is. -/
theorem mapM_eq_ok {f : α → Except ε β} {values : List α} {results : List β} :
    values.mapM f = .ok results ↔
      List.Forall₂ (fun value result => f value = .ok result) values results := by
  induction values generalizing results with
  | nil =>
      rw [List.mapM_nil, pure_eq_ok, List.forall₂_nil_left_iff, eq_comm]
  | cons value values ih =>
      simp only [List.mapM_cons, bind_eq_ok, pure_eq_ok, ih, List.forall₂_cons_left_iff]
      constructor
      · rintro ⟨result, hresult, results, hresults, rfl⟩
        exact ⟨result, results, hresult, hresults, rfl⟩
      · rintro ⟨result, results, hresult, hresults, rfl⟩
        exact ⟨result, hresult, results, hresults, rfl⟩

/-- A list is worked through if all its elements fulfil what each needs. -/
theorem mapM_eq_ok_of_iff {f : α → Except ε β} {g : α → β} {needs : α → Prop}
    (hone : ∀ value result, f value = .ok result ↔ needs value ∧ g value = result)
    {values : List α} {results : List β} :
    values.mapM f = .ok results ↔ (∀ value ∈ values, needs value) ∧ values.map g = results := by
  induction values generalizing results with
  | nil => simp [pure_eq_ok]
  | cons value values ih =>
      simp only [List.mapM_cons, bind_eq_ok, pure_eq_ok, hone, ih, List.forall_mem_cons,
        List.map_cons]
      constructor
      · rintro ⟨_, ⟨hvalue, rfl⟩, _, ⟨hvalues, rfl⟩, rfl⟩
        exact ⟨⟨hvalue, hvalues⟩, rfl⟩
      · rintro ⟨⟨hvalue, hvalues⟩, rfl⟩
        exact ⟨_, ⟨hvalue, rfl⟩, _, ⟨hvalues, rfl⟩, rfl⟩

/-- What is there already need not be waited for. -/
theorem mapM_map_ok {next : α → Except ε β} {values : List α} :
    (values.map Except.ok).mapM (fun value : Except ε α => value >>= next) = values.mapM next := by
  rw [List.mapM_map]
  rfl

theorem mapM_congr {f g : α → Except ε β} {values : List α}
    (hsame : ∀ value ∈ values, f value = g value) : values.mapM f = values.mapM g := by
  induction values with
  | nil => rfl
  | cons value values ih =>
      rw [List.forall_mem_cons] at hsame
      rw [List.mapM_cons, List.mapM_cons, hsame.1, ih hsame.2]

/-- What may be absent is worked through if it is absent or can be. -/
theorem option_mapM_eq_ok {f : α → Except ε β} {value? : Option α} {result? : Option β} :
    value?.mapM f = .ok result? ↔
      Option.Rel (fun value result => f value = .ok result) value? result? := by
  cases value? with
  | none =>
      rw [Option.mapM_none, pure_eq_ok]
      constructor
      · rintro rfl
        exact .none
      · rintro ⟨⟩
        rfl
  | some value =>
      rw [Option.mapM_some]
      change (f value).map some = _ ↔ _
      rw [map_eq_ok]
      constructor
      · rintro ⟨result, hresult, rfl⟩
        exact .some hresult
      · rintro (⟨hresult⟩ | _)
        exact ⟨_, hresult, rfl⟩

end ProtoSource.Success
