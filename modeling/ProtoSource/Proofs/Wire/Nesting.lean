import ProtoSource.Proofs.Wire.Interpretation

/-!
# Running out of levels

With fewer levels of nesting a message is read as with more, or reading stops
because messages nest too deeply; no other fault can come up.
-/

namespace ProtoSource.Wire

namespace Reader

/-- Where `further` gives a result, `reader` gives the same or runs out of
levels. -/
def Trails {α : Type} (reader further : Reader α) : Prop :=
  ∀ input result, further input = .ok result →
    reader input = .ok result ∨ ∃ places, reader input = .error ⟨places, .nestedTooDeeply⟩

section

variable {α β : Type} {reader further : Reader α}

theorem Trails.refl (reader : Reader α) : Trails reader reader :=
  fun _ _ hok => Or.inl hok

theorem trails_fail (further : Reader α) : Trails (fail .nestedTooDeeply) further :=
  fun _ _ _ => Or.inr ⟨[], rfl⟩

theorem Trails.bind {next next' : α → Reader β} (htrails : Trails reader further)
    (hnext : ∀ value, Trails (next value) (next' value)) :
    Trails (reader >>= next) (further >>= next') := by
  intro input result hok
  have hbind (input : Input) (reader : Reader α) (next : α → Reader β) :
      (reader >>= next) input = (reader input >>= fun pair => next pair.1 pair.2) := rfl
  obtain ⟨value, rest, hfirst, hrest⟩ := bind_eq_ok.1 hok
  rw [hbind]
  obtain hsame | ⟨places, hstops⟩ := htrails input _ hfirst
  · rw [hsame]
    exact hnext value rest _ hrest
  · rw [hstops]
    exact Or.inr ⟨places, rfl⟩

theorem Trails.map (f : α → β) (htrails : Trails reader further) :
    Trails (f <$> reader) (f <$> further) := by
  change Trails (reader >>= fun value => pure (f value)) (further >>= fun value => pure (f value))
  exact htrails.bind fun _ => Trails.refl _

theorem Trails.ite {other other' : Reader α} {p : Prop} [Decidable p]
    (htrails : Trails reader further) (hother : Trails other other') :
    Trails (if p then reader else other) (if p then further else other') := by
  split
  · exact htrails
  · exact hother

theorem Trails.within (place : Option String) (htrails : Trails reader further) :
    Trails (within place reader) (within place further) := by
  intro input result hok
  unfold Reader.within at hok ⊢
  cases hfurther : further input with
  | error fault => simp [hfurther] at hok
  | ok found =>
      obtain rfl : found = result := by simpa [hfurther] using hok
      obtain hsame | ⟨places, hstops⟩ := htrails input found hfurther
      · rw [hsame]
        exact Or.inl rfl
      · rw [hstops]
        exact Or.inr ⟨_, rfl⟩

theorem trails_turnsTo {step further : Reader (List α)} (hstep : Trails step further)
    (stop turns : Nat) : Trails (turnsTo stop step turns) (turnsTo stop further turns) := by
  induction turns with
  | zero => exact Trails.refl _
  | succ turns ih =>
      intro input result hok
      rw [turnsTo] at hok ⊢
      split at hok
      · next hend =>
          rw [if_pos hend]
          exact Or.inl hok
      · next hmore =>
          rw [if_neg hmore]
          cases hfirst : further input with
          | error fault => simp [hfirst] at hok
          | ok pair =>
              obtain ⟨first, rest⟩ := pair
              obtain hsame | ⟨places, hstops⟩ := hstep input _ hfirst
              · rw [hsame]
                rw [hfirst] at hok
                cases hothers : turnsTo stop further turns rest with
                | error fault => simp [hothers] at hok
                | ok pair =>
                    simp only [hothers] at hok
                    obtain hsame' | ⟨places, hstops⟩ := ih rest _ hothers
                    · simp only [hsame']
                      exact Or.inl hok
                    · simp only [hstops]
                      exact Or.inr ⟨places, rfl⟩
              · rw [hstops]
                exact Or.inr ⟨places, rfl⟩

theorem trails_region {step further : Reader (List α)} (hstep : Trails step further)
    (length : Nat) : Trails (region length step) (region length further) := by
  refine (Trails.refl remaining).bind fun size => (Trails.refl _).ite ?_
  refine Trails.bind (fun input => trails_turnsTo hstep _ _ input) fun items => Trails.refl _

end

end Reader

open Reader

section Fields

variable {value further : Key → Reader (List Record)}

theorem trails_groupTurns (hvalue : ∀ key, Trails (value key) (further key)) (number turns : Nat) :
    Trails (groupTurns number value turns) (groupTurns number further turns) := by
  induction turns with
  | zero => exact Trails.refl _
  | succ turns ih =>
      intro input result hok
      rw [groupTurns] at hok ⊢
      cases hkey : Key.read input with
      | error fault => simp [hkey] at hok
      | ok pair =>
          obtain ⟨key, rest⟩ := pair
          simp only [hkey] at hok ⊢
          split at hok
          · next hend =>
              rw [if_pos hend]
              exact Or.inl hok
          · next hmore =>
              rw [if_neg hmore]
              cases hfirst : further key rest with
              | error fault => simp [hfirst] at hok
              | ok pair =>
                  obtain ⟨first, next⟩ := pair
                  simp only [hfirst] at hok
                  obtain hsame | ⟨places, hstops⟩ := hvalue key rest _ hfirst
                  · simp only [hsame]
                    cases hothers : groupTurns number further turns next with
                    | error fault => simp [hothers] at hok
                    | ok pair =>
                        simp only [hothers] at hok
                        obtain hsame' | ⟨places, hstops⟩ := ih next _ hothers
                        · simp only [hsame']
                          exact Or.inl hok
                        · simp only [hstops]
                          exact Or.inr ⟨places, rfl⟩
                  · simp only [hstops]
                    exact Or.inr ⟨places, rfl⟩

theorem trails_readGroup (hvalue : ∀ key, Trails (value key) (further key)) (number : Nat) :
    Trails (readGroup number value) (readGroup number further) :=
  fun input => trails_groupTurns hvalue number _ input

theorem trails_readMessage (hvalue : ∀ key, Trails (value key) (further key)) (number : Nat) :
    Trails (readMessage value number) (readMessage further number) := by
  refine (Trails.refl _).bind fun length => (Trails.refl _).bind fun payload => ?_
  exact (trails_region ((Trails.refl _).bind hvalue) length).bind fun records => Trails.refl _

end Fields

theorem trails_readByWire {key : Key} {group further : Reader Record}
    (hgroup : Trails group further) : Trails (readByWire key group) (readByWire key further) := by
  unfold readByWire
  split
  · exact Trails.refl _
  · exact Trails.refl _
  · exact Trails.refl _
  · exact Trails.refl _
  · exact hgroup
  · exact hgroup

theorem trails_skipField {budget budget' : Nat} (hbudget : budget ≤ budget') (key : Key) :
    Trails (skipField budget key) (skipField budget' key) := by
  induction budget generalizing budget' key with
  | zero => exact trails_fail _
  | succ budget ih =>
      obtain ⟨more, rfl⟩ : ∃ more, budget' = more + 1 := ⟨budget' - 1, by omega⟩
      refine trails_readByWire ((Trails.refl _).ite (Trails.map _ ?_))
      exact trails_readGroup (fun inner => (ih (by omega) inner).map _) _

theorem trails_readUnknown {budget budget' : Nat} (hbudget : budget ≤ budget') (key : Key) :
    Trails (readUnknown budget key) (readUnknown budget' key) := by
  induction budget generalizing budget' key with
  | zero =>
      cases budget' with
      | zero => exact Trails.refl _
      | succ more => exact trails_readByWire ((Trails.refl _).bind fun _ => trails_fail _)
  | succ budget ih =>
      obtain ⟨more, rfl⟩ : ∃ more, budget' = more + 1 := ⟨budget' - 1, by omega⟩
      refine trails_readByWire ((Trails.refl _).bind fun _ => Trails.map _ ?_)
      exact trails_readGroup (fun inner => (ih (by omega) inner).map _) _

namespace Schema

variable {τ : Type} (schema : Schema τ)

/-- Fewer levels, if any, for the messages in a field. -/
inductive NestedTrails : Option (τ → Key → Reader (List Record)) →
    Option (τ → Key → Reader (List Record)) → Prop where
  | none {further : Option (τ → Key → Reader (List Record))} : NestedTrails none further
  | some {fields further : τ → Key → Reader (List Record)} :
      (∀ type key, Trails (fields type key) (further type key)) →
        NestedTrails (some fields) (some further)

variable {nested further : Option (τ → Key → Reader (List Record))}

theorem trails_readKnown (hnested : NestedTrails nested further) (spec : FieldSpec τ) (key : Key) :
    Trails (readKnown spec nested key) (readKnown spec further key) := by
  unfold readKnown
  cases spec.kind with
  | scalar scalar => exact Trails.refl _
  | text => exact Trails.refl _
  | bytes => exact Trails.refl _
  | message type =>
      refine (Trails.refl _).bind fun _ => ?_
      cases hnested with
      | none => exact trails_fail _
      | some hfields =>
          exact (trails_readMessage (hfields type) _).bind fun record => Trails.refl _
  | group type =>
      refine (Trails.refl _).bind fun _ => ?_
      cases hnested with
      | none => exact trails_fail _
      | some hfields =>
          exact (trails_readGroup (hfields type) _).bind fun records => Trails.refl _

theorem trails_readField (hnested : NestedTrails nested further)
    {entries entries' : τ → Key → Reader (List Record)}
    (hentries : ∀ type key, Trails (entries type key) (entries' type key)) (spec : FieldSpec τ)
    (key : Key) :
    Trails (schema.readField nested entries spec key)
      (schema.readField further entries' spec key) := by
  unfold readField
  cases schema.entry? spec with
  | some entry => exact (trails_readMessage (hentries entry) _).map _
  | none => exact trails_readKnown hnested spec key

theorem trails_readPart (hnested : NestedTrails nested further) {budget budget' : Nat}
    (hbudget : budget ≤ budget') (depth : Nat) (entry : τ) (key : Key) :
    Trails (schema.readPart budget nested depth entry key)
      (schema.readPart budget' further depth entry key) := by
  induction depth generalizing entry key with
  | zero => exact Trails.refl _
  | succ depth ih =>
      unfold readPart
      cases schema.part? entry key.number with
      | some spec => exact schema.trails_readField hnested ih spec key
      | none => exact (trails_skipField hbudget key).bind fun _ => Trails.refl _

theorem trails_readWith (hnested : NestedTrails nested further) {budget budget' : Nat}
    (hbudget : budget ≤ budget') (owner : τ) (key : Key) :
    Trails (schema.readWith budget nested owner key)
      (schema.readWith budget' further owner key) := by
  unfold readWith
  cases schema.field? owner key.number with
  | none =>
      exact ((trails_skipField hbudget key).ite (trails_readUnknown hbudget key)).map _
  | some spec =>
      refine Trails.within _ ?_
      split
      · exact trails_fail _
      · next hlevels =>
          rw [if_neg (by rintro ⟨hzero, hfirst⟩; exact hlevels ⟨by omega, hfirst⟩)]
          refine (Trails.refl _).bind fun depth => ?_
          exact schema.trails_readField hnested (schema.trails_readPart hnested hbudget depth)
            spec key

theorem trails_readValue {budget budget' : Nat} (hbudget : budget ≤ budget') (owner : τ)
    (key : Key) :
    Trails (schema.readValue budget owner key) (schema.readValue budget' owner key) := by
  induction budget generalizing budget' owner key with
  | zero =>
      cases budget' with
      | zero => exact Trails.refl _
      | succ more => exact schema.trails_readWith .none hbudget owner key
  | succ budget ih =>
      obtain ⟨more, rfl⟩ : ∃ more, budget' = more + 1 := ⟨budget' - 1, by omega⟩
      exact schema.trails_readWith (.some fun type key => ih (by omega) type key) hbudget owner key

variable {schema}

/-- If more levels would do, decoding finds the same or runs out of levels. -/
theorem decode_of_holds {budget : Nat} (hbudget : nestingLimit ≤ budget) {owner : τ}
    {bytes : Bytes} {records : List Record} (hholds : schema.Holds budget owner bytes records) :
    schema.decode owner bytes = .ok records ∨
      ∃ places, schema.decode owner bytes = .error ⟨places, .nestedTooDeeply⟩ := by
  obtain ⟨rest, hfurther⟩ := (repeatTo_zero_eq_ok (schema.local_step budget owner)
    (schema.hungry_step budget owner)).2 hholds
  have hstep : Trails (schema.step nestingLimit owner) (schema.step budget owner) :=
    (Trails.refl Key.read).bind (schema.trails_readValue hbudget owner)
  have hdecode : schema.decode owner bytes =
      (repeatTo 0 (schema.step nestingLimit owner) (.ofBytes bytes)).map Prod.fst := rfl
  unfold repeatTo at hfurther hdecode
  obtain hsame | ⟨places, hstops⟩ := trails_turnsTo hstep 0 _ _ _ hfurther
  · exact Or.inl (by rw [hdecode, hsame]; rfl)
  · exact Or.inr ⟨places, by rw [hdecode, hstops]; rfl⟩

/-- If more levels would do, too few levels are all that can be wrong. -/
theorem reason_eq_of_holds {budget : Nat} (hbudget : nestingLimit ≤ budget) {owner : τ}
    {bytes : Bytes} {records : List Record} (hholds : schema.Holds budget owner bytes records)
    {fault : Fault} (hdecode : schema.decode owner bytes = .error fault) :
    fault.reason = .nestedTooDeeply := by
  obtain hok | ⟨places, hstops⟩ := decode_of_holds hbudget hholds
  · rw [hok] at hdecode
    contradiction
  · obtain rfl : ⟨places, .nestedTooDeeply⟩ = fault := Except.error.inj (hstops.symm.trans hdecode)
    rfl

end Schema

end ProtoSource.Wire
