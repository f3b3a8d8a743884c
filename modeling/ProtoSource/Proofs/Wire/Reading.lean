import ProtoSource.Wire.Reader

/-!
# What readers read

A reader reads some bytes as a value if it does so whatever follows them.  A
reader is local if it succeeds in no other way, so that its success on some input
says which front of the input it used.  Loops of a local reader then cut their
input into fronts, and reading a region of given length is the same as reading
the bytes of the region alone.
-/

namespace ProtoSource.Wire

theorem Input.eq_ofBytes (input : Input) : input = Input.ofBytes input.bytes := by
  obtain ⟨bytes, size, rfl⟩ := input
  rfl

namespace Reader

variable {α β : Type}

/-- `reader` reads exactly `front`, as `value`. -/
def Reads (reader : Reader α) (front : Bytes) (value : α) : Prop :=
  ∀ rest, reader (.ofBytes (front ++ rest)) = .ok (value, .ofBytes rest)

/-- What `reader` makes of an input depends only on the bytes that it uses. -/
def Local (reader : Reader α) : Prop :=
  ∀ bytes value rest, reader (.ofBytes bytes) = .ok (value, rest) →
    ∃ front, bytes = front ++ rest.bytes ∧ Reads reader front value

/-- `reader` finds nothing in empty input. -/
def Hungry (reader : Reader α) : Prop :=
  ∀ value rest, reader (.ofBytes []) ≠ .ok (value, rest)

theorem Reads.eq_of_append {reader : Reader α} {front rest : Bytes} {value other : α}
    {left : Input} (hvalue : Reads reader front value)
    (hother : reader (.ofBytes (front ++ rest)) = .ok (other, left)) :
    value = other ∧ left = .ofBytes rest := by
  have hsame := (hvalue rest).symm.trans hother
  simp only [Except.ok.injEq, Prod.mk.injEq] at hsame
  exact ⟨hsame.1, hsame.2.symm⟩

/-- Two readings of the same input by one reader end at the same place. -/
theorem Reads.front_eq {reader : Reader α} {front rest front' rest' : Bytes} {value value' : α}
    (hvalue : Reads reader front value) (hvalue' : Reads reader front' value')
    (hbytes : front ++ rest = front' ++ rest') :
    value = value' ∧ front = front' ∧ rest = rest' := by
  have hsecond := hvalue' rest'
  rw [← hbytes] at hsecond
  obtain ⟨heq, hleft⟩ := hvalue.eq_of_append hsecond
  have hrest : rest = rest' := by
    have hbytes := congrArg Input.bytes hleft
    simpa using hbytes.symm
  subst hrest
  exact ⟨heq, List.append_cancel_right hbytes, rfl⟩

theorem Reads.ne_nil {reader : Reader α} (hhungry : Hungry reader) {front : Bytes} {value : α}
    (hreads : Reads reader front value) : front ≠ [] := by
  rintro rfl
  exact hhungry value _ (hreads [])

theorem bind_eq_ok {reader : Reader α} {next : α → Reader β} {input rest : Input} {value : β} :
    (reader >>= next) input = .ok (value, rest) ↔
      ∃ first middle, reader input = .ok (first, middle) ∧
        next first middle = .ok (value, rest) := by
  change (reader input >>= fun pair => next pair.1 pair.2) = _ ↔ _
  cases reader input with
  | error fault => simp [bind, Except.bind]
  | ok pair =>
      simp only [bind, Except.bind, Except.ok.injEq]
      constructor
      · intro hvalue
        exact ⟨pair.1, pair.2, rfl, hvalue⟩
      · rintro ⟨first, middle, rfl, hvalue⟩
        exact hvalue

theorem map_eq_ok {reader : Reader α} {f : α → β} {input rest : Input} {value : β} :
    (f <$> reader) input = .ok (value, rest) ↔
      ∃ first, reader input = .ok (first, rest) ∧ f first = value := by
  change (StateT.map f reader input) = _ ↔ _
  unfold StateT.map
  cases reader input with
  | error fault => simp [bind, Except.bind]
  | ok pair =>
      simp only [bind, Except.bind, pure, Except.pure, Except.ok.injEq, Prod.mk.injEq]
      constructor
      · rintro ⟨rfl, rfl⟩
        exact ⟨pair.1, rfl, rfl⟩
      · rintro ⟨first, rfl, rfl⟩
        exact ⟨rfl, rfl⟩

@[simp]
theorem pure_eq_ok {value other : α} {input rest : Input} :
    (pure value : Reader α) input = .ok (other, rest) ↔ value = other ∧ input = rest := by
  change Except.ok (value, input) = _ ↔ _
  simp

theorem reads_pure (value : α) : Reads (pure value : Reader α) [] value :=
  fun _ => rfl

theorem Reads.bind {reader : Reader α} {next : α → Reader β} {front back : Bytes} {first : α}
    {value : β} (hfirst : Reads reader front first) (hvalue : Reads (next first) back value) :
    Reads (reader >>= next) (front ++ back) value := by
  intro rest
  rw [List.append_assoc]
  exact bind_eq_ok.2 ⟨first, _, hfirst (back ++ rest), hvalue rest⟩

theorem Reads.map {reader : Reader α} {front : Bytes} {value : α}
    (hreads : Reads reader front value)
    (f : α → β) : Reads (f <$> reader) front (f value) :=
  fun rest => map_eq_ok.2 ⟨value, hreads rest, rfl⟩

theorem local_pure (value : α) : Local (pure value : Reader α) := by
  intro bytes other rest hok
  obtain ⟨rfl, rfl⟩ := pure_eq_ok.1 hok
  exact ⟨[], rfl, reads_pure value⟩

theorem local_fail (reason : Reason) : Local (fail reason : Reader α) := by
  intro bytes value rest hok
  simp [fail] at hok

theorem Local.bind {reader : Reader α} {next : α → Reader β} (hreader : Local reader)
    (hnext : ∀ first, Local (next first)) : Local (reader >>= next) := by
  intro bytes value rest hok
  obtain ⟨first, middle, hfirst, hvalue⟩ := bind_eq_ok.1 hok
  obtain ⟨front, rfl, hreads⟩ := hreader bytes first middle hfirst
  rw [middle.eq_ofBytes] at hvalue
  obtain ⟨back, hmiddle, hback⟩ := hnext first _ value rest hvalue
  exact ⟨front ++ back, by rw [hmiddle, List.append_assoc], hreads.bind hback⟩

theorem Local.map {reader : Reader α} (hreader : Local reader) (f : α → β) :
    Local (f <$> reader) := by
  intro bytes value rest hok
  obtain ⟨first, hfirst, rfl⟩ := map_eq_ok.1 hok
  obtain ⟨front, hbytes, hreads⟩ := hreader bytes first rest hfirst
  exact ⟨front, hbytes, hreads.map f⟩

theorem Local.ite {condition : Prop} [Decidable condition] {yes no : Reader α}
    (hyes : Local yes) (hno : Local no) : Local (if condition then yes else no) := by
  split
  · exact hyes
  · exact hno

/-- Reading a front with readers in a row splits the front. -/
theorem Reads.of_bind {reader : Reader α} {next : α → Reader β} {front : Bytes} {value : β}
    (hreader : Local reader) (hnext : ∀ first, Local (next first))
    (hreads : Reads (reader >>= next) front value) :
    ∃ first left right, front = left ++ right ∧ Reads reader left first ∧
      Reads (next first) right value := by
  obtain ⟨first, middle, hfirst, hvalue⟩ := bind_eq_ok.1 (hreads [])
  obtain ⟨left, hleft, hreadsLeft⟩ := hreader _ first middle hfirst
  rw [middle.eq_ofBytes] at hvalue
  obtain ⟨right, hright, hreadsRight⟩ := hnext first _ value _ hvalue
  refine ⟨first, left, right, ?_, hreadsLeft, hreadsRight⟩
  simpa [hright] using hleft

theorem Reads.of_map {reader : Reader α} {f : α → β} {front : Bytes} {value : β}
    (hreader : Local reader) (hreads : Reads (f <$> reader) front value) :
    ∃ first, Reads reader front first ∧ f first = value := by
  obtain ⟨first, hfirst, hvalue⟩ := map_eq_ok.1 (hreads [])
  obtain ⟨left, hleft, hreadsLeft⟩ := hreader _ first _ hfirst
  obtain rfl : front = left := by simpa using hleft
  exact ⟨first, hreadsLeft, hvalue⟩

theorem Hungry.bind {reader : Reader α} {next : α → Reader β} (hhungry : Hungry reader) :
    Hungry (reader >>= next) := by
  intro value rest hok
  obtain ⟨first, middle, hfirst, -⟩ := bind_eq_ok.1 hok
  exact hhungry first middle hfirst

theorem Hungry.map {reader : Reader α} (hhungry : Hungry reader) (f : α → β) :
    Hungry (f <$> reader) := by
  intro value rest hok
  obtain ⟨first, hfirst, -⟩ := map_eq_ok.1 hok
  exact hhungry first rest hfirst

/-! ## Loops -/

/-- `step` cuts `bytes` into fronts and reads them one after the other. -/
inductive Steps (step : Reader (List α)) : Bytes → List α → Prop where
  | nil : Steps step [] []
  | cons {front back : Bytes} {items others : List α} :
      Reads step front items → Steps step back others →
        Steps step (front ++ back) (items ++ others)

namespace Steps

variable {step : Reader (List α)} {bytes front back : Bytes} {items others : List α}

theorem append (hfront : Steps step front items) (hback : Steps step back others) :
    Steps step (front ++ back) (items ++ others) := by
  induction hfront with
  | nil => exact hback
  | cons hreads _ ih =>
      rw [List.append_assoc, List.append_assoc]
      exact .cons hreads ih

/-- There is one way to cut bytes into fronts. -/
theorem eq (hhungry : Hungry step) (hitems : Steps step bytes items)
    (hothers : Steps step bytes others) : items = others := by
  induction hitems generalizing others with
  | nil =>
      generalize hempty : ([] : Bytes) = empty at hothers
      cases hothers with
      | nil => rfl
      | cons hreads _ =>
          exact absurd (List.append_eq_nil_iff.1 hempty.symm).1 (hreads.ne_nil hhungry)
  | @cons front back items rest hreads hsteps ih =>
      generalize hbytes : front ++ back = bytes at hothers
      cases hothers with
      | nil => exact absurd (List.append_eq_nil_iff.1 hbytes).1 (hreads.ne_nil hhungry)
      | cons hreads' hsteps' =>
          obtain ⟨rfl, rfl, rfl⟩ := hreads.front_eq hreads' hbytes
          rw [ih hsteps']

end Steps

section Loops

variable {step : Reader (List α)}

/-- A loop that succeeds has cut what it used into fronts. -/
theorem steps_of_turnsTo (hlocal : Local step) (hhungry : Hungry step) {stop turns : Nat}
    {bytes : Bytes} {items : List α} {rest : Input} (hturns : bytes.length ≤ turns)
    (hok : turnsTo stop step turns (.ofBytes bytes) = .ok (items, rest)) :
    rest.size ≤ stop ∧ ∃ front, bytes = front ++ rest.bytes ∧ Steps step front items := by
  induction turns generalizing bytes items with
  | zero =>
      obtain rfl : bytes = [] := List.length_eq_zero_iff.1 (Nat.le_zero.1 hturns)
      simp only [turnsTo, Except.ok.injEq, Prod.mk.injEq] at hok
      obtain ⟨rfl, rfl⟩ := hok
      exact ⟨Nat.zero_le _, [], rfl, .nil⟩
  | succ turns ih =>
      rw [turnsTo] at hok
      by_cases hstop : (Input.ofBytes bytes).size ≤ stop
      · simp only [hstop, if_true, Except.ok.injEq, Prod.mk.injEq] at hok
        obtain ⟨rfl, rfl⟩ := hok
        exact ⟨hstop, [], rfl, .nil⟩
      simp only [hstop, if_false] at hok
      cases hstep : step (.ofBytes bytes) with
      | error fault => simp [hstep] at hok
      | ok pair =>
          obtain ⟨first, middle⟩ := pair
          obtain ⟨front, hfront, hreads⟩ := hlocal bytes first middle hstep
          have hsome : 0 < front.length := List.length_pos_iff.2 (hreads.ne_nil hhungry)
          cases hturnsTo : turnsTo stop step turns middle with
          | error fault => simp [hstep, hturnsTo] at hok
          | ok pair =>
              obtain ⟨others, last⟩ := pair
              simp only [hstep, hturnsTo, Except.ok.injEq, Prod.mk.injEq] at hok
              obtain ⟨rfl, rfl⟩ := hok
              rw [middle.eq_ofBytes] at hturnsTo
              have hshorter : middle.bytes.length ≤ turns := by
                simp only [hfront, List.length_append] at hturns
                omega
              obtain ⟨hsize, back, hback, hsteps⟩ := ih hshorter hturnsTo
              refine ⟨hsize, front ++ back, ?_, .cons hreads hsteps⟩
              rw [hfront, hback, List.append_assoc]

/-- A loop goes through all fronts that lie before its stop. -/
theorem turnsTo_of_steps (hhungry : Hungry step) {turns : Nat} {front : Bytes}
    {items : List α} (hsteps : Steps step front items) (hturns : front.length ≤ turns)
    (rest : Bytes) :
    turnsTo rest.length step turns (.ofBytes (front ++ rest)) = .ok (items, .ofBytes rest) := by
  induction hsteps generalizing turns with
  | nil =>
      cases turns with
      | zero => rfl
      | succ turns => simp [turnsTo]
  | @cons front back items others hreads hsteps ih =>
      have hsome : 0 < front.length := List.length_pos_iff.2 (hreads.ne_nil hhungry)
      rw [List.length_append] at hturns
      cases turns with
      | zero => omega
      | succ turns =>
          have hmore : ¬ (Input.ofBytes (front ++ back ++ rest)).size ≤ rest.length := by
            simp only [Input.ofBytes_size, List.length_append]
            omega
          have hfirst := hreads (back ++ rest)
          rw [← List.append_assoc] at hfirst
          rw [turnsTo, if_neg hmore, hfirst]
          have hback := ih (show back.length ≤ turns by omega)
          simp only [hback]

theorem repeatTo_zero_eq_ok (hlocal : Local step) (hhungry : Hungry step) {bytes : Bytes}
    {items : List α} :
    (∃ rest, repeatTo 0 step (.ofBytes bytes) = .ok (items, rest)) ↔ Steps step bytes items := by
  constructor
  · rintro ⟨rest, hok⟩
    obtain ⟨hsize, front, hbytes, hsteps⟩ := steps_of_turnsTo hlocal hhungry (Nat.le_refl _) hok
    have hrest : rest.bytes = [] := by
      rw [← List.length_eq_zero_iff, rest.size_eq]
      exact Nat.le_zero.1 hsize
    simpa [hbytes, hrest] using hsteps
  · intro hsteps
    have hok := turnsTo_of_steps hhungry hsteps (Nat.le_refl _) []
    exact ⟨.ofBytes [], by simpa [repeatTo] using hok⟩

/-- Reading a region is reading its bytes. -/
theorem region_eq_ok (hlocal : Local step) (hhungry : Hungry step) {length : Nat} {bytes : Bytes}
    {items : List α} {rest : Input} :
    region length step (.ofBytes bytes) = .ok (items, rest) ↔
      ∃ payload, payload.length = length ∧ bytes = payload ++ rest.bytes ∧
        Steps step payload items := by
  have hregion : region length step (.ofBytes bytes) = .ok (items, rest) ↔
      length ≤ bytes.length ∧
        repeatTo (bytes.length - length) step (.ofBytes bytes) = .ok (items, rest) ∧
        rest.size = bytes.length - length := by
    unfold region
    rw [bind_eq_ok]
    simp only [remaining, Except.ok.injEq, Prod.mk.injEq]
    constructor
    · rintro ⟨size, middle, ⟨rfl, rfl⟩, hok⟩
      rw [Input.ofBytes_size] at hok
      split at hok
      · simp [fail] at hok
      · next hlong =>
          obtain ⟨found, last, hfound, hcheck⟩ := bind_eq_ok.1 hok
          obtain ⟨size, middle, hsize, hcheck⟩ := bind_eq_ok.1 hcheck
          simp only [remaining, Except.ok.injEq, Prod.mk.injEq] at hsize
          obtain ⟨rfl, rfl⟩ := hsize
          split at hcheck
          · next hsize =>
              obtain ⟨rfl, rfl⟩ := pure_eq_ok.1 hcheck
              exact ⟨Nat.not_lt.1 hlong, hfound, hsize⟩
          · simp [fail] at hcheck
    · rintro ⟨hlong, hfound, hsize⟩
      refine ⟨bytes.length, .ofBytes bytes, ⟨rfl, rfl⟩, ?_⟩
      rw [if_neg (Nat.not_lt.2 hlong)]
      refine bind_eq_ok.2 ⟨items, rest, hfound, bind_eq_ok.2 ⟨rest.size, rest, rfl, ?_⟩⟩
      rw [if_pos hsize]
      exact pure_eq_ok.2 ⟨rfl, rfl⟩
  rw [hregion]
  constructor
  · rintro ⟨hlong, hfound, hsize⟩
    obtain ⟨-, payload, hbytes, hsteps⟩ :=
      steps_of_turnsTo hlocal hhungry (Nat.le_refl _) hfound
    refine ⟨payload, ?_, hbytes, hsteps⟩
    have hlength := congrArg List.length hbytes
    rw [List.length_append, rest.size_eq, hsize] at hlength
    omega
  · rintro ⟨payload, rfl, rfl, hsteps⟩
    have hrest : (payload ++ rest.bytes).length - payload.length = rest.bytes.length := by
      simp
    refine ⟨by simp, ?_, by rw [hrest, rest.size_eq]⟩
    rw [hrest, repeatTo]
    have hturns : payload.length ≤ (payload ++ rest.bytes).length := by simp
    have hok := turnsTo_of_steps hhungry hsteps hturns rest.bytes
    rw [← rest.eq_ofBytes] at hok
    exact hok

end Loops

end Reader

end ProtoSource.Wire
