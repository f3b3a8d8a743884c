import ProtoSource.Proofs.Wire.Values

/-!
# Fields

The readers of fields are local, at any nesting budget and under any schema.  So
the fields of a message are read from the bytes of the message alone, wherever
it stands: `Schema.Holds` says which records some bytes hold as a message.
-/

namespace ProtoSource.Wire

open Reader

/-- Reads a length and so many bytes, both as they stand and item by item. -/
def sized {α β : Type} (step : Reader (List α)) (f : Bytes → List α → β) : Reader β := do
  let length ← Varint.read
  let payload ← peek length
  let items ← region length step
  return f payload items

section Sized

variable {α β : Type} {step : Reader (List α)} {f : Bytes → List α → β}

theorem sized_eq_ok (hlocal : Local step) (hhungry : Hungry step) {bytes : Bytes} {value : β}
    {rest : Input} :
    sized step f (.ofBytes bytes) = .ok (value, rest) ↔
      ∃ size payload items, bytes = size ++ payload ++ rest.bytes ∧
        Reads Varint.read size payload.length ∧ Steps step payload items ∧
        value = f payload items := by
  unfold sized
  simp only [bind_eq_ok]
  constructor
  · rintro ⟨length, afterSize, hlength, peeked, input, hpeek, items, last, hitems, hvalue⟩
    obtain ⟨rfl, rfl⟩ := pure_eq_ok.1 hvalue
    obtain ⟨size, rfl, hsize⟩ := Varint.local_read _ _ _ hlength
    simp only [peek, Except.ok.injEq, Prod.mk.injEq] at hpeek
    obtain ⟨rfl, rfl⟩ := hpeek
    rw [afterSize.eq_ofBytes] at hitems
    obtain ⟨payload, rfl, hbytes, hsteps⟩ := (region_eq_ok hlocal hhungry).1 hitems
    refine ⟨size, payload, items, ?_, hsize, hsteps, ?_⟩
    · rw [hbytes, List.append_assoc]
    · simp [hbytes]
  · rintro ⟨size, payload, items, rfl, hsize, hsteps, rfl⟩
    refine ⟨payload.length, .ofBytes (payload ++ rest.bytes), ?_, payload,
      .ofBytes (payload ++ rest.bytes), ?_, items, rest, ?_, pure_eq_ok.2 ⟨rfl, rfl⟩⟩
    · rw [List.append_assoc]
      exact hsize _
    · simp [peek]
    · exact (region_eq_ok hlocal hhungry).2 ⟨payload, rfl, rfl, hsteps⟩

theorem reads_sized (hlocal : Local step) (hhungry : Hungry step) {size payload : Bytes}
    {items : List α} (hsize : Reads Varint.read size payload.length)
    (hsteps : Steps step payload items) :
    Reads (sized step f) (size ++ payload) (f payload items) :=
  fun _ => (sized_eq_ok hlocal hhungry).2 ⟨size, payload, items, rfl, hsize, hsteps, rfl⟩

theorem local_sized (hlocal : Local step) (hhungry : Hungry step) : Local (sized step f) := by
  intro bytes value rest hok
  obtain ⟨size, payload, items, rfl, hsize, hsteps, rfl⟩ := (sized_eq_ok hlocal hhungry).1 hok
  exact ⟨size ++ payload, rfl, reads_sized hlocal hhungry hsize hsteps⟩

theorem reads_sized_iff (hlocal : Local step) (hhungry : Hungry step) {front : Bytes}
    {value : β} :
    Reads (sized step f) front value ↔
      ∃ payload items, Reads readDelimited front payload ∧ Steps step payload items ∧
        value = f payload items := by
  constructor
  · intro hreads
    obtain ⟨size, payload, items, hfront, hsize, hsteps, hvalue⟩ :=
      (sized_eq_ok hlocal hhungry).1 (hreads [])
    have hbytes : front = size ++ payload := by simpa using hfront
    exact ⟨payload, items, reads_readDelimited_iff.2 ⟨size, hbytes, hsize⟩, hsteps, hvalue⟩
  · rintro ⟨payload, items, hpayload, hsteps, rfl⟩
    obtain ⟨size, rfl, hsize⟩ := reads_readDelimited_iff.1 hpayload
    exact reads_sized hlocal hhungry hsize hsteps

end Sized

/-- Reads one field: its key, and its value with `value`. -/
def fieldStep (value : Key → Reader (List Record)) : Reader (List Record) := do
  value (← Key.read)

/-- Reads one field of a group. -/
def groupStep (value : Key → Reader (List Record)) : Reader (List Record) := do
  let key ← Key.read
  if key.wire = .endGroup then fail .strayEndGroup else value key

section FieldSteps

variable {value : Key → Reader (List Record)}

theorem local_fieldStep (hvalue : ∀ key, Local (value key)) : Local (fieldStep value) :=
  Key.local_read.bind hvalue

theorem hungry_fieldStep : Hungry (fieldStep value) :=
  Key.hungry_read.bind

theorem hungry_groupStep : Hungry (groupStep value) :=
  Key.hungry_read.bind

theorem readMessage_eq_sized (number : Nat) :
    readMessage value number = sized (fieldStep value) (.message number) := rfl

theorem readPacked_eq_sized (scalar : Scalar) (number : Nat) :
    readPacked scalar number = sized (([·]) <$> readNumber scalar) (.packed number) := rfl

theorem steps_of_groupTurns (hvalue : ∀ key, Local (value key)) {number turns : Nat}
    {bytes : Bytes} {items : List Record} {rest : Input}
    (hok : groupTurns number value turns (.ofBytes bytes) = .ok (items, rest)) :
    ∃ body close, bytes = body ++ close ++ rest.bytes ∧
      Steps (groupStep value) body items ∧ Reads Key.read close ⟨number, .endGroup⟩ := by
  induction turns generalizing bytes items with
  | zero => simp [groupTurns] at hok
  | succ turns ih =>
      rw [groupTurns] at hok
      cases hkey : Key.read (.ofBytes bytes) with
      | error fault => simp [hkey] at hok
      | ok pair =>
          obtain ⟨key, afterKey⟩ := pair
          obtain ⟨front, rfl, hfront⟩ := Key.local_read _ _ _ hkey
          simp only [hkey] at hok
          by_cases hend : key.wire = .endGroup
          · rw [if_pos hend] at hok
            split at hok
            · next hnumber =>
                simp only [Except.ok.injEq, Prod.mk.injEq] at hok
                obtain ⟨rfl, rfl⟩ := hok
                refine ⟨[], front, rfl, .nil, ?_⟩
                rwa [← hnumber, ← hend]
            · simp at hok
          rw [if_neg hend, afterKey.eq_ofBytes] at hok
          cases hfirst : value key (.ofBytes afterKey.bytes) with
          | error fault => simp [hfirst] at hok
          | ok pair =>
              obtain ⟨first, next⟩ := pair
              obtain ⟨back, hback, hreads⟩ := hvalue key _ _ _ hfirst
              cases hturns : groupTurns number value turns next with
              | error fault => simp [hfirst, hturns] at hok
              | ok pair =>
                  obtain ⟨others, last⟩ := pair
                  simp only [hfirst, hturns, Except.ok.injEq, Prod.mk.injEq] at hok
                  obtain ⟨rfl, rfl⟩ := hok
                  rw [next.eq_ofBytes] at hturns
                  obtain ⟨body, close, hbytes, hsteps, hclose⟩ := ih hturns
                  have hstep : Reads (groupStep value) (front ++ back) first := by
                    refine hfront.bind ?_
                    rwa [if_neg hend]
                  refine ⟨front ++ back ++ body, close, ?_, .cons hstep hsteps, hclose⟩
                  rw [hback, hbytes]
                  simp

theorem groupTurns_of_steps {number turns : Nat} {body close rest : Bytes} {items : List Record}
    (hsteps : Steps (groupStep value) body items)
    (hclose : Reads Key.read close ⟨number, .endGroup⟩)
    (hturns : body.length + close.length ≤ turns) :
    groupTurns number value turns (.ofBytes (body ++ close ++ rest)) =
      .ok (items, .ofBytes rest) := by
  have hsome : 0 < close.length := List.length_pos_iff.2 (hclose.ne_nil Key.hungry_read)
  induction hsteps generalizing turns with
  | nil =>
      cases turns with
      | zero =>
          rw [List.length_nil] at hturns
          omega
      | succ turns => simp [groupTurns, hclose rest]
  | @cons front back items others hreads hsteps ih =>
      rw [List.length_append] at hturns
      have hfront : 0 < front.length := List.length_pos_iff.2 (hreads.ne_nil hungry_groupStep)
      cases turns with
      | zero => omega
      | succ turns =>
          obtain ⟨key, middle, hkey, hitems⟩ := bind_eq_ok.1 (hreads (back ++ close ++ rest))
          split at hitems
          · simp [fail] at hitems
          · next hopen =>
              have hbytes : front ++ back ++ close ++ rest = front ++ (back ++ close ++ rest) := by
                simp
              rw [groupTurns, hbytes, hkey]
              have hback := ih (show back.length + close.length ≤ turns by omega)
              simp only [if_neg hopen, hitems, hback]

/-- A group is its fields and its end key. -/
theorem readGroup_eq_ok (hvalue : ∀ key, Local (value key)) {number : Nat} {bytes : Bytes}
    {items : List Record} {rest : Input} :
    readGroup number value (.ofBytes bytes) = .ok (items, rest) ↔
      ∃ body close, bytes = body ++ close ++ rest.bytes ∧
        Steps (groupStep value) body items ∧ Reads Key.read close ⟨number, .endGroup⟩ := by
  constructor
  · exact steps_of_groupTurns hvalue
  · rintro ⟨body, close, rfl, hsteps, hclose⟩
    rw [rest.eq_ofBytes]
    exact groupTurns_of_steps hsteps hclose (by simp)

theorem reads_readGroup_iff (hvalue : ∀ key, Local (value key)) {number : Nat} {front : Bytes}
    {items : List Record} :
    Reads (readGroup number value) front items ↔
      ∃ body close, front = body ++ close ∧ Steps (groupStep value) body items ∧
        Reads Key.read close ⟨number, .endGroup⟩ := by
  constructor
  · intro hreads
    obtain ⟨body, close, hfront, hsteps, hclose⟩ := (readGroup_eq_ok hvalue).1 (hreads [])
    exact ⟨body, close, by simpa using hfront, hsteps, hclose⟩
  · rintro ⟨body, close, rfl, hsteps, hclose⟩ rest
    exact (readGroup_eq_ok hvalue).2 ⟨body, close, rfl, hsteps, hclose⟩

theorem local_readGroup (hvalue : ∀ key, Local (value key)) (number : Nat) :
    Local (readGroup number value) := by
  intro bytes items rest hok
  obtain ⟨body, close, rfl, hsteps, hclose⟩ := (readGroup_eq_ok hvalue).1 hok
  exact ⟨body ++ close, rfl, (reads_readGroup_iff hvalue).2 ⟨body, close, rfl, hsteps, hclose⟩⟩

theorem local_readMessage (hvalue : ∀ key, Local (value key)) (number : Nat) :
    Local (readMessage value number) :=
  local_sized (local_fieldStep hvalue) hungry_fieldStep

end FieldSteps

theorem local_expectWire (expected found : WireType) : Local (expectWire expected found) :=
  (local_pure _).ite (local_fail _)

theorem local_readByWire {key : Key} {group : Reader Record} (hgroup : Local group) :
    Local (readByWire key group) := by
  unfold readByWire
  split
  · exact Varint.local_read.map _
  · exact (Fixed.local_read _).map _
  · exact (Fixed.local_read _).map _
  · exact local_readDelimited.map _
  · exact hgroup
  · exact hgroup

theorem local_skipField (budget : Nat) (key : Key) : Local (skipField budget key) := by
  induction budget generalizing key with
  | zero => exact local_fail _
  | succ budget ih =>
      refine local_readByWire ((local_fail _).ite ?_)
      exact (local_readGroup (fun inner => (ih inner).map _) _).map _

theorem local_readUnknown (budget : Nat) (key : Key) : Local (readUnknown budget key) := by
  induction budget generalizing key with
  | zero => exact local_readByWire ((local_expectWire _ _).bind fun _ => local_fail _)
  | succ budget ih =>
      refine local_readByWire ((local_expectWire _ _).bind fun _ => ?_)
      exact (local_readGroup (fun inner => (ih inner).map _) _).map _

theorem local_readNumber (scalar : Scalar) : Local (readNumber scalar) := by
  unfold readNumber
  split
  · exact Fixed.local_read _
  · exact Fixed.local_read _
  · exact Varint.local_read

theorem hungry_readNumber (scalar : Scalar) : Hungry (readNumber scalar) := by
  unfold readNumber
  split
  · exact Fixed.hungry_read (by decide)
  · exact Fixed.hungry_read (by decide)
  · exact Varint.hungry_read

theorem local_readPacked (scalar : Scalar) (number : Nat) : Local (readPacked scalar number) :=
  local_sized ((local_readNumber scalar).map _) ((hungry_readNumber scalar).map _)

theorem local_readText (number : Nat) : Local (readText number) := by
  refine local_readDelimited.bind fun bytes => ?_
  split
  · exact local_pure _
  · exact local_fail _

section Known

variable {τ : Type}

/-- Every field that `nested` reads is read locally. -/
def LocalFields (nested : Option (τ → Key → Reader (List Record))) : Prop :=
  ∀ fields ∈ nested, ∀ type key, Local (fields type key)

theorem local_readKnown (spec : FieldSpec τ) {nested : Option (τ → Key → Reader (List Record))}
    (hnested : LocalFields nested) (key : Key) : Local (readKnown spec nested key) := by
  unfold readKnown
  split
  · split
    · exact (local_readPacked _ _).bind fun _ => local_pure _
    · refine (local_expectWire _ _).bind fun _ => ?_
      exact ((local_readNumber _).map _).bind fun _ => local_pure _
  · exact (local_expectWire _ _).bind fun _ => (local_readText _).bind fun _ => local_pure _
  · exact (local_expectWire _ _).bind fun _ => local_readDelimited.bind fun _ => local_pure _
  · refine (local_expectWire _ _).bind fun _ => ?_
    split
    · exact local_fail _
    · exact (local_readMessage (hnested _ rfl _) _).bind fun _ => local_pure _
  · refine (local_expectWire _ _).bind fun _ => ?_
    split
    · exact local_fail _
    · exact (local_readGroup (hnested _ rfl _) _).bind fun _ => local_pure _

theorem local_readField (schema : Schema τ) {nested : Option (τ → Key → Reader (List Record))}
    {entries : τ → Key → Reader (List Record)} (hnested : LocalFields nested)
    (hentries : ∀ type key, Local (entries type key)) (spec : FieldSpec τ) (key : Key) :
    Local (schema.readField nested entries spec key) := by
  unfold Schema.readField
  split
  · exact (local_readMessage (hentries _) _).map _
  · exact local_readKnown spec hnested key

theorem local_readPart (schema : Schema τ) (budget : Nat)
    {nested : Option (τ → Key → Reader (List Record))} (hnested : LocalFields nested)
    (depth : Nat) (entry : τ) (key : Key) :
    Local (schema.readPart budget nested depth entry key) := by
  induction depth generalizing entry key with
  | zero => exact local_fail _
  | succ depth ih =>
      unfold Schema.readPart
      split
      · exact local_readField schema hnested ih _ _
      · exact (local_skipField _ _).bind fun _ => local_pure _

end Known

/-! ## Entries of maps

How deep entries may lie is bounded by the bytes that are left, so the bound
never decides anything. -/

section Entries

theorem Reader.Local.size_le {α : Type} {reader : Reader α} (hlocal : Local reader)
    {input rest : Input} {value : α} (hok : reader input = .ok (value, rest)) :
    rest.size ≤ input.size := by
  rw [input.eq_ofBytes] at hok
  obtain ⟨front, hbytes, -⟩ := hlocal _ _ _ hok
  have hlength := congrArg List.length hbytes
  rw [List.length_append, input.size_eq, rest.size_eq] at hlength
  omega

theorem Reader.Local.size_lt {α : Type} {reader : Reader α} (hlocal : Local reader)
    (hhungry : Hungry reader) {input rest : Input} {value : α}
    (hok : reader input = .ok (value, rest)) : rest.size < input.size := by
  rw [input.eq_ofBytes] at hok
  obtain ⟨front, hbytes, hreads⟩ := hlocal _ _ _ hok
  have hsome : 0 < front.length := List.length_pos_iff.2 (hreads.ne_nil hhungry)
  have hlength := congrArg List.length hbytes
  rw [List.length_append, input.size_eq, rest.size_eq] at hlength
  omega

variable {α β τ : Type}

theorem turnsTo_congr {step other : Reader (List α)} {bound : Nat} (hlocal : Local step)
    (hsame : ∀ input : Input, input.size ≤ bound → step input = other input) (stop turns : Nat)
    {input : Input} (hinput : input.size ≤ bound) :
    turnsTo stop step turns input = turnsTo stop other turns input := by
  induction turns generalizing input with
  | zero => rfl
  | succ turns ih =>
      rw [turnsTo, turnsTo, ← hsame input hinput]
      cases hstep : step input with
      | error fault => rfl
      | ok pair =>
          obtain ⟨first, rest⟩ := pair
          have hrest := hlocal.size_le hstep
          simp only [ih (Nat.le_trans hrest hinput)]

theorem sized_congr {step other : Reader (List α)} {f : Bytes → List α → β} (hlocal : Local step)
    {input : Input}
    (hsame : ∀ inner : Input, inner.size < input.size → step inner = other inner) :
    sized step f input = sized other f input := by
  unfold sized
  change (Varint.read input >>= _) = (Varint.read input >>= _)
  cases hlength : Varint.read input with
  | error fault => rfl
  | ok pair =>
      obtain ⟨length, rest⟩ := pair
      have hrest : rest.size < input.size := Varint.local_read.size_lt Varint.hungry_read hlength
      have hinside (inner : Input) (hinner : inner.size ≤ rest.size) : step inner = other inner :=
        hsame inner (Nat.lt_of_le_of_lt hinner hrest)
      have hturns :=
        turnsTo_congr hlocal hinside (rest.size - length) rest.size (Nat.le_refl rest.size)
      have hregion : region length step rest = region length other rest := by
        change (if rest.size < length then fail .underflow else _) rest =
          (if rest.size < length then fail .underflow else _) rest
        split
        · rfl
        · change (turnsTo (rest.size - length) step rest.size rest >>= _) = _
          rw [hturns]
          rfl
      change (region length step rest >>= _) = (region length other rest >>= _)
      rw [hregion]

theorem readPart_congr (schema : Schema τ) (budget : Nat)
    {nested : Option (τ → Key → Reader (List Record))} (hnested : LocalFields nested)
    {depth depth' : Nat} {input : Input} (hdepth : input.size < depth)
    (hdepth' : input.size < depth') (entry : τ) (key : Key) :
    schema.readPart budget nested depth entry key input =
      schema.readPart budget nested depth' entry key input := by
  induction depth generalizing depth' input entry key with
  | zero => omega
  | succ depth ih =>
      cases depth' with
      | zero => omega
      | succ depth' =>
          unfold Schema.readPart
          cases hpart : schema.part? entry key.number with
          | none => rfl
          | some spec =>
              simp only [Schema.readField]
              cases hentry : schema.entry? spec with
              | none => rfl
              | some type =>
                  simp only [readMessage_eq_sized]
                  change StateT.map _ _ input = StateT.map _ _ input
                  unfold StateT.map
                  rw [sized_congr (local_fieldStep (local_readPart schema budget hnested _ _))]
                  intro inner hinner
                  change (Key.read inner >>= _) = (Key.read inner >>= _)
                  cases hkey : Key.read inner with
                  | error fault => rfl
                  | ok pair =>
                      obtain ⟨key, rest⟩ := pair
                      have hrest := Key.local_read.size_lt Key.hungry_read hkey
                      exact ih (by omega) (by omega) type key

theorem readField_congr (schema : Schema τ) (budget : Nat)
    {nested : Option (τ → Key → Reader (List Record))} (hnested : LocalFields nested)
    {depth : Nat} {input : Input} (hdepth : input.size ≤ depth) (spec : FieldSpec τ) (key : Key) :
    schema.readField nested (schema.readPart budget nested depth) spec key input =
      schema.readField nested (schema.readPart budget nested input.size) spec key input := by
  simp only [Schema.readField]
  cases hentry : schema.entry? spec with
  | none => rfl
  | some type =>
      simp only [readMessage_eq_sized]
      change StateT.map _ _ input = StateT.map _ _ input
      unfold StateT.map
      rw [sized_congr (local_fieldStep (local_readPart schema budget hnested _ _))]
      intro inner hinner
      change (Key.read inner >>= _) = (Key.read inner >>= _)
      cases hkey : Key.read inner with
      | error fault => rfl
      | ok pair =>
          obtain ⟨key, rest⟩ := pair
          have hrest := Key.local_read.size_lt Key.hungry_read hkey
          exact readPart_congr schema budget hnested (by omega) (by omega) type key

theorem local_remaining_readField (schema : Schema τ) (budget : Nat)
    {nested : Option (τ → Key → Reader (List Record))} (hnested : LocalFields nested)
    (spec : FieldSpec τ) (key : Key) :
    Local (do
      let depth ← remaining
      schema.readField nested (schema.readPart budget nested depth) spec key) := by
  intro bytes value rest hok
  change schema.readField nested (schema.readPart budget nested bytes.length) spec key
    (.ofBytes bytes) = _ at hok
  have hlocal (depth : Nat) :
      Local (schema.readField nested (schema.readPart budget nested depth) spec key) :=
    local_readField schema hnested (local_readPart schema budget hnested depth) spec key
  obtain ⟨front, rfl, -⟩ := hlocal _ _ _ _ hok
  refine ⟨front, rfl, fun other => ?_⟩
  -- both readings agree with one under a bound that is large enough for both
  have hlarge : schema.readField nested
      (schema.readPart budget nested
        (max (front ++ rest.bytes).length (front ++ other).length)) spec key
      (.ofBytes (front ++ rest.bytes)) = .ok (value, rest) := by
    refine Eq.trans (readField_congr schema budget hnested ?_ spec key) hok
    exact Nat.le_max_left _ _
  obtain ⟨front', hfront', hreads⟩ := hlocal _ _ _ _ hlarge
  obtain rfl := List.append_cancel_right hfront'
  refine Eq.trans (readField_congr schema budget hnested ?_ spec key).symm (hreads other)
  exact Nat.le_max_right _ _

end Entries

/-! ## Fields under a schema -/

namespace Schema

variable {τ : Type} (schema : Schema τ)

theorem local_within {α : Type} (place : Option String) {reader : Reader α}
    (hreader : Local reader) : Local (within place reader) := by
  have hwithin (input rest : Input) (value : α) :
      within place reader input = .ok (value, rest) ↔ reader input = .ok (value, rest) := by
    unfold within
    cases reader input <;> simp
  intro bytes value rest hok
  obtain ⟨front, hbytes, hreads⟩ := hreader _ _ _ ((hwithin _ _ _).1 hok)
  exact ⟨front, hbytes, fun rest => (hwithin _ _ _).2 (hreads rest)⟩

theorem local_readWith (budget : Nat) {nested : Option (τ → Key → Reader (List Record))}
    (hnested : LocalFields nested) (owner : τ) (key : Key) :
    Local (schema.readWith budget nested owner key) := by
  unfold readWith
  split
  · refine Local.map ?_ _
    exact (local_skipField _ _).ite (local_readUnknown _ _)
  · refine local_within _ ((local_fail _).ite ?_)
    exact local_remaining_readField schema budget hnested _ _

theorem local_readValue (budget : Nat) (owner : τ) (key : Key) :
    Local (schema.readValue budget owner key) := by
  induction budget generalizing owner key with
  | zero => exact schema.local_readWith 0 (by simp [LocalFields]) owner key
  | succ budget ih =>
      refine schema.local_readWith (budget + 1) ?_ owner key
      simpa [LocalFields] using ih

/-- Reads one field of a message of type `owner`. -/
def step (budget : Nat) (owner : τ) : Reader (List Record) :=
  fieldStep (schema.readValue budget owner)

theorem local_step (budget : Nat) (owner : τ) : Local (schema.step budget owner) :=
  local_fieldStep (schema.local_readValue budget owner)

theorem hungry_step (budget : Nat) (owner : τ) : Hungry (schema.step budget owner) :=
  hungry_fieldStep

/-- As a message of type `owner`, `bytes` hold `records`. -/
def Holds (budget : Nat) (owner : τ) (bytes : Bytes) (records : List Record) : Prop :=
  Steps (schema.step budget owner) bytes records

variable {schema} {budget : Nat} {owner : τ} {bytes front back : Bytes}
  {records others : List Record}

theorem Holds.eq (hrecords : schema.Holds budget owner bytes records)
    (hothers : schema.Holds budget owner bytes others) : records = others :=
  Steps.eq (schema.hungry_step budget owner) hrecords hothers

theorem Holds.append (hfront : schema.Holds budget owner front records)
    (hback : schema.Holds budget owner back others) :
    schema.Holds budget owner (front ++ back) (records ++ others) :=
  Steps.append hfront hback

/-- Decoding finds what the bytes hold. -/
theorem decode_eq_ok :
    schema.decode owner bytes = .ok records ↔ schema.Holds nestingLimit owner bytes records := by
  rw [Holds, ← repeatTo_zero_eq_ok (schema.local_step _ _) (schema.hungry_step _ _)]
  unfold decode
  change (repeatTo 0 (schema.step nestingLimit owner) (.ofBytes bytes)).map Prod.fst = _ ↔ _
  cases repeatTo 0 (schema.step nestingLimit owner) (.ofBytes bytes) with
  | error fault => simp [Except.map]
  | ok pair =>
      obtain ⟨found, rest⟩ := pair
      simp [Except.map]

end Schema

end ProtoSource.Wire
