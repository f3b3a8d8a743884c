import Mathlib.Logic.Relation
import ProtoSource.Proofs.Load.Rules
import ProtoSource.Proofs.Pool.Unique
import ProtoSource.Proofs.Render.Printing

/-!
# Which files can be printed

The printer checks what it needs on its way down a file: names, types, the oneofs of
fields, the fields of map entries and the patterns of rules.  Two steps panic: the
look-up of a service by its full name, and taking one from the end of a range.  This
module states the conditions on the file as a whole, without the way, and proves that a
file is printed exactly if they hold, and that nothing but their failure is ever
reported.
-/

namespace ProtoSource

open ProtoSource.Descriptor

/-- The errors that printing can end in, and the panics that there is reason for. -/
inductive Error.OfPrinting (panics : Panic → Prop) : Error → Prop where
  | flawed (flaw : Flaw) : OfPrinting panics (.flawed flaw)
  | unsetHttpRule (method : String) : OfPrinting panics (.unsetHttpRule method)
  | httpRule (method : String) (fault : Wire.Fault) :
      OfPrinting panics (.httpRule (some method) fault)
  | panicked {panic : Panic} (hpanic : panics panic) : OfPrinting panics (.panicked panic)

namespace Render

open ProtoSource.Load (payloadOf ruleOf_eq_ok)
open ProtoSource.Pool
open ProtoSource.Success
open ProtoSource.Text

/-! ## The conditions -/

/-- The type of the field is scalar or has a name. -/
def HasType (field : Field) : Prop :=
  (∃ type ∈ field.type?, type.keyword ≠ "") ∨ field.typeName ≠ ""

/-- A field that is printed as a map takes its types from the first two numbers of the
entry, any other from itself. -/
structure PrintableField (message : Message) (field : Field) : Prop where
  name : field.name ≠ ""
  entry : ∀ entry ∈ mapEntry? message field, ∀ number ∈ [(1 : Int), 2],
    ∃ part ∈ entry.body.fields.find? (·.number == number), HasType part
  type : mapEntry? message field = none → HasType field

/-- The index is that of a oneof with a name. -/
def NamesOneof (message : Message) (index : Int) : Prop :=
  ∃ position : Nat, index = position ∧ ∃ oneof ∈ message.body.oneofs[position]?, oneof.name ≠ ""

structure PrintableEnum (enumeration : Enumeration) : Prop where
  name : enumeration.name ≠ ""
  values : ∀ value ∈ enumeration.values, value.name ≠ ""

/-- What a message needs apart from the messages in it. -/
structure PrintableMessage (message : Message) : Prop where
  name : message.name ≠ ""
  fields : ∀ field ∈ message.body.fields, PrintableField message field
  oneofs : ∀ field ∈ message.body.fields, ∀ index ∈ field.oneof?, NamesOneof message index
  ranges : ∀ range ∈ message.body.reservedRanges, lowestInteger < range.stop
  enums : ∀ enumeration ∈ message.body.enums, PrintableEnum enumeration

/-- The block of a message shows the messages in it but for the entries of maps. -/
def Shows (outer inner : Message) : Prop :=
  inner ∈ outer.nested ∧ inner.isMapEntry = false

/-- One rule is an additional binding of the other. -/
def Binds (outer inner : Http.Rule) : Prop :=
  inner ∈ outer.additional

/-- The rule of a method can be decoded, and has a pattern in each of its bindings. -/
structure PrintableMethod (method : Method) : Prop where
  name : method.name ≠ ""
  rule : ∃ rule?, Http.Rule.ofOptions (payloadOf method) = .ok rule? ∧
    ∀ rule ∈ rule?, ∀ inner, Relation.ReflTransGen Binds rule inner → inner.binding.pattern? ≠ none

structure PrintableService (service : Service) : Prop where
  name : service.name ≠ ""
  methods : ∀ method ∈ service.methods, PrintableMethod method

/-- A file can be printed if these are found as its services. -/
structure PrintableFile (listed : List (Except Error (String × Service))) (file : File) : Prop where
  services : ∀ found ∈ listed, ∃ entry, found = .ok entry ∧ PrintableService entry.2
  messages : ∀ outer ∈ file.messages, ∀ message, Relation.ReflTransGen Shows outer message →
    PrintableMessage message
  enums : ∀ enumeration ∈ file.enums, PrintableEnum enumeration

/-- What gives a file with these services reason to panic. -/
inductive Panics (listed : List (Except Error (String × Service))) (file : File) :
    Panic → Prop where
  | undeclared {name : String} (hmissed : .error (.panicked (.undeclared name)) ∈ listed) :
      Panics listed file (.undeclared name)
  | overflow {outer message : Message} {range : Range} (houter : outer ∈ file.messages)
      (hshown : Relation.ReflTransGen Shows outer message)
      (hrange : range ∈ message.body.reservedRanges) (hlow : range.stop ≤ lowestInteger) :
      Panics listed file .overflow

/-- What holds of all that is reached holds at the start and of all that is reached from
the next steps. -/
theorem forall_reflTransGen {α : Type} {step : α → α → Prop} {holds : α → Prop} {start : α} :
    (∀ value, Relation.ReflTransGen step start value → holds value) ↔
      holds start ∧ ∀ next, step start next → ∀ value, Relation.ReflTransGen step next value →
        holds value := by
  constructor
  · exact fun hall => ⟨hall start .refl,
      fun next hnext value hvalue => hall value (.head hnext hvalue)⟩
  · rintro ⟨hstart, hnext⟩ value hvalue
    obtain rfl | ⟨next, hstep, hrest⟩ := Relation.ReflTransGen.cases_head hvalue
    · exact hstart
    · exact hnext next hstep value hrest

/-- The computation succeeds if the condition holds, and else ends in an error of
printing. -/
def Checks {α : Type} (panics : Panic → Prop) (result : Except Error α) (holds : Prop) : Prop :=
  match result with
  | .ok _ => holds
  | .error error => ¬holds ∧ error.OfPrinting panics

variable {panics : Panic → Prop}

namespace Checks

variable {α β : Type} {holds holds' : Prop}

theorem exists_ok_iff {result : Except Error α} (hchecks : Checks panics result holds) :
    (∃ value, result = .ok value) ↔ holds := by
  cases result with
  | error error => exact iff_of_false (by simp) hchecks.1
  | ok value => exact iff_of_true ⟨value, rfl⟩ hchecks

theorem ofPrinting {error : Error} (hchecks : Checks panics (.error error : Except Error α) holds) :
    error.OfPrinting panics :=
  hchecks.2

theorem congr {result : Except Error α} (hchecks : Checks panics result holds)
    (hiff : holds ↔ holds') :
    Checks panics result holds' := by
  rwa [← hiff]

theorem pure {value : α} (hholds : holds) : Checks panics (Pure.pure value) holds :=
  hholds

/-- The second step may be checked for the results of the first. -/
theorem bind {first : Except Error α} {next : α → Except Error β}
    (hfirst : Checks panics first holds)
    (hnext : ∀ value, first = .ok value → Checks panics (next value) holds') :
    Checks panics (first >>= next) (holds ∧ holds') := by
  cases first with
  | error error => exact ⟨fun hboth => hfirst.1 hboth.1, hfirst.2⟩
  | ok value =>
      have hholds : holds := hfirst
      exact (hnext value rfl).congr (and_iff_right hholds).symm

/-- What is made of the result does not matter. -/
theorem map {first : Except Error α} (hfirst : Checks panics first holds) (f : α → β) :
    Checks panics (first >>= fun value => Pure.pure (f value)) holds := by
  cases first with
  | error error => exact hfirst
  | ok value => exact hfirst

theorem mapM {f : α → Except Error β} {condition : α → Prop} {values : List α}
    (hvalues : ∀ value ∈ values, Checks panics (f value) (condition value)) :
    Checks panics (values.mapM f) (∀ value ∈ values, condition value) := by
  induction values with
  | nil =>
      rw [List.mapM_nil]
      exact pure (by simp)
  | cons value rest ih =>
      rw [List.forall_mem_cons] at hvalues
      rw [List.mapM_cons]
      exact (hvalues.1.bind fun _ _ => (ih hvalues.2).map _).congr List.forall_mem_cons.symm

end Checks

theorem checks_requireName (what : Nameable) (name : String) :
    Checks panics (requireName what name) (name ≠ "") := by
  unfold requireName
  split
  · next hempty => exact ⟨fun hne => hne (String.isEmpty_iff.1 hempty), .flawed _⟩
  · next hempty => exact fun hname => hempty (String.isEmpty_iff.2 hname)

theorem checks_typeToken (scope : Scope) (field : Field) :
    Checks panics (typeToken scope field) (HasType field) := by
  have hkeyword : (field.type?.map FieldType.keyword).getD "" ≠ "" ↔
      ∃ type ∈ field.type?, type.keyword ≠ "" := by
    cases field.type? <;> simp
  unfold typeToken HasType
  rw [← hkeyword]
  generalize (field.type?.map FieldType.keyword).getD "" = keyword
  dsimp only
  split
  · next hscalar => exact Or.inl (by simpa using hscalar)
  · next hscalar =>
      split
      · next hname =>
          have hempty : keyword = "" := by simpa using hscalar
          exact ⟨fun hor => hor.elim (· hempty) (· (String.isEmpty_iff.1 hname)), .flawed _⟩
      · next hname => exact Or.inr (by simpa using hname)

theorem checks_entryField (entry : Message) (number : Int) :
    Checks panics (entryField entry number)
      (entry.body.fields.find? (·.number == number) ≠ none) := by
  unfold entryField
  cases hfind : entry.body.fields.find? (·.number == number) with
  | none => exact ⟨by simp, .flawed _⟩
  | some part =>
      have hfound : (some part : Option Field) ≠ none := by simp
      exact hfound

/-- The type of a field that was found in an entry. -/
theorem checks_typeToken_part (scope : Scope) {entry : Message} {number : Int} {part : Field}
    (hpart : entryField entry number = .ok part) :
    Checks panics (typeToken scope part)
      (∃ part ∈ entry.body.fields.find? (·.number == number), HasType part) := by
  refine (checks_typeToken scope part).congr ?_
  rw [entryField_eq_ok.1 hpart]
  simp

theorem checks_fieldLine (message : Message) (scope : Scope) (field : Field) :
    Checks panics (fieldLine message scope field) (PrintableField message field) := by
  have hname : Checks panics (requireName .field field.name) _ :=
    checks_requireName .field field.name
  unfold fieldLine
  cases hentry : mapEntry? message field with
  | none =>
      refine (hname.bind fun _ _ => (checks_typeToken scope field).map _).congr ?_
      constructor
      · rintro ⟨hnamed, htype⟩
        exact ⟨hnamed, by simp [hentry], fun _ => htype⟩
      · intro hfield
        exact ⟨hfield.name, hfield.type hentry⟩
  | some entry =>
      refine (hname.bind fun _ _ => (checks_entryField entry 1).bind fun key hkey =>
        (checks_entryField entry 2).bind fun value hvalue =>
          (checks_typeToken_part scope hkey).bind fun _ _ =>
            (checks_typeToken_part scope hvalue).map _).congr ?_
      constructor
      · rintro ⟨hnamed, -, -, hkey, hvalue⟩
        refine ⟨hnamed, ?_, by simp [hentry]⟩
        rintro _ hfound
        obtain rfl : entry = _ := by simpa [hentry] using hfound
        simpa using ⟨hkey, hvalue⟩
      · intro hfield
        have hparts := hfield.entry entry hentry
        have hfound (number : Int) (hnumber : number ∈ [(1 : Int), 2]) :
            entry.body.fields.find? (·.number == number) ≠ none := by
          obtain ⟨part, hpart, -⟩ := hparts number hnumber
          exact Option.ne_none_iff_exists'.2 ⟨part, hpart⟩
        exact ⟨hfield.name, hfound 1 (by simp), hfound 2 (by simp), hparts 1 (by simp),
          hparts 2 (by simp)⟩

theorem oneofAt?_eq_some {message : Message} {index : Int} {oneof : Oneof} :
    oneofAt? message index = some oneof ↔
      ∃ position : Nat, index = position ∧ message.body.oneofs[position]? = some oneof := by
  unfold oneofAt?
  split
  · next hindex =>
      constructor
      · exact fun hfound => ⟨index.toNat, (Int.toNat_of_nonneg hindex).symm, hfound⟩
      · rintro ⟨position, rfl, hfound⟩
        exact hfound
  · next hindex =>
      constructor
      · simp
      · rintro ⟨position, rfl, -⟩
        exact absurd (Int.natCast_nonneg position) hindex

/-- A oneof is written with all its members. -/
def PrintableOneof (message : Message) (index : Int) : Prop :=
  NamesOneof message index ∧ ∀ member ∈ message.body.fields, member.oneof? = some index →
    PrintableField message member

theorem checks_oneofBlock (message : Message) (scope : Scope) (field : Field) (index : Int) :
    Checks panics (oneofBlock message scope field index) (PrintableOneof message index) := by
  unfold oneofBlock
  cases honeof : oneofAt? message index with
  | none =>
      refine ⟨?_, .flawed _⟩
      rintro ⟨⟨position, rfl, oneof, hmem, -⟩, -⟩
      rw [oneofAt?_eq_some.2 ⟨position, rfl, hmem⟩] at honeof
      simp at honeof
  | some oneof =>
      obtain ⟨position, rfl, hmem⟩ := oneofAt?_eq_some.1 honeof
      have hmembers : Checks panics
          ((message.body.fields.filter (·.oneof? == some (position : Int))).mapM
          (fieldLine message scope)) _ :=
        .mapM fun member _ => checks_fieldLine message scope member
      refine ((checks_requireName .oneof oneof.name).bind fun _ _ => hmembers.map _).congr
        (and_congr ⟨fun hname => ⟨position, rfl, oneof, hmem, hname⟩, ?_⟩ (by simp))
      rintro ⟨other, hother, found, hfound, hname⟩
      obtain rfl : position = other := by omega
      obtain rfl : oneof = found := Option.some.inj (hmem.symm.trans hfound)
      exact hname

/-- A oneof is checked at its first member, with all that are still to come. -/
theorem checks_fieldItems (message : Message) (scope : Scope) (written : List Int)
    (fields : List Field) :
    Checks panics (fieldItems message scope written fields)
      (∀ field ∈ fields, (field.oneof? = none → PrintableField message field) ∧
        ∀ index ∈ field.oneof?, index ∉ written → PrintableOneof message index) := by
  induction fields generalizing written with
  | nil => exact .pure (by simp)
  | cons field rest ih =>
      rw [fieldItems]
      cases hindex : field.oneof? with
      | none =>
          refine ((checks_fieldLine message scope field).bind
            fun _ _ => (ih written).map _).congr ?_
          simp [hindex]
      | some index =>
          dsimp only
          split
          · next hwritten =>
              refine (ih written).congr ?_
              have hold : index ∈ written := by simpa using hwritten
              simp [hindex, hold]
          · next hwritten =>
              refine ((checks_oneofBlock message scope field index).bind fun _ _ =>
                (ih (index :: written)).map _).congr ?_
              have hnew : index ∉ written := by simpa using hwritten
              constructor
              · rintro ⟨hblock, hrest⟩
                refine List.forall_mem_cons.2 ⟨⟨by simp [hindex], ?_⟩, fun other hother =>
                  ⟨(hrest other hother).1, fun found hfound hunwritten => ?_⟩⟩
                · rintro found hfound -
                  obtain rfl : index = found := by simpa [hindex] using hfound
                  exact hblock
                · by_cases hsame : found = index
                  · exact hsame ▸ hblock
                  · exact (hrest other hother).2 found hfound (by simp [hsame, hunwritten])
              · intro hall
                rw [List.forall_mem_cons] at hall
                refine ⟨hall.1.2 index hindex hnew,
                  fun other hother => ⟨(hall.2 other hother).1, ?_⟩⟩
                exact fun found hfound hunwritten => (hall.2 other hother).2 found hfound
                  fun hold => hunwritten (List.mem_cons_of_mem _ hold)

/-- Together the lines and the oneofs of a message check all its fields. -/
theorem checks_messageFields (message : Message) (scope : Scope) :
    Checks panics (fieldItems message scope [] message.body.fields)
      ((∀ field ∈ message.body.fields, PrintableField message field) ∧
        ∀ field ∈ message.body.fields, ∀ index ∈ field.oneof?, NamesOneof message index) := by
  refine (checks_fieldItems message scope [] message.body.fields).congr ?_
  constructor
  · intro hall
    refine ⟨fun field hfield => ?_, fun field hfield index hindex => ?_⟩
    · cases hindex : field.oneof? with
      | none => exact (hall field hfield).1 hindex
      | some index => exact ((hall field hfield).2 index hindex (by simp)).2 field hfield hindex
    · exact ((hall field hfield).2 index hindex (by simp)).1
  · rintro ⟨hfields, honeofs⟩ field hfield
    exact ⟨fun _ => hfields field hfield, fun index hindex _ =>
      ⟨honeofs field hfield index hindex, fun member hmember _ => hfields member hmember⟩⟩

theorem checks_enumBlock (enumeration : Enumeration) :
    Checks panics (enumBlock enumeration) (PrintableEnum enumeration) := by
  have hvalues : Checks panics (enumeration.values.mapM enumValueLine) _ :=
    .mapM fun value _ => (checks_requireName .enumValue value.name).map _
  refine ((checks_requireName .enumeration enumeration.name).bind fun _ _ => hvalues.map _).congr ?_
  constructor
  · rintro ⟨hname, hvalues⟩
    exact ⟨hname, hvalues⟩
  · intro henum
    exact ⟨henum.name, henum.values⟩

theorem shows_iff {body : MessageBody} {nested : List Message} {inner : Message} :
    Shows (.mk body nested) inner ↔ inner ∈ shownMessages true nested := by
  simp [Shows, shownMessages, Message.nested]

theorem checks_predecessor {value : Int} (hpanics : value ≤ lowestInteger → panics .overflow) :
    Checks panics (predecessor value) (lowestInteger < value) := by
  unfold predecessor
  split
  · next hlow => exact ⟨not_lt.2 hlow, .panicked (hpanics hlow)⟩
  · next hlow => exact not_le.1 hlow

theorem checks_messageReserved {body : MessageBody}
    (hpanics : ∀ range ∈ body.reservedRanges, range.stop ≤ lowestInteger → panics .overflow) :
    Checks panics (messageReserved body)
      (∀ range ∈ body.reservedRanges, lowestInteger < range.stop) := by
  have hranges : Checks panics (body.reservedRanges.mapM fun range => do
      return rangeText maxFieldNumber range.start (← predecessor range.stop)) _ :=
    .mapM fun range hrange => (checks_predecessor (hpanics range hrange)).map _
  exact hranges.map _

/-- There is reason to panic if a message that is shown has a range below all integers. -/
def FearsRanges (panics : Panic → Prop) (message : Message) : Prop :=
  ∀ inner, Relation.ReflTransGen Shows message inner → ∀ range ∈ inner.body.reservedRanges,
    range.stop ≤ lowestInteger → panics .overflow

mutual

theorem checks_messageBlock (scope : Scope) (message : Message)
    (hpanics : FearsRanges panics message) :
    Checks panics (messageBlock scope message)
      (∀ inner, Relation.ReflTransGen Shows message inner → PrintableMessage inner) := by
  obtain ⟨body, nested⟩ := message
  have hreserved := checks_messageReserved (hpanics (.mk body nested) .refl)
  have hinner : ∀ inner ∈ shownMessages true nested, FearsRanges panics inner :=
    fun inner hinner message hshown => hpanics message (.head (shows_iff.2 hinner) hshown)
  have henums : Checks panics (body.enums.mapM enumBlock) _ :=
    .mapM fun enumeration _ => checks_enumBlock enumeration
  rw [messageBlock]
  refine ((checks_requireName .message body.name).bind fun _ _ =>
    (checks_messageFields (.mk body nested) (scope.nested body.name)).bind fun _ _ =>
      hreserved.bind fun _ _ => henums.bind fun _ _ =>
        (checks_messageBlocks true (scope.nested body.name) nested hinner).map _).congr ?_
  rw [forall_reflTransGen]
  simp only [shows_iff]
  constructor
  · rintro ⟨hname, ⟨hfields, honeofs⟩, hranges, henums, hnested⟩
    exact ⟨⟨hname, hfields, honeofs, hranges, henums⟩, hnested⟩
  · rintro ⟨hmessage, hnested⟩
    exact ⟨hmessage.name, ⟨hmessage.fields, hmessage.oneofs⟩, hmessage.ranges, hmessage.enums,
      hnested⟩

theorem checks_messageBlocks (hideEntries : Bool) (scope : Scope) (messages : List Message)
    (hpanics : ∀ message ∈ shownMessages hideEntries messages, FearsRanges panics message) :
    Checks panics (messageBlocks hideEntries scope messages)
      (∀ message ∈ shownMessages hideEntries messages, ∀ inner,
        Relation.ReflTransGen Shows message inner → PrintableMessage inner) := by
  cases messages with
  | nil => exact .pure (by simp [shownMessages])
  | cons message rest =>
      rw [shownMessages, List.filter_cons] at hpanics
      rw [messageBlocks, shownMessages, List.filter_cons]
      cases hhidden : hideEntries && message.isMapEntry with
      | true =>
          rw [hhidden] at hpanics
          exact checks_messageBlocks hideEntries scope rest hpanics
      | false =>
          rw [hhidden, if_pos (by simp), List.forall_mem_cons] at hpanics
          rw [if_neg (by simp), if_pos (by simp), List.forall_mem_cons]
          exact (checks_messageBlock scope message hpanics.1).bind fun _ _ =>
            (checks_messageBlocks hideEntries scope rest hpanics.2).map _

end

theorem checks_bindingItems (method : String) (binding : Http.Binding) :
    Checks panics (bindingItems method binding) (binding.pattern? ≠ none) := by
  have hpattern : Checks panics (binding.pattern method) (binding.pattern? ≠ none) := by
    unfold Http.Binding.pattern
    cases binding.pattern? with
    | none => exact ⟨by simp, .unsetHttpRule method⟩
    | some pattern =>
        have hset : (some pattern : Option Http.Pattern) ≠ none := by simp
        exact hset
  exact hpattern.map _

mutual

theorem checks_ruleItems (method : String) (rule : Http.Rule) :
    Checks panics (ruleItems method rule)
      (∀ inner, Relation.ReflTransGen Binds rule inner → inner.binding.pattern? ≠ none) := by
  obtain ⟨binding, additional⟩ := rule
  rw [ruleItems, forall_reflTransGen]
  exact (checks_bindingItems method binding).bind fun _ _ =>
    (checks_additionalBlocks method additional).map _

theorem checks_additionalBlocks (method : String) (rules : List Http.Rule) :
    Checks panics (additionalBlocks method rules)
      (∀ rule ∈ rules, ∀ inner, Relation.ReflTransGen Binds rule inner →
        inner.binding.pattern? ≠ none) := by
  cases rules with
  | nil => exact .pure (by simp)
  | cons rule rest =>
      rw [additionalBlocks, List.forall_mem_cons]
      exact (checks_ruleItems method rule).bind fun _ _ =>
        (checks_additionalBlocks method rest).map _

end

theorem checks_ruleBlock (fullName : String) (rule? : Option Http.Rule) :
    Checks panics (ruleBlock fullName rule?)
      (∀ rule ∈ rule?, ∀ inner, Relation.ReflTransGen Binds rule inner →
        inner.binding.pattern? ≠ none) := by
  cases rule? with
  | none => exact .pure (by simp)
  | some rule => exact ((checks_ruleItems fullName rule).map _).congr (by simp)

theorem checks_ruleOf (fullName : String) (method : Method) :
    Checks panics (Http.ruleOf fullName method)
      (∃ rule?, Http.Rule.ofOptions (payloadOf method) = .ok rule?) := by
  unfold Http.ruleOf payloadOf
  cases Http.Rule.ofOptions ((method.options?.map (·.payload)).getD []) with
  | error fault => exact ⟨by simp, .httpRule fullName fault⟩
  | ok rule? =>
      have hdecoded : ∃ found, (.ok rule? : Except Wire.Fault (Option Http.Rule)) = .ok found :=
        ⟨rule?, rfl⟩
      exact hdecoded

theorem checks_methodItem (serviceName : String) (scope : Scope) (method : Method) :
    Checks panics (methodItem serviceName scope method) (PrintableMethod method) := by
  have hblock (fullName : String) (rule? : Option Http.Rule)
      (hrule : Http.ruleOf fullName method = .ok rule?) :
      Checks panics (ruleBlock fullName rule?)
        (∀ found, Http.Rule.ofOptions (payloadOf method) = .ok found →
          ∀ rule ∈ found, ∀ inner, Relation.ReflTransGen Binds rule inner →
            inner.binding.pattern? ≠ none) := by
    refine (checks_ruleBlock fullName rule?).congr ?_
    simp [ruleOf_eq_ok.1 hrule]
  refine ((checks_requireName .method method.name).bind fun _ _ =>
    (checks_ruleOf (Name.join serviceName method.name) method).bind fun rule? hrule =>
      (hblock _ rule? hrule).map _).congr ?_
  constructor
  · rintro ⟨hname, ⟨rule?, hrule⟩, hpatterns⟩
    exact ⟨hname, rule?, hrule, hpatterns rule? hrule⟩
  · rintro ⟨hname, rule?, hrule, hpatterns⟩
    refine ⟨hname, ⟨rule?, hrule⟩, fun found hfound => ?_⟩
    obtain rfl : rule? = found := Except.ok.inj (hrule.symm.trans hfound)
    exact hpatterns

theorem checks_serviceBlock (scope : Scope) (fullName : String) (service : Service) :
    Checks panics (serviceBlock scope fullName service) (PrintableService service) := by
  have hmethods : Checks panics (service.methods.mapM (methodItem fullName
      (scope.nested service.name))) _ :=
    .mapM fun method _ => checks_methodItem fullName (scope.nested service.name) method
  refine ((checks_requireName .service service.name).bind fun _ _ => hmethods.map _).congr ?_
  constructor
  · rintro ⟨hname, hmethods⟩
    exact ⟨hname, hmethods⟩
  · intro hservice
    exact ⟨hservice.name, hservice.methods⟩

/-- A service is printed once it is found; a look-up that finds none panics. -/
theorem checks_foundService {pool : Pool} {file : File} {found : Except Error (String × Service)}
    (hfound : found ∈ pool.services file) (scope : Scope) :
    Checks (Panics (pool.services file) file)
      (found >>= fun entry => serviceBlock scope entry.1 entry.2)
      (∃ entry, found = .ok entry ∧ PrintableService entry.2) := by
  cases found with
  | ok entry => exact (checks_serviceBlock scope entry.1 entry.2).congr (by simp)
  | error error =>
      obtain ⟨name, -, hmissed⟩ := List.mem_map.1 hfound
      split at hmissed
      · exact nomatch hmissed
      · obtain rfl := Except.error.inj hmissed
        exact ⟨by simp, .panicked (.undeclared hfound)⟩

theorem checks_printFile (width : Nat) (pool : Pool) (file : File) :
    Checks (Panics (pool.services file) file) (printFile width pool file)
      (PrintableFile (pool.services file) file) := by
  let scope := Scope.ofPackage pool.files file.package
  have hservices : Checks (Panics (pool.services file) file) ((pool.services file).mapM fun found =>
      found >>= fun entry => serviceBlock scope entry.1 entry.2) _ :=
    .mapM fun found hfound => checks_foundService hfound scope
  have hall : shownMessages false file.messages = file.messages := by simp [shownMessages]
  have hpanics : ∀ message ∈ shownMessages false file.messages,
      FearsRanges (Panics (pool.services file) file) message := by
    rw [hall]
    exact fun outer houter message hshown range hrange hlow =>
      .overflow houter hshown hrange hlow
  have hmessages := checks_messageBlocks false scope file.messages hpanics
  have henums : Checks (Panics (pool.services file) file) (file.enums.mapM enumBlock) _ :=
    .mapM fun enumeration _ => checks_enumBlock enumeration
  rw [hall] at hmessages
  refine ((hservices.bind fun _ _ => hmessages.bind fun _ _ => henums.map _).map _).congr ?_
  constructor
  · rintro ⟨hservices, hmessages, henums⟩
    exact ⟨hservices, hmessages, henums⟩
  · intro hfile
    exact ⟨hfile.services, hfile.messages, hfile.enums⟩

/-- A file of a pool is printed exactly if it can be with the services that the pool lists
for it, and they are its own if none has a full name that starts with a dot.  If it is not
printed, that is for a flaw, a rule without a pattern or a rule that cannot be decoded, or
it is a panic that there is reason for. -/
theorem exists_printFile_iff_printable {files : List (Dialect × File)} {pool : Pool}
    (hpool : Pool.ofDialects files = .ok pool) {file : File} (hfile : file ∈ pool.files)
    (width : Nat) :
    ((∃ text, printFile width pool file = .ok text) ↔ PrintableFile (pool.services file) file) ∧
      ((∀ name ∈ serviceNames file, Name.bare name = name) →
        pool.services file = (servicesOf file).map .ok) ∧
      ∀ error, printFile width pool file = .error error →
        error.OfPrinting (Panics (pool.services file) file) := by
  have hchecks := checks_printFile width pool file
  obtain ⟨symbols, resolved, hbuilds⟩ := exists_builds hpool
  refine ⟨hchecks.exists_ok_iff, hbuilds.services_eq hfile, fun error herror => ?_⟩
  rw [herror] at hchecks
  exact hchecks.ofPrinting

/-- The rule of the method has a binding in it, and the oneof without a name has no
members. -/
def bindingFile : File where
  name? := some "b.proto"
  package? := some "demo"
  messages :=
    [.mk { name? := some "M"
           fields :=
             [{ name? := some "names", number? := some 1, labelCode? := some Label.repeated.code
                typeCode? := some FieldType.message.code, typeName? := some ".demo.M.NamesEntry" },
              { name? := some "count", number? := some 2, typeCode? := some FieldType.int32.code
                oneofIndex? := some 1 }]
           oneofs := [{}, { name? := some "size" }] }
       [.mk { name? := some "NamesEntry"
              fields :=
                [{ name? := some "key", number? := some 1, typeCode? := some FieldType.int32.code },
                 { name? := some "value", number? := some 2,
                   typeCode? := some FieldType.message.code
                   typeName? := some ".demo.M" }]
              options? := some (.ofSettings [(mapEntryNumber, .flag true)]) } []]]
  services :=
    [{ name? := some "S"
       methods :=
         [{ name? := some "m", inputType? := some ".demo.M", outputType? := some ".demo.M"
            options? := some { payload :=
              [130, 211, 228, 147, 2, 8, 18, 1, 97, 90, 3, 34, 1, 98] } }] }]
  dialect? := some "proto3"

theorem printable_bindingFile : ∃ pool file, Pool.ofDialects [(.proto3, bindingFile)] = .ok pool ∧
    file ∈ pool.files ∧ PrintableFile ((servicesOf file).map .ok) file := by
  have hcomputed : (Pool.ofDialects [(.proto3, bindingFile)]).toOption.map (fun pool => decide (
      ∃ file ∈ pool.files, (∀ name ∈ serviceNames file, Name.bare name = name) ∧
        (printFile 2 pool file).toOption.isSome)) = some true := by
    decide +kernel
  obtain ⟨pool, hpool, hfound⟩ := exists_ok_of_map_eq_some hcomputed
  obtain ⟨file, hfile, hbare, hprint⟩ := of_decide_eq_true hfound
  obtain ⟨hiff, hservices, -⟩ := exists_printFile_iff_printable hpool hfile 2
  exact ⟨pool, file, hpool, hfile, hservices hbare ▸ hiff.1 (exists_ok_of_isSome hprint)⟩

/-- Two services whose names differ by a dot; the rule of the second has no pattern. -/
def dottedFile : File where
  name? := some "d.proto"
  messages := [.mk { name? := some "M" } []]
  services :=
    [{ name? := some "S"
       methods := [{ name? := some "m", inputType? := some ".M", outputType? := some ".M" }] },
     { name? := some ".S"
       methods :=
         [{ name? := some "n", inputType? := some ".M", outputType? := some ".M"
            options? := some { payload := [130, 211, 228, 147, 2, 3, 58, 1, 42] } }] }]
  dialect? := some "proto3"

/-- A lone service whose name starts with a dot. -/
def lostFile : File where
  name? := some "l.proto"
  services := [{ name? := some ".S" }]
  dialect? := some "proto3"

/-- The first service of the one file is printed in place of the second, whose rule could
not be; the service of the other file could be printed, but is not found. -/
theorem printed_dottedFile :
    (∃ pool file text, Pool.ofDialects [(.proto3, dottedFile)] = .ok pool ∧ file ∈ pool.files ∧
      printFile 2 pool file = .ok text ∧ ¬PrintableFile ((servicesOf file).map .ok) file) ∧
    ∃ pool file, Pool.ofDialects [(.proto3, lostFile)] = .ok pool ∧ file ∈ pool.files ∧
      printFile 2 pool file = .error (.panicked (.undeclared "S")) ∧
      PrintableFile ((servicesOf file).map .ok) file := by
  constructor
  · have hcomputed : (Pool.ofDialects [(.proto3, dottedFile)]).toOption.map (fun pool => decide (
        ∃ file ∈ pool.files, (printFile 2 pool file).toOption.isSome ∧
          ∃ entry ∈ servicesOf file, ∃ method ∈ entry.2.methods,
            (Http.Rule.ofOptions (payloadOf method)).toOption.map
              (·.map (·.binding.pattern?.isNone)) = some (some true))) = some true := by
      decide
    obtain ⟨pool, hpool, hfound⟩ := exists_ok_of_map_eq_some hcomputed
    obtain ⟨file, hfile, hprint, entry, hentry, method, hmethod, hunset⟩ := of_decide_eq_true hfound
    obtain ⟨text, htext⟩ := exists_ok_of_isSome hprint
    refine ⟨pool, file, text, hpool, hfile, htext, fun hprintable => ?_⟩
    obtain ⟨found, hdecoded, hpattern⟩ := exists_ok_of_map_eq_some hunset
    obtain ⟨rule, rfl, hnone⟩ := Option.map_eq_some_iff.1 hpattern
    obtain ⟨_, hsame, hservice⟩ := hprintable.services _ (List.mem_map_of_mem hentry)
    obtain rfl := Except.ok.inj hsame
    obtain ⟨-, rule?, hrule, hpatterns⟩ := hservice.methods method hmethod
    obtain rfl : some rule = rule? := Except.ok.inj (hdecoded.symm.trans hrule)
    exact hpatterns rule rfl rule .refl (Option.isNone_iff_eq_none.1 hnone)
  · have hcomputed : (Pool.ofDialects [(.proto3, lostFile)]).toOption.map (fun pool => decide (
        ∃ file ∈ pool.files, printFile 2 pool file = .error (.panicked (.undeclared "S")) ∧
          (∀ entry ∈ servicesOf file, entry.2.name ≠ "" ∧ entry.2.methods.length = 0) ∧
          file.messages.length = 0 ∧ file.enums.length = 0)) = some true := by
      decide
    obtain ⟨pool, hpool, hfound⟩ := exists_ok_of_map_eq_some hcomputed
    obtain ⟨file, hfile, hprint, hservices, hmessages, henums⟩ := of_decide_eq_true hfound
    refine ⟨pool, file, hpool, hfile, hprint, ?_, ?_, ?_⟩
    · rw [List.forall_mem_map]
      intro entry hentry
      obtain ⟨hname, hmethods⟩ := hservices entry hentry
      exact ⟨entry, rfl, hname, by simp [List.eq_nil_of_length_eq_zero hmethods]⟩
    · simp [List.eq_nil_of_length_eq_zero hmessages]
    · simp [List.eq_nil_of_length_eq_zero henums]

end Render

end ProtoSource
