import ProtoSource.Proofs.Http.Rules
import ProtoSource.Proofs.Wire.Forms
import ProtoSource.Proofs.Wire.Levels

/-!
# Rules read back from options

The option that holds nothing but a rule reads back as this rule, whatever other
options stand around it, unless the rule nests deeper than messages may.  A binding
takes a level below the rule that it is an addition to, and so does a custom pattern.
-/

namespace ProtoSource.Http

open ProtoSource.Wire
open ProtoSource.Wire.Records
open ProtoSource.WellKnown (httpNumber)

/-- The levels below a binding. -/
def Binding.levels (binding : Binding) : Nat :=
  match binding.pattern? with
  | some (.custom _ _) => 1
  | _ => 0

mutual

/-- The messages on the longest way into a rule, itself and the pattern included. -/
def Rule.levels : Rule → Nat
  | .mk binding additional => max binding.levels (levelsOfAll additional) + 1

def Rule.levelsOfAll : List Rule → Nat
  | [] => 0
  | rule :: rest => max rule.levels (levelsOfAll rest)

end

/-! ## Depth -/

theorem depthOf_textRecord (number : Nat) (value : String) :
    depthOf (textRecord number value) = 0 := by
  unfold textRecord
  split <;> simp [depthOf, depthOfRecord]

theorem depthOf_pattern (binding : Binding) :
    depthOf (binding.pattern?.toList.map Pattern.record) = binding.levels := by
  unfold Binding.levels
  split
  · next hpattern =>
      simp [hpattern, Pattern.record, Record.embed, depthOf, depthOfRecord, depthOf_append,
        depthOf_textRecord]
  · next hother =>
      cases hpattern : binding.pattern? with
      | none => rfl
      | some pattern =>
          cases pattern with
          | custom kind path => exact absurd hpattern (hother kind path)
          | _ => simp [Pattern.record, depthOf, depthOfRecord]

mutual

theorem Rule.depthOf_records (rule : Rule) : depthOf rule.records + 1 = rule.levels := by
  obtain ⟨binding, additional⟩ := rule
  simp only [records, Binding.recordsWith, depthOf_append, depthOf_textRecord, depthOf_pattern,
    depthOf_additionalRecords additional, levels, Nat.zero_max, Nat.max_zero]

theorem Rule.depthOf_additionalRecords (rules : List Rule) :
    depthOf (additionalRecords rules) = levelsOfAll rules := by
  cases rules with
  | nil => simp [additionalRecords, depthOf, levelsOfAll]
  | cons rule rest =>
      rw [additionalRecords, depthOf, Record.embed, depthOfRecord, depthOf_records rule,
        depthOf_additionalRecords rest, levelsOfAll]

end

/-! ## Records -/

section Records

theorem text?_append (number : Nat) (front back : List Record) :
    text? number (front ++ back) = (text? number back).or (text? number front) := by
  simp [text?, texts, List.getLast?_append]

theorem getD_text?_textRecord (number : Nat) (value : String) :
    (text? number (textRecord number value)).getD "" = value := by
  unfold textRecord
  split
  · next hempty => exact (String.isEmpty_iff.1 hempty).symm
  · simp [text?, texts]

theorem text?_textRecord_of_ne {number found : Nat} (hne : found ≠ number) (value : String) :
    text? number (textRecord found value) = none := by
  unfold textRecord
  split <;> simp [text?, texts, hne]

theorem text?_pattern {number : Nat} (hnumber : number ∉ patternNumbers) (binding : Binding) :
    text? number (binding.pattern?.toList.map Pattern.record) = none := by
  cases binding.pattern? with
  | none => rfl
  | some pattern =>
      simp only [patternNumbers, List.mem_cons, List.not_mem_nil, or_false, not_or] at hnumber
      cases pattern <;> simp [Pattern.record, Record.embed, text?, texts] <;> omega

theorem text?_additionalRecords (number : Nat) (rules : List Rule) :
    text? number (Rule.additionalRecords rules) = none := by
  induction rules with
  | nil => rfl
  | cons rule rest ih =>
      rw [Rule.additionalRecords]
      exact ih

theorem messages_append (number : Nat) (front back : List Record) :
    messages number (front ++ back) = messages number front ++ messages number back := by
  simp [messages]

theorem messages_textRecord (number found : Nat) (value : String) :
    messages number (textRecord found value) = [] := by
  unfold textRecord
  split <;> simp [messages]

theorem number_of_mem_textRecord {number : Nat} {value : String} {record : Record}
    (hmem : record ∈ textRecord number value) : record.number = number := by
  unfold textRecord at hmem
  split at hmem
  · simp at hmem
  · rw [List.mem_singleton.1 hmem]
    rfl

theorem number_of_mem_additionalRecords {rules : List Rule} {record : Record}
    (hmem : record ∈ Rule.additionalRecords rules) : record.number = 11 := by
  induction rules with
  | nil => simp [Rule.additionalRecords] at hmem
  | cons rule rest ih =>
      rw [Rule.additionalRecords, List.mem_cons] at hmem
      obtain rfl | hmem := hmem
      · rfl
      · exact ih hmem

end Records

section Bindings

variable {binding : Binding} {additional : List Rule}

/-- Only the pattern has the number of a pattern. -/
theorem mem_pattern_of_mem_recordsWith {record : Record}
    (hmem : record ∈ binding.recordsWith (Rule.additionalRecords additional))
    (hnumber : record.number ∈ patternNumbers) :
    ∃ pattern, binding.pattern? = some pattern ∧ record = pattern.record := by
  simp only [Binding.recordsWith, List.mem_append] at hmem
  obtain (((hselector | hpattern) | hbody) | hadditional) | hresponse := hmem
  · rw [number_of_mem_textRecord hselector] at hnumber
    exact absurd hnumber (by decide)
  · obtain ⟨pattern, hmem, rfl⟩ := List.mem_map.1 hpattern
    exact ⟨pattern, Option.mem_toList.1 hmem, rfl⟩
  · rw [number_of_mem_textRecord hbody] at hnumber
    exact absurd hnumber (by decide)
  · rw [number_of_mem_additionalRecords hadditional] at hnumber
    exact absurd hnumber (by decide)
  · rw [number_of_mem_textRecord hresponse] at hnumber
    exact absurd hnumber (by decide)

theorem mem_patternNumbers_of_isSome {number : Nat}
    (hchoice : (schema.choice? .rule number).isSome) :
    number ∈ patternNumbers := by
  by_contra hnumber
  cases hkind : Part.rule.kind? number <;>
    simp [Schema.choice?, schema, Part.field?, hkind, hnumber] at hchoice

/-- One pattern takes nothing back. -/
theorem settle_recordsWith :
    schema.settle .rule (binding.recordsWith (Rule.additionalRecords additional)) =
      binding.recordsWith (Rule.additionalRecords additional) := by
  refine Schema.settle_eq_self fun record hrecord other hother hexcludes => ?_
  obtain ⟨hchoice, hsame, hne⟩ := hexcludes
  have hnumber := mem_patternNumbers_of_isSome hchoice
  have hnumber' := mem_patternNumbers_of_isSome (hsame ▸ hchoice)
  obtain ⟨pattern, hpattern, rfl⟩ := mem_pattern_of_mem_recordsWith hrecord hnumber
  obtain ⟨pattern', hpattern', rfl⟩ := mem_pattern_of_mem_recordsWith hother hnumber'
  obtain rfl : pattern = pattern' := Option.some.inj (hpattern.symm.trans hpattern')
  exact hne rfl

theorem text?_recordsWith_of_pattern {number : Nat} (hnumber : number ∈ patternNumbers) :
    text? number (binding.recordsWith (Rule.additionalRecords additional)) =
      text? number (binding.pattern?.toList.map Pattern.record) := by
  have hne {found : Nat} (hfound : found ∉ patternNumbers) : found ≠ number :=
    fun heq => hfound (heq ▸ hnumber)
  simp only [Binding.recordsWith, text?_append, text?_additionalRecords,
    text?_textRecord_of_ne (hne (show 1 ∉ patternNumbers by decide)),
    text?_textRecord_of_ne (hne (show 7 ∉ patternNumbers by decide)),
    text?_textRecord_of_ne (hne (show 12 ∉ patternNumbers by decide)), Option.none_or,
      Option.or_none]

theorem message?_recordsWith_custom :
    message? 8 (binding.recordsWith (Rule.additionalRecords additional)) =
      message? 8 (binding.pattern?.toList.map Pattern.record) := by
  have hadditional : messages 8 (Rule.additionalRecords additional) = [] := by
    induction additional with
    | nil => rfl
    | cons rule rest ih =>
        rw [Rule.additionalRecords]
        exact ih
  simp only [message?, Binding.recordsWith, messages_append, messages_textRecord, hadditional,
    List.nil_append, List.append_nil]

theorem Pattern.ofRecords?_recordsWith :
    Pattern.ofRecords? (binding.recordsWith (Rule.additionalRecords additional)) =
      binding.pattern? := by
  have htext (number : Nat) (hnumber : number ∈ patternNumbers) :=
    @text?_recordsWith_of_pattern binding additional number hnumber
  unfold Pattern.ofRecords?
  rw [htext 2 (by decide), htext 3 (by decide), htext 4 (by decide), htext 5 (by decide),
    htext 6 (by decide), message?_recordsWith_custom]
  cases binding.pattern? with
  | none => rfl
  | some pattern =>
      cases pattern with
      | custom kind path =>
          have hkind : (text? 1 (textRecord 1 kind ++ textRecord 2 path)).getD "" = kind := by
            rw [text?_append, text?_textRecord_of_ne (by decide), Option.none_or,
              getD_text?_textRecord]
          have hpath : (text? 2 (textRecord 1 kind ++ textRecord 2 path)).getD "" = path := by
            rw [text?_append, text?_textRecord_of_ne (show 1 ≠ 2 by decide), Option.or_none,
              getD_text?_textRecord]
          have hmessage : message? 8 [Record.embed 8 (textRecord 1 kind ++ textRecord 2 path)] =
              some (textRecord 1 kind ++ textRecord 2 path) := by
            simp [message?, messages, Record.embed]
          simp only [Option.toList_some, List.map_cons, List.map_nil, Pattern.record, hmessage,
            Option.map_some, hkind, hpath]
          rfl
      | _ => rfl

theorem Binding.ofRecords_recordsWith :
    Binding.ofRecords (binding.recordsWith (Rule.additionalRecords additional)) = binding := by
  have hpattern {number : Nat} (hnumber : number ∉ patternNumbers) := text?_pattern hnumber binding
  have hselector : (text? 1 (binding.recordsWith (Rule.additionalRecords additional))).getD "" =
      binding.selector := by
    simp only [recordsWith, text?_append, text?_additionalRecords, hpattern (by decide : 1 ∉ _),
      text?_textRecord_of_ne (by decide : 7 ≠ 1), text?_textRecord_of_ne (by decide : 12 ≠ 1),
      Option.none_or, getD_text?_textRecord]
  have hbody : (text? 7 (binding.recordsWith (Rule.additionalRecords additional))).getD "" =
      binding.body := by
    simp only [recordsWith, text?_append, text?_additionalRecords, hpattern (by decide : 7 ∉ _),
      text?_textRecord_of_ne (by decide : 1 ≠ 7), text?_textRecord_of_ne (by decide : 12 ≠ 7),
      Option.none_or, Option.or_none, getD_text?_textRecord]
  have hresponse : (text? 12 (binding.recordsWith (Rule.additionalRecords additional))).getD "" =
      binding.responseBody := by
    simp only [recordsWith, text?_append, text?_additionalRecords, hpattern (by decide : 12 ∉ _),
      text?_textRecord_of_ne (by decide : 1 ≠ 12), text?_textRecord_of_ne (by decide : 7 ≠ 12),
      Option.or_none, getD_text?_textRecord]
  rw [Binding.ofRecords, settle_recordsWith, Pattern.ofRecords?_recordsWith, hselector, hbody,
    hresponse]

theorem messages_recordsWith :
    messages 11 (binding.recordsWith (Rule.additionalRecords additional)) =
      additional.map Rule.records := by
  have hpattern : messages 11 (binding.pattern?.toList.map Pattern.record) = [] := by
    cases binding.pattern? with
    | none => rfl
    | some pattern => cases pattern <;> rfl
  have hadditional : messages 11 (Rule.additionalRecords additional) =
      additional.map Rule.records := by
    induction additional with
    | nil => rfl
    | cons rule rest ih =>
        rw [Rule.additionalRecords, List.map_cons, ← ih]
        rfl
  simp only [Binding.recordsWith, messages_append, messages_textRecord, hpattern, hadditional,
    List.nil_append, List.append_nil]

end Bindings

mutual

theorem Rule.ofRecords_records (rule : Rule) : ofRecords rule.records = rule := by
  obtain ⟨binding, additional⟩ := rule
  rw [records, ofRecords, Binding.ofRecords_recordsWith, additionalOfRecords_eq,
    messages_recordsWith, List.map_map, map_ofRecords_records additional]

theorem Rule.map_ofRecords_records (rules : List Rule) :
    rules.map (ofRecords ∘ records) = rules := by
  cases rules with
  | nil => rfl
  | cons rule rest =>
      rw [List.map_cons, Function.comp_apply, ofRecords_records rule, map_ofRecords_records rest]

end

section Carries

theorem isFieldNumber_of_field? {part : Part} {number : Nat} {spec : FieldSpec Part}
    (hfield : schema.field? part number = some spec) : IsFieldNumber number := by
  obtain ⟨kind, hkind, -⟩ := Option.map_eq_some_iff.1 hfield
  unfold IsFieldNumber
  unfold Part.kind? at hkind
  split at hkind
  · split_ifs at hkind with hnumber
    exact hnumber ▸ by decide
  · split at hkind
    · decide
    · decide
    · split_ifs at hkind with hnumber
      simp only [List.mem_cons, List.not_mem_nil, or_false] at hnumber
      omega
  · split_ifs at hkind with hnumber
    simp only [List.mem_cons, List.not_mem_nil, or_false] at hnumber
    omega

theorem carries_text {part : Part} {number : Nat} {value : String} {spec : FieldSpec Part}
    (hfield : schema.field? part number = some spec) (hkind : spec.kind = .text) :
    schema.Carries part (.text number value) :=
  .text hfield (isFieldNumber_of_field? hfield) hkind

theorem carries_embed {part type : Part} {number : Nat} {spec : FieldSpec Part}
    {records : List Record} (hfield : schema.field? part number = some spec)
    (hkind : spec.kind = .message type)
    (hrecords : ∀ record ∈ records, schema.Carries type record) :
    schema.Carries part (.embed number records) :=
  .message hfield (isFieldNumber_of_field? hfield) hkind hrecords

theorem carries_textRecord {part : Part} {number : Nat} {value : String} {spec : FieldSpec Part}
    (hfield : schema.field? part number = some spec) (hkind : spec.kind = .text) :
    ∀ record ∈ textRecord number value, schema.Carries part record := by
  intro record hrecord
  unfold textRecord at hrecord
  split at hrecord
  · simp at hrecord
  · rw [List.mem_singleton.1 hrecord]
    exact carries_text hfield hkind

theorem Pattern.carries_record (pattern : Pattern) : schema.Carries .rule pattern.record := by
  cases pattern with
  | custom kind path =>
      refine carries_embed rfl rfl fun record hrecord => ?_
      obtain hkind | hpath := List.mem_append.1 hrecord
      · exact carries_textRecord rfl rfl record hkind
      · exact carries_textRecord rfl rfl record hpath
  | _ => exact carries_text rfl rfl

mutual

theorem Rule.carries_records (rule : Rule) :
    ∀ record ∈ rule.records, schema.Carries .rule record := by
  obtain ⟨binding, additional⟩ := rule
  intro record hrecord
  simp only [records, Binding.recordsWith, List.mem_append] at hrecord
  obtain (((hselector | hpattern) | hbody) | hadditional) | hresponse := hrecord
  · exact carries_textRecord rfl rfl record hselector
  · obtain ⟨pattern, -, rfl⟩ := List.mem_map.1 hpattern
    exact pattern.carries_record
  · exact carries_textRecord rfl rfl record hbody
  · exact carries_additionalRecords additional record hadditional
  · exact carries_textRecord rfl rfl record hresponse

theorem Rule.carries_additionalRecords (rules : List Rule) :
    ∀ record ∈ additionalRecords rules, schema.Carries .rule record := by
  cases rules with
  | nil => simp [additionalRecords]
  | cons rule rest =>
      rw [additionalRecords, List.forall_mem_cons]
      exact ⟨carries_embed rfl rfl rule.carries_records, carries_additionalRecords rest⟩

end

end Carries

section Options

variable {rule : Rule} {front back : Bytes}

/-- Other fields of the options are read back as they are. -/
theorem holds_otherFields {bytes : Bytes} (hfields : FieldsBut httpNumber bytes) {budget : Nat}
    (hbudget : 0 < budget) :
    ∃ records, schema.Holds budget .methodOptions bytes records ∧
      messages httpNumber records = [] := by
  obtain ⟨raws, hraws, hall⟩ := hfields.exists_holdsRaw
  refine ⟨raws, Schema.holds_of_interprets (isFlat_schema _) hraws ?_, ?_⟩
  · refine List.forall₂_same.2 fun raw hraw => .unknown (field?_methodOptions (hall raw hraw).1) ?_
    have hpasses : passDepthOfRecord raw ≤ budget := by
      rw [(hall raw hraw).2]
      exact hbudget
    simpa [Schema.Passes, schema] using hpasses
  · have hown : own httpNumber raws = [] :=
      List.filter_eq_nil_iff.2 fun raw hraw => by simpa using (hall raw hraw).1
    rw [← Schema.messages_own, hown]
    rfl

theorem holds_toOptions (hlength : rule.toOptions.length < 2 ^ 64) {budget : Nat}
    (hlevels : rule.levels ≤ budget) :
    schema.Holds budget .methodOptions rule.toOptions [.embed httpNumber rule.records] := by
  refine Schema.holds_encode_of_depthOf_le isFlat_schema (fun _ => rfl) ?_ hlength ?_
  · rw [List.forall_mem_singleton]
    exact carries_embed field?_httpNumber rfl rule.carries_records
  · rw [depthOf, depthOf, Record.embed, depthOfRecord, rule.depthOf_records, Nat.max_zero]
    exact hlevels

/-- The budget of a decoder need not be the one that allows all levels of the rule. -/
theorem holds_options (hfront : FieldsBut httpNumber front) (hback : FieldsBut httpNumber back)
    (hlength : rule.toOptions.length < 2 ^ 64) {budget : Nat} (hlevels : rule.levels ≤ budget) :
    ∃ fronts backs, schema.Holds budget .methodOptions (front ++ rule.toOptions ++ back)
        (fronts ++ [.embed httpNumber rule.records] ++ backs) ∧
      messages httpNumber fronts = [] ∧ messages httpNumber backs = [] := by
  have hbudget : 0 < budget := by
    have hdepth := rule.depthOf_records
    omega
  obtain ⟨fronts, hfronts, hnone⟩ := holds_otherFields hfront hbudget
  obtain ⟨backs, hbacks, hnone'⟩ := holds_otherFields hback hbudget
  exact ⟨fronts, backs, (hfronts.append (holds_toOptions hlength hlevels)).append hbacks,
    hnone, hnone'⟩

theorem Rule.ofOptions_of_levels_le (hfront : FieldsBut httpNumber front)
    (hback : FieldsBut httpNumber back) (hlength : rule.toOptions.length < 2 ^ 64)
    (hlevels : rule.levels ≤ nestingLimit) :
    ofOptions (front ++ rule.toOptions ++ back) = .ok (some rule) := by
  obtain ⟨fronts, backs, hholds, hnone, hnone'⟩ := holds_options hfront hback hlength hlevels
  refine ofOptions_eq_ok.2 ⟨_, hholds, ?_⟩
  have hmessages : messages httpNumber (fronts ++ [.embed httpNumber rule.records] ++ backs) =
      [rule.records] := by
    rw [messages_append, messages_append, hnone, hnone', List.nil_append, List.append_nil]
    simp [messages, Record.embed]
  simp only [message?, hmessages, List.flatten_singleton, Option.map_some, rule.ofRecords_records]

theorem Rule.ofOptions_of_levels_gt (hfront : FieldsBut httpNumber front)
    (hback : FieldsBut httpNumber back) (hlength : rule.toOptions.length < 2 ^ 64)
    (hlevels : nestingLimit < rule.levels) :
    ∃ places, ofOptions (front ++ rule.toOptions ++ back) = .error ⟨places, .nestedTooDeeply⟩ := by
  obtain ⟨fronts, backs, hholds, -, -⟩ :=
    holds_options hfront hback hlength (Nat.le_refl rule.levels)
  have hdeep : nestingLimit < depthOf (fronts ++ [.embed httpNumber rule.records] ++ backs) := by
    have hdepth : depthOf [.embed httpNumber rule.records] = rule.levels := by
      rw [depthOf, depthOf, Record.embed, depthOfRecord, rule.depthOf_records, Nat.max_zero]
    rw [depthOf_append, depthOf_append, hdepth]
    omega
  obtain ⟨places, hdecode⟩ :=
    Schema.decode_of_depthOf_gt isFlat_schema (Nat.le_of_lt hlevels) hholds hdeep
  exact ⟨places, by rw [ofOptions, hdecode]; rfl⟩

theorem Rule.ofOptions_otherFields (hfront : FieldsBut httpNumber front)
    (hback : FieldsBut httpNumber back) : ofOptions (front ++ back) = .ok none := by
  have hlimit : 0 < nestingLimit := by decide
  obtain ⟨fronts, hfronts, hnone⟩ := holds_otherFields hfront hlimit
  obtain ⟨backs, hbacks, hnone'⟩ := holds_otherFields hback hlimit
  refine ofOptions_eq_ok.2 ⟨_, hfronts.append hbacks, ?_⟩
  rw [message?, messages_append, hnone, hnone']
  rfl

end Options

/-- A rule is read back from the options it was written to, whatever other options are
around it, up to as many levels as messages may nest; deeper, it is refused.  The other
options alone hold no rule. -/
theorem Rule.ofOptions_toOptions (rule : Rule) {front back : Bytes}
    (hfront : FieldsBut httpNumber front) (hback : FieldsBut httpNumber back)
    (hlength : rule.toOptions.length < 2 ^ 64) :
    (rule.levels ≤ 100 → ofOptions (front ++ rule.toOptions ++ back) = .ok (some rule)) ∧
      (100 < rule.levels → ∃ places,
        ofOptions (front ++ rule.toOptions ++ back) = .error ⟨places, .nestedTooDeeply⟩) ∧
      ofOptions (front ++ back) = .ok none :=
  ⟨ofOptions_of_levels_le hfront hback hlength, ofOptions_of_levels_gt hfront hback hlength,
    ofOptions_otherFields hfront hback⟩

/-- A rule whose additional binding has a verb of its own. -/
def reportRule : Rule :=
  .mk { pattern? := some (.get "/v1/reports/\x7bid\x7d") }
    [.mk { pattern? := some (.custom "report" "/v1/reports"), body := "*" } []]

/-- A rule with additional bindings one below the other. -/
def nestedRule : Nat → Rule
  | 0 => .mk {} []
  | depth + 1 => .mk {} [nestedRule depth]

theorem levels_nestedRule (depth : Nat) : (nestedRule depth).levels = depth + 1 := by
  induction depth with
  | zero => rfl
  | succ depth ih =>
      simp [nestedRule, Rule.levels, Rule.levelsOfAll, Binding.levels, ih]

theorem Rule.ofOptions_toOptions_reportRule :
    ofOptions ([0x88, 0x02, 0x01] ++ reportRule.toOptions ++ [0x92, 0x82, 0x00, 0x81, 0x00, 0x07]) =
        .ok (some reportRule) ∧
      ∃ places, ofOptions ([0x88, 0x02, 0x01] ++ (nestedRule 100).toOptions ++ []) =
        .error ⟨places, .nestedTooDeeply⟩ := by
  have hfront : FieldsBut httpNumber [0x88, 0x02, 0x01] := by
    have hkey : Digits [0x88, 0x02] 264 := .more (by decide) (.last (by decide))
    have hvalue : Digits [0x01] 1 := .last (by decide)
    exact @FieldsBut.cons _ 33 .varint [0x88, 0x02] [0x01] [] ⟨by decide, by decide⟩ (by decide)
      ⟨hkey, by decide, by decide⟩ (.varint ⟨hvalue, by decide, by decide⟩) .nil
  have hback : FieldsBut httpNumber [0x92, 0x82, 0x00, 0x81, 0x00, 0x07] := by
    -- Both the key and the length have a digit more than they need.
    have hkey : Digits [0x92, 0x82, 0x00] 274 :=
      .more (by decide) (.more (by decide) (.last (by decide)))
    have hsize : Digits [0x81, 0x00] 1 := .more (by decide) (.last (by decide))
    exact @FieldsBut.cons _ 34 .delimited [0x92, 0x82, 0x00] [0x81, 0x00, 0x07] []
      ⟨by decide, by decide⟩ (by decide) ⟨hkey, by decide, by decide⟩
      (@IsValue.delimited [0x81, 0x00] [0x07] ⟨hsize, by decide, by decide⟩) .nil
  have hdeep : 100 < (nestedRule 100).levels := by
    rw [levels_nestedRule]
    decide
  exact ⟨(ofOptions_toOptions reportRule hfront hback (by decide +kernel)).1 (by decide),
    (ofOptions_toOptions (nestedRule 100) hfront .nil (by decide +kernel)).2.1 hdeep⟩

end ProtoSource.Http
