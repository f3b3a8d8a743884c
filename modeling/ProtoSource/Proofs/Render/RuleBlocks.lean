import ProtoSource.Proofs.Render.Shown

/-!
# Rules read back from their blocks

The block of a rule says all that the rule does but for its selectors.  A reader finds
the pattern, the two bodies and the additional bindings by their keys, whatever texts
they hold, since these stand in literals.  So two rules that are printed alike are the
same rule with other selectors.
-/

namespace ProtoSource.Http

mutual

/-- The rule with the selectors of all its bindings erased. -/
def Rule.withoutSelectors : Rule → Rule
  | .mk binding additional => .mk { binding with selector := "" } (withoutSelectorsAll additional)

def Rule.withoutSelectorsAll : List Rule → List Rule
  | [] => []
  | rule :: rest => rule.withoutSelectors :: withoutSelectorsAll rest

end

/-- The pattern that a key introduces. -/
def Pattern.ofEntry? (key path : String) : Option Pattern :=
  [Pattern.get path, .put path, .post path, .delete path, .patch path].find? (·.keyword == key)

end ProtoSource.Http

namespace ProtoSource.Render

open ProtoSource.Http
open ProtoSource.Success
open ProtoSource.Text

/-- The text that stands after a key. -/
def valueOf? (key : String) : Item → Option String
  | .line text => do
    let (found, value) ← entryText? text
    if found = key then some value else none
  | _ => none

/-- The pattern that a line or a block of its own gives. -/
def patternOf? : Item → Option Pattern
  | .line text => do
    let (key, path) ← entryText? text
    Pattern.ofEntry? key path
  | .block "custom" items _ => do
    let kind ← items.findSome? (valueOf? "kind")
    let path ← items.findSome? (valueOf? "path")
    return .custom kind path
  | _ => none

/-- The binding that the items of a block give.  A body that is not there is empty. -/
def bindingOf (items : List Item) : Binding where
  pattern? := items.findSome? patternOf?
  body := (items.findSome? (valueOf? "body")).getD ""
  responseBody := (items.findSome? (valueOf? "response_body")).getD ""

mutual

def additionalIn : Item → List Rule
  | .line _ => []
  | .blank => []
  | .block header items _ =>
    if header = "additional_bindings" then [.mk (bindingOf items) (additionalOf items)] else []

/-- The additional bindings among the items of a block. -/
def additionalOf : List Item → List Rule
  | [] => []
  | item :: rest => additionalIn item ++ additionalOf rest

end

/-- The rule that a text gives, if its blocks are closed. -/
def readRule (text : String) : Option Rule :=
  (readItems text).map fun items => .mk (bindingOf items) (additionalOf items)

theorem valueOf?_entryLine {key : String} (hkey : ':' ∉ key.toList) (wanted value : String) :
    valueOf? wanted (entryLine key value) = if key = wanted then some value else none := by
  simp only [valueOf?, entryLine, entryText?_entry hkey, Option.bind_eq_bind, Option.bind_some]

theorem valueOf?_of_mem_entryLines {key wanted : String} (hkey : ':' ∉ key.toList)
    (hother : key ≠ wanted) (value : String) :
    ∀ item ∈ entryLines key value, valueOf? wanted item = none := by
  unfold entryLines
  split
  · simp
  · rw [List.forall_mem_singleton, valueOf?_entryLine hkey, if_neg hother]

/-- A text is found behind its key.  One that is empty has no line, and is read as if it
had one. -/
theorem getD_findSome?_valueOf? {key : String} (hkey : ':' ∉ key.toList) (value : String)
    {before after : List Item} (hbefore : ∀ item ∈ before, valueOf? key item = none)
    (hafter : ∀ item ∈ after, valueOf? key item = none) :
    ((before ++ (entryLines key value ++ after)).findSome? (valueOf? key)).getD "" = value := by
  rw [List.findSome?_append, List.findSome?_append, List.findSome?_eq_none_iff.2 hbefore,
    List.findSome?_eq_none_iff.2 hafter, Option.none_or, Option.or_none]
  unfold entryLines
  split
  · next hempty => exact (String.isEmpty_iff.1 hempty).symm
  · rw [List.findSome?_singleton, valueOf?_entryLine hkey, if_pos rfl, Option.getD_some]

theorem notMem_keyword (pattern : Pattern) : ':' ∉ pattern.keyword.toList := by
  cases pattern <;> simp only [Pattern.keyword] <;> decide

theorem patternOf?_patternItem (pattern : Pattern) :
    patternOf? (patternItem pattern) = some pattern := by
  have hentry {key : String} (hkey : ':' ∉ key.toList) (path : String) :
      patternOf? (entryLine key path) = Pattern.ofEntry? key path := by
    simp only [patternOf?, entryLine, entryText?_entry hkey, Option.bind_eq_bind, Option.bind_some]
  cases pattern with
  | custom kind path =>
      have hkind : valueOf? "kind" (entryLine "kind" kind) = some kind := by
        rw [valueOf?_entryLine (by decide), if_pos rfl]
      have hother : valueOf? "path" (entryLine "kind" kind) = none := by
        rw [valueOf?_entryLine (by decide), if_neg (by decide)]
      have hpath : valueOf? "path" (entryLine "path" path) = some path := by
        rw [valueOf?_entryLine (by decide), if_pos rfl]
      simp only [patternItem, patternOf?, List.findSome?_cons, hkind, hother, hpath]
      rfl
  | _ => exact hentry (notMem_keyword _) _

/-- A pattern has a key of its own. -/
theorem valueOf?_patternItem {wanted : String} {pattern : Pattern}
    (hkey : pattern.keyword ≠ wanted) :
    valueOf? wanted (patternItem pattern) = none := by
  cases pattern with
  | custom kind path => rfl
  | _ => exact (valueOf?_entryLine (notMem_keyword _) _ _).trans (if_neg hkey)

/-- The binding is read from its own items, whatever blocks follow. -/
theorem bindingOf_bindingItems {method : String} {binding : Binding} {own blocks : List Item}
    (hown : bindingItems method binding = .ok own)
    (hblocks : ∀ block ∈ blocks, ∀ key, valueOf? key block = none) :
    bindingOf (own ++ blocks) = { binding with selector := "" } := by
  obtain ⟨pattern, hpattern, rfl⟩ := bindingItems_eq_ok.1 hown
  have hbodyKey : pattern.keyword ≠ "body" := by cases pattern <;> simp [Pattern.keyword]
  have hresponseKey : pattern.keyword ≠ "response_body" := by
    cases pattern <;> simp [Pattern.keyword]
  have hbody : ((patternItem pattern :: (entryLines "body" binding.body ++
      (entryLines "response_body" binding.responseBody ++ blocks))).findSome?
        (valueOf? "body")).getD "" = binding.body := by
    rw [← List.singleton_append]
    refine getD_findSome?_valueOf? (by decide) binding.body
      (List.forall_mem_singleton.2 (valueOf?_patternItem hbodyKey))
        (List.forall_mem_append.2 ⟨?_, ?_⟩)
    · exact valueOf?_of_mem_entryLines (by decide) (by decide) binding.responseBody
    · exact fun block hblock => hblocks block hblock "body"
  have hresponse : ((patternItem pattern :: (entryLines "body" binding.body ++
      (entryLines "response_body" binding.responseBody ++ blocks))).findSome?
        (valueOf? "response_body")).getD "" = binding.responseBody := by
    rw [← List.cons_append]
    refine getD_findSome?_valueOf? (by decide) binding.responseBody
      (List.forall_mem_cons.2 ⟨valueOf?_patternItem hresponseKey, ?_⟩) ?_
    · exact valueOf?_of_mem_entryLines (by decide) (by decide) binding.body
    · exact fun block hblock => hblocks block hblock "response_body"
  rw [List.append_assoc, List.cons_append, bindingOf, hbody, hresponse, List.findSome?_cons,
    patternOf?_patternItem, hpattern]

theorem additionalOf_append (items others : List Item) :
    additionalOf (items ++ others) = additionalOf items ++ additionalOf others := by
  induction items with
  | nil => rfl
  | cons item rest ih => rw [List.cons_append, additionalOf, additionalOf, ih, List.append_assoc]

/-- The items of a binding hold no other binding. -/
theorem additionalOf_bindingItems {method : String} {binding : Binding} {own : List Item}
    (hown : bindingItems method binding = .ok own) : additionalOf own = [] := by
  obtain ⟨pattern, -, rfl⟩ := bindingItems_eq_ok.1 hown
  have hlines (key value : String) : additionalOf (entryLines key value) = [] := by
    unfold entryLines
    split <;> rfl
  have hpattern : additionalIn (patternItem pattern) = [] := by
    cases pattern <;> rfl
  rw [additionalOf_append, hlines, additionalOf, hlines, hpattern]
  rfl

mutual

/-- What is read from the items of a rule is the rule without its selectors. -/
theorem read_ruleItems {method : String} {rule : Rule} {items : List Item}
    (hitems : ruleItems method rule = .ok items) :
    .mk (bindingOf items) (additionalOf items) = rule.withoutSelectors := by
  obtain ⟨binding, additional⟩ := rule
  obtain ⟨own, blocks, hown, hblocks, rfl⟩ := ruleItems_eq_ok.1 hitems
  have hinside : ∀ block ∈ blocks, ∀ key, valueOf? key block = none := by
    obtain ⟨inside, -, rfl⟩ := additionalBlocks_eq_ok.1 hblocks
    exact List.forall_mem_map.2 fun _ _ _ => rfl
  rw [bindingOf_bindingItems hown hinside, additionalOf_append, additionalOf_bindingItems hown,
    additionalOf_additionalBlocks hblocks, Rule.withoutSelectors, List.nil_append]

theorem additionalOf_additionalBlocks {method : String} {rules : List Rule} {blocks : List Item}
    (hblocks : additionalBlocks method rules = .ok blocks) :
    additionalOf blocks = Rule.withoutSelectorsAll rules := by
  cases rules with
  | nil =>
      obtain rfl : [] = blocks := by simpa [additionalBlocks] using hblocks
      rfl
  | cons rule rest =>
      simp only [additionalBlocks, bind_eq_ok, pure_eq_ok] at hblocks
      obtain ⟨items, hitems, others, hothers, rfl⟩ := hblocks
      rw [additionalOf, additionalIn, if_pos rfl, read_ruleItems hitems,
        additionalOf_additionalBlocks hothers, Rule.withoutSelectorsAll, List.singleton_append]

end

mutual

/-- No blank line stands among the items of a rule. -/
theorem statementsOf_ruleItems {method : String} {rule : Rule} {items : List Item}
    (hitems : ruleItems method rule = .ok items) : statementsOf items = items := by
  obtain ⟨binding, additional⟩ := rule
  obtain ⟨own, blocks, hown, hblocks, rfl⟩ := ruleItems_eq_ok.1 hitems
  obtain ⟨pattern, -, rfl⟩ := bindingItems_eq_ok.1 hown
  have hpattern : (patternItem pattern).statements = [patternItem pattern] := by
    cases pattern <;> rfl
  rw [statementsOf_append, statementsOf_append, statementsOf_additionalBlocks hblocks, statementsOf,
    hpattern, statementsOf_entryLines, statementsOf_entryLines, List.singleton_append]

theorem statementsOf_additionalBlocks {method : String} {rules : List Rule} {blocks : List Item}
    (hblocks : additionalBlocks method rules = .ok blocks) : statementsOf blocks = blocks := by
  cases rules with
  | nil =>
      obtain rfl : [] = blocks := by simpa [additionalBlocks] using hblocks
      rfl
  | cons rule rest =>
      simp only [additionalBlocks, bind_eq_ok, pure_eq_ok] at hblocks
      obtain ⟨items, hitems, others, hothers, rfl⟩ := hblocks
      rw [statementsOf, Item.statements, statementsOf_ruleItems hitems,
        statementsOf_additionalBlocks hothers, List.singleton_append]

end

/-- Written below anything and indented by any width, the text of a rule is read as the
rule without its selectors. -/
theorem readRule_render {method : String} {rule : Rule} {items : List Item}
    (hitems : ruleItems method rule = .ok items) (layout : Layout) (width : Nat) :
    ∃ body, (layout.write items).render width = layout.render width ++ body ∧
      readRule body = some rule.withoutSelectors := by
  obtain ⟨body, hbody, hread⟩ := readItems_render (readable_ruleItems hitems) layout width
  refine ⟨body, hbody, ?_⟩
  rw [readRule, hread, statementsOf_ruleItems hitems, Option.map_some, read_ruleItems hitems]

/-- Two rules that are written alike below the same text differ in their selectors only. -/
theorem withoutSelectors_eq_of_render_eq {method method' : String} {rule rule' : Rule}
    {items items' : List Item} (hitems : ruleItems method rule = .ok items)
    (hitems' : ruleItems method' rule' = .ok items') (layout : Layout) (width : Nat)
    (hsame : (layout.write items).render width = (layout.write items').render width) :
    rule.withoutSelectors = rule'.withoutSelectors := by
  obtain ⟨body, hbody, hread⟩ := readRule_render hitems layout width
  obtain ⟨body', hbody', hread'⟩ := readRule_render hitems' layout width
  have htext : layout.render width ++ body = layout.render width ++ body' := by
    rw [← hbody, hsame, hbody']
  obtain rfl : body = body' := (String.append_right_inj _).1 htext
  exact Option.some.inj (hread.symm.trans hread')

/-- A rule whose texts look like the lines of a block, with a binding in a binding. -/
def crookedRule (selector : String) : Rule :=
  .mk
    { selector, pattern? := some (.custom "HEAD" "/v1\"\n\x7d\nbody: \"*"), responseBody := "\x7b" }
    [.mk { selector := "other", pattern? := some (.get "") }
      [.mk { selector, pattern? := some (.post "/v1"), body := "get: \"\"" } []]]

theorem withoutSelectors_crookedRule :
    ∃ items, ruleItems "demo.S.m" (crookedRule "a") = .ok items ∧
      ruleItems "demo.S.m" (crookedRule "b") = .ok items ∧
      (crookedRule "a").withoutSelectors = (crookedRule "b").withoutSelectors := by
  have hitems : ruleItems "demo.S.m" (crookedRule "b") =
      ruleItems "demo.S.m" (crookedRule "a") := rfl
  obtain ⟨items, hprinted⟩ : ∃ items, ruleItems "demo.S.m" (crookedRule "a") = .ok items := ⟨_, rfl⟩
  exact ⟨items, hprinted, hitems.trans hprinted,
    withoutSelectors_eq_of_render_eq hprinted (hitems.trans hprinted) ⟨[], 3⟩ 2 rfl⟩

end ProtoSource.Render
