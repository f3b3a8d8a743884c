import ProtoSource.Proofs.Render.Readable
import ProtoSource.Summary

/-!
# What a text shows

The statements of a printed file show what it declares: an import its path, a service
its methods with their types and rules, a block of a message or an enum its name.
This module reads them back.
-/

namespace ProtoSource.Render

open ProtoSource.Descriptor
open ProtoSource.Success
open ProtoSource.Text

/-- What follows a word at the start of a text. -/
def after? (word text : String) : Option String :=
  (Name.rest? word.toList text.toList).map String.ofList

/-- The path of an import, in quotes after the words of the statement. -/
def importPath? : Item → Option String
  | .line text => do
    let rest ← Name.rest? "import ".toList text.toList
    unquote? (rest.dropWhile (· != '"')).dropLast
  | _ => none

/-- The name after a word that heads a block, and what is in the block. -/
def blockNamed? (word : String) : Item → Option (String × List Item)
  | .block header items _ => (after? word header).map (·, items)
  | _ => none

/-- A key and the text that it stands before in quotes. -/
def entryText? (text : String) : Option (String × String) := do
  let rest ← Name.rest? ": ".toList (text.toList.dropWhile (· != ':'))
  let value ← unquote? rest
  return (String.ofList (text.toList.takeWhile (· != ':')), value)

/-- The verb and the path of a pattern. -/
def patternText? : Item → Option (String × String)
  | .line text => entryText? text
  | .block "custom" [.line kind, .line path] _ => do
    let (_, verb) ← entryText? kind
    let (_, path) ← entryText? path
    return (verb, path)
  | _ => none

def bodyText? : Item → Option String
  | .line text =>
    match entryText? text with
    | some ("body", value) => some value
    | _ => none
  | _ => none

/-- A rule as it shows in its block: the pattern comes first. -/
def ruleText? : List Item → Option Http.Summary
  | [] => none
  | pattern :: rest => do
    let (verb, path) ← patternText? pattern
    return { verb := upperCase verb, path, body? := rest.findSome? bodyText? }

/-- What is in the block of a rule. -/
def ruleInside? : Item → Option (List Item)
  | .block header items _ => if header = "option (google.api.http) =" then some items else none
  | _ => none

/-- A type of a method as it is printed. -/
structure PrintedType where
  isStream : Bool
  reference : String
  deriving DecidableEq, Repr

def PrintedType.ofChars (chars : List Char) : PrintedType :=
  match Name.rest? "stream ".toList chars with
  | some rest => ⟨true, String.ofList rest⟩
  | none => ⟨false, String.ofList chars⟩

/-- The name and the types of a method; something may follow the last bracket. -/
def signature? (text : List Char) : Option (String × PrintedType × PrintedType) := do
  let named ← Name.rest? "rpc ".toList text
  let input ← Name.rest? " (".toList (named.dropWhile (· != ' '))
  let output ← Name.rest? ") returns (".toList (input.dropWhile (· != ')'))
  return (String.ofList (named.takeWhile (· != ' ')), .ofChars (input.takeWhile (· != ')')),
    .ofChars (output.takeWhile (· != ')')))

structure PrintedMethod where
  name : String
  input : PrintedType
  output : PrintedType
  http? : Option Http.Summary
  deriving DecidableEq, Repr

/-- A method as it shows in its service.  One whose rule cannot be read is not read. -/
def methodText? : Item → Option PrintedMethod
  | .line text => do
    let (name, input, output) ← signature? text.toList
    return ⟨name, input, output, none⟩
  | .block header items _ => do
    let (name, input, output) ← signature? header.toList
    let http? ← (items.findSome? ruleInside?).mapM ruleText?
    return ⟨name, input, output, http?⟩
  | .blank => none

structure PrintedService where
  name : String
  methods : List PrintedMethod
  deriving DecidableEq, Repr

def serviceText? (item : Item) : Option PrintedService :=
  (blockNamed? "service " item).map fun (name, items) => ⟨name, items.filterMap methodText?⟩

/-- What the text of a file shows. -/
structure PrintedFile where
  imports : List String
  services : List PrintedService
  messages : List String
  enums : List String
  deriving DecidableEq, Repr

def PrintedFile.ofItems (items : List Item) : PrintedFile where
  imports := items.filterMap importPath?
  services := items.filterMap serviceText?
  messages := (items.filterMap (blockNamed? "message ")).map Prod.fst
  enums := (items.filterMap (blockNamed? "enum ")).map Prod.fst

theorem rest?_append (start rest : List Char) : Name.rest? start (start ++ rest) = some rest :=
  Name.rest?_eq_some.2 rfl

theorem after?_append (word text : String) : after? word (word ++ text) = some text := by
  rw [after?, String.toList_append, rest?_append, Option.map_some, String.ofList_toList]

/-- A word ends before the first character that it does not have. -/
theorem span_append {word : List Char} {stop : Char} (hword : stop ∉ word) (rest : List Char) :
    (word ++ stop :: rest).takeWhile (· != stop) = word ∧
      (word ++ stop :: rest).dropWhile (· != stop) = stop :: rest := by
  have hpos : ∀ char ∈ word, (char != stop) = true := by
    intro char hchar
    simp only [bne_iff_ne, ne_eq]
    rintro rfl
    exact hword hchar
  rw [List.takeWhile_append_of_pos hpos, List.dropWhile_append_of_pos hpos]
  simp

theorem entryText?_entry {key : String} (hkey : ':' ∉ key.toList) (value : String) :
    entryText? (key ++ ": " ++ quote value) = some (key, value) := by
  have hchars : (key ++ ": " ++ quote value).toList =
      key.toList ++ ':' :: ' ' :: (quote value).toList := by
    simp
  have hrest : Name.rest? ": ".toList (':' :: ' ' :: (quote value).toList) =
      some (quote value).toList :=
    rest?_append _ _
  obtain ⟨htake, hdrop⟩ := span_append hkey (' ' :: (quote value).toList)
  rw [entryText?, hchars, htake, hdrop, hrest]
  simp

theorem ofChars_streamWord (isStream : Bool) {reference : String}
    (hreference : Name.IsToken reference) :
    PrintedType.ofChars ((streamWord isStream).toList ++ reference.toList) =
      ⟨isStream, reference⟩ := by
  cases isStream with
  | true =>
      have hrest : Name.rest? "stream ".toList ((streamWord true).toList ++ reference.toList) =
          some reference.toList :=
        rest?_append _ _
      simp only [PrintedType.ofChars, hrest, String.ofList_toList]
  | false =>
      have hrest : Name.rest? "stream ".toList reference.toList = none := by
        rw [Option.eq_none_iff_forall_ne_some]
        intro rest hrest
        -- No token has a blank.
        have hblank : ' ' ∈ reference.toList := by
          rw [Name.rest?_eq_some.1 hrest]
          simp
        exact hreference.notMem (by decide) (by decide) hblank
      have hword : (streamWord false).toList = [] := rfl
      simp only [hword, List.nil_append, PrintedType.ofChars, hrest, String.ofList_toList]

theorem signature?_append {name input output : List Char} (hname : ' ' ∉ name)
    (hinput : ')' ∉ input)
    (houtput : ')' ∉ output) (rest : List Char) :
    signature? ("rpc ".toList ++ (name ++ ' ' :: '(' :: (input ++
      ')' :: (" returns (".toList ++ (output ++ ')' :: rest))))) =
      some (String.ofList name, .ofChars input, .ofChars output) := by
  have hopen (chars : List Char) : Name.rest? " (".toList (' ' :: '(' :: chars) = some chars :=
    rest?_append _ _
  have hreturns (chars : List Char) :
      Name.rest? ") returns (".toList (')' :: (" returns (".toList ++ chars)) = some chars :=
    rest?_append _ _
  simp only [signature?, rest?_append, Option.bind_eq_bind, Option.bind_some,
    span_append hname, hopen, span_append hinput, hreturns, span_append houtput]
  rfl

/-- A signature shows the name of its method and the references to its types. -/
theorem signature?_signature (scope : Scope) {method : Method} (hname : Name.IsWord method.name)
    (hinput : Name.IsReference method.inputType) (houtput : Name.IsReference method.outputType)
    (rest : List Char) :
    signature? ((signature scope method).toList ++ rest) =
      some (method.name, ⟨method.clientStreaming, scope.reference method.inputType⟩,
        ⟨method.serverStreaming, scope.reference method.outputType⟩) := by
  have hblank : ' ' ∉ method.name.toList := hname.isToken.notMem (by decide) (by decide)
  have hbracket (isStream : Bool) {typeName : String} (htype : Name.IsReference typeName) :
      ')' ∉ (streamWord isStream).toList ++ (scope.reference typeName).toList := by
    rw [List.mem_append, not_or]
    refine ⟨?_, (isToken_reference scope htype).notMem (by decide) (by decide)⟩
    cases isStream <;> decide
  have hread := signature?_append hblank (hbracket method.clientStreaming hinput)
    (hbracket method.serverStreaming houtput) rest
  rw [ofChars_streamWord _ (isToken_reference scope hinput),
    ofChars_streamWord _ (isToken_reference scope houtput), String.ofList_toList] at hread
  rw [← hread]
  congr 1
  simp [signature]

theorem statementsOf_entryLines (key value : String) :
    statementsOf (entryLines key value) = entryLines key value := by
  unfold entryLines
  split <;> rfl

theorem patternText?_patternItem (pattern : Http.Pattern) :
    ∃ item, (patternItem pattern).statements = [item] ∧
      patternText? item = some (pattern.verb, pattern.path) := by
  cases pattern with
  | custom kind path =>
      refine ⟨patternItem (.custom kind path), rfl, ?_⟩
      have hkind : entryText? ("kind" ++ ": " ++ quote kind) = some ("kind", kind) :=
        entryText?_entry (by decide) kind
      have hpath : entryText? ("path" ++ ": " ++ quote path) = some ("path", path) :=
        entryText?_entry (by decide) path
      simp only [patternItem, entryLine, patternText?, hkind, hpath]
      rfl
  | _ => exact ⟨_, rfl, entryText?_entry (by simp only [Http.Pattern.keyword]; decide) _⟩

theorem bodyText?_entryLine {key : String} (hkey : ':' ∉ key.toList) (value : String) :
    bodyText? (entryLine key value) = if key = "body" then some value else none := by
  simp only [bodyText?, entryLine, entryText?_entry hkey]
  split
  · next heq =>
      obtain ⟨rfl, rfl⟩ := Prod.mk.inj (Option.some.inj heq)
      rw [if_pos rfl]
  · next hother =>
      rw [if_neg]
      rintro rfl
      exact hother _ rfl

/-- Of the statements after the pattern only that of the body is read. -/
theorem findSome?_bodyText? (binding : Http.Binding) {blocks : List Item}
    (hblocks : ∀ block ∈ blocks, bodyText? block = none) :
    (entryLines "body" binding.body ++ entryLines "response_body" binding.responseBody ++
        blocks).findSome? bodyText? =
      if binding.body.isEmpty then none else some binding.body := by
  have hresponse : (entryLines "response_body" binding.responseBody).findSome? bodyText? =
      none := by
    unfold entryLines
    split <;> simp [bodyText?_entryLine]
  have hrest : blocks.findSome? bodyText? = none := List.findSome?_eq_none_iff.2 hblocks
  rw [List.findSome?_append, List.findSome?_append, hresponse, hrest, entryLines]
  split <;> simp [bodyText?_entryLine]

/-- The block of a rule shows its short form. -/
theorem ruleText?_ruleItems {fullName : String} {rule : Http.Rule} {items : List Item}
    (hitems : ruleItems fullName rule = .ok items) :
    ∃ summary, Http.Rule.summary fullName rule = .ok summary ∧
      ruleText? (statementsOf items) = some summary := by
  obtain ⟨binding, additional⟩ := rule
  obtain ⟨own, blocks, hown, hblocks, rfl⟩ := ruleItems_eq_ok.1 hitems
  obtain ⟨pattern, hpattern, rfl⟩ := bindingItems_eq_ok.1 hown
  obtain ⟨inside, -, rfl⟩ := additionalBlocks_eq_ok.1 hblocks
  obtain ⟨item, hitem, htext⟩ := patternText?_patternItem pattern
  have hnone :
      ∀ block ∈ statementsOf (inside.map fun items => .block "additional_bindings" items ""),
        bodyText? block = none := by
    rw [statementsOf_eq_flatMap, List.forall_mem_flatMap, List.forall_mem_map]
    intro items _
    rw [Item.statements, List.forall_mem_singleton]
    rfl
  have hbody := findSome?_bodyText? binding hnone
  refine ⟨⟨upperCase pattern.verb, pattern.path,
    if binding.body.isEmpty then none else some binding.body⟩, ?_, ?_⟩
  · simp only [Http.Rule.summary, Http.Rule.binding, Http.Binding.pattern, hpattern]
    rfl
  · rw [List.cons_append, List.cons_append, statementsOf, hitem, statementsOf_append,
      statementsOf_append, statementsOf_entryLines, statementsOf_entryLines, List.singleton_append,
      ruleText?, htext]
    simp only [Option.bind_eq_bind, Option.bind_some, hbody]
    rfl

theorem statementsOf_optionLines (options : List (String × String)) :
    statementsOf (optionLines options) = optionLines options :=
  statementsOf_eq_self (List.forall_mem_map.2 fun _ _ => rfl)

/-- An option is neither a method nor a rule. -/
theorem filterMap_optionLines {α : Type} {read : Item → Option α} (options : List (String × String))
    (hread : ∀ text : String, read (.line ("option " ++ text)) = none) :
    (optionLines options).filterMap read = [] := by
  rw [List.filterMap_eq_nil_iff, optionLines, List.forall_mem_map]
  rintro ⟨name, value⟩ -
  dsimp only
  rw [String.append_assoc, String.append_assoc, String.append_assoc]
  exact hread _

theorem methodText?_option (text : String) : methodText? (.line ("option " ++ text)) = none := by
  have hrest : Name.rest? "rpc ".toList ("option " ++ text).toList = none := by
    rw [String.toList_append]
    rfl
  rw [methodText?, signature?, hrest]
  rfl

theorem findSome?_methodInside (method : Method) (items? : Option (List Item)) :
    (statementsOf (methodInside method items?)).findSome? ruleInside? =
      items?.map statementsOf := by
  have hoptions : (optionLines (standardOptions method.options?)).findSome? ruleInside? = none :=
    List.findSome?_eq_none_iff.2 (List.forall_mem_map.2 fun _ _ => rfl)
  rw [methodInside, statementsOf_append, statementsOf_optionLines, List.findSome?_append, hoptions]
  cases items? <;> rfl

/-- The blocks are headed by a word and the names. -/
def Headed (word : String) (names : List String) (blocks : List Item) : Prop :=
  List.Forall₂ (fun name block => ∃ items, block = .block (word ++ name) items "") names blocks

theorem headed_of_mapM {α : Type} {word : String} {name : α → String}
    {print : α → Except Error Item}
    (hprint : ∀ value block, print value = .ok block →
      ∃ items, block = .block (word ++ name value) items "")
    {values : List α} {blocks : List Item} (hblocks : values.mapM print = .ok blocks) :
    Headed word (values.map name) blocks :=
  List.forall₂_map_left_iff.2 ((mapM_eq_ok.1 hblocks).imp fun _ _ => hprint _ _)

namespace Headed

variable {word : String} {names : List String} {blocks : List Item}

theorem map_fst_blockNamed? (hheaded : Headed word names blocks) :
    ((statementsOf blocks).filterMap (blockNamed? word)).map Prod.fst = names := by
  induction hheaded with
  | nil => rfl
  | cons hblock _ ih =>
      obtain ⟨items, rfl⟩ := hblock
      rw [statementsOf, List.filterMap_append, List.map_append, ih]
      simp [Item.statements, blockNamed?, after?_append]

theorem filterMap_eq_nil {α : Type} {read : Item → Option α} (hheaded : Headed word names blocks)
    (hread : ∀ name items, read (.block (word ++ name) items "") = none) :
    (statementsOf blocks).filterMap read = [] := by
  induction hheaded with
  | nil => rfl
  | cons hblock _ ih =>
      obtain ⟨items, rfl⟩ := hblock
      rw [statementsOf, List.filterMap_append, ih]
      simp [Item.statements, hread]

end Headed

/-- A header does not start with a word that starts otherwise. -/
theorem blockNamed?_other {word other : String} (hother : other ≠ "")
    (hfirst : ∃ first ∈ word.toList.head?, first ∉ other.toList.head?) (name : String)
    (items : List Item) : blockNamed? word (.block (other ++ name) items "") = none := by
  have hrest : Name.rest? word.toList (other ++ name).toList = none := by
    rw [Option.eq_none_iff_forall_ne_some]
    intro rest hrest
    obtain ⟨first, hword, hne⟩ := hfirst
    have hhead := congrArg List.head? (Name.rest?_eq_some.1 hrest)
    rw [String.toList_append, List.head?_append_of_ne_nil _ (by simpa using hother),
      List.head?_append, Option.mem_def.1 hword] at hhead
    exact hne hhead
  rw [blockNamed?, after?, hrest]
  rfl

theorem importPath?_import (file : File) (index : Nat) (name : String) :
    importPath? (.line ("import " ++ importWord file index ++ quote name ++ ";")) = some name := by
  have hword : ∀ char ∈ (importWord file index).toList, (char != '"') = true := by
    unfold importWord
    split_ifs <;> decide
  have hquoted : ((quote name).toList ++ [';']).dropWhile (· != '"') =
      (quote name).toList ++ [';'] := by
    simp [quote]
  have hchars : ("import " ++ importWord file index ++ quote name ++ ";").toList =
      "import ".toList ++ ((importWord file index).toList ++ ((quote name).toList ++ [';'])) := by
    simp
  rw [importPath?, hchars, rest?_append, Option.bind_eq_bind, Option.bind_some,
    List.dropWhile_append_of_pos hword, hquoted, List.dropLast_concat, unquote?_quote]

theorem filterMap_importLines (file : File) :
    (importLines file).filterMap importPath? = file.imports := by
  have hnames : ((importLines file).map importPath?) = file.imports.map some := by
    refine List.ext_getElem (by simp [importLines]) fun index hleft hright => ?_
    simp [importLines, importPath?_import]
  calc (importLines file).filterMap importPath?
      = ((importLines file).map importPath?).filterMap id := by rw [List.filterMap_map]; rfl
    _ = file.imports := by rw [hnames]; simp

theorem statementsOf_openingItems (file : File) : statementsOf (openingItems file) =
    importLines file ++
      (if file.package.isEmpty then [] else [.line ("package " ++ file.package ++ ";")]) ++
      optionLines (standardOptions file.options?) := by
  have hparagraph (items : List Item) : statementsOf (paragraph items) = statementsOf items := by
    unfold paragraph
    split
    · simp_all
    · rw [statementsOf, Item.statements, List.nil_append]
  have himports : statementsOf (importLines file) = importLines file := by
    refine statementsOf_eq_self fun item hitem => ?_
    obtain ⟨index, hindex, rfl⟩ := List.mem_mapIdx.1 hitem
    rfl
  rw [openingItems, statementsOf_append, statementsOf_append, hparagraph, hparagraph, hparagraph,
    himports, statementsOf_optionLines]
  split <;> rfl

/-- Before the declarations there are lines only. -/
theorem filterMap_openingItems {α : Type} {read : Item → Option α} (file : File)
    (hread : ∀ text, read (.line text) = none) :
    (statementsOf (openingItems file)).filterMap read = [] := by
  rw [statementsOf_openingItems, List.filterMap_append, List.filterMap_append,
    filterMap_optionLines _ fun text => hread _, List.append_nil, List.append_eq_nil_iff]
  constructor
  · rw [List.filterMap_eq_nil_iff]
    intro item hitem
    obtain ⟨index, hindex, rfl⟩ := List.mem_mapIdx.1 hitem
    exact hread _
  · split
    · rfl
    · simp [hread]

theorem filterMap_importPath?_openingItems (file : File) :
    (statementsOf (openingItems file)).filterMap importPath? = file.imports := by
  have hother {word : String} (hword : Name.rest? "import ".toList word.toList = none) :
      importPath? (.line word) = none := by
    rw [importPath?, hword]
    rfl
  rw [statementsOf_openingItems, List.filterMap_append, List.filterMap_append,
    filterMap_importLines, filterMap_optionLines]
  · split
    · simp
    · rw [List.filterMap_cons_none]
      · simp
      · refine hother ?_
        rw [String.toList_append, String.toList_append]
        rfl
  · intro text
    refine hother ?_
    rw [String.toList_append]
    rfl

/-- A printed file shows its imports, its services, and the names of its messages and
enums. -/
theorem ofItems_append {file : File} {services messages enums : List Item}
    {serviceNames messageNames enumNames : List String}
    (hservices : Headed "service " serviceNames services)
    (hmessages : Headed "message " messageNames messages)
    (henums : Headed "enum " enumNames enums) :
    PrintedFile.ofItems (statementsOf (openingItems file) ++ statementsOf services ++
        statementsOf messages ++ statementsOf enums) =
      ⟨file.imports, (statementsOf services).filterMap serviceText?, messageNames, enumNames⟩ := by
  have hlines {α : Type} (read : Item → Option α) (hread : ∀ text, read (.line text) = none) :
      (statementsOf (openingItems file)).filterMap read = [] :=
    filterMap_openingItems file hread
  have hother (word : String) {other : String} {names : List String} {blocks : List Item}
      (hblocks : Headed other names blocks) (hne : other ≠ "")
      (hfirst : ∃ first ∈ word.toList.head?, first ∉ other.toList.head?) :
      (statementsOf blocks).filterMap (blockNamed? word) = [] :=
    hblocks.filterMap_eq_nil (blockNamed?_other hne hfirst)
  have himports : (statementsOf services).filterMap importPath? = [] ∧
      (statementsOf messages).filterMap importPath? = [] ∧
      (statementsOf enums).filterMap importPath? = [] :=
    ⟨hservices.filterMap_eq_nil fun _ _ => rfl, hmessages.filterMap_eq_nil fun _ _ => rfl,
      henums.filterMap_eq_nil fun _ _ => rfl⟩
  have hnoServices : (statementsOf messages).filterMap serviceText? = [] ∧
      (statementsOf enums).filterMap serviceText? = [] := by
    refine ⟨hmessages.filterMap_eq_nil fun name items => ?_,
      henums.filterMap_eq_nil fun name items => ?_⟩
    · rw [serviceText?, blockNamed?_other (by decide) (by decide), Option.map_none]
    · rw [serviceText?, blockNamed?_other (by decide) (by decide), Option.map_none]
  simp only [PrintedFile.ofItems, List.filterMap_append, filterMap_importPath?_openingItems,
    hlines (blockNamed? _) fun _ => rfl,
    hlines serviceText? fun _ => rfl, himports, hnoServices, hmessages.map_fst_blockNamed?,
    henums.map_fst_blockNamed?, hother "message " hservices (by decide) (by decide),
    hother "message " henums (by decide) (by decide),
    hother "enum " hservices (by decide) (by decide),
    hother "enum " hmessages (by decide) (by decide), List.append_nil, List.nil_append]

end ProtoSource.Render
