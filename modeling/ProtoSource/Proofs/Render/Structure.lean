import ProtoSource.Proofs.Render.Readable
import ProtoSource.Proofs.Render.Widened

/-!
# Blocks are declarations

Read line by line, the text of a file has the blocks that its declarations call for:
services, messages and enums in the order they are declared, and within a message
its oneofs, its enums and the messages in it but for the entries of maps.  A oneof
stands where the first of its members does, so oneofs are ordered by their first
members and not by their own declarations.
-/

namespace ProtoSource.Text

/-- A block of a text: its header and the blocks in it. -/
inductive Block where
  | mk (header : String) (inside : List Block)

mutual

def Item.blocks : Item → List Block
  | .line _ => []
  | .blank => []
  | .block header items _ => [.mk header (blocksOf items)]

def blocksOf : List Item → List Block
  | [] => []
  | item :: rest => item.blocks ++ blocksOf rest

end

/-- The blocks of a text: nothing if one is closed that is not open, or left open. -/
def readBlocks (text : String) : Option (List Block) :=
  (readItems text).map blocksOf

theorem blocksOf_eq_flatMap (items : List Item) : blocksOf items = items.flatMap Item.blocks := by
  induction items with
  | nil => rfl
  | cons item rest ih => rw [blocksOf, List.flatMap_cons, ih]

@[simp]
theorem blocksOf_append (items others : List Item) :
    blocksOf (items ++ others) = blocksOf items ++ blocksOf others := by
  simp only [blocksOf_eq_flatMap, List.flatMap_append]

theorem blocksOf_eq_nil {items : List Item} (hitems : ∀ item ∈ items, item.blocks = []) :
    blocksOf items = [] := by
  rw [blocksOf_eq_flatMap, List.flatMap_eq_nil_iff]
  exact hitems

mutual

theorem blocksOf_statements (item : Item) : blocksOf item.statements = item.blocks := by
  cases item with
  | line text => simp [Item.statements, blocksOf, Item.blocks]
  | blank => simp [Item.statements, blocksOf, Item.blocks]
  | block header items suffix =>
      rw [Item.statements, blocksOf, blocksOf, Item.blocks, Item.blocks,
        blocksOf_statementsOf items]
      rfl

theorem blocksOf_statementsOf (items : List Item) :
    blocksOf (statementsOf items) = blocksOf items := by
  cases items with
  | nil => rfl
  | cons item rest =>
      rw [statementsOf, blocksOf_append, blocksOf_statements item, blocksOf_statementsOf rest,
        blocksOf]

end

mutual

def Block.decEq : (block other : Block) → Decidable (block = other)
  | .mk header inside, .mk header' inside' =>
    have := decEqAll inside inside'
    decidable_of_iff (header = header' ∧ inside = inside') (Block.mk.injEq ..).symm.to_iff

def Block.decEqAll : (blocks others : List Block) → Decidable (blocks = others)
  | [], [] => isTrue rfl
  | [], _ :: _ => isFalse (by simp)
  | _ :: _, [] => isFalse (by simp)
  | block :: rest, other :: others =>
    have := decEq block other
    have := decEqAll rest others
    decidable_of_iff (block = other ∧ rest = others) (List.cons.injEq ..).symm.to_iff

end

instance : DecidableEq Block := Block.decEq

end ProtoSource.Text

namespace ProtoSource.Render

open ProtoSource.Descriptor
open ProtoSource.Pool
open ProtoSource.Related
open ProtoSource.Success
open ProtoSource.Text

/-! ## Outlines -/

/-- The oneofs that have a member, by their first members.  A field that is declared
`optional` is no member of the oneof that tracks its presence. -/
def usedOneofs (fields : List Field) : List Int :=
  (fields.filterMap Field.oneof?).eraseDups

def oneofOutline (message : Message) (index : Int) : Block :=
  .mk ("oneof " ++ ((oneofAt? message index).map Oneof.name).getD "") []

def enumOutline (enumeration : Enumeration) : Block :=
  .mk ("enum " ++ enumeration.name) []

mutual

/-- The blocks of a message: oneofs, enums and messages. -/
def messageOutline : Message → Block
  | .mk body nested =>
    .mk ("message " ++ body.name)
      ((usedOneofs body.fields).map (oneofOutline (.mk body nested)) ++
        body.enums.map enumOutline ++ nestedOutlines nested)

/-- The blocks of nested messages, without the entries of maps. -/
def nestedOutlines : List Message → List Block
  | [] => []
  | message :: rest =>
    if message.isMapEntry then nestedOutlines rest
    else messageOutline message :: nestedOutlines rest

end

mutual

/-- The blocks in the block of a rule. -/
def ruleOutlines : Http.Rule → List Block
  | .mk binding additional =>
    (match binding.pattern? with
      | some (.custom _ _) => [.mk "custom" []]
      | _ => []) ++ additionalOutlines additional

def additionalOutlines : List Http.Rule → List Block
  | [] => []
  | rule :: rest => .mk "additional_bindings" (ruleOutlines rule) :: additionalOutlines rest

end

/-- A method has a block if it has options or a rule; `scope` is that of its service. -/
def methodOutlines (scope : Scope) (method : Method) : List Block :=
  let inner := scope.nested method.name
  let rule? := (Http.ruleOf inner.name method).toOption.join
  if (standardOptions method.options?).isEmpty && rule?.isNone then
    []
  else
    [.mk (signature inner method)
      (rule?.toList.map fun rule => .mk "option (google.api.http) =" (ruleOutlines rule))]

def serviceOutline (scope : Scope) (service : Service) : Block :=
  .mk ("service " ++ service.name)
    (service.methods.flatMap (methodOutlines (scope.nested service.name)))

/-- The blocks of a file of a pool of `files`. -/
def fileOutlines (files : List File) (file : File) : List Block :=
  file.services.map (serviceOutline (Scope.ofPackage files file.package)) ++
    file.messages.map messageOutline ++ file.enums.map enumOutline

theorem blocksOf_map_line (lines : List String) : blocksOf (lines.map .line) = [] :=
  blocksOf_eq_nil (List.forall_mem_map.2 fun _ _ => by rw [Item.blocks])

theorem blocksOf_optionLines (options : List (String × String)) :
    blocksOf (optionLines options) = [] :=
  blocksOf_eq_nil (List.forall_mem_map.2 fun _ _ => by rw [Item.blocks])

theorem blocksOf_reservedLine (entries : List String) : blocksOf (reservedLine entries) = [] := by
  unfold reservedLine
  split <;> simp [blocksOf, Item.blocks]

theorem blocksOf_paragraph (items : List Item) : blocksOf (paragraph items) = blocksOf items := by
  unfold paragraph
  split
  · simp_all
  · rw [blocksOf, Item.blocks, List.nil_append]

theorem blocksOf_openingItems (file : File) : blocksOf (openingItems file) = [] := by
  have himports : blocksOf (importLines file) = [] := by
    refine blocksOf_eq_nil fun item hitem => ?_
    obtain ⟨index, hindex, rfl⟩ := List.mem_mapIdx.1 hitem
    rw [Item.blocks]
  simp only [openingItems, blocksOf_append, blocksOf_paragraph, himports, blocksOf_optionLines]
  split <;> simp [blocksOf, Item.blocks]

theorem blocksOf_spaced (blocks : List Item) : blocksOf (spaced blocks) = blocksOf blocks := by
  rw [← blocksOf_statementsOf, statementsOf_spaced, blocksOf_statementsOf]

/-- What is printed one by one has the blocks of each. -/
theorem blocksOf_of_mapM {α : Type} {print : α → Except Error Item} {outlines : α → List Block}
    (hprint : ∀ value item, print value = .ok item → item.blocks = outlines value)
    {values : List α} {items : List Item} (hitems : values.mapM print = .ok items) :
    blocksOf items = values.flatMap outlines := by
  have hprinted := mapM_eq_ok.1 hitems
  clear hitems
  induction hprinted with
  | nil => rfl
  | cons hone _ ih => rw [blocksOf, List.flatMap_cons, hprint _ _ hone, ih]

theorem blocks_oneofBlock {message : Message} {scope : Scope} {field : Field} {index : Int}
    {block : Item} (hblock : oneofBlock message scope field index = .ok block) :
    block.blocks = [oneofOutline message index] := by
  obtain ⟨oneof, honeof, -, lines, -, rfl⟩ := oneofBlock_eq_ok.1 hblock
  simp only [Item.blocks, blocksOf_append, blocksOf_optionLines, blocksOf_map_line, List.append_nil,
    oneofOutline, honeof, Option.map_some, Option.getD_some]

/-- The oneofs that have not been written are, each where its first member stands. -/
theorem blocksOf_fieldItems {message : Message} {scope : Scope} {written : List Int}
    {fields : List Field} {items : List Item}
    (hitems : fieldItems message scope written fields = .ok items) :
    blocksOf items = (((fields.filterMap Field.oneof?).filter (!written.contains ·)).eraseDups).map
      (oneofOutline message) := by
  induction fields generalizing written items with
  | nil =>
      obtain rfl : [] = items := by simpa [fieldItems] using hitems
      rfl
  | cons field rest ih =>
      rw [fieldItems] at hitems
      cases hindex : field.oneof? with
      | none =>
          simp only [hindex, bind_eq_ok, pure_eq_ok] at hitems
          obtain ⟨line, -, others, hothers, rfl⟩ := hitems
          rw [blocksOf, Item.blocks, List.nil_append, ih hothers, List.filterMap_cons_none hindex]
      | some index =>
          rw [List.filterMap_cons_some hindex, List.filter_cons]
          simp only [hindex] at hitems
          cases hwritten : written.contains index with
          | true =>
              rw [hwritten, if_pos rfl] at hitems
              exact ih hitems
          | false =>
              simp only [hwritten, Bool.false_eq_true, if_false, bind_eq_ok, pure_eq_ok] at hitems
              obtain ⟨block, hblock, others, hothers, rfl⟩ := hitems
              rw [Bool.not_false, if_pos rfl, List.eraseDups_cons, List.map_cons, blocksOf,
                blocks_oneofBlock hblock, ih hothers, List.singleton_append, List.filter_filter]
              congr 4
              funext other
              simp [beq_eq_decide]

theorem blocks_enumBlock {enumeration : Enumeration} {block : Item}
    (hblock : enumBlock enumeration = .ok block) : block.blocks = [enumOutline enumeration] := by
  obtain ⟨-, values, hvalues, rfl⟩ := enumBlock_eq_ok.1 hblock
  have hlines : blocksOf values = enumeration.values.flatMap fun _ => [] := by
    refine blocksOf_of_mapM (fun value item hitem => ?_) hvalues
    obtain ⟨-, rfl⟩ := enumValueLine_eq_ok.1 hitem
    rw [Item.blocks]
  rw [Item.blocks, enumReserved]
  simp [blocksOf_optionLines, blocksOf_reservedLine, hlines, enumOutline]

theorem blocksOf_enumBlocks {enums : List Enumeration} {blocks : List Item}
    (hblocks : enums.mapM enumBlock = .ok blocks) : blocksOf blocks = enums.map enumOutline := by
  rw [blocksOf_of_mapM (fun _ _ => blocks_enumBlock) hblocks, List.map_eq_flatMap]

mutual

theorem blocks_messageBlock {scope : Scope} {message : Message} {block : Item}
    (hblock : messageBlock scope message = .ok block) :
    block.blocks = [messageOutline message] := by
  obtain ⟨body, nested⟩ := message
  obtain ⟨-, fields, reserved, enums, messages, hfields, hreserved, henums, hmessages, rfl⟩ :=
    messageBlock_eq_ok.1 hblock
  obtain ⟨-, rfl⟩ := messageReserved_eq_ok.1 hreserved
  have hinside := blocksOf_nestedBlocks hmessages
  rw [Item.blocks, messageOutline]
  simp [blocksOf_optionLines, blocksOf_reservedLine, blocksOf_spaced, blocksOf_fieldItems hfields,
    blocksOf_enumBlocks henums, hinside, usedOneofs]

theorem blocksOf_nestedBlocks {scope : Scope} {messages : List Message} {blocks : List Item}
    (hblocks : messageBlocks true scope messages = .ok blocks) :
    blocksOf blocks = nestedOutlines messages := by
  cases messages with
  | nil =>
      obtain rfl : [] = blocks := by simpa [messageBlocks] using hblocks
      rfl
  | cons message rest =>
      rw [messageBlocks, Bool.true_and] at hblocks
      rw [nestedOutlines]
      split at hblocks
      · next hentry =>
          rw [if_pos hentry]
          exact blocksOf_nestedBlocks hblocks
      · next hshown =>
          simp only [bind_eq_ok, pure_eq_ok] at hblocks
          obtain ⟨block, hblock, others, hothers, rfl⟩ := hblocks
          rw [if_neg hshown, blocksOf, blocks_messageBlock hblock, blocksOf_nestedBlocks hothers]
          rfl

end

theorem blocksOf_messageBlocks {scope : Scope} {messages : List Message} {blocks : List Item}
    (hblocks : messageBlocks false scope messages = .ok blocks) :
    blocksOf blocks = messages.map messageOutline := by
  have hall : shownMessages false messages = messages := by simp [shownMessages]
  rw [messageBlocks_eq, hall] at hblocks
  rw [blocksOf_of_mapM (fun _ _ => blocks_messageBlock) hblocks, List.map_eq_flatMap]

theorem blocksOf_entryLines (key value : String) : blocksOf (entryLines key value) = [] := by
  unfold entryLines
  split <;> simp [blocksOf, entryLine, Item.blocks]

theorem blocksOf_bindingItems {method : String} {binding : Http.Binding} {items : List Item}
    (hitems : bindingItems method binding = .ok items) :
    blocksOf items = ruleOutlines (.mk binding []) := by
  obtain ⟨pattern, hpattern, rfl⟩ := bindingItems_eq_ok.1 hitems
  simp only [List.cons_append, blocksOf, blocksOf_append, blocksOf_entryLines, ruleOutlines,
    hpattern, additionalOutlines]
  cases pattern <;> simp [patternItem, entryLine, Item.blocks, blocksOf]

mutual

theorem blocksOf_ruleItems {method : String} {rule : Http.Rule} {items : List Item}
    (hitems : ruleItems method rule = .ok items) : blocksOf items = ruleOutlines rule := by
  obtain ⟨binding, additional⟩ := rule
  obtain ⟨own, blocks, hown, hblocks, rfl⟩ := ruleItems_eq_ok.1 hitems
  rw [blocksOf_append, blocksOf_bindingItems hown, blocksOf_additionalBlocks hblocks]
  simp [ruleOutlines, additionalOutlines]

theorem blocksOf_additionalBlocks {method : String} {rules : List Http.Rule} {blocks : List Item}
    (hblocks : additionalBlocks method rules = .ok blocks) :
    blocksOf blocks = additionalOutlines rules := by
  cases rules with
  | nil =>
      obtain rfl : [] = blocks := by simpa [additionalBlocks] using hblocks
      rfl
  | cons rule rest =>
      simp only [additionalBlocks, bind_eq_ok, pure_eq_ok] at hblocks
      obtain ⟨items, hitems, others, hothers, rfl⟩ := hblocks
      rw [blocksOf, Item.blocks, blocksOf_ruleItems hitems, blocksOf_additionalBlocks hothers,
        additionalOutlines]
      rfl

end

theorem blocks_methodItem {scope : Scope} {method : Method} {item : Item}
    (hitem : methodItem scope.name scope method = .ok item) :
    item.blocks = methodOutlines scope method := by
  obtain ⟨-, rule?, items?, hrule, hitems, rfl⟩ := methodItem_eq_ok.1 hitem
  have hfound : (Http.ruleOf (scope.nested method.name).name method).toOption.join = rule? := by
    rw [show (scope.nested method.name).name = Name.join scope.name method.name from rfl, hrule]
    rfl
  have hnone : items?.isNone = rule?.isNone := by
    obtain _ | _ := hitems <;> rfl
  simp only [methodOutlines, hfound, isEmpty_methodInside, hnone]
  split
  · rw [Item.blocks]
  · obtain ⟨hone⟩ | _ := hitems
    · simp [Item.blocks, methodInside, httpBlock, blocksOf, blocksOf_optionLines,
        blocksOf_ruleItems hone]
    · simp [Item.blocks, methodInside, blocksOf_optionLines]

theorem blocks_serviceBlock {scope : Scope} {service : Service} {block : Item}
    (hblock : serviceBlock scope (scope.nested service.name).name service = .ok block) :
    block.blocks = [serviceOutline scope service] := by
  obtain ⟨-, items, hitems, rfl⟩ := serviceBlock_eq_ok.1 hblock
  rw [Item.blocks, blocksOf_append, blocksOf_optionLines, List.nil_append, serviceOutline,
    blocksOf_of_mapM (fun _ _ => blocks_methodItem) hitems]

theorem blocksOf_serviceBlocks {scope : Scope} {services : List Service} {blocks : List Item}
    (hblocks : (services.map fun service => (Name.join scope.name service.name, service)).mapM
      (fun entry => serviceBlock scope entry.1 entry.2) = .ok blocks) :
    blocksOf blocks = services.map (serviceOutline scope) := by
  rw [List.mapM_map] at hblocks
  rw [blocksOf_of_mapM (fun _ _ => blocks_serviceBlock) hblocks, List.map_eq_flatMap]

/-- Below its preamble a file has the blocks of its declarations, and no others. -/
theorem readBlocks_printFile {files : List (Dialect × File)} {pool : Pool}
    (hpool : Pool.ofDialects files = .ok pool) {file : File} (hfile : file ∈ pool.files)
    (hwords : DeclaresWords file) (hrefers : RefersByWords file) {width : Nat} {text : String}
    (hprint : printFile width pool file = .ok text) :
    ∃ body, text = preamble file ++ body ∧
      readBlocks body = some (fileOutlines pool.files file) := by
  obtain ⟨symbols, resolved, hbuilds⟩ := exists_builds hpool
  have hlisted := hbuilds.services_eq_of_declaresWords hfile hwords
  obtain ⟨services, messages, enums, hservices, hmessages, henums, body, htext, hread⟩ :=
    readItems_printFile hlisted hwords hrefers hprint
  refine ⟨body, htext, ?_⟩
  have hblocks : blocksOf services =
      file.services.map (serviceOutline (Scope.ofPackage pool.files file.package)) :=
    blocksOf_serviceBlocks hservices
  rw [readBlocks, hread, Option.map_some, fileOutlines]
  simp only [blocksOf_append, blocksOf_statementsOf, blocksOf_openingItems, List.nil_append,
    hblocks, blocksOf_messageBlocks hmessages, blocksOf_enumBlocks henums]

/-- A message whose first field is a member of its second oneof. -/
def swappedFile : File where
  name? := some "shape.proto"
  package? := some "shapes"
  messages :=
    [.mk { name? := some "Shape"
           oneofs := [{ name? := some "color" }, { name? := some "size" }]
           fields :=
             [{ name? := some "width", number? := some 1, typeCode? := some 5,
                oneofIndex? := some 1 },
              { name? := some "red", number? := some 2, typeCode? := some 5,
                oneofIndex? := some 0 }] }
      []]
  dialect? := some "proto3"

def swappedBody : String :=
  "\npackage shapes;\n\nmessage Shape \x7b\n  oneof size \x7b\n    int32 width = 1;\n  \x7d\n" ++
    "  oneof color \x7b\n    int32 red = 2;\n  \x7d\n\x7d\n"

theorem exists_pool_swappedFile : ∃ pool file, Pool.ofDialects [(.proto3, swappedFile)] = .ok pool ∧
    file ∈ pool.files ∧ DeclaresWords file ∧ RefersByWords file ∧
    file.messages.map (fun message => message.body.oneofs.map Oneof.name) = [["color", "size"]] ∧
    printFile 2 pool file = .ok (preamble file ++ swappedBody) := by
  have hcomputed : (Pool.ofDialects [(.proto3, swappedFile)]).toOption.map (fun pool =>
      decide (∃ file ∈ pool.files, DeclaresWords file ∧ RefersByWords file ∧
        file.messages.map (fun message => message.body.oneofs.map Oneof.name) =
          [["color", "size"]] ∧
        (printFile 2 pool file).toOption = some (preamble file ++ swappedBody))) = some true := by
    decide +kernel
  obtain ⟨pool, hpool, hfound⟩ := exists_ok_of_map_eq_some hcomputed
  obtain ⟨file, hfile, hwords, hrefers, honeofs, hprint⟩ := of_decide_eq_true hfound
  exact ⟨pool, file, hpool, hfile, hwords, hrefers, honeofs, toOption_eq_some.1 hprint⟩

theorem readBlocks_printFile_swappedFile : ∃ pool file body,
    Pool.ofDialects [(.proto3, swappedFile)] = .ok pool ∧ file ∈ pool.files ∧
      printFile 2 pool file = .ok (preamble file ++ body) ∧
      readBlocks body = some (fileOutlines pool.files file) := by
  obtain ⟨pool, file, hpool, hfile, hwords, hrefers, -, hprint⟩ := exists_pool_swappedFile
  obtain ⟨body, htext, hblocks⟩ := readBlocks_printFile hpool hfile hwords hrefers hprint
  exact ⟨pool, file, body, hpool, hfile, htext ▸ hprint, hblocks⟩

/-- The oneof that is declared second is printed first. -/
theorem oneofs_out_of_order : ∃ pool file, Pool.ofDialects [(.proto3, swappedFile)] = .ok pool ∧
    file ∈ pool.files ∧ DeclaresWords file ∧ RefersByWords file ∧
    file.messages.map (fun message => message.body.oneofs.map Oneof.name) = [["color", "size"]] ∧
    printFile 2 pool file = .ok (preamble file ++ swappedBody) ∧
    readBlocks swappedBody =
      some [.mk "message Shape" [.mk "oneof size" [], .mk "oneof color" []]] := by
  obtain ⟨pool, file, hpool, hfile, hwords, hrefers, honeofs, hprint⟩ := exists_pool_swappedFile
  exact ⟨pool, file, hpool, hfile, hwords, hrefers, honeofs, hprint, by decide +kernel⟩

end ProtoSource.Render
