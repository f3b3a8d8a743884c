import ProtoSource.Proofs.Success
import ProtoSource.Render.Printer

/-!
# What is printed

For each part of a file, when it is printed and as what: one lemma for each step of
the printer, in terms of the steps it takes.
-/

namespace ProtoSource.Render

open ProtoSource.Descriptor
open ProtoSource.Success
open ProtoSource.Text

theorem requireName_eq_ok {what : Nameable} {name : String} {done : Unit} :
    requireName what name = .ok done ↔ name ≠ "" := by
  unfold requireName
  split <;> simp_all

theorem typeToken_eq_ok {scope : Scope} {field : Field} {token : String} :
    typeToken scope field = .ok token ↔
      (∃ type ∈ field.type?, type.keyword ≠ "" ∧ type.keyword = token) ∨
        (∀ type ∈ field.type?, type.keyword = "") ∧ field.typeName ≠ "" ∧
          scope.reference field.typeName = token := by
  unfold typeToken
  cases field.type? with
  | none => by_cases hempty : field.typeName = "" <;> simp [hempty]
  | some type =>
      by_cases hkeyword : type.keyword = ""
      · by_cases hempty : field.typeName = "" <;> simp [hkeyword, hempty]
      · simp [hkeyword]

theorem entryField_eq_ok {entry : Message} {number : Int} {field : Field} :
    entryField entry number = .ok field ↔
      entry.body.fields.find? (·.number == number) = some field := by
  unfold entryField
  cases entry.body.fields.find? (·.number == number) <;> simp

/-- What stands before the type of a field. -/
def labelText (field : Field) : String :=
  if (labelWord field).isEmpty then "" else labelWord field ++ " "

/-- A field of a map entry is printed as a map, any other by its label and type. -/
theorem fieldLine_eq_ok {message : Message} {scope : Scope} {field : Field} {line : String} :
    fieldLine message scope field = .ok line ↔ field.name ≠ "" ∧
      ((∃ entry, mapEntry? message field = some entry ∧ ∃ key value keyToken valueToken,
          entryField entry 1 = .ok key ∧ entryField entry 2 = .ok value ∧
          typeToken scope key = .ok keyToken ∧ typeToken scope value = .ok valueToken ∧
          "map<" ++ keyToken ++ ", " ++ valueToken ++ ">" ++ fieldTail field = line) ∨
        mapEntry? message field = none ∧ ∃ token, typeToken scope field = .ok token ∧
          labelText field ++ token ++ fieldTail field = line) := by
  simp only [fieldLine, bind_eq_ok, requireName_eq_ok, exists_const]
  refine and_congr_right fun _ => ?_
  cases mapEntry? message field with
  | none =>
      simp only [bind_eq_ok, pure_eq_ok, labelText, reduceCtorEq, false_and, exists_false, false_or,
        true_and]
  | some entry =>
      simp only [bind_eq_ok, pure_eq_ok, Option.some.injEq, exists_eq_left', reduceCtorEq,
        false_and, or_false, exists_and_left]

theorem oneofBlock_eq_ok {message : Message} {scope : Scope} {field : Field} {index : Int}
    {block : Item} :
    oneofBlock message scope field index = .ok block ↔
      ∃ oneof, oneofAt? message index = some oneof ∧ oneof.name ≠ "" ∧ ∃ lines,
        (message.body.fields.filter (·.oneof? == some index)).mapM (fieldLine message scope) =
            .ok lines ∧
          .block ("oneof " ++ oneof.name)
            (optionLines (standardOptions oneof.options?) ++ lines.map .line) "" = block := by
  unfold oneofBlock
  cases oneofAt? message index with
  | none => simp
  | some oneof =>
      simp only [bind_eq_ok, pure_eq_ok, requireName_eq_ok, exists_const, Option.some.injEq,
        exists_eq_left']

theorem enumValueLine_eq_ok {value : EnumValue} {item : Item} :
    enumValueLine value = .ok item ↔ value.name ≠ "" ∧
      .line (value.name ++ " = " ++ toString value.number ++
        bracketed (standardOptions value.options?) ++ ";") = item := by
  simp only [enumValueLine, bind_eq_ok, pure_eq_ok, requireName_eq_ok, exists_const]

theorem enumBlock_eq_ok {enumeration : Enumeration} {block : Item} :
    enumBlock enumeration = .ok block ↔ enumeration.name ≠ "" ∧ ∃ values,
      enumeration.values.mapM enumValueLine = .ok values ∧
        .block ("enum " ++ enumeration.name)
          (optionLines (standardOptions enumeration.options?) ++ values ++
            enumReserved enumeration) "" = block := by
  simp only [enumBlock, bind_eq_ok, pure_eq_ok, requireName_eq_ok, exists_const]

theorem predecessor_eq_ok {value result : Int} :
    predecessor value = .ok result ↔ lowestInteger < value ∧ value - 1 = result := by
  unfold predecessor
  split
  · next hlow => simp [Int.not_lt.2 hlow]
  · next hlow => simp [Int.not_le.1 hlow]

/-- Ranges are printed if the numbers before their ends are 32-bit integers. -/
theorem messageReserved_eq_ok {body : MessageBody} {items : List Item} :
    messageReserved body = .ok items ↔ (∀ range ∈ body.reservedRanges, lowestInteger < range.stop) ∧
      reservedLine (body.reservedRanges.map fun range =>
          rangeText maxFieldNumber range.start (range.stop - 1)) ++
        reservedLine (body.reservedNames.map quote) = items := by
  have hrange (range : Range) (text : String) :
      (do return rangeText maxFieldNumber range.start (← predecessor range.stop)) = .ok text ↔
        lowestInteger < range.stop ∧
          rangeText maxFieldNumber range.start (range.stop - 1) = text := by
    simp only [bind_eq_ok, predecessor_eq_ok, pure_eq_ok]
    constructor
    · rintro ⟨_, ⟨hlow, rfl⟩, rfl⟩
      exact ⟨hlow, rfl⟩
    · rintro ⟨hlow, rfl⟩
      exact ⟨_, ⟨hlow, rfl⟩, rfl⟩
  simp only [messageReserved, bind_eq_ok, pure_eq_ok, mapM_eq_ok_of_iff hrange]
  constructor
  · rintro ⟨_, ⟨hlow, rfl⟩, rfl⟩
    exact ⟨hlow, rfl⟩
  · rintro ⟨hlow, rfl⟩
    exact ⟨_, ⟨hlow, rfl⟩, rfl⟩

theorem messageBlock_eq_ok {scope : Scope} {body : MessageBody} {nested : List Message}
    {block : Item} :
    messageBlock scope (.mk body nested) = .ok block ↔ body.name ≠ "" ∧
      ∃ fields reserved enums messages,
        fieldItems (.mk body nested) (scope.nested body.name) [] body.fields = .ok fields ∧
        messageReserved body = .ok reserved ∧ body.enums.mapM enumBlock = .ok enums ∧
        messageBlocks true (scope.nested body.name) nested = .ok messages ∧
        .block ("message " ++ body.name)
          (optionLines (standardOptions body.options?) ++ fields ++ reserved ++ spaced enums ++
            spaced messages) "" = block := by
  rw [messageBlock]
  simp only [bind_eq_ok, pure_eq_ok, requireName_eq_ok, exists_const, exists_and_left]

/-- The messages that are printed, without the entries of maps if `hideEntries`. -/
def shownMessages (hideEntries : Bool) (messages : List Message) : List Message :=
  messages.filter fun message => !(hideEntries && message.isMapEntry)

theorem messageBlocks_eq (hideEntries : Bool) (scope : Scope) (messages : List Message) :
    messageBlocks hideEntries scope messages =
      (shownMessages hideEntries messages).mapM (messageBlock scope) := by
  induction messages with
  | nil => rfl
  | cons message rest ih =>
      rw [messageBlocks, shownMessages, List.filter_cons]
      cases hideEntries && message.isMapEntry with
      | true => exact ih
      | false =>
          rw [if_neg (by simp), if_pos (by simp), List.mapM_cons, ih]
          rfl

theorem bindingItems_eq_ok {method : String} {binding : Http.Binding} {items : List Item} :
    bindingItems method binding = .ok items ↔ ∃ pattern, binding.pattern? = some pattern ∧
      patternItem pattern :: entryLines "body" binding.body ++
        entryLines "response_body" binding.responseBody = items := by
  simp only [bindingItems, Http.Binding.pattern, bind_eq_ok, pure_eq_ok]
  cases binding.pattern? <;> simp

theorem additionalBlocks_eq_ok {method : String} {rules : List Http.Rule} {blocks : List Item} :
    additionalBlocks method rules = .ok blocks ↔ ∃ inside,
      List.Forall₂ (fun rule items => ruleItems method rule = .ok items) rules inside ∧
        (inside.map fun items => .block "additional_bindings" items "") = blocks := by
  induction rules generalizing blocks with
  | nil => simp [additionalBlocks]
  | cons rule rest ih =>
      simp only [additionalBlocks, bind_eq_ok, pure_eq_ok, ih, List.forall₂_cons_left_iff]
      constructor
      · rintro ⟨items, hitems, _, ⟨others, hothers, rfl⟩, rfl⟩
        exact ⟨items :: others, ⟨items, others, hitems, hothers, rfl⟩, rfl⟩
      · rintro ⟨_, ⟨items, others, hitems, hothers, rfl⟩, rfl⟩
        exact ⟨items, hitems, _, ⟨others, hothers, rfl⟩, rfl⟩

theorem ruleItems_eq_ok {method : String} {binding : Http.Binding} {additional : List Http.Rule}
    {items : List Item} :
    ruleItems method (.mk binding additional) = .ok items ↔ ∃ own blocks,
      bindingItems method binding = .ok own ∧ additionalBlocks method additional = .ok blocks ∧
        own ++ blocks = items := by
  rw [ruleItems]
  simp only [bind_eq_ok, pure_eq_ok, exists_and_left]

/-- The block that a rule is printed as. -/
def httpBlock (items : List Item) : Item :=
  .block "option (google.api.http) =" items ";"

theorem ruleBlock_eq_ok {fullName : String} {rule? : Option Http.Rule} {blocks : List Item} :
    ruleBlock fullName rule? = .ok blocks ↔ ∃ items?,
      Option.Rel (fun rule items => ruleItems fullName rule = .ok items) rule? items? ∧
        items?.toList.map httpBlock = blocks := by
  cases rule? with
  | none =>
      simp only [ruleBlock, Except.ok.injEq]
      constructor
      · rintro rfl
        exact ⟨none, .none, rfl⟩
      · rintro ⟨_, ⟨⟩, rfl⟩
        rfl
  | some rule =>
      simp only [ruleBlock, bind_eq_ok, pure_eq_ok]
      constructor
      · rintro ⟨items, hitems, rfl⟩
        exact ⟨some items, .some hitems, rfl⟩
      · rintro ⟨_, ⟨hitems⟩, rfl⟩
        exact ⟨_, hitems, rfl⟩

/-- What is printed between the braces of a method. -/
def methodInside (method : Method) (items? : Option (List Item)) : List Item :=
  optionLines (standardOptions method.options?) ++ items?.toList.map httpBlock

theorem isEmpty_methodInside (method : Method) (items? : Option (List Item)) :
    (methodInside method items?).isEmpty =
      ((standardOptions method.options?).isEmpty && items?.isNone) := by
  unfold methodInside optionLines
  cases standardOptions method.options? <;> cases items? <;> rfl

theorem methodItem_eq_ok {serviceName : String} {scope : Scope} {method : Method} {item : Item} :
    methodItem serviceName scope method = .ok item ↔ method.name ≠ "" ∧ ∃ rule? items?,
      Http.ruleOf (Name.join serviceName method.name) method = .ok rule? ∧
        Option.Rel (fun rule items =>
          ruleItems (Name.join serviceName method.name) rule = .ok items) rule? items? ∧
        (if (methodInside method items?).isEmpty then
            .line (signature (scope.nested method.name) method ++ " \x7b\x7d")
          else
            .block (signature (scope.nested method.name) method) (methodInside method items?) "") =
          item := by
  simp only [methodItem, bind_eq_ok, pure_eq_ok, requireName_eq_ok, exists_const, ruleBlock_eq_ok]
  refine and_congr_right fun _ => ?_
  constructor
  · rintro ⟨rule?, hrule, _, ⟨items?, hitems, rfl⟩, rfl⟩
    exact ⟨rule?, items?, hrule, hitems, rfl⟩
  · rintro ⟨rule?, items?, hrule, hitems, rfl⟩
    exact ⟨rule?, hrule, _, ⟨items?, hitems, rfl⟩, rfl⟩

theorem serviceBlock_eq_ok {scope : Scope} {fullName : String} {service : Service} {block : Item} :
    serviceBlock scope fullName service = .ok block ↔ service.name ≠ "" ∧ ∃ methods,
      service.methods.mapM (methodItem fullName (scope.nested service.name)) = .ok methods ∧
        .block ("service " ++ service.name)
          (optionLines (standardOptions service.options?) ++ methods) "" = block := by
  simp only [serviceBlock, bind_eq_ok, pure_eq_ok, requireName_eq_ok, exists_const]

/-- What is printed before the declarations, after the line that names the dialect. -/
def openingItems (file : File) : List Item :=
  paragraph (importLines file) ++
    paragraph (if file.package.isEmpty then [] else [.line ("package " ++ file.package ++ ";")]) ++
    paragraph (optionLines (standardOptions file.options?))

/-- What is printed up to the line that names the dialect. -/
def preambleItems (file : File) : List Item :=
  [.line generatedHeader, .line ("// source: " ++ file.name), .blank, .line "syntax = \"proto3\";"]

/-- A file is printed if its services, messages and enums are. -/
theorem printFile_eq_ok {width : Nat} {pool : Pool} {file : File} {text : String} :
    printFile width pool file = .ok text ↔ ∃ services messages enums,
      (pool.services file).mapM (fun found => found >>= fun entry =>
          serviceBlock (Scope.ofPackage pool.files file.package) entry.1 entry.2) = .ok services ∧
        messageBlocks false (Scope.ofPackage pool.files file.package) file.messages = .ok messages ∧
        file.enums.mapM enumBlock = .ok enums ∧
        text = Item.render width (preambleItems file ++ (openingItems file ++ spaced services ++
          spaced messages ++ spaced enums)) := by
  simp only [printFile, fileItems, bind_eq_ok, pure_eq_ok]
  constructor
  · rintro ⟨_, ⟨services, hservices, messages, hmessages, enums, henums, rfl⟩, rfl⟩
    refine ⟨services, messages, enums, hservices, hmessages, henums, ?_⟩
    simp only [headItems, preambleItems, openingItems, List.append_assoc]
  · rintro ⟨services, messages, enums, hservices, hmessages, henums, rfl⟩
    refine ⟨_, ⟨services, hservices, messages, hmessages, enums, henums, rfl⟩, ?_⟩
    simp only [headItems, preambleItems, openingItems, List.append_assoc]

end ProtoSource.Render
