import ProtoSource.Proofs.Pool.Words
import ProtoSource.Proofs.Render.Plain
import ProtoSource.Proofs.Render.Printing
import ProtoSource.Proofs.Text.Blocks
import ProtoSource.Proofs.Text.Literals

/-!
# Printed files can be read

If the declarations of a file and the types it refers to are named by words, no line
of its text can be mistaken for something else: texts of the user's own stand in
literals, which neither break a line nor end in a brace.  So the text is read as the
items it was printed from, below a preamble that only the name of the file enters.
-/

namespace ProtoSource.Text

theorem oneLine_quote (text : String) : OneLine (quote text) :=
  fun hbreak => absurd (isControl_of_mem_quote hbreak) (by decide)

theorem oneLine_toString (number : Int) : OneLine (toString number) := by
  have hdigits (natural : Nat) : '\n' ∉ natural.repr.toList := by
    rw [Nat.toList_repr]
    exact fun hbreak => absurd (Nat.isDigit_of_mem_toDigits (by decide) (by decide) hbreak)
      (by decide)
  rw [OneLine, Int.toString_eq_repr, Int.repr_eq_if]
  split
  · exact hdigits _
  · rw [String.toList_append, List.mem_append, not_or]
    exact ⟨by decide, hdigits _⟩

theorem oneLine_intercalate {separator : String} {parts : List String}
    (hseparator : OneLine separator) (hparts : ∀ part ∈ parts, OneLine part) :
    OneLine (String.intercalate separator parts) := by
  induction parts with
  | nil => simp [OneLine]
  | cons part rest ih =>
      rw [List.forall_mem_cons] at hparts
      cases rest with
      | nil => simpa using hparts.1
      | cons next rest =>
          rw [String.intercalate_cons_cons, oneLine_append, oneLine_append]
          exact ⟨⟨hparts.1, hseparator⟩, ih hparts.2⟩

/-- A statement ends in a semicolon. -/
theorem Item.readable_statement {text : String} (htext : StartsLine text) :
    (Item.line (text ++ ";")).Readable :=
  .line (htext.append (by decide)) (by simp)

namespace Name

/-- The text is a name as it is written: words with dots between or before them. -/
structure IsToken (text : String) : Prop where
  ne_empty : text ≠ ""
  chars : ∀ char ∈ text.toList, isWordChar char = true ∨ char = '.'

namespace IsToken

variable {text : String}

/-- A character that no word has is not in a token. -/
theorem notMem (htext : IsToken text) {char : Char} (hword : isWordChar char = false)
    (hdot : char ≠ '.') : char ∉ text.toList := by
  intro hchar
  obtain hisWord | hisDot := htext.chars char hchar
  · simp [hword] at hisWord
  · exact hdot hisDot

theorem oneLine (htext : IsToken text) : OneLine text :=
  htext.notMem (by decide) (by decide)

theorem startsLine (htext : IsToken text) : StartsLine text where
  oneLine := htext.oneLine
  first := by
    have hchars : text.toList ≠ [] := by simpa using htext.ne_empty
    obtain ⟨first, rest, hcons⟩ := List.exists_cons_of_ne_nil hchars
    have hfirst : first ∈ text.toList := by simp [hcons]
    refine ⟨first, by simp [hcons], ?_, ?_⟩
    · rintro rfl
      exact htext.notMem (by decide) (by decide) hfirst
    · rintro rfl
      exact htext.notMem (by decide) (by decide) hfirst

theorem getLast?_ne (htext : IsToken text) {char : Char} (hword : isWordChar char = false)
    (hdot : char ≠ '.') : text.toList.getLast? ≠ some char :=
  fun hlast => htext.notMem hword hdot (List.mem_of_getLast? hlast)

end IsToken

theorem IsWord.isToken {name : String} (hname : IsWord name) : IsToken name :=
  ⟨hname.1, fun char hchar => Or.inl (hname.2 char hchar)⟩

theorem IsPath.isToken {name : String} (hname : IsPath name) (hempty : name ≠ "") : IsToken name :=
  ⟨hempty, hname.chars⟩

end Name

/-- A block of a declaration is headed by a word and a name. -/
theorem Item.readable_declaration {word name : String} {items : List Item} (hword : StartsLine word)
    (hname : Name.IsWord name) (hitems : ∀ item ∈ items, item.Readable) :
    (Item.block (word ++ name) items "").Readable := by
  refine .block (hword.append hname.isToken.oneLine) ?_ hitems (by decide) (by decide)
  have hchars : name.toList ≠ [] := by simpa using hname.1
  rw [String.toList_append, List.getLast?_append_of_ne_nil _ hchars]
  exact hname.isToken.getLast?_ne (by decide) (by decide)

end ProtoSource.Text

namespace ProtoSource.Render

open ProtoSource.Descriptor
open ProtoSource.Pool
open ProtoSource.Related
open ProtoSource.Success
open ProtoSource.Text

/-- However short it is written, a reference is a token. -/
theorem isToken_reference (scope : Scope) {typeName : String} (htype : Name.IsReference typeName) :
    Name.IsToken (scope.reference typeName) := by
  obtain ⟨fullName, habsolute, hfull, hpath⟩ := htype
  rw [Option.mem_def] at habsolute
  have hchars : typeName.toList = '.' :: fullName.toList := Name.absolute?_eq_some.1 habsolute
  have hwhole : Name.IsToken typeName := by
    constructor
    · rintro rfl
      simp at hchars
    · rw [hchars, List.forall_mem_cons]
      exact ⟨Or.inr rfl, hpath.chars⟩
  rw [Scope.reference, habsolute]
  cases hfind : (scope.spellings fullName).find? fun spelling =>
      scope.resolve spelling == some fullName with
  | none => simpa [hfind] using hwhole
  | some spelling =>
      have hmem := List.mem_of_find?_eq_some hfind
      simp only [hfind, Option.getD_some]
      rw [Scope.spellings, List.mem_append, List.mem_singleton, Option.mem_toList] at hmem
      obtain hrelative | rfl := hmem
      · split_ifs at hrelative
        rw [Name.below?_eq_some] at hrelative
        refine ⟨?_, fun char hchar => hpath.chars char (by simp [hrelative, hchar])⟩
        rintro rfl
        -- A path does not end in a dot.
        exact hpath.isDotted.last (by simp [hrelative])
      · exact hpath.isToken hfull

theorem isToken_typeToken {scope : Scope} {field : Field} {token : String}
    (htype : field.typeName = "" ∨ Name.IsReference field.typeName)
    (htoken : typeToken scope field = .ok token) : Name.IsToken token := by
  obtain ⟨type, -, hkeyword, rfl⟩ | ⟨-, hempty, rfl⟩ := typeToken_eq_ok.1 htoken
  · refine ⟨hkeyword, ?_⟩
    cases type <;> decide
  · exact isToken_reference scope (htype.resolve_left hempty)

/-- The texts that the numbers of a standard option have. -/
def choices : SettingShape → List (Int × String)
  | .choice names => names
  | _ => []

/-- The texts of a kind of options that are fixed. -/
theorem oneLine_settings (kind : OptionsKind) :
    ∀ spec ∈ kind.settings, OneLine spec.name ∧
      ∀ choice ∈ choices spec.shape, OneLine choice.2 := by
  cases kind <;> decide

theorem oneLine_settingText {shape : SettingShape}
    (hshape : ∀ choice ∈ choices shape, OneLine choice.2) (value : SettingValue) :
    OneLine (settingText shape value) := by
  cases value with
  | text text => exact oneLine_quote text
  | flag flag => cases flag <;> simp [OneLine, settingText]
  | choice number =>
      cases shape with
      | text => exact oneLine_toString number
      | flag => exact oneLine_toString number
      | choice names =>
          rw [settingText, choiceText]
          cases hlookup : names.lookup number with
          | none => exact oneLine_toString number
          | some name =>
              exact hshape (number, name) (mem_of_lookup hlookup)

theorem oneLine_of_mem_standardOptions {kind : OptionsKind} {options? : Option (Options kind)}
    {option : String × String} (hoption : option ∈ standardOptions options?) :
    OneLine option.1 ∧ OneLine option.2 := by
  unfold standardOptions at hoption
  split at hoption
  · simp at hoption
  · obtain ⟨spec, hspec, hset⟩ := List.mem_filterMap.1 hoption
    obtain ⟨value, -, rfl⟩ := Option.map_eq_some_iff.1 hset
    obtain ⟨hname, hchoices⟩ := oneLine_settings kind spec (List.mem_of_mem_filter hspec)
    exact ⟨hname, oneLine_settingText hchoices value⟩

theorem readable_optionLines {options : List (String × String)}
    (hoptions : ∀ option ∈ options, OneLine option.1 ∧ OneLine option.2) :
    ∀ item ∈ optionLines options, item.Readable := by
  rw [optionLines, List.forall_mem_map]
  rintro ⟨name, value⟩ hoption
  obtain ⟨hname, hvalue⟩ := hoptions _ hoption
  have hstart : StartsLine "option " := by decide
  exact Item.readable_statement (((hstart.append hname).append (by decide)).append hvalue)

theorem readable_standardOptions {kind : OptionsKind} (options? : Option (Options kind)) :
    ∀ item ∈ optionLines (standardOptions options?), item.Readable :=
  readable_optionLines fun _ => oneLine_of_mem_standardOptions

theorem oneLine_bracketed {options : List (String × String)}
    (hoptions : ∀ option ∈ options, OneLine option.1 ∧ OneLine option.2) :
    OneLine (bracketed options) := by
  unfold bracketed
  split
  · decide
  · rw [oneLine_append, oneLine_append]
    refine ⟨⟨by decide, oneLine_intercalate (by decide) ?_⟩, by decide⟩
    rw [List.forall_mem_map]
    rintro ⟨name, value⟩ hoption
    obtain ⟨hname, hvalue⟩ := hoptions _ hoption
    exact oneLine_append.2 ⟨oneLine_append.2 ⟨hname, by decide⟩, hvalue⟩

theorem oneLine_fieldTail {field : Field} (hname : Name.IsWord field.name) :
    ∃ text, fieldTail field = text ++ ";" ∧ OneLine text := by
  refine ⟨_, rfl, ?_⟩
  have hoptions : OneLine (fieldOptions field) := by
    refine oneLine_bracketed fun option hoption => ?_
    obtain hjson | hstandard := List.mem_append.1 hoption
    · unfold jsonNameOption at hjson
      split at hjson
      · simp at hjson
      · split at hjson
        · simp at hjson
        · rw [List.mem_singleton.1 hjson]
          exact ⟨by simp [OneLine], oneLine_quote _⟩
    · exact oneLine_of_mem_standardOptions hstandard
  simp only [oneLine_append]
  exact ⟨⟨⟨⟨by decide, hname.isToken.oneLine⟩, by decide⟩, oneLine_toString _⟩, hoptions⟩

/-- The declarations of a message are named by words, and so are the types they
refer to. -/
structure Worded (body : MessageBody) : Prop where
  name : Name.IsWord body.name
  fields : ∀ field ∈ body.fields, Name.IsWord field.name
  types : ∀ field ∈ body.fields, field.typeName = "" ∨ Name.IsReference field.typeName
  oneofs : ∀ oneof ∈ body.oneofs, Name.IsWord oneof.name
  enums : ∀ enumeration ∈ body.enums, Name.IsWord enumeration.name
  values : ∀ enumeration ∈ body.enums, ∀ value ∈ enumeration.values, Name.IsWord value.name

theorem worded_of_mem_messagesOf {file : File} (hwords : DeclaresWords file)
    (hrefers : RefersByWords file) {entry : String × Message} (hentry : entry ∈ messagesOf file) :
    Worded entry.2.body := by
  exact {
    name := hwords.messages entry hentry
    fields := hwords.fields entry hentry
    types := hrefers.fields entry hentry
    oneofs := hwords.oneofs entry hentry
    enums := fun _ henum => hwords.enums _ (mem_enumsOf_of_nested hentry henum)
    values := fun _ henum => hwords.values _ (mem_enumsOf_of_nested hentry henum) }

theorem mem_nested_of_isEntry {message entry : Message} {field : Field}
    (hentry : mapEntry? message field = some entry) : entry ∈ message.nested := by
  unfold mapEntry? at hentry
  split at hentry
  · exact List.mem_of_find?_eq_some hentry
  · simp at hentry

theorem labelText_eq (field : Field) : labelText field = "" ∨ StartsLine (labelText field) := by
  unfold labelText labelWord
  cases field.proto3Optional with
  | true => exact Or.inr (by rw [if_pos rfl]; decide)
  | false => cases field.label <;> simp only [Bool.false_eq_true, if_false] <;> decide

theorem readable_fieldLine {message : Message} {scope : Scope} {field : Field} {line : String}
    (hmessage : Worded message.body) (hnested : ∀ nested ∈ message.nested, Worded nested.body)
    (hfield : field ∈ message.body.fields) (hline : fieldLine message scope field = .ok line) :
    (Item.line line).Readable := by
  obtain ⟨tail, htail, htailLine⟩ := oneLine_fieldTail (hmessage.fields field hfield)
  obtain ⟨-, ⟨entry, hentry, key, value, keyToken, valueToken, hkey, hvalue, hkeyToken, hvalueToken,
    rfl⟩ | ⟨-, token, htoken, rfl⟩⟩ := fieldLine_eq_ok.1 hline
  · have hentryTypes := (hnested entry (mem_nested_of_isEntry hentry)).types
    have htokens {number : Int} {part : Field} {token : String}
        (hpart : entryField entry number = .ok part) (htoken : typeToken scope part = .ok token) :
        OneLine token :=
      (isToken_typeToken (hentryTypes part (List.mem_of_find?_eq_some (entryField_eq_ok.1 hpart)))
        htoken).oneLine
    have hstart : StartsLine "map<" := by decide
    rw [htail, ← String.append_assoc]
    exact Item.readable_statement (((((hstart.append (htokens hkey hkeyToken)).append
      (by decide)).append (htokens hvalue hvalueToken)).append (by decide)).append htailLine)
  · have htokenLine := isToken_typeToken (hmessage.types field hfield) htoken
    rw [htail, ← String.append_assoc]
    refine Item.readable_statement (StartsLine.append ?_ htailLine)
    obtain hlabel | hlabel := labelText_eq field
    · simpa [hlabel] using htokenLine.startsLine
    · exact hlabel.append htokenLine.oneLine

theorem mem_oneofs_of_oneofAt? {message : Message} {index : Int} {oneof : Oneof}
    (honeof : oneofAt? message index = some oneof) : oneof ∈ message.body.oneofs := by
  unfold oneofAt? at honeof
  split at honeof
  · exact List.mem_of_getElem? honeof
  · simp at honeof

theorem readable_fieldItems {message : Message} {scope : Scope} (hmessage : Worded message.body)
    (hnested : ∀ nested ∈ message.nested, Worded nested.body) {written : List Int}
    {fields : List Field} (hfields : fields ⊆ message.body.fields) {items : List Item}
    (hitems : fieldItems message scope written fields = .ok items) :
    ∀ item ∈ items, item.Readable := by
  induction fields generalizing written items with
  | nil =>
      obtain rfl : [] = items := by simpa [fieldItems] using hitems
      simp
  | cons field rest ih =>
      rw [List.cons_subset] at hfields
      rw [fieldItems] at hitems
      cases hindex : field.oneof? with
      | none =>
          simp only [hindex, bind_eq_ok, pure_eq_ok] at hitems
          obtain ⟨line, hline, others, hothers, rfl⟩ := hitems
          exact List.forall_mem_cons.2
            ⟨readable_fieldLine hmessage hnested hfields.1 hline, ih hfields.2 hothers⟩
      | some index =>
          simp only [hindex] at hitems
          split at hitems
          · exact ih hfields.2 hitems
          · simp only [bind_eq_ok, pure_eq_ok] at hitems
            obtain ⟨block, hblock, others, hothers, rfl⟩ := hitems
            obtain ⟨oneof, honeof, -, lines, hlines, rfl⟩ := oneofBlock_eq_ok.1 hblock
            refine List.forall_mem_cons.2 ⟨?_, ih hfields.2 hothers⟩
            have hname := hmessage.oneofs oneof (mem_oneofs_of_oneofAt? honeof)
            refine Item.readable_declaration (by decide) hname ?_
            refine List.forall_mem_append.2 ⟨readable_standardOptions _, ?_⟩
            rw [List.forall_mem_map]
            intro line hline
            obtain ⟨member, hmember, hprinted⟩ :=
              forall₂_exists_of_mem (mapM_eq_ok.1 hlines).flip hline
            exact readable_fieldLine hmessage hnested (List.mem_of_mem_filter hmember) hprinted

theorem readable_reservedLine {entries : List String}
    (hentries : ∀ entry ∈ entries, OneLine entry) :
    ∀ item ∈ reservedLine entries, item.Readable := by
  unfold reservedLine
  split
  · simp
  · rw [List.forall_mem_singleton]
    have hstart : StartsLine "reserved " := by decide
    exact Item.readable_statement (hstart.append (oneLine_intercalate (by decide) hentries))

theorem readable_reservedNames (names : List String) :
    ∀ item ∈ reservedLine (names.map quote), item.Readable :=
  readable_reservedLine (List.forall_mem_map.2 fun name _ => oneLine_quote name)

theorem oneLine_rangeText (max start last : Int) : OneLine (rangeText max start last) := by
  unfold rangeText
  split_ifs
  · exact oneLine_toString start
  · exact oneLine_append.2 ⟨oneLine_toString start, by decide⟩
  · exact oneLine_append.2 ⟨oneLine_append.2 ⟨oneLine_toString start, by decide⟩,
      oneLine_toString last⟩

theorem readable_messageReserved {body : MessageBody} {items : List Item}
    (hreserved : messageReserved body = .ok items) : ∀ item ∈ items, item.Readable := by
  obtain ⟨-, rfl⟩ := messageReserved_eq_ok.1 hreserved
  exact List.forall_mem_append.2
    ⟨readable_reservedLine (List.forall_mem_map.2 fun _ _ => oneLine_rangeText _ _ _),
      readable_reservedNames body.reservedNames⟩

theorem readable_enumReserved (enumeration : Enumeration) :
    ∀ item ∈ enumReserved enumeration, item.Readable :=
  List.forall_mem_append.2
    ⟨readable_reservedLine (List.forall_mem_map.2 fun _ _ => oneLine_rangeText _ _ _),
      readable_reservedNames enumeration.reservedNames⟩

theorem readable_enumBlock {enumeration : Enumeration} {block : Item}
    (hname : Name.IsWord enumeration.name)
    (hvalues : ∀ value ∈ enumeration.values, Name.IsWord value.name)
    (hblock : enumBlock enumeration = .ok block) : block.Readable := by
  obtain ⟨-, values, hprinted, rfl⟩ := enumBlock_eq_ok.1 hblock
  refine Item.readable_declaration (by decide) hname ?_
  refine List.forall_mem_append.2 ⟨List.forall_mem_append.2 ⟨readable_standardOptions _, ?_⟩,
    readable_enumReserved enumeration⟩
  intro item hitem
  obtain ⟨value, hvalue, hline⟩ := forall₂_exists_of_mem (mapM_eq_ok.1 hprinted).flip hitem
  obtain ⟨-, rfl⟩ := enumValueLine_eq_ok.1 hline
  exact Item.readable_statement ((((hvalues value hvalue).isToken.startsLine.append
    (by decide)).append (oneLine_toString _)).append
      (oneLine_bracketed fun _ => oneLine_of_mem_standardOptions))

theorem readable_enumBlocks {enums : List Enumeration} {blocks : List Item}
    (hnames : ∀ enumeration ∈ enums, Name.IsWord enumeration.name)
    (hvalues : ∀ enumeration ∈ enums, ∀ value ∈ enumeration.values, Name.IsWord value.name)
    (hblocks : enums.mapM enumBlock = .ok blocks) : ∀ block ∈ blocks, block.Readable := by
  intro block hblock
  obtain ⟨enumeration, henum, hprinted⟩ := forall₂_exists_of_mem (mapM_eq_ok.1 hblocks).flip hblock
  exact readable_enumBlock (hnames enumeration henum) (hvalues enumeration henum) hprinted

theorem readable_spaced {blocks : List Item} (hblocks : ∀ block ∈ blocks, block.Readable) :
    ∀ item ∈ spaced blocks, item.Readable := by
  rw [spaced, List.forall_mem_flatMap]
  intro block hblock
  exact List.forall_mem_cons.2 ⟨.blank, List.forall_mem_singleton.2 (hblocks block hblock)⟩

@[simp]
theorem statementsOf_spaced (blocks : List Item) :
    statementsOf (spaced blocks) = statementsOf blocks := by
  induction blocks with
  | nil => rfl
  | cons block rest ih =>
      rw [spaced] at ih
      rw [spaced, List.flatMap_cons, List.cons_append, List.singleton_append, statementsOf,
        statementsOf, statementsOf, ih, Item.statements, List.nil_append]

mutual

theorem readable_messageBlock {outer : String} {scope : Scope} {message : Message} {block : Item}
    (hwords : ∀ entry ∈ messageIn outer message, Worded entry.2.body)
    (hblock : messageBlock scope message = .ok block) : block.Readable := by
  obtain ⟨body, nested⟩ := message
  rw [messageIn, List.forall_mem_cons] at hwords
  obtain ⟨hbody, hnested⟩ := hwords
  obtain ⟨-, fields, reserved, enums, messages, hfields, hreserved, henums, hmessages, rfl⟩ :=
    messageBlock_eq_ok.1 hblock
  have hinside := readable_messageBlocks hnested hmessages
  refine Item.readable_declaration (by decide) hbody.name ?_
  simp only [List.forall_mem_append]
  exact ⟨⟨⟨⟨readable_standardOptions _,
    readable_fieldItems hbody (fun inner hinner => hnested _ (mem_messagesIn hinner))
      (List.Subset.refl _) hfields⟩, readable_messageReserved hreserved⟩,
    readable_spaced (readable_enumBlocks hbody.enums hbody.values henums)⟩, readable_spaced hinside⟩

theorem readable_messageBlocks {outer : String} {hideEntries : Bool} {scope : Scope}
    {messages : List Message} {blocks : List Item}
    (hwords : ∀ entry ∈ messagesIn outer messages, Worded entry.2.body)
    (hblocks : messageBlocks hideEntries scope messages = .ok blocks) :
    ∀ block ∈ blocks, block.Readable := by
  cases messages with
  | nil =>
      obtain rfl : [] = blocks := by simpa [messageBlocks] using hblocks
      simp
  | cons message rest =>
      rw [messagesIn, List.forall_mem_append] at hwords
      rw [messageBlocks] at hblocks
      split at hblocks
      · exact readable_messageBlocks hwords.2 hblocks
      · simp only [bind_eq_ok, pure_eq_ok] at hblocks
        obtain ⟨block, hblock, others, hothers, rfl⟩ := hblocks
        exact List.forall_mem_cons.2
          ⟨readable_messageBlock hwords.1 hblock, readable_messageBlocks hwords.2 hothers⟩

end

theorem readable_entryLine {key : String} (hkey : StartsLine key) (value : String) :
    (entryLine key value).Readable := by
  refine .line ((hkey.append (by decide)).append (oneLine_quote value)) ?_
  rw [String.toList_append, List.getLast?_append, quote, String.toList_ofList, List.getLast?_concat]
  simp

theorem readable_entryLines {key : String} (hkey : StartsLine key) (value : String) :
    ∀ item ∈ entryLines key value, item.Readable := by
  unfold entryLines
  split
  · simp
  · exact List.forall_mem_singleton.2 (readable_entryLine hkey value)

theorem readable_patternItem (pattern : Http.Pattern) : (patternItem pattern).Readable := by
  cases pattern with
  | custom kind path =>
      refine .block (by decide) (by decide) ?_ (by decide) (by decide)
      exact List.forall_mem_cons.2 ⟨readable_entryLine (by decide) kind,
        List.forall_mem_singleton.2 (readable_entryLine (by decide) path)⟩
  | _ => exact readable_entryLine (by simp only [Http.Pattern.keyword]; decide) _

theorem readable_bindingItems {method : String} {binding : Http.Binding} {items : List Item}
    (hitems : bindingItems method binding = .ok items) : ∀ item ∈ items, item.Readable := by
  obtain ⟨pattern, -, rfl⟩ := bindingItems_eq_ok.1 hitems
  refine List.forall_mem_append.2 ⟨List.forall_mem_cons.2 ⟨readable_patternItem pattern, ?_⟩, ?_⟩
  · exact readable_entryLines (by decide) _
  · exact readable_entryLines (by decide) _

mutual

theorem readable_ruleItems {method : String} {rule : Http.Rule} {items : List Item}
    (hitems : ruleItems method rule = .ok items) : ∀ item ∈ items, item.Readable := by
  obtain ⟨binding, additional⟩ := rule
  obtain ⟨own, blocks, hown, hblocks, rfl⟩ := ruleItems_eq_ok.1 hitems
  have hinside := readable_additionalBlocks hblocks
  exact List.forall_mem_append.2 ⟨readable_bindingItems hown, hinside⟩

theorem readable_additionalBlocks {method : String} {rules : List Http.Rule} {blocks : List Item}
    (hblocks : additionalBlocks method rules = .ok blocks) : ∀ block ∈ blocks, block.Readable := by
  cases rules with
  | nil =>
      obtain rfl : [] = blocks := by simpa [additionalBlocks] using hblocks
      simp
  | cons rule rest =>
      simp only [additionalBlocks, bind_eq_ok, pure_eq_ok] at hblocks
      obtain ⟨items, hitems, others, hothers, rfl⟩ := hblocks
      have hinside := readable_ruleItems hitems
      exact List.forall_mem_cons.2 ⟨.block (by decide) (by decide) hinside (by decide) (by decide),
        readable_additionalBlocks hothers⟩

end

theorem startsLine_signature (scope : Scope) {method : Method} (hname : Name.IsWord method.name)
    (hinput : Name.IsReference method.inputType) (houtput : Name.IsReference method.outputType) :
    StartsLine (signature scope method) := by
  have hstart : StartsLine "rpc " := by decide
  have hstream (isStream : Bool) : OneLine (streamWord isStream) := by
    cases isStream <;> decide
  exact (((((((hstart.append hname.isToken.oneLine).append (by decide)).append
    (hstream _)).append (isToken_reference scope hinput).oneLine).append (by decide)).append
      (hstream _)).append (isToken_reference scope houtput).oneLine).append (by decide)

theorem readable_methodItem {serviceName : String} {scope : Scope} {method : Method} {item : Item}
    (hname : Name.IsWord method.name) (hinput : Name.IsReference method.inputType)
    (houtput : Name.IsReference method.outputType)
    (hitem : methodItem serviceName scope method = .ok item) : item.Readable := by
  obtain ⟨-, rule?, items?, -, hitems, rfl⟩ := methodItem_eq_ok.1 hitem
  have hhead := startsLine_signature (scope.nested method.name) hname hinput houtput
  split
  · refine .line (hhead.append (by decide)) ?_
    simp
  · refine .block hhead ?_ ?_ (by decide) (by decide)
    · rw [signature, String.toList_append, List.getLast?_append]
      simp
    refine List.forall_mem_append.2 ⟨readable_standardOptions _, ?_⟩
    rw [List.forall_mem_map]
    intro items hmem
    obtain ⟨hrule⟩ | _ := hitems
    · obtain rfl := by simpa using hmem
      exact .block (by decide) (by decide) (readable_ruleItems hrule) (by decide) (by decide)
    · simp at hmem

theorem readable_serviceBlock {scope : Scope} {fullName : String} {service : Service} {block : Item}
    (hname : Name.IsWord service.name) (hmethods : ∀ method ∈ service.methods,
      Name.IsWord method.name ∧ Name.IsReference method.inputType ∧
        Name.IsReference method.outputType)
    (hblock : serviceBlock scope fullName service = .ok block) : block.Readable := by
  obtain ⟨-, items, hitems, rfl⟩ := serviceBlock_eq_ok.1 hblock
  refine Item.readable_declaration (by decide) hname ?_
  refine List.forall_mem_append.2 ⟨readable_standardOptions _, ?_⟩
  intro item hitem
  obtain ⟨method, hmethod, hprinted⟩ := forall₂_exists_of_mem (mapM_eq_ok.1 hitems).flip hitem
  obtain ⟨hword, hinput, houtput⟩ := hmethods method hmethod
  exact readable_methodItem hword hinput houtput hprinted

theorem readable_paragraph {items : List Item} (hitems : ∀ item ∈ items, item.Readable) :
    ∀ item ∈ paragraph items, item.Readable := by
  unfold paragraph
  split
  · simp
  · exact List.forall_mem_cons.2 ⟨.blank, hitems⟩

theorem readable_openingItems {file : File} (hpackage : Name.IsPath file.package) :
    ∀ item ∈ openingItems file, item.Readable := by
  have himports : ∀ item ∈ importLines file, item.Readable := by
    intro item hitem
    obtain ⟨index, hindex, rfl⟩ := List.mem_mapIdx.1 hitem
    have hstart : StartsLine "import " := by decide
    have hword : OneLine (importWord file index) := by
      unfold importWord
      split_ifs <;> decide
    exact Item.readable_statement ((hstart.append hword).append (oneLine_quote _))
  refine List.forall_mem_append.2 ⟨List.forall_mem_append.2 ⟨readable_paragraph himports,
    readable_paragraph ?_⟩, readable_paragraph (readable_standardOptions _)⟩
  split
  · simp
  · next hempty =>
      have hstart : StartsLine "package " := by decide
      have htoken := hpackage.isToken (by simpa using hempty)
      exact List.forall_mem_singleton.2 (Item.readable_statement (hstart.append htoken.oneLine))

/-- The text up to the line that names the dialect.  The line after the name of the
file is left out if the name itself ends in a brace or a line. -/
def preamble (file : File) : String :=
  generatedHeader ++ "\n// source: " ++ file.name ++ "\n" ++
    (if file.name.toList.getLast? = some '\x7b' ∨ file.name.toList.getLast? = some '\n' then ""
      else "\n") ++ "syntax = \"proto3\";\n"

theorem render_preambleItems (file : File) (width : Nat) :
    (Layout.write (preambleItems file) {}).render width = preamble file := by
  have hlast : ("// source: " ++ file.name).toList.getLast? =
      some (file.name.toList.getLast?.getD ' ') := by
    rw [String.toList_append, List.getLast?_append]
    cases file.name.toList.getLast? <;> rfl
  have hblank : Layout.needsNoBlank [⟨0, "// source: " ++ file.name⟩, ⟨0, generatedHeader⟩] =
      decide (file.name.toList.getLast? = some '\x7b' ∨ file.name.toList.getLast? = some '\n') := by
    rw [Layout.needsNoBlank, hlast]
    cases file.name.toList.getLast? with
    | none => decide
    | some char => simp [beq_eq_decide]
  have htop (text : String) (htext : text ≠ "") :
      (Line.render width ⟨0, text⟩).toList = text.toList ++ ['\n'] := by
    simp [Line.render, htext]
  have hheader := htop generatedHeader (by decide)
  have hsource := htop ("// source: " ++ file.name) (by simp)
  have hdialect := htop "syntax = \"proto3\";" (by decide)
  have hempty : (Line.render width ⟨0, ""⟩).toList = ['\n'] := by simp [Line.render]
  apply String.toList_injective
  simp only [preambleItems, Layout.write, Layout.writeItem, Layout.line, Layout.blank, hblank,
    preamble]
  by_cases hends : file.name.toList.getLast? = some '\x7b' ∨ file.name.toList.getLast? = some '\n'
  · simp [Layout.render, Layout.lines, hheader, hsource, hdialect, hends]
  · simp [Layout.render, Layout.lines, hheader, hsource, hdialect, hempty, hends]

/-- Below its preamble the text of a file is read as what was printed. -/
theorem readItems_printFile {pool : Pool} {file : File}
    (hlisted : pool.services file = (servicesOf file).map .ok) (hwords : DeclaresWords file)
    (hrefers : RefersByWords file) {width : Nat} {text : String}
    (hprint : printFile width pool file = .ok text) :
    ∃ services messages enums,
      (servicesOf file).mapM (fun entry =>
          serviceBlock (Scope.ofPackage pool.files file.package) entry.1 entry.2) = .ok services ∧
        messageBlocks false (Scope.ofPackage pool.files file.package) file.messages = .ok messages ∧
        file.enums.mapM enumBlock = .ok enums ∧
        ∃ body, text = preamble file ++ body ∧ readItems body =
          some (statementsOf (openingItems file) ++ statementsOf services ++
            statementsOf messages ++
            statementsOf enums) := by
  obtain ⟨services, messages, enums, hservices, hmessages, henums, rfl⟩ := printFile_eq_ok.1 hprint
  rw [hlisted, mapM_map_ok] at hservices
  have hserviceBlocks : ∀ block ∈ services, block.Readable := by
    intro block hblock
    obtain ⟨entry, hentry, hprinted⟩ := forall₂_exists_of_mem (mapM_eq_ok.1 hservices).flip hblock
    obtain ⟨service, hservice, rfl⟩ := List.mem_map.1 hentry
    exact readable_serviceBlock (hwords.services service hservice) (fun method hmethod =>
      ⟨hwords.methods service hservice method hmethod,
        hrefers.methods service hservice method hmethod⟩)
      hprinted
  have hmessageBlocks : ∀ block ∈ messages, block.Readable :=
    readable_messageBlocks (fun entry hentry => worded_of_mem_messagesOf hwords hrefers hentry)
      hmessages
  have henumBlocks : ∀ block ∈ enums, block.Readable := by
    have hdeclared {enumeration : Enumeration} (henum : enumeration ∈ file.enums) :
        (Name.join file.package enumeration.name, enumeration) ∈ enumsOf file :=
      List.mem_append_left _ (List.mem_map_of_mem henum)
    exact readable_enumBlocks (fun _ henum => hwords.enums _ (hdeclared henum))
      (fun _ henum => hwords.values _ (hdeclared henum)) henums
  have hitems : ∀ item ∈ openingItems file ++ spaced services ++ spaced messages ++ spaced enums,
      item.Readable := by
    simp only [List.forall_mem_append]
    exact ⟨⟨⟨readable_openingItems hwords.package, readable_spaced hserviceBlocks⟩,
      readable_spaced hmessageBlocks⟩, readable_spaced henumBlocks⟩
  obtain ⟨body, hbody, hread⟩ :=
    readItems_render hitems (Layout.write (preambleItems file) {}) width
  refine ⟨services, messages, enums, hservices, hmessages, henums, body, ?_, ?_⟩
  · rw [← render_preambleItems file width, ← hbody, Item.render, Layout.write_append]
  · rw [hread]
    simp only [statementsOf_append, statementsOf_spaced]

end ProtoSource.Render
