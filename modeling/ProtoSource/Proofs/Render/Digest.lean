import ProtoSource.Proofs.Render.Shown
import ProtoSource.Proofs.Render.Strategies

/-!
# Texts and summaries

A set that can be printed can be summed up, and the summary says what a reader finds
in the text: the imports, the services with the signatures and HTTP bindings of their
methods, and the names of the outermost messages and enums.  The types of a method
are summed up by the full names that the printed references lead to.
-/

namespace ProtoSource.Render

open ProtoSource.Descriptor
open ProtoSource.Load
open ProtoSource.Pool
open ProtoSource.Related
open ProtoSource.Success
open ProtoSource.Text
open ProtoSource.Wire

/-- The method that a summary is of shows in `service` as printed, and its types are
what the references lead to among `files`. -/
structure SumsUpMethod (files : List File) (service : String) (summary : MethodSummary)
    (printed : PrintedMethod) : Prop where
  name : summary.name = printed.name
  clientStreaming : summary.clientStreaming = printed.input.isStream
  serverStreaming : summary.serverStreaming = printed.output.isStream
  inputType : lookUp files (Name.join service printed.name) printed.input.reference =
    some summary.inputType
  outputType : lookUp files (Name.join service printed.name) printed.output.reference =
    some summary.outputType
  http? : summary.http? = printed.http?

structure SumsUpService (files : List File) (package : String) (summary : ServiceSummary)
    (printed : PrintedService) : Prop where
  name : summary.name = printed.name
  methods : List.Forall₂ (SumsUpMethod files (Name.join package printed.name)) summary.methods
    printed.methods

structure SumsUp (files : List File) (summary : FileSummary) (printed : PrintedFile) : Prop where
  imports : summary.imports = printed.imports
  services : List.Forall₂ (SumsUpService files summary.package) summary.services printed.services
  messages : summary.messages = printed.messages
  enums : summary.enums = printed.enums

/-- A method is summed up as it shows. -/
theorem sumsUpMethod_of_methodItem {scope : Scope} {method : Method} {item : Item}
    (hname : Name.IsWord method.name) (hinput : Name.IsReference method.inputType)
    (houtput : Name.IsReference method.outputType)
    (hleads : ∀ typeName, typeName = method.inputType ∨ typeName = method.outputType →
      lookUp scope.files (Name.join scope.name method.name)
        ((scope.nested method.name).reference typeName) = some (Name.bare typeName))
    (hitem : methodItem scope.name scope method = .ok item) :
    ∃ summary printed, Summary.ofMethod scope.name method = .ok summary ∧
      item.statements.filterMap methodText? = [printed] ∧
      SumsUpMethod scope.files scope.name summary printed := by
  obtain ⟨-, rule?, items?, hrule, hitems, rfl⟩ := methodItem_eq_ok.1 hitem
  have hsignature (rest : List Char) :=
    signature?_signature (scope.nested method.name) hname hinput houtput rest
  obtain ⟨http?, hsummary, hread⟩ : ∃ http?,
      rule?.mapM (Http.Rule.summary (Name.join scope.name method.name)) = .ok http? ∧
        (items?.map statementsOf).mapM ruleText? = some http? := by
    obtain ⟨hone⟩ | _ := hitems
    · obtain ⟨summary, hsummary, htext⟩ := ruleText?_ruleItems hone
      refine ⟨some summary, option_mapM_eq_ok.2 (.some hsummary), ?_⟩
      simp [htext]
    · exact ⟨none, option_mapM_eq_ok.2 .none, rfl⟩
  refine ⟨_, ⟨method.name,
      ⟨method.clientStreaming, (scope.nested method.name).reference method.inputType⟩,
      ⟨method.serverStreaming, (scope.nested method.name).reference method.outputType⟩, http?⟩,
    bind_eq_ok.2 ⟨rule?, hrule, bind_eq_ok.2 ⟨http?, hsummary, rfl⟩⟩, ?_, ?_⟩
  · split
    · -- Without options and rule the method is a line.
      next hempty =>
        rw [isEmpty_methodInside, Bool.and_eq_true, Option.isNone_iff_eq_none] at hempty
        obtain ⟨-, rfl⟩ := hempty
        obtain rfl : none = http? := by simpa using hread
        have hline := hsignature " \x7b\x7d".toList
        rw [← String.toList_append] at hline
        rw [Item.statements, List.filterMap_cons_some, List.filterMap_nil]
        rw [methodText?, hline]
        rfl
    · have hhead := hsignature []
      rw [List.append_nil] at hhead
      rw [Item.statements, List.filterMap_cons_some, List.filterMap_nil]
      rw [methodText?, hhead, findSome?_methodInside, Option.bind_eq_bind, Option.bind_some, hread]
      rfl
  · exact {
      name := rfl
      clientStreaming := rfl
      serverStreaming := rfl
      inputType := hleads _ (Or.inl rfl)
      outputType := hleads _ (Or.inr rfl)
      http? := rfl }

/-- What is printed one by one and summed up one by one is summed up as it shows. -/
theorem exists_summaries_of_mapM {α β γ : Type} {values : List α} {print : α → Except Error Item}
    {digest : α → Except Error β} {read : Item → Option γ} {sumsUp : β → γ → Prop}
    (hone : ∀ value ∈ values, ∀ item, print value = .ok item → ∃ summary printed,
      digest value = .ok summary ∧ item.statements.filterMap read = [printed] ∧
        sumsUp summary printed)
    {items : List Item} (hitems : values.mapM print = .ok items) :
    ∃ summaries, values.mapM digest = .ok summaries ∧
      List.Forall₂ sumsUp summaries ((statementsOf items).filterMap read) := by
  have hprinted := mapM_eq_ok.1 hitems
  clear hitems
  induction hprinted with
  | nil => exact ⟨[], rfl, .nil⟩
  | @cons value item values items hitem _ ih =>
      rw [List.forall_mem_cons] at hone
      obtain ⟨summaries, hsummaries, hrest⟩ := ih hone.2
      obtain ⟨summary, printed, hsummary, hread, hsumsUp⟩ := hone.1 item hitem
      refine ⟨summary :: summaries, ?_, ?_⟩
      · simp only [List.mapM_cons, bind_eq_ok, pure_eq_ok]
        exact ⟨summary, hsummary, summaries, hsummaries, rfl⟩
      · rw [statementsOf, List.filterMap_append, hread]
        exact .cons hsumsUp hrest

/-- A service is summed up as it shows. -/
theorem sumsUpService_of_serviceBlock {files : List File} {package : String} {service : Service}
    {block : Item}
    (hmethods : ∀ method ∈ service.methods, Name.IsWord method.name ∧
      Name.IsReference method.inputType ∧ Name.IsReference method.outputType ∧
      ∀ typeName, typeName = method.inputType ∨ typeName = method.outputType →
        lookUp files (Name.join (Name.join package service.name) method.name)
          ((((Scope.ofPackage files package).nested service.name).nested method.name).reference
            typeName) = some (Name.bare typeName))
    (hblock : serviceBlock (Scope.ofPackage files package) (Name.join package service.name)
      service =
      .ok block) :
    ∃ summary printed, Summary.ofService (Name.join package service.name) service = .ok summary ∧
      block.statements.filterMap serviceText? = [printed] ∧
      SumsUpService files package summary printed := by
  obtain ⟨-, items, hitems, rfl⟩ := serviceBlock_eq_ok.1 hblock
  obtain ⟨summaries, hsummaries, hsumsUp⟩ := exists_summaries_of_mapM
    (fun method hmethod item hitem => by
      obtain ⟨hname, hinput, houtput, hleads⟩ := hmethods method hmethod
      exact sumsUpMethod_of_methodItem hname hinput houtput hleads hitem) hitems
  refine ⟨⟨service.name, summaries⟩, ⟨service.name, (statementsOf items).filterMap methodText?⟩,
    bind_eq_ok.2 ⟨summaries, hsummaries, rfl⟩, ?_, rfl, hsumsUp⟩
  have hoptions := filterMap_optionLines (standardOptions service.options?) methodText?_option
  rw [Item.statements, List.filterMap_cons_some, List.filterMap_nil]
  rw [serviceText?, blockNamed?, after?_append, statementsOf_append, statementsOf_optionLines]
  simp [hoptions]

/-- The names of declarations are not changed by a look-up of their full names. -/
theorem mapM_name_lookUp {α : Type} {name : α → String} {all own : List (String × α)}
    (hall : ∀ entry ∈ all, Name.last entry.1 = name entry.2)
    (hown : ∀ entry ∈ own, entry ∈ all ∧ Name.bare entry.1 = entry.1) :
    (Pool.lookUp all (own.map Prod.fst)).mapM (fun found => do return name (← found).2) =
      .ok (own.map fun entry => name entry.2) := by
  rw [mapM_eq_ok, Pool.lookUp, List.map_map, List.forall₂_map_left_iff, List.forall₂_map_right_iff,
    List.forall₂_same]
  rintro ⟨fullName, declared⟩ hentry
  obtain ⟨hmem, hbare⟩ := hown _ hentry
  obtain ⟨found, hfound⟩ := Option.isSome_iff_exists.1
    (List.lookup_isSome_iff.2 ⟨_, hmem, beq_self_eq_true fullName⟩)
  simp only [Function.comp_apply, hbare, hfound]
  have hname : name found = name declared :=
    (hall _ (mem_of_lookup hfound)).symm.trans (hall _ hmem)
  exact congrArg Except.ok hname

section Built

variable {files : List (Dialect × File)} {symbols : SymbolTable} {resolved : List File}
    {pool : Pool}
  (hbuilds : Builds files symbols resolved pool) (hwords : ∀ file ∈ pool.files, DeclaresWords file)
  {file : File} (hfile : file ∈ pool.files)

include hwords

theorem mapM_name_messages (hfile : file ∈ pool.files) :
    (pool.messages file).mapM (fun found => do return (← found).2.name) =
      .ok (file.messages.map Message.name) := by
  have hall : ∀ entry ∈ pool.files.flatMap messagesOf, Name.last entry.1 = entry.2.name := by
    rw [List.forall_mem_flatMap]
    exact fun other hother entry => (hwords other hother).last_of_mem_messagesOf
  have hown : ∀ entry ∈ file.messages.map fun message =>
      (Name.join file.package message.name, message),
      entry ∈ pool.files.flatMap messagesOf ∧ Name.bare entry.1 = entry.1 := by
    rw [List.forall_mem_map]
    intro message hmessage
    have hmem : (Name.join file.package message.name, message) ∈ messagesOf file :=
      mem_messagesIn hmessage
    exact ⟨List.mem_flatMap.2 ⟨file, hfile, hmem⟩,
      Name.bare_eq_self ((hwords file hfile).isPath_of_mem_messagesOf hmem).2.isDotted.head⟩
  have hnames := mapM_name_lookUp hall hown
  simp only [List.map_map, Function.comp_def] at hnames
  exact hnames

theorem mapM_name_enums (hfile : file ∈ pool.files) :
    (pool.enums file).mapM (fun found => do return (← found).2.name) =
      .ok (file.enums.map Enumeration.name) := by
  have hall : ∀ entry ∈ pool.files.flatMap enumsOf, Name.last entry.1 = entry.2.name := by
    rw [List.forall_mem_flatMap]
    exact fun other hother entry => (hwords other hother).last_of_mem_enumsOf
  have hown : ∀ entry ∈ enumsIn file.package file.enums,
      entry ∈ pool.files.flatMap enumsOf ∧ Name.bare entry.1 = entry.1 := by
    intro entry hentry
    have hmem : entry ∈ enumsOf file := List.mem_append_left _ hentry
    exact ⟨List.mem_flatMap.2 ⟨file, hfile, hmem⟩,
      Name.bare_eq_self ((hwords file hfile).isPath_of_mem_enumsOf hmem).2.isDotted.head⟩
  have hnames := mapM_name_lookUp hall hown
  simp only [enumsIn, List.map_map, Function.comp_def] at hnames
  exact hnames

include hbuilds hfile

/-- The references of a method lead to the types it has. -/
theorem lookUp_methodType {service : Service} (hservice : service ∈ file.services) {method : Method}
    (hmethod : method ∈ service.methods) {typeName : String}
    (htype : typeName = method.inputType ∨ typeName = method.outputType) (scope : Scope)
    (hscope : scope.files = pool.files) :
    lookUp pool.files scope.name (scope.reference typeName) = some (Name.bare typeName) := by
  obtain ⟨hinput, houtput⟩ := (hbuilds.refersByNames hfile).methods service hservice method hmethod
  have hpoints : symbols.PointsAt (· == .message) typeName := by
    obtain rfl | rfl := htype
    · exact hinput
    · exact houtput
  obtain ⟨symbol, hfind, hkind, rfl⟩ := hpoints
  have hnames : ∀ file ∈ pool.files, WellNamed file :=
    fun file hfile => (hwords file hfile).wellNamed
  rw [hbuilds.lookUp_reference_of_pointsAt hnames (fun _ => isType_of_beq_message)
    ⟨symbol, hfind, hkind, rfl⟩ hscope, Name.bare, Name.absolute?_dot, Option.getD_some]

/-- A file is summed up as it shows. -/
theorem sumsUp_of_printFile {width : Nat} {text : String}
    (hprint : printFile width pool file = .ok text) :
    ∃ summary body items, Summary.ofFile pool file = .ok summary ∧ text = preamble file ++ body ∧
      readItems body = some items ∧ SumsUp pool.files summary (.ofItems items) := by
  have hlisted := hbuilds.services_eq_of_declaresWords hfile (hwords file hfile)
  have hrefers := hbuilds.refersByWords hwords hfile
  obtain ⟨services, messages, enums, hservices, hmessages, henums, body, htext, hread⟩ :=
    readItems_printFile hlisted (hwords file hfile) hrefers hprint
  have hone : ∀ entry ∈ servicesOf file, ∀ block,
      serviceBlock (Scope.ofPackage pool.files file.package) entry.1 entry.2 = .ok block →
        ∃ summary printed, Summary.ofService entry.1 entry.2 = .ok summary ∧
          block.statements.filterMap serviceText? = [printed] ∧
          SumsUpService pool.files file.package summary printed := by
    rw [servicesOf, List.forall_mem_map]
    intro service hservice block hblock
    refine sumsUpService_of_serviceBlock (fun method hmethod => ?_) hblock
    obtain ⟨hinput, houtput⟩ := hrefers.methods service hservice method hmethod
    exact ⟨(hwords file hfile).methods service hservice method hmethod, hinput, houtput,
      fun typeName htype => lookUp_methodType hbuilds hwords hfile hservice hmethod htype _ rfl⟩
  obtain ⟨summaries, hsummaries, hsumsUp⟩ := exists_summaries_of_mapM hone hservices
  have hserviceBlocks : Headed "service " ((servicesOf file).map fun entry => entry.2.name)
      services :=
    headed_of_mapM (fun entry block hblock => by
      obtain ⟨-, _, -, rfl⟩ := serviceBlock_eq_ok.1 hblock
      exact ⟨_, rfl⟩) hservices
  have hmessageBlocks : Headed "message " (file.messages.map Message.name) messages := by
    have hall : shownMessages false file.messages = file.messages := by simp [shownMessages]
    rw [messageBlocks_eq, hall] at hmessages
    refine headed_of_mapM (fun message block hblock => ?_) hmessages
    obtain ⟨body, nested⟩ := message
    obtain ⟨-, _, _, _, _, -, -, -, -, rfl⟩ := messageBlock_eq_ok.1 hblock
    exact ⟨_, rfl⟩
  have henumBlocks : Headed "enum " (file.enums.map Enumeration.name) enums :=
    headed_of_mapM (fun enumeration block hblock => by
      obtain ⟨-, _, -, rfl⟩ := enumBlock_eq_ok.1 hblock
      exact ⟨_, rfl⟩) henums
  refine ⟨⟨file.name, file.package, file.imports, summaries, file.messages.map Message.name,
    file.enums.map Enumeration.name⟩, body, _, ?_, htext, hread, ?_⟩
  · rw [Summary.ofFile, hlisted, mapM_map_ok]
    exact bind_eq_ok.2 ⟨summaries, hsummaries, bind_eq_ok.2 ⟨_, mapM_name_messages hwords hfile,
      bind_eq_ok.2 ⟨_, mapM_name_enums hwords hfile, rfl⟩⟩⟩
  · rw [ofItems_append hserviceBlocks hmessageBlocks henumBlocks]
    exact ⟨rfl, hsumsUp, rfl, rfl⟩

end Built

/-- With either strategy the last file of the loaded set is printed. -/
theorem printFile_of_render {settings : Settings} {bytes : Bytes} {text : String}
    (hrender : render settings bytes = .ok text) :
    ∃ loaded file, load settings.strategy.synthesizes bytes = .ok loaded ∧ loaded.file = .ok file ∧
      printFile settings.indentWidth loaded.pool file = .ok text := by
  obtain ⟨loaded, file, printed, hload, hfile, hprint, hsame⟩ := exists_printFile_of_render hrender
  rw [endLine_of_printFile hprint, or_self] at hsame
  exact ⟨loaded, file, hload, hfile, by rw [hsame, hprint]⟩

theorem exists_builds_of_load_eq_ok {synthesize : Bool} {bytes : Bytes} {loaded : Loaded}
    (hload : load synthesize bytes = .ok loaded) :
    ∃ files symbols resolved, Builds files symbols resolved loaded.pool := by
  obtain ⟨_, _, _, whole, -, -, -, -, -, hpool⟩ := load_eq_ok hload
  simp only [poolOf, bind_eq_ok, mapError_eq_ok] at hpool
  obtain ⟨_, -, dialected, -, hpool⟩ := hpool
  obtain ⟨symbols, resolved, hbuilds⟩ := exists_builds hpool
  exact ⟨dialected, symbols, resolved, hbuilds⟩

/-- If the last file of a set is printed it can be summed up, and the summary is of what
the text shows below its preamble. -/
theorem sumsUp_of_render {settings : Settings} {bytes : Bytes} {text : String}
    (hrender : render settings bytes = .ok text) {loaded : Loaded}
    (hload : load settings.strategy.synthesizes bytes = .ok loaded)
    (hwords : ∀ file ∈ loaded.pool.files, DeclaresWords file) :
    ∃ summary file body items, Summary.ofSet settings.strategy.synthesizes bytes = .ok summary ∧
      loaded.file = .ok file ∧ text = preamble file ++ body ∧ readItems body = some items ∧
      SumsUp loaded.pool.files summary (.ofItems items) := by
  obtain ⟨_, file, hloaded, hfile, hprint⟩ := printFile_of_render hrender
  obtain rfl := Except.ok.inj (hload.symm.trans hloaded)
  obtain ⟨_, _, _, hbuilds⟩ := exists_builds_of_load_eq_ok hload
  have hmem : file ∈ loaded.pool.files := List.mem_of_find?_eq_some (file_eq_ok.1 hfile)
  obtain ⟨summary, body, items, hsummary, htext, hread, hsumsUp⟩ :=
    sumsUp_of_printFile hbuilds hwords hmem hprint
  refine ⟨summary, file, body, items, ?_, hfile, htext, hread, hsumsUp⟩
  exact bind_eq_ok.2 ⟨loaded, hload, bind_eq_ok.2 ⟨file, hfile, hsummary⟩⟩

theorem sumsUp_of_render_oneMethodSet : ∃ text loaded summary file body items,
    render {} (oneMethodSet [] getOption) = .ok text ∧
      load false (oneMethodSet [] getOption) = .ok loaded ∧
      Summary.ofSet false (oneMethodSet [] getOption) = .ok summary ∧ loaded.file = .ok file ∧
      text = preamble file ++ body ∧ readItems body = some items ∧
      SumsUp loaded.pool.files summary (.ofItems items) := by
  have hrender : (render {} (oneMethodSet [] getOption)).toOption.isSome := by
    decide +kernel
  have hload : (load false (oneMethodSet [] getOption)).toOption.map (fun loaded =>
      decide (∀ file ∈ loaded.pool.files, DeclaresWords file)) = some true := by
    decide +kernel
  obtain ⟨text, htext⟩ := exists_ok_of_isSome hrender
  obtain ⟨loaded, hloaded, hwords⟩ := exists_ok_of_map_eq_some hload
  obtain ⟨summary, file, body, items, hsummary, hfile, hbody, hitems, hsumsUp⟩ :=
    sumsUp_of_render htext hloaded (of_decide_eq_true hwords)
  exact ⟨text, loaded, summary, file, body, items, htext, hloaded, hsummary, hfile, hbody, hitems,
    hsumsUp⟩

/-- A set of two messages; the name of one starts with a dot. -/
def dottedSet : Bytes :=
  encode [.embed 1 [.text 1 "demo.proto", .embed 4 [.text 1 "M"], .embed 4 [.text 1 ".M"],
    .text 12 "proto3"]]

def dottedBody : String :=
  "\nmessage M \x7b\n\x7d\n\nmessage .M \x7b\n\x7d\n"

/-- The message whose name starts with a dot is summed up under the name of the other. -/
theorem summary_dottedSet : ∃ loaded file items summary, load false dottedSet = .ok loaded ∧
    loaded.file = .ok file ∧ render {} dottedSet = .ok (preamble file ++ dottedBody) ∧
    readItems dottedBody = some items ∧ (PrintedFile.ofItems items).messages = ["M", ".M"] ∧
    Summary.ofSet false dottedSet = .ok summary ∧ summary.messages = ["M", "M"] := by
  have hrender : (load false dottedSet).toOption.map (fun loaded =>
    loaded.file.toOption.map fun file =>
      decide ((render {} dottedSet).toOption = some (preamble file ++ dottedBody))) =
      some (some true) := by
    decide +kernel
  have hread : (readItems dottedBody).map (fun items => (PrintedFile.ofItems items).messages) =
      some ["M", ".M"] := by
    decide +kernel
  have hsummary : (Summary.ofSet false dottedSet).toOption.map FileSummary.messages =
      some ["M", "M"] := by
    decide +kernel
  obtain ⟨loaded, hloaded, hprinted⟩ := exists_ok_of_map_eq_some hrender
  obtain ⟨file, hfile, htext⟩ := exists_ok_of_map_eq_some hprinted
  obtain ⟨items, hitems, hshown⟩ := Option.map_eq_some_iff.1 hread
  obtain ⟨summary, hsummed, hmessages⟩ := exists_ok_of_map_eq_some hsummary
  exact ⟨loaded, file, items, summary, hloaded, hfile,
    toOption_eq_some.1 (of_decide_eq_true htext), hitems, hshown, hsummed, hmessages⟩

end ProtoSource.Render
