import ProtoSource.Proofs.Http.Depth
import ProtoSource.Proofs.Load.Target
import ProtoSource.Render.Basic

/-!
# Rules of loaded methods

Wherever the options of a method went while its set was loaded, its HTTP rule is
the one that the set gives it.
-/

namespace ProtoSource.Render

open ProtoSource.Descriptor
open ProtoSource.Related
open ProtoSource.Success
open ProtoSource.Text

/-- A file is printed only if the rules of all its methods can be read. -/
theorem exists_rule_of_printFile {width : Nat} {pool : Pool} {file : File} {text : String}
    (hprint : printFile width pool file = .ok text) {name : String} {service : Service}
    (hservice : .ok (name, service) ∈ pool.services file) {method : Method}
    (hmethod : method ∈ service.methods) :
    ∃ rule?, Http.ruleOf (Name.join name method.name) method = .ok rule? := by
  simp only [printFile, fileItems, bind_eq_ok, mapM_eq_ok] at hprint
  obtain ⟨_, ⟨blocks, hblocks, -⟩, -⟩ := hprint
  obtain ⟨block, -, _, hfound, hblock⟩ := forall₂_exists_of_mem hblocks hservice
  obtain rfl := Except.ok.inj hfound
  simp only [serviceBlock, bind_eq_ok, mapM_eq_ok] at hblock
  obtain ⟨_, -, items, hitems, -⟩ := hblock
  obtain ⟨item, -, hitem⟩ := forall₂_exists_of_mem hitems hmethod
  simp only [methodItem, bind_eq_ok] at hitem
  obtain ⟨_, -, rule?, hrule, -⟩ := hitem
  exact ⟨rule?, hrule⟩

end ProtoSource.Render

namespace ProtoSource.Load

open ProtoSource.Descriptor
open ProtoSource.Http
open ProtoSource.Pool
open ProtoSource.Related
open ProtoSource.Success
open ProtoSource.Text
open ProtoSource.WellKnown (httpNumber)
open ProtoSource.Wire

theorem pairMethods_comp {first second both : Method → Method → Prop}
    (hboth : ∀ left middle right, first left middle → second middle right → both left right)
    {file file' file'' : File} (hfirst : PairMethods first file file')
    (hsecond : PairMethods second file' file'') : PairMethods both file file'' := by
  refine forall₂_of_runs hfirst.flip hsecond fun _ _ _ _ hservice hservice' =>
    ⟨hservice'.1.trans hservice.1, ?_⟩
  exact forall₂_of_runs hservice.2.flip hservice'.2 fun middle _ left right =>
    hboth left middle right

/-- Resolution leaves the options of methods alone. -/
theorem pairMethods_resolveFile {symbols : SymbolTable} {files : List File}
    {messages : List (String × Message)} {enums : List (String × Enumeration)}
    {file resolved : File}
    (hresolve : resolveFile symbols files messages enums file = .ok resolved) :
    PairMethods (fun method method' => method'.options? = method.options?) file resolved := by
  obtain ⟨-, -, _, services, _, -, hservices, -, rfl⟩ := resolveFile_eq_ok.1 hresolve
  refine hservices.imp fun service service' hservice => ?_
  obtain ⟨methods, hmethods, rfl⟩ := resolveService_eq_ok.1 hservice
  refine ⟨rfl, hmethods.imp fun method method' hmethod => ?_⟩
  obtain ⟨_, _, -, -, rfl⟩ := resolveMethod_eq_ok.1 hmethod
  rfl

theorem pairMethods_recodeFile {table : MessageTable} {file recoded : File}
    (hrecode : recodeFile table file = .ok recoded) :
    PairMethods (fun method method' => RecodesOptions table method.options? method'.options?)
      file recoded := by
  obtain ⟨_, _, _, services, _, -, -, -, hservices, -, rfl⟩ := recodeFile_eq_ok.1 hrecode
  refine hservices.imp fun service service' hservice => ?_
  obtain ⟨_, methods, -, hmethods, rfl⟩ := recodeService_eq_ok.1 hservice
  refine ⟨rfl, hmethods.imp fun method method' hmethod => ?_⟩
  obtain ⟨_, hoptions, rfl⟩ := recodeMethod_eq_ok.1 hmethod
  exact hoptions

/-- The pool does not know the HTTP option, or knows it as the well-known files
declare it.  The options of methods hold no maps, and no groups with maps. -/
structure TellsRules (table : MessageTable) : Prop where
  hasNoMaps : (schemaOf (optionsTable table .method)).HasNoMaps (optionsName .method)
  knows : (schemaOf (optionsTable table .method)).field? (optionsName .method) httpNumber = none ∨
    DescribesRules (optionsTable table .method)

/-- The rule of the second method is that of the first.  If that cannot be read,
neither can the other, unless the pool knows the option and reads deeper. -/
structure KeepsRule (table : MessageTable) (method method' : Method) : Prop where
  kept : ∀ rule?, Rule.ofOptions (payloadOf method) = .ok rule? →
    ∀ fullName, ruleOf fullName method' = .ok rule?
  refused : ∀ fault, Rule.ofOptions (payloadOf method) = .error fault →
    (DescribesRules (optionsTable table .method) ∧ fault.reason = .nestedTooDeeply) ∨
      ∀ fullName rule?, ruleOf fullName method' ≠ .ok rule?

theorem ruleOf_eq_ok {fullName : String} {method : Method} {rule? : Option Rule} :
    ruleOf fullName method = .ok rule? ↔ Rule.ofOptions (payloadOf method) = .ok rule? := by
  unfold ruleOf payloadOf
  split <;> simp_all

theorem keepsRule_of_sameOption {table : MessageTable} {method method' : Method}
    (hsame : SameOption (payloadOf method) (payloadOf method')) :
    KeepsRule table method method' := by
  have hiff := hsame.ofOptions_eq_ok_iff
  refine ⟨fun rule? hrule fullName => ruleOf_eq_ok.2 ((hiff rule?).1 hrule),
    fun fault hfault => Or.inr fun fullName rule? hrule => ?_⟩
  rw [(hiff rule?).2 (ruleOf_eq_ok.1 hrule)] at hfault
  contradiction

/-- The options of a method in a pool keep its rule. -/
theorem TellsRules.keepsRule {table : MessageTable} (htells : TellsRules table)
    {method middle method' : Method} (hsame : SameOption (payloadOf method) (payloadOf middle))
    (hoptions : RecodesOptions table middle.options? method'.options?)
    (hlength : (payloadOf method').length < 2 ^ 64) : KeepsRule table method method' := by
  generalize hmiddle : middle.options? = options? at hoptions
  generalize hmethod : method'.options? = options?' at hoptions
  cases hoptions with
  | none =>
      have hpayload : payloadOf middle = payloadOf method' := by
        simp [payloadOf, hmiddle, hmethod]
      rw [hpayload] at hsame
      exact keepsRule_of_sameOption hsame
  | @some options options' hrecode =>
      obtain ⟨payload, hpayload, hdecode⟩ := recodeOptions_eq_ok.1 hrecode
      have hmiddle' : payloadOf middle = options.payload := by simp [payloadOf, hmiddle]
      have hmethod' : payloadOf method' = payload := by
        obtain ⟨records, -, rfl⟩ := map_eq_ok.1 hdecode
        simp [payloadOf, hmethod, Options.ofRecords]
      rw [hmiddle'] at hsame
      obtain hunknown | hdescribes := htells.knows
      · obtain ⟨_, raws, -, hpassable, -⟩ := id hsame
        refine keepsRule_of_sameOption (hsame.trans ?_)
        rw [hmethod'] at hlength ⊢
        exact sameOption_recode htells.hasNoMaps hunknown hpassable hpayload hlength
      · refine ⟨fun rule? hrule fullName => ruleOf_eq_ok.2 ?_, fun fault hfault =>
          Or.inl ⟨hdescribes, hdescribes.reason_eq htells.hasNoMaps hsame hpayload hfault⟩⟩
        rw [hmethod'] at hlength ⊢
        exact hdescribes.ofOptions_recode htells.hasNoMaps hpayload hlength
          ((hsame.ofOptions_eq_ok_iff rule?).1 hrule)

/-- The encoded options of all methods of a file have a length. -/
def HasShortOptions (file : File) : Prop :=
  ∀ service ∈ file.services, ∀ method ∈ service.methods, (payloadOf method).length < 2 ^ 64

theorem pairMethods_target {table : MessageTable} (htells : TellsRules table)
    {symbols : SymbolTable} {files : List File} {messages : List (String × Message)}
    {enums : List (String × Enumeration)} {source filled middle file : File}
    (hfills : Fills source filled)
    (hresolve : resolveFile symbols files messages enums filled = .ok middle)
    (hrecode : recodeFile table middle = .ok file) (hshort : HasShortOptions file) :
    PairMethods (KeepsRule table) source file := by
  have hmiddle : PairMethods
      (fun method method' => SameOption (payloadOf method) (payloadOf method'))
      source middle := by
    refine pairMethods_comp (fun _ before after hsame hoptions => ?_) hfills.pairMethods
      (pairMethods_resolveFile hresolve)
    have hpayload : payloadOf after = payloadOf before := by rw [payloadOf, hoptions, payloadOf]
    rwa [hpayload]
  have hwhole : PairMethods (fun method method' => ∃ middle,
      SameOption (payloadOf method) (payloadOf middle) ∧
        RecodesOptions table middle.options? method'.options?) source file :=
    pairMethods_comp (fun _ middle _ hsame hoptions => ⟨middle, hsame, hoptions⟩) hmiddle
      (pairMethods_recodeFile hrecode)
  refine forall₂_imp_of_mem (fun service _ service' hservice hpair => ⟨hpair.1, ?_⟩) hwhole
  refine forall₂_imp_of_mem (fun method _ method' hmethod hkept => ?_) hpair.2
  obtain ⟨middle, hsame, hoptions⟩ := hkept
  exact htells.keepsRule hsame hoptions (hshort service' hservice method' hmethod)

/-- A rendered text is that of the wanted file of the loaded set, up to the end of its
last line. -/
theorem exists_printFile_of_render {settings : Settings} {bytes : Bytes} {text : String}
    (hrender : Render.render settings bytes = .ok text) :
    ∃ loaded file printed, load settings.strategy.synthesizes bytes = .ok loaded ∧
      loaded.file = .ok file ∧
      Render.printFile settings.indentWidth loaded.pool file = .ok printed ∧
      (text = printed ∨ text = Render.endLine printed) := by
  unfold Render.render at hrender
  cases hstrategy : settings.strategy with
  | direct =>
      simp only [hstrategy, Render.renderDirect, bind_eq_ok] at hrender
      obtain ⟨loaded, hload, file, hfile, hprint⟩ := hrender
      exact ⟨loaded, file, text, hload, hfile, hprint, Or.inl rfl⟩
  | synthesizing =>
      simp only [hstrategy, Render.renderSynthesizing, bind_eq_ok, pure_eq_ok] at hrender
      obtain ⟨loaded, hload, file, hfile, printed, hprint, rfl⟩ := hrender
      exact ⟨loaded, file, printed, hload, hfile, hprint, Or.inr rfl⟩

theorem render_eq_ok {settings : Settings} {bytes : Bytes} {text : String}
    (hrender : Render.render settings bytes = .ok text) {loaded : Loaded} {file : File}
    (hload : load settings.strategy.synthesizes bytes = .ok loaded)
    (hfile : loaded.file = .ok file) :
    ∃ printed, Render.printFile settings.indentWidth loaded.pool file = .ok printed := by
  obtain ⟨_, _, printed, hloaded, hfound, hprint, -⟩ := exists_printFile_of_render hrender
  obtain rfl := Except.ok.inj (hload.symm.trans hloaded)
  obtain rfl := Except.ok.inj (hfile.symm.trans hfound)
  exact ⟨printed, hprint⟩

/-- The methods of the target of a loaded set have the rules that the set gives
them.  If a rule cannot be read the target cannot be printed, unless the pool
knows the HTTP option and the rule only nests too deeply. -/
theorem rules_of_load {settings : Settings} {bytes : Bytes} {loaded : Loaded}
    (hload : load settings.strategy.synthesizes bytes = .ok loaded)
    (hfilled : FillsShortly bytes) (htells : TellsRules loaded.pool.table)
    (hshort : ∀ file ∈ loaded.pool.files, HasShortOptions file) :
    ∃ files source file, decodeFiles bytes = .ok files ∧ files.getLast? = some source ∧
      loaded.file = .ok file ∧ PairMethods (KeepsRule loaded.pool.table) source file ∧
      ∀ service ∈ source.services, ∀ method ∈ service.methods, ∀ fault,
        Rule.ofOptions (payloadOf method) = .error fault →
        ¬ (DescribesRules (optionsTable loaded.pool.table .method) ∧
          fault.reason = .nestedTooDeeply) →
        Name.bare (Name.join source.package service.name) = Name.join source.package service.name →
        ∃ error, Render.render settings bytes = .error error := by
  obtain ⟨files, source, added, files', dialected, symbols, resolved, hfiles, hsource, htarget,
    hfills, hdialected, hbuilds⟩ := exists_builds_of_load hload hfilled
  obtain ⟨filled, hlast, hfill⟩ := forall₂_getLast? hfills hsource
  have hall : (dialected.map Prod.snd).getLast? = some filled := by
    rw [hdialected, List.getLast?_append, hlast]
    rfl
  obtain ⟨middle, file, hresolve, hrecode, hfile, hfound⟩ := exists_last_of_builds hbuilds hall
  have hmem : file ∈ loaded.pool.files := List.mem_of_getLast? hfile
  have hloaded : loaded.file = .ok file := by
    rw [Loaded.file, htarget, ← hfill.name_eq, hfound]
  have hpair := pairMethods_target htells hfill hresolve hrecode (hshort file hmem)
  refine ⟨files, source, file, hfiles, hsource, hloaded, hpair, ?_⟩
  intro service hservice method hmethod fault hfault hdeep hbare
  cases hrender : Render.render settings bytes with
  | error error => exact ⟨error, rfl⟩
  | ok text =>
      obtain ⟨printed, hprinted⟩ := render_eq_ok hrender hload hloaded
      obtain ⟨service', hservice', hname, hmethods⟩ := forall₂_exists_of_mem hpair hservice
      obtain ⟨method', hmethod', hkeeps⟩ := forall₂_exists_of_mem hmethods hmethod
      have hpackage : file.package = source.package := by
        rw [(names_of_recodeFile hrecode).2.1, (names_of_resolveFile hresolve).2.1,
          hfill.package_eq]
      rw [← hname, ← hpackage] at hbare
      have hlisted := hbuilds.mem_services hmem
        (List.mem_map.2 ⟨service', hservice', rfl⟩ : (_, service') ∈ servicesOf file) hbare
      obtain ⟨rule?, hrule⟩ := Render.exists_rule_of_printFile hprinted hlisted hmethod'
      obtain hdeep' | hrefused := hkeeps.refused fault hfault
      · exact absurd hdeep' hdeep
      · exact absurd hrule (hrefused _ _)

/-- A set of `front` and a file with one method that carries the encoded options
`options`. -/
def oneMethodSet (front : List File) (options : Bytes) : Bytes :=
  encodeSet front ++ encode [.embed 1 [.text 1 "demo.proto", .embed 4 [.text 1 "M"],
    .embed 6 [.text 1 "S",
      .embed 2 [.text 1 "m", .text 2 ".M", .text 3 ".M", .bytes 4 options]],
    .text 12 "proto3"]]

/-- The encoded HTTP option that binds a method to a path. -/
def getOption : Bytes :=
  encode [.embed httpNumber [.text 2 "/v1"]]

/-- A set whose method has another option after its rule. -/
def boundSet : Bytes :=
  oneMethodSet [] (getOption ++ encode [.varint 33 1])

theorem rules_of_load_boundSet : ∃ loaded files source file,
    load false boundSet = .ok loaded ∧ decodeFiles boundSet = .ok files ∧
      files.getLast? = some source ∧ loaded.file = .ok file ∧
      PairMethods (KeepsRule loaded.pool.table) source file := by
  have hoptions : (load false boundSet).toOption.map (fun loaded =>
      ((loaded.pool.table.lookup (optionsName .method)).isSome,
        loaded.pool.files.all fun file => file.services.all fun service =>
          service.methods.all fun method => decide ((payloadOf method).length < 2 ^ 64))) =
      some (false, true) := by
    decide +kernel
  have hfill : (fillTypes boundSet).toOption = some none := by
    decide +kernel
  cases hload : load false boundSet with
  | error _ => simp [hload, Except.toOption] at hoptions
  | ok loaded =>
      simp only [hload, Except.toOption, Option.map_some, Option.some.injEq, Prod.mk.injEq,
        List.all_eq_true, decide_eq_true_eq] at hoptions
      have htable : optionsTable loaded.pool.table .method = descriptorTable := by
        simp [optionsTable, hoptions.1]
      have hfilled : FillsShortly boundSet := by
        intro filled hsome
        simp [hsome, Except.toOption] at hfill
      have htells : TellsRules loaded.pool.table := by
        refine ⟨?_, Or.inl ?_⟩
        · rw [htable]
          exact (isFlat_setSchema _).hasNoMaps
        · rw [htable]
          exact httpNumber_missed
      have hdirect : load ({} : Settings).strategy.synthesizes boundSet = .ok loaded := hload
      obtain ⟨files, source, file, hfiles, hsource, hfile, hpair, -⟩ :=
        rules_of_load hdirect hfilled htells hoptions.2
      exact ⟨loaded, files, source, file, rfl, hfiles, hsource, hfile, hpair⟩

/-! ## Rules that change on the way -/

/-- The patterns of the rules of all methods of a file, as far as they can be
read. -/
def patternsIn (file : File) : List (Option (Option (Option Pattern))) :=
  (file.services.flatMap Service.methods).map fun method =>
    (Rule.ofOptions (payloadOf method)).toOption.map (Option.map fun rule => rule.binding.pattern?)

/-- A description of the options of methods as a map. -/
def mapDescriptor : File where
  name? := some WellKnown.descriptorPath
  package? := some "google.protobuf"
  messages := [.mk {
      name? := some "MethodOptions"
      fields := [WellKnown.named .repeated "entries" 5 .message
        ".google.protobuf.MethodOptions.Entry"] }
    [.mk {
      name? := some "Entry"
      fields :=
        [WellKnown.plain .optional "key" 1 .int32, WellKnown.plain .optional "value" 2 .int32]
      options? := some (.ofSettings [(mapEntryNumber, .flag true)]) } []]]

/-- A set whose method has its rule after a number in the field of the map. -/
def mapSet : Bytes :=
  oneMethodSet [mapDescriptor] (40 :: encodeDelimited getOption)

/-- A description of the options of methods as a group with the map in it. -/
def groupDescriptor : File where
  name? := some WellKnown.descriptorPath
  package? := some "google.protobuf"
  messages := [.mk {
      name? := some "MethodOptions"
      fields :=
        [WellKnown.named .optional "group" 1 .group ".google.protobuf.MethodOptions.Group"] }
    [.mk {
        name? := some "Group"
        fields := [WellKnown.named .repeated "entries" 5 .message
          ".google.protobuf.MethodOptions.Group.Entry"] }
      (mapDescriptor.messages.flatMap Message.nested)]]

/-- A set whose method has its rule after a group with eight bytes in the field of the
map.  As an entry they end one byte earlier, and what comes next is a byte string as long
as the end key of the group says. -/
def groupSet : Bytes :=
  oneMethodSet [groupDescriptor]
    ([11, 41, 6, 8, 1, 16, 1, 16, 1, 26, 12] ++ getOption ++
      encode [.bytes 15 (encode (List.replicate 4 (.varint 33 1)))])

/-- A description of the options of methods that leaves room for extensions. -/
def openDescriptor : File where
  name? := some WellKnown.descriptorPath
  package? := some "google.protobuf"
  messages := [.mk {
      name? := some "MethodOptions"
      extensionRanges := [WellKnown.extensionRange 1000 536870912] } []]

/-- Additional bindings within each other around the records of a rule. -/
def nestedRule : Nat → List Record → List Record
  | 0, innermost => innermost
  | depth + 1, innermost => [.text 2 "", .embed 11 (nestedRule depth innermost)]

/-- A set that knows the HTTP option and has a rule that is one level too deep:
its innermost pattern, which another one replaces, holds an unknown field. -/
def deepSet : Bytes :=
  oneMethodSet [openDescriptor, WellKnown.annotationsWithRules]
    (encode [.embed httpNumber (nestedRule 98 [.embed 8 [.varint 3 1], .text 2 ""])])

/-- A set with a service whose full name starts with a dot, and a service with the
rest of that name. -/
def dottedSet : Bytes :=
  encode [.embed 1 [.text 1 "demo.proto", .embed 4 [.text 1 "M"],
    .embed 6 [.text 1 "S", .embed 2 [.text 1 "m", .text 2 ".M", .text 3 ".M"]],
    .embed 6 [.text 1 ".S",
      .embed 2 [.text 1 "m", .text 2 ".M", .text 3 ".M",
        .bytes 4 (encode [.bytes httpNumber [18]])]]]]

/-- A map in the options of methods swallows the rule that follows it, also from within
a group; a rule that is too deep loses what makes it so when a pool that knows the
option writes it; and a service is printed in place of the one whose rule cannot be
read. -/
theorem rules_change_on_the_way :
    ((decodeFiles mapSet).toOption.map (·.map patternsIn) =
        some [[], [some (some (some (.get "/v1")))]] ∧
      (load false mapSet).toOption.map (·.pool.files.map patternsIn) = some [[], [some none]] ∧
      (load false mapSet).toOption.map (fun loaded =>
        ((schemaOf loaded.pool.table).field? (optionsName .method) httpNumber).isSome) =
        some false) ∧
    ((decodeFiles groupSet).toOption.map (·.map patternsIn) =
        some [[], [some (some (some (.get "/v1")))]] ∧
      (load false groupSet).toOption.map (·.pool.files.map patternsIn) = some [[], [some none]]) ∧
    ((decodeFiles deepSet).toOption.map (·.map patternsIn) = some [[], [], [none]] ∧
      (Render.render {} deepSet).toOption.isSome) ∧
    ((decodeFiles dottedSet).toOption.map (·.map patternsIn) = some [[some none, none]] ∧
      (Render.render {} dottedSet).toOption.isSome) := by
  refine ⟨⟨?_, ?_, ?_⟩, ⟨?_, ?_⟩, ⟨?_, ?_⟩, ?_, ?_⟩ <;> decide +kernel

end ProtoSource.Load
