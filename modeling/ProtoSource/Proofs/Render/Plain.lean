import ProtoSource.Proofs.Descriptor.Plain
import ProtoSource.Proofs.Pool.Declared
import ProtoSource.Proofs.Success
import ProtoSource.Render.Basic

/-!
# What a printed file depends on

The text of a file shows its options only as far as they are read, apart from the
HTTP rules of its methods, and it shows the files around it only in the spelling of
references.
-/

namespace ProtoSource.Render

open ProtoSource.Descriptor
open ProtoSource.Pool
open ProtoSource.Success
open ProtoSource.Text

theorem standardOptions_plain {kind : OptionsKind} (options? : Option (Options kind)) :
    standardOptions (options?.map Options.plain) = standardOptions options? := by
  cases options? <;> rfl

theorem isMapEntry_plain (message : Message) : message.plain.isMapEntry = message.isMapEntry := by
  obtain ⟨body, nested⟩ := message
  change ((body.options?.map Options.plain).map (·.flag mapEntryNumber)).getD false = _
  rw [Option.map_map]
  rfl

theorem name_plain (message : Message) : message.plain.name = message.name := by
  cases message
  rfl

theorem fieldTail_plain (field : Field) : fieldTail field.plain = fieldTail field := by
  unfold fieldTail fieldOptions
  rw [show standardOptions field.plain.options? = standardOptions field.options? from
    standardOptions_plain field.options?]
  rfl

theorem mapEntry?_plain (message : Message) (field : Field) :
    mapEntry? message.plain field.plain = ( mapEntry? message field).map Message.plain := by
  obtain ⟨body, nested⟩ := message
  have hnested : (Message.mk body nested).plain.nested = nested.map Message.plain :=
    Message.plainAll_eq_map nested
  unfold mapEntry?
  change (if field.label = .repeated ∧ field.type? = some .message then _ else _) = _
  split_ifs
  · rw [hnested, List.find?_map]
    simp only [Function.comp_def, isMapEntry_plain, name_plain]
    rfl
  · rfl

theorem entryField_plain (entry : Message) (number : Int) :
    entryField entry.plain number = (entryField entry number).map Field.plain := by
  obtain ⟨body, nested⟩ := entry
  have hfind : (Message.mk body nested).plain.body.fields.find? (·.number == number) =
      ((Message.mk body nested).body.fields.find? (·.number == number)).map Field.plain :=
    List.find?_map
  unfold entryField
  rw [hfind]
  cases (Message.mk body nested).body.fields.find? (·.number == number) <;> rfl

theorem fieldLine_plain (message : Message) (scope : Scope) (field : Field) :
    fieldLine message.plain scope field.plain = fieldLine message scope field := by
  unfold fieldLine
  rw [mapEntry?_plain, fieldTail_plain]
  have htoken (field : Field) : typeToken scope field.plain = typeToken scope field := rfl
  cases mapEntry? message field with
  | none => simp only [Option.map_none, htoken]; rfl
  | some entry =>
      simp only [Option.map_some, entryField_plain]
      congr 1
      funext _
      cases entryField entry 1 with
      | error _ => rfl
      | ok key =>
          cases entryField entry 2 with
          | error _ => rfl
          | ok value => rfl

theorem oneofAt?_plain (message : Message) (index : Int) :
    oneofAt? message.plain index = (oneofAt? message index).map Oneof.plain := by
  obtain ⟨body, nested⟩ := message
  unfold oneofAt?
  split_ifs
  · exact List.getElem?_map
  · rfl

theorem oneofBlock_plain (message : Message) (scope : Scope) (field : Field) (index : Int) :
    oneofBlock message.plain scope field.plain index = oneofBlock message scope field index := by
  obtain ⟨body, nested⟩ := message
  have hmembers : (Message.mk body nested).plain.body.fields.filter (·.oneof? == some index) =
      (body.fields.filter (·.oneof? == some index)).map Field.plain := by
    change (body.fields.map Field.plain).filter (·.oneof? == some index) = _
    rw [List.filter_map]
    rfl
  unfold oneofBlock
  rw [oneofAt?_plain]
  cases oneofAt? (.mk body nested) index with
  | none => rfl
  | some oneof =>
      simp only [Option.map_some, hmembers, List.mapM_map, Function.comp_def, fieldLine_plain]
      rw [show standardOptions oneof.plain.options? = standardOptions oneof.options? from
        standardOptions_plain oneof.options?]
      rfl

theorem fieldItems_plain (message : Message) (scope : Scope) (written : List Int)
    (fields : List Field) :
    fieldItems message.plain scope written (fields.map Field.plain) =
      fieldItems message scope written fields := by
  induction fields generalizing written with
  | nil => rfl
  | cons field rest ih =>
      rw [List.map_cons, fieldItems, fieldItems]
      have hindex : field.plain.oneof? = field.oneof? := rfl
      rw [hindex]
      cases field.oneof? with
      | none => simp only [fieldLine_plain, ih]
      | some index => simp only [oneofBlock_plain, ih]

theorem enumBlock_plain (enumeration : Enumeration) :
    enumBlock enumeration.plain = enumBlock enumeration := by
  have hvalue (value : EnumValue) : enumValueLine value.plain = enumValueLine value := by
    unfold enumValueLine
    rw [show standardOptions value.plain.options? = standardOptions value.options? from
      standardOptions_plain value.options?]
    rfl
  unfold enumBlock
  rw [show standardOptions enumeration.plain.options? = standardOptions enumeration.options? from
    standardOptions_plain enumeration.options?]
  change (do
    requireName .enumeration enumeration.name
    let values ← (enumeration.values.map EnumValue.plain).mapM enumValueLine
    _) = _
  simp only [List.mapM_map, Function.comp_def, hvalue]
  rfl

mutual

theorem messageBlock_plain (scope : Scope) (message : Message) :
    messageBlock scope message.plain = messageBlock scope message := by
  obtain ⟨body, nested⟩ := message
  have hname : body.plain.name = body.name := rfl
  have hreserved : messageReserved body.plain = messageReserved body := rfl
  have hoptions : standardOptions body.plain.options? = standardOptions body.options? :=
    standardOptions_plain body.options?
  have hfields : fieldItems (.mk body.plain (Message.plainAll nested)) (scope.nested body.name) []
      body.plain.fields = fieldItems (.mk body nested) (scope.nested body.name) [] body.fields :=
    fieldItems_plain (.mk body nested) _ _ _
  have henums : body.plain.enums.mapM enumBlock = body.enums.mapM enumBlock := by
    change (body.enums.map Enumeration.plain).mapM enumBlock = _
    simp only [List.mapM_map, Function.comp_def, enumBlock_plain]
  rw [Message.plain, messageBlock, messageBlock]
  simp only [hname, hreserved, hoptions, hfields, henums, messageBlocks_plain]

theorem messageBlocks_plain (hideEntries : Bool) (scope : Scope) (messages : List Message) :
    messageBlocks hideEntries scope (Message.plainAll messages) =
      messageBlocks hideEntries scope messages := by
  cases messages with
  | nil => rfl
  | cons message rest =>
      rw [Message.plainAll, messageBlocks, messageBlocks, isMapEntry_plain,
        messageBlock_plain scope message, messageBlocks_plain hideEntries scope rest]

end

theorem headItems_plain (file : File) : headItems file.plain = headItems file := by
  unfold headItems
  rw [show standardOptions file.plain.options? = standardOptions file.options? from
    standardOptions_plain file.options?]
  rfl

/-- In scopes of the names `inside`, the references `among` are spelled the same
among both lists of files. -/
def SpellsAlike (files files' : List File) (package : String) (inside among : String → Prop) :
    Prop :=
  ∀ name typeName, inside name → among typeName →
    Scope.reference ⟨files, package, name⟩ typeName =
      Scope.reference ⟨files', package, name⟩ typeName

section Spelled

variable {files files' : List File} {package : String} {inside among : String → Prop}
  (halike : SpellsAlike files files' package inside among)

include halike

theorem typeToken_congr {name : String} (hname : inside name) {field : Field}
    (hfield : among field.typeName) :
    typeToken ⟨files, package, name⟩ field = typeToken ⟨files', package, name⟩ field := by
  unfold typeToken
  rw [halike name field.typeName hname hfield]

theorem fieldLine_congr {name : String} (hname : inside name) {message : Message}
    (hnested : ∀ nested ∈ message.nested, ∀ field ∈ nested.body.fields, among field.typeName)
    {field : Field} (hfield : among field.typeName) :
    fieldLine message ⟨files, package, name⟩ field =
      fieldLine message ⟨files', package, name⟩ field := by
  unfold fieldLine
  rw [typeToken_congr halike hname hfield]
  cases hentry : mapEntry? message field with
  | none => rfl
  | some entry =>
      have hmem : entry ∈ message.nested := by
        unfold mapEntry? at hentry
        split_ifs at hentry
        exact List.mem_of_find?_eq_some hentry
      have htoken {number : Int} {part : Field} (hpart : entryField entry number = .ok part) :
          typeToken ⟨files, package, name⟩ part = typeToken ⟨files', package, name⟩ part := by
        unfold entryField at hpart
        split at hpart
        · next found hfind =>
            obtain rfl := Except.ok.inj hpart
            exact typeToken_congr halike hname
              (hnested entry hmem _ (List.mem_of_find?_eq_some hfind))
        · simp at hpart
      cases hkey : entryField entry 1 with
      | error _ => simp only [hkey, bind, Except.bind]
      | ok key =>
          cases hvalue : entryField entry 2 with
          | error _ => simp only [hkey, hvalue, bind, Except.bind]
          | ok value => simp only [hkey, hvalue, bind, Except.bind, htoken hkey, htoken hvalue]

theorem fieldItems_congr {name : String} (hname : inside name) {message : Message}
    (hnested : ∀ nested ∈ message.nested, ∀ field ∈ nested.body.fields, among field.typeName)
    (hfields : ∀ field ∈ message.body.fields, among field.typeName) {fields : List Field}
    (hmem : fields ⊆ message.body.fields) (written : List Int) :
    fieldItems message ⟨files, package, name⟩ written fields =
      fieldItems message ⟨files', package, name⟩ written fields := by
  have hline {field : Field} (hfield : field ∈ message.body.fields) :
      fieldLine message ⟨files, package, name⟩ field =
        fieldLine message ⟨files', package, name⟩ field :=
    fieldLine_congr halike hname hnested (hfields field hfield)
  induction fields generalizing written with
  | nil => rfl
  | cons field rest ih =>
      rw [List.cons_subset] at hmem
      rw [fieldItems, fieldItems]
      cases field.oneof? with
      | none => simp only [hline hmem.1, ih hmem.2]
      | some index =>
          have hlines : (message.body.fields.filter (·.oneof? == some index)).mapM
              (fieldLine message ⟨files, package, name⟩) =
              (message.body.fields.filter (·.oneof? == some index)).mapM
                (fieldLine message ⟨files', package, name⟩) :=
            mapM_congr fun field hfield => hline (List.mem_of_mem_filter hfield)
          simp only [oneofBlock, hlines, ih hmem.2]

end Spelled

mutual

theorem messageBlock_congr {files files' : List File} {package : String}
    {inside among : String → Prop} (halike : SpellsAlike files files' package inside among)
    {name : String} {message : Message} (hinside : ∀ entry ∈ messageIn name message, inside entry.1)
    (hamong : ∀ entry ∈ messageIn name message, ∀ field ∈ entry.2.body.fields,
      among field.typeName) :
    messageBlock ⟨files, package, name⟩ message = messageBlock ⟨files', package, name⟩ message := by
  obtain ⟨body, nested⟩ := message
  rw [messageIn, List.forall_mem_cons] at hinside hamong
  have hfields := fieldItems_congr halike hinside.1
    (fun inner hinner => hamong.2 _ (mem_messagesIn hinner)) hamong.1
    (List.Subset.refl body.fields) []
  have hmessages := messageBlocks_congr halike true hinside.2 hamong.2
  rw [messageBlock, messageBlock]
  simp only [Scope.nested] at hfields hmessages ⊢
  rw [hfields, hmessages]

theorem messageBlocks_congr {files files' : List File} {package : String}
    {inside among : String → Prop} (halike : SpellsAlike files files' package inside among)
    (hideEntries : Bool) {name : String} {messages : List Message}
    (hinside : ∀ entry ∈ messagesIn name messages, inside entry.1)
    (hamong : ∀ entry ∈ messagesIn name messages, ∀ field ∈ entry.2.body.fields,
      among field.typeName) :
    messageBlocks hideEntries ⟨files, package, name⟩ messages =
      messageBlocks hideEntries ⟨files', package, name⟩ messages := by
  cases messages with
  | nil => rw [messageBlocks, messageBlocks]
  | cons message rest =>
      rw [messagesIn, List.forall_mem_append] at hinside hamong
      rw [messageBlocks, messageBlocks, messageBlock_congr halike hinside.1 hamong.1,
        messageBlocks_congr halike hideEntries hinside.2 hamong.2]

end

/-- What stands in the text of a method besides its name. -/
theorem methodItem_congr {files files' : List File} {package : String}
    {inside among : String → Prop} (halike : SpellsAlike files files' package inside among)
    {serviceName name : String} {method method' : Method} (hplain : method'.plain = method.plain)
    (hrule : ∀ fullName, Http.ruleOf fullName method' = Http.ruleOf fullName method)
    (hinside : inside (Name.join name method.name)) (hinput : among method.inputType)
    (houtput : among method.outputType) :
    methodItem serviceName ⟨files, package, name⟩ method =
      methodItem serviceName ⟨files', package, name⟩ method' := by
  have hname : method'.plain.name = method.plain.name := by rw [hplain]
  have hsignature : signature ⟨files', package, Name.join name method.name⟩ method'.plain =
      signature ⟨files', package, Name.join name method.name⟩ method.plain := by
    rw [hplain]
  have hspelled : signature ⟨files, package, Name.join name method.name⟩ method =
      signature ⟨files', package, Name.join name method.name⟩ method := by
    unfold signature
    rw [halike _ _ hinside hinput, halike _ _ hinside houtput]
  have hoptions : standardOptions method'.options? = standardOptions method.options? := by
    have hplain? : method'.plain.options? = method.plain.options? := by rw [hplain]
    rw [← standardOptions_plain, ← standardOptions_plain method.options?]
    exact congrArg standardOptions hplain?
  -- Names and signatures are the same for a method and its plain form.
  change method'.name = method.name at hname
  change signature _ method' = signature _ method at hsignature
  unfold methodItem
  simp only [Scope.nested, hname, hoptions, hrule]
  rw [hsignature, hspelled]

theorem methodItems_congr {files files' : List File} {package : String}
    {inside among : String → Prop} (halike : SpellsAlike files files' package inside among)
    {serviceName name : String} {methods methods' : List Method}
    (hplain : methods'.map Method.plain = methods.map Method.plain)
    (hrules : List.Forall₂ (fun method method' =>
      ∀ fullName, Http.ruleOf fullName method' = Http.ruleOf fullName method) methods methods')
    (hinside : ∀ method ∈ methods, inside (Name.join name method.name))
    (hamong : ∀ method ∈ methods, among method.inputType ∧ among method.outputType) :
    methods.mapM (methodItem serviceName ⟨files, package, name⟩) =
      methods'.mapM (methodItem serviceName ⟨files', package, name⟩) := by
  induction hrules with
  | nil => simp only [List.mapM_nil]
  | @cons method method' _ _ hrule _ ih =>
      rw [List.map_cons, List.map_cons, List.cons.injEq] at hplain
      rw [List.forall_mem_cons] at hinside hamong
      have hfirst : methodItem serviceName ⟨files, package, name⟩ method =
          methodItem serviceName ⟨files', package, name⟩ method' :=
        methodItem_congr halike hplain.1 hrule hinside.1 hamong.1.1 hamong.1.2
      simp only [List.mapM_cons, hfirst, ih hplain.2 hinside.2 hamong.2]

theorem serviceBlock_congr {files files' : List File} {package : String}
    {inside among : String → Prop} (halike : SpellsAlike files files' package inside among)
    {fullName : String} {service service' : Service} (hplain : service'.plain = service.plain)
    (hrules : List.Forall₂ (fun method method' =>
      ∀ fullName, Http.ruleOf fullName method' = Http.ruleOf fullName method)
      service.methods service'.methods)
    (hinside : ∀ method ∈ service.methods,
      inside (Name.join (Name.join package service.name) method.name))
    (hamong : ∀ method ∈ service.methods, among method.inputType ∧ among method.outputType) :
    serviceBlock (Scope.ofPackage files package) fullName service =
      serviceBlock (Scope.ofPackage files' package) fullName service' := by
  have hname : service'.plain.name = service.plain.name := by rw [hplain]
  have hmethods : service'.plain.methods = service.plain.methods := by rw [hplain]
  have hoptions : standardOptions service'.options? = standardOptions service.options? := by
    have hplain? : service'.plain.options? = service.plain.options? := by rw [hplain]
    rw [← standardOptions_plain, ← standardOptions_plain service.options?]
    exact congrArg standardOptions hplain?
  have hitems : service.methods.mapM
        (methodItem fullName ⟨files, package, Name.join package service.name⟩) =
      service'.methods.mapM
        (methodItem fullName ⟨files', package, Name.join package service.name⟩) :=
    methodItems_congr halike hmethods hrules hinside hamong
  change service'.name = service.name at hname
  unfold serviceBlock
  simp only [Scope.ofPackage, Scope.nested, hname, hoptions, hitems]

theorem serviceBlocks_congr {files files' : List File} {package : String}
    {inside among : String → Prop} (halike : SpellsAlike files files' package inside among)
    {services services' : List Service}
    (hplain : services'.map Service.plain = services.map Service.plain)
    (hrules : List.Forall₂ (fun service service' => List.Forall₂ (fun method method' =>
      ∀ fullName, Http.ruleOf fullName method' = Http.ruleOf fullName method)
      service.methods service'.methods) services services')
    (hinside : ∀ service ∈ services, ∀ method ∈ service.methods,
      inside (Name.join (Name.join package service.name) method.name))
    (hamong : ∀ service ∈ services, ∀ method ∈ service.methods,
      among method.inputType ∧ among method.outputType) :
    (services.map fun service => (Name.join package service.name, service)).mapM (fun entry =>
        serviceBlock (Scope.ofPackage files package) entry.1 entry.2) =
      (services'.map fun service => (Name.join package service.name, service)).mapM (fun entry =>
        serviceBlock (Scope.ofPackage files' package) entry.1 entry.2) := by
  induction hrules with
  | nil => simp only [List.map_nil, List.mapM_nil]
  | @cons service service' _ _ hrule _ ih =>
      rw [List.map_cons, List.map_cons, List.cons.injEq] at hplain
      rw [List.forall_mem_cons] at hinside hamong
      have hname : service'.plain.name = service.plain.name := by rw [hplain.1]
      have hfirst : serviceBlock (Scope.ofPackage files package) (Name.join package service.name)
            service =
          serviceBlock (Scope.ofPackage files' package) (Name.join package service'.name)
            service' := by
        rw [show service'.name = service.name from hname]
        exact serviceBlock_congr halike hplain.1 hrule hinside.1 hamong.1
      simp only [List.map_cons, List.mapM_cons, hfirst, ih hplain.2 hinside.2 hamong.2]

/-- The files are the same but for the encoded form of their options, and their methods
have the same HTTP rules. -/
structure SaysTheSame (file file' : File) : Prop where
  plain_eq : file'.plain = file.plain
  rules : List.Forall₂ (fun service service' => List.Forall₂ (fun method method' =>
    ∀ fullName, Http.ruleOf fullName method' = Http.ruleOf fullName method)
    service.methods service'.methods) file.services file'.services

theorem SaysTheSame.refl (file : File) : SaysTheSame file file :=
  ⟨rfl, List.forall₂_same.2 fun _ _ => List.forall₂_same.2 fun _ _ _ => rfl⟩

/-- Two files that say the same have one text if their references are spelled alike. -/
theorem printFile_congr {pool pool' : Pool} {file file' : File} (hmeaning : SaysTheSame file file')
    (hlisted : pool.services file = (servicesOf file).map .ok)
    (hlisted' : pool'.services file' = (servicesOf file').map .ok) {inside among : String → Prop}
    (halike : SpellsAlike pool.files pool'.files file.package inside among)
    (hinside : ∀ entry ∈ messagesOf file, inside entry.1)
    (hamong : ∀ entry ∈ messagesOf file, ∀ field ∈ entry.2.body.fields, among field.typeName)
    (hinside' : ∀ service ∈ file.services, ∀ method ∈ service.methods,
      inside (Name.join (Name.join file.package service.name) method.name))
    (hamong' : ∀ service ∈ file.services, ∀ method ∈ service.methods,
      among method.inputType ∧ among method.outputType) (width : Nat) :
    printFile width pool file = printFile width pool' file' := by
  obtain ⟨hplain, hrules⟩ := hmeaning
  have hpackage : file'.plain.package = file.plain.package := by rw [hplain]
  have hservices : file'.plain.services = file.plain.services := by rw [hplain]
  have hmessages : file'.plain.messages = file.plain.messages := by rw [hplain]
  have henums : file'.plain.enums = file.plain.enums := by rw [hplain]
  change file'.package = file.package at hpackage
  change file'.services.map Service.plain = file.services.map Service.plain at hservices
  change file'.messages.map Message.plain = file.messages.map Message.plain at hmessages
  change file'.enums.map Enumeration.plain = file.enums.map Enumeration.plain at henums
  have hhead : headItems file' = headItems file := by
    rw [← headItems_plain, hplain, headItems_plain]
  have hblocks : (servicesOf file).mapM (fun entry =>
        serviceBlock (Scope.ofPackage pool.files file.package) entry.1 entry.2) =
      (servicesOf file').mapM (fun entry =>
        serviceBlock (Scope.ofPackage pool'.files file.package) entry.1 entry.2) := by
    rw [servicesOf, servicesOf, hpackage]
    exact serviceBlocks_congr halike hservices hrules hinside' hamong'
  have hmessageBlocks :
      messageBlocks false (Scope.ofPackage pool.files file.package) file.messages =
      messageBlocks false (Scope.ofPackage pool'.files file.package) file'.messages := by
    rw [← messageBlocks_plain _ _ file'.messages, Message.plainAll_eq_map, hmessages,
      ← Message.plainAll_eq_map, messageBlocks_plain]
    exact messageBlocks_congr halike false hinside hamong
  have henumBlocks : file.enums.mapM enumBlock = file'.enums.mapM enumBlock := by
    have hplains (enums : List Enumeration) :
        (enums.map Enumeration.plain).mapM enumBlock = enums.mapM enumBlock := by
      simp only [List.mapM_map, Function.comp_def, enumBlock_plain]
    rw [← hplains file'.enums, henums, hplains]
  unfold printFile fileItems
  simp only [hlisted, hlisted', mapM_map_ok, hpackage, hhead]
  rw [hblocks, hmessageBlocks, henumBlocks]

end ProtoSource.Render
