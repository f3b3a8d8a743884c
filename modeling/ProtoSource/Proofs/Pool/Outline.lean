import Mathlib.Data.List.Nodup
import ProtoSource.Proofs.Pool.Resolving
import ProtoSource.Proofs.Render.Spelling
import ProtoSource.Proofs.Wire.Recoding

/-!
# What a pool keeps of its files

Resolution replaces references and writing options in canonical form replaces
options.  Neither touches a name, and message by message it is clear what became
of the fields.
-/

namespace ProtoSource.Pool

open ProtoSource.Descriptor
open ProtoSource.Related
open ProtoSource.Success
open ProtoSource.Text

/-- A reference that was resolved leads to a visible symbol of the wanted kind. -/
theorem Outlook.resolve_eq_ok {outlook : Outlook} {wanted : Wanted} {scope name : String}
    {symbol : Symbol} (hresolve : outlook.resolve wanted scope name = .ok symbol) :
    outlook.lookUp wanted symbol.name = .found symbol := by
  have hfound {name : String} (hlookUp : outlook.lookUp wanted name = .found symbol) :
      outlook.lookUp wanted symbol.name = .found symbol := by
    have hname : symbol.name = name := by
      simpa using List.find?_some (Outlook.lookUp_eq_found.1 hlookUp).1
    rwa [hname]
  have hsettled {name : String} {absent : Fault}
      (hsettle : outlook.settle wanted name absent = .ok symbol) :
      outlook.lookUp wanted symbol.name = .found symbol :=
    hfound (Outlook.settle_eq_ok.1 hsettle)
  unfold Outlook.resolve at hresolve
  split at hresolve
  · exact hsettled hresolve
  · split_ifs at hresolve
    · exact hsettled hresolve
    · split at hresolve
      · obtain ⟨found, -, hlookUp⟩ := Outlook.firstOf_eq_ok hresolve
        exact hfound hlookUp
      · split at hresolve
        · exact hsettled hresolve
        · simp at hresolve

/-- If the type name is absolute it is that of a type. -/
def SymbolTable.LeadsTo (table : SymbolTable) (typeName : String) : Prop :=
  ∀ fullName ∈ Name.absolute? typeName,
    ∃ symbol, table.find? fullName = some symbol ∧ symbol.kind.isType = true

theorem Outlook.leadsTo_of_resolve {outlook : Outlook} {wanted : Wanted} {scope name : String}
    {symbol : Symbol} (hresolve : outlook.resolve wanted scope name = .ok symbol) :
    outlook.table.LeadsTo ("." ++ symbol.name) := by
  obtain ⟨hfind, -, hadmits⟩ := Outlook.lookUp_eq_found.1 (Outlook.resolve_eq_ok hresolve)
  intro fullName hfull
  rw [Name.absolute?_dot] at hfull
  obtain rfl := Option.some.inj hfull
  exact ⟨symbol, hfind, Wanted.isType_of_admits hadmits⟩

theorem plain_of_fieldTarget {context : Context} {scope : String} {path : List Nat} {field : Field}
    {target : Target} (hempty : field.typeName = "")
    (htarget : fieldTarget context scope path field = .ok target) :
    ∃ type, target = .plain type := by
  rw [fieldTarget, if_pos (by simp [hempty])] at htarget
  split at htarget
  · exact ⟨_, (Except.ok.inj htarget).symm⟩
  · split_ifs at htarget
    exact ⟨_, (Except.ok.inj htarget).symm⟩

theorem leadsTo_of_fieldTarget {context : Context} {scope : String} {path : List Nat}
    {field : Field} {target : Target}
    (htarget : fieldTarget context scope path field = .ok target) :
    context.outlook.table.LeadsTo (withTarget target field).typeName := by
  by_cases hempty : field.typeName = ""
  · obtain ⟨type, rfl⟩ := plain_of_fieldTarget hempty htarget
    intro fullName hfull
    simp [withTarget, hempty, Name.absolute?] at hfull
  · rw [fieldTarget, if_neg (by simpa using hempty)] at htarget
    obtain ⟨symbol, hsymbol, htarget⟩ := bind_eq_ok.1 htarget
    have hleads := Outlook.leadsTo_of_resolve hsymbol
    split at htarget <;> obtain rfl := pure_eq_ok.1 htarget <;> exact hleads

theorem leadsTo_of_resolveField {context : Context} {ownerName : String} {owner : MessageBody}
    {path : List Nat} {earlier : List Field} {field resolved : Field}
    (hresolve : resolveField context ownerName owner path earlier field = .ok resolved) :
    context.outlook.table.LeadsTo resolved.typeName := by
  simp only [resolveField, bind_eq_ok, pure_eq_ok] at hresolve
  obtain ⟨-, -, target, htarget, -, -, -, -, -, -, -, -, rfl⟩ := hresolve
  exact leadsTo_of_fieldTarget htarget

theorem forall₂_of_resolveFields {context : Context} {ownerName : String} {owner : MessageBody}
    {path : List Nat} {index : Nat} {earlier fields resolved : List Field}
    (hresolve : resolveFields context ownerName owner path index earlier fields = .ok resolved) :
    ∃ later, resolved = earlier.reverse ++ later ∧
      List.Forall₂ (fun field field' => ∃ path earlier,
        resolveField context ownerName owner path earlier field = .ok field') fields later := by
  induction fields generalizing index earlier with
  | nil =>
      obtain rfl := Except.ok.inj hresolve
      exact ⟨[], by simp, .nil⟩
  | cons field rest ih =>
      simp only [resolveFields, bind_eq_ok] at hresolve
      obtain ⟨first, hfirst, hrest⟩ := hresolve
      obtain ⟨later, rfl, hlater⟩ := ih hrest
      exact ⟨first :: later, by simp, .cons ⟨_, _, hfirst⟩ hlater⟩

theorem forall₂_of_resolveExtensions {context : Context} {scope : String} {path : List Nat}
    {tag index : Nat} {fields resolved : List Field}
    (hresolve : resolveExtensions context scope path tag index fields = .ok resolved) :
    List.Forall₂ (fun field field' => ∃ path,
      resolveExtension context scope path field = .ok field') fields resolved := by
  induction fields generalizing index resolved with
  | nil =>
      obtain rfl := Except.ok.inj hresolve
      exact .nil
  | cons field rest ih =>
      simp only [resolveExtensions, bind_eq_ok, pure_eq_ok] at hresolve
      obtain ⟨first, hfirst, others, hothers, rfl⟩ := hresolve
      exact .cons ⟨_, hfirst⟩ (ih hothers)

/-- The second message is the first with its own references resolved. -/
structure ResolvesMessage (context : Context) (entry entry' : String × Message) : Prop where
  name_eq : entry'.1 = entry.1
  fields : List.Forall₂ (fun field field' => ∃ path earlier,
    resolveField context entry.1 entry.2.body path earlier field = .ok field')
    entry.2.body.fields entry'.2.body.fields
  extensions : List.Forall₂ (fun field field' => ∃ path,
    resolveExtension context entry.1 path field = .ok field')
    entry.2.body.extensions entry'.2.body.extensions
  body_eq : entry'.2.body = { entry.2.body with
    fields := entry'.2.body.fields
    extensions := entry'.2.body.extensions }

mutual

theorem resolvesMessage_of_resolveMessage {context : Context} {scope : String} {path : List Nat}
    {message resolved : Message}
    (hresolve : resolveMessage context scope path message = .ok resolved) :
    List.Forall₂ (ResolvesMessage context) (messageIn scope message)
      (messageIn scope resolved) := by
  obtain ⟨body, nested⟩ := message
  simp only [resolveMessage, bind_eq_ok, pure_eq_ok] at hresolve
  obtain ⟨fields, hfields, inner, hinner, -, -, extensions, hextensions, rfl⟩ := hresolve
  obtain ⟨_, rfl, hlater⟩ := forall₂_of_resolveFields hfields
  rw [messageIn, messageIn]
  exact .cons ⟨rfl, hlater, forall₂_of_resolveExtensions hextensions, rfl⟩
    (resolvesMessage_of_resolveMessages hinner)

theorem resolvesMessage_of_resolveMessages {context : Context} {scope : String} {path : List Nat}
    {tag index : Nat} {messages resolved : List Message}
    (hresolve : resolveMessages context scope path tag index messages = .ok resolved) :
    List.Forall₂ (ResolvesMessage context) (messagesIn scope messages)
      (messagesIn scope resolved) := by
  cases messages with
  | nil =>
      rw [resolveMessages] at hresolve
      obtain rfl := Except.ok.inj hresolve
      exact .nil
  | cons message rest =>
      simp only [resolveMessages, bind_eq_ok, pure_eq_ok] at hresolve
      obtain ⟨first, hfirst, others, hothers, rfl⟩ := hresolve
      rw [messagesIn, messagesIn]
      exact List.rel_append (resolvesMessage_of_resolveMessage hfirst)
        (resolvesMessage_of_resolveMessages hothers)

end

mutual

theorem exists_of_mem_extensionsIn {message : Message} (scope : String) {field : Field}
    (hfield : field ∈ extensionsIn message) :
    ∃ entry ∈ messageIn scope message, field ∈ entry.2.body.extensions := by
  obtain ⟨body, nested⟩ := message
  rw [extensionsIn, List.mem_append] at hfield
  rw [messageIn]
  obtain hnested | hown := hfield
  · obtain ⟨entry, hentry, hmem⟩ := exists_of_mem_extensionsInAll _ hnested
    exact ⟨entry, List.mem_cons_of_mem _ hentry, hmem⟩
  · exact ⟨_, List.mem_cons_self, hown⟩

/-- An extension that is declared in messages is declared in one of them. -/
theorem exists_of_mem_extensionsInAll {messages : List Message} (scope : String) {field : Field}
    (hfield : field ∈ extensionsInAll messages) :
    ∃ entry ∈ messagesIn scope messages, field ∈ entry.2.body.extensions := by
  cases messages with
  | nil => simp [extensionsInAll] at hfield
  | cons message rest =>
      rw [extensionsInAll, List.mem_append] at hfield
      rw [messagesIn]
      obtain hfirst | hrest := hfield
      · obtain ⟨entry, hentry, hmem⟩ := exists_of_mem_extensionsIn scope hfirst
        exact ⟨entry, List.mem_append_left _ hentry, hmem⟩
      · obtain ⟨entry, hentry, hmem⟩ := exists_of_mem_extensionsInAll scope hrest
        exact ⟨entry, List.mem_append_right _ hentry, hmem⟩

end

/-- An extension of a resolved file extends a type that is entered. -/
theorem extendee_of_resolveFile {symbols : SymbolTable} {files : List File}
    {messages : List (String × Message)} {enums : List (String × Enumeration)}
    {file resolved : File}
    (hresolve : resolveFile symbols files messages enums file = .ok resolved) :
    ∀ field ∈ extensionsOf resolved, ∃ symbol, symbols.find? symbol.name = some symbol ∧
      symbol.kind.isType = true ∧ field.extendee? = some ("." ++ symbol.name) := by
  obtain ⟨-, -, _, _, _, hmessages, -, hextensions, rfl⟩ := resolveFile_eq_ok.1 hresolve
  have hextendee {scope : String} {path : List Nat} {source field : Field}
      (hone : resolveExtension (contextOf symbols files messages enums file) scope path source =
        .ok field) :
      ∃ symbol, symbols.find? symbol.name = some symbol ∧ symbol.kind.isType = true ∧
        field.extendee? = some ("." ++ symbol.name) := by
    obtain ⟨extendee, target, hfound, -, rfl⟩ := resolveExtension_eq_ok hone
    obtain ⟨hfind, -, hadmits⟩ := Outlook.lookUp_eq_found.1 (Outlook.resolve_eq_ok hfound)
    exact ⟨extendee, hfind, Wanted.isType_of_admits hadmits, rfl⟩
  intro field hfield
  rw [extensionsOf, List.mem_append] at hfield
  obtain hnested | htop := hfield
  · obtain ⟨entry, hentry, hmem⟩ := exists_of_mem_extensionsInAll file.package hnested
    obtain ⟨source, -, hsource⟩ :=
      forall₂_exists_of_mem (resolvesMessage_of_resolveMessages hmessages).flip hentry
    obtain ⟨_, -, _, hone⟩ := forall₂_exists_of_mem hsource.extensions.flip hmem
    exact hextendee hone
  · obtain ⟨_, -, _, hone⟩ :=
      forall₂_exists_of_mem (forall₂_of_resolveExtensions hextensions).flip htop
    exact hextendee hone

mutual

theorem recodesBody_of_recodeMessage {table : MessageTable} (scope : String)
    {message recoded : Message} (hrecode : recodeMessage table message = .ok recoded) :
    List.Forall₂ (fun entry entry' => entry'.1 = entry.1 ∧
        recodeBody table entry.2.body = .ok entry'.2.body)
      (messageIn scope message) (messageIn scope recoded) := by
  obtain ⟨body, nested⟩ := message
  simp only [recodeMessage, bind_eq_ok, pure_eq_ok] at hrecode
  obtain ⟨body', hbody, inner, hinner, rfl⟩ := hrecode
  have hname : body'.name = body.name := by
    simp only [recodeBody, bind_eq_ok, pure_eq_ok] at hbody
    obtain ⟨_, -, _, -, _, -, _, -, _, -, _, -, rfl⟩ := hbody
    rfl
  rw [messageIn, messageIn, hname]
  exact .cons ⟨rfl, hbody⟩ (recodesBody_of_recodeMessages _ hinner)

theorem recodesBody_of_recodeMessages {table : MessageTable} (scope : String)
    {messages recoded : List Message} (hrecode : recodeMessages table messages = .ok recoded) :
    List.Forall₂ (fun entry entry' => entry'.1 = entry.1 ∧
        recodeBody table entry.2.body = .ok entry'.2.body)
      (messagesIn scope messages) (messagesIn scope recoded) := by
  cases messages with
  | nil =>
      rw [recodeMessages] at hrecode
      obtain rfl := Except.ok.inj hrecode
      exact .nil
  | cons message rest =>
      simp only [recodeMessages, bind_eq_ok, pure_eq_ok] at hrecode
      obtain ⟨first, hfirst, others, hothers, rfl⟩ := hrecode
      rw [messagesIn, messagesIn]
      exact List.rel_append (recodesBody_of_recodeMessage scope hfirst)
        (recodesBody_of_recodeMessages scope hothers)

end

/-! ## Names -/

/-- The full names of the methods of a file. -/
def methodNames (file : File) : List String :=
  (servicesOf file).flatMap fun entry =>
    entry.2.methods.map fun method => Name.join entry.1 method.name

/-- The second file declares what the first does, by the same names. -/
structure KeepsNames (file file' : File) : Prop where
  name : file'.name = file.name
  package : file'.package = file.package
  messages : (messagesOf file').map Prod.fst = (messagesOf file).map Prod.fst
  enums : (enumsOf file').map Prod.fst = (enumsOf file).map Prod.fst
  services : serviceNames file' = serviceNames file
  methods : methodNames file' = methodNames file

theorem KeepsNames.trans {file file' file'' : File} (hfirst : KeepsNames file file')
    (hsecond : KeepsNames file' file'') : KeepsNames file file'' where
  name := hsecond.name.trans hfirst.name
  package := hsecond.package.trans hfirst.package
  messages := hsecond.messages.trans hfirst.messages
  enums := hsecond.enums.trans hfirst.enums
  services := hsecond.services.trans hfirst.services
  methods := hsecond.methods.trans hfirst.methods

/-- The names of enums are settled by those of messages and of the enums in them. -/
theorem map_enumsOf_eq {file file' : File} (hpackage : file'.package = file.package)
    (henums : file'.enums.map Enumeration.name = file.enums.map Enumeration.name)
    (hmessages : List.Forall₂ (fun entry entry' => entry'.1 = entry.1 ∧
      entry'.2.body.enums.map Enumeration.name = entry.2.body.enums.map Enumeration.name)
      (messagesOf file) (messagesOf file')) :
    (enumsOf file').map Prod.fst = (enumsOf file).map Prod.fst := by
  have henumsIn (scope : String) (enums : List Enumeration) :
      (enumsIn scope enums).map Prod.fst =
        (enums.map Enumeration.name).map (Name.join scope) := by
    simp [enumsIn]
  have hnested : ((messagesOf file').flatMap fun entry =>
        (enumsIn entry.1 entry.2.body.enums).map Prod.fst) =
      (messagesOf file).flatMap fun entry => (enumsIn entry.1 entry.2.body.enums).map Prod.fst := by
    rw [List.flatMap_def, List.flatMap_def]
    refine congrArg List.flatten (map_eq_map_of_forall₂ hmessages fun entry entry' hentry =>
      ?_).symm
    rw [henumsIn, henumsIn, hentry.1, hentry.2]
  rw [enumsOf, enumsOf, List.map_append, List.map_append, List.map_flatMap, List.map_flatMap,
    hnested, henumsIn, henumsIn, henums, hpackage]

/-- The names of methods are settled by those of services and of the methods in them. -/
theorem methodNames_eq {file file' : File} (hpackage : file'.package = file.package)
    (hservices : List.Forall₂ (fun service service' => service'.name = service.name ∧
      service'.methods.map Method.name = service.methods.map Method.name)
      file.services file'.services) :
    methodNames file' = methodNames file := by
  have hflat (file : File) : methodNames file = (file.services.map fun service =>
      (service.methods.map Method.name).map
        (Name.join (Name.join file.package service.name))).flatten := by
    simp [methodNames, servicesOf, List.flatMap_def, Function.comp_def]
  rw [hflat, hflat, hpackage]
  refine congrArg List.flatten (map_eq_map_of_forall₂ hservices fun service service' hsame =>
    ?_).symm
  rw [hsame.1, hsame.2]

theorem keepsNames_of_resolveFile {symbols : SymbolTable} {files : List File}
    {messages : List (String × Message)} {enums : List (String × Enumeration)}
    {file resolved : File}
    (hresolve : resolveFile symbols files messages enums file = .ok resolved) :
    KeepsNames file resolved := by
  obtain ⟨hname, hpackage, hservices⟩ := names_of_resolveFile hresolve
  obtain ⟨-, -, _, _, _, hmessages, hkept, -, rfl⟩ := resolveFile_eq_ok.1 hresolve
  have hall := resolvesMessage_of_resolveMessages hmessages
  refine ⟨hname, hpackage, ?_, map_enumsOf_eq hpackage rfl ?_, hservices,
    methodNames_eq hpackage ?_⟩
  · exact (map_eq_map_of_forall₂ hall fun _ _ hentry => hentry.name_eq.symm).symm
  · refine hall.imp fun entry entry' hentry => ⟨hentry.name_eq, ?_⟩
    rw [hentry.body_eq]
  · refine hkept.imp fun service service' hservice => ?_
    obtain ⟨methods, hmethods, rfl⟩ := resolveService_eq_ok.1 hservice
    refine ⟨rfl, (map_eq_map_of_forall₂ hmethods fun method method' hmethod => ?_).symm⟩
    obtain ⟨_, _, -, -, rfl⟩ := resolveMethod_eq_ok.1 hmethod
    rfl

theorem name_of_recodeEnum {table : MessageTable} {enumeration recoded : Enumeration}
    (hrecode : recodeEnum table enumeration = .ok recoded) : recoded.name = enumeration.name := by
  simp only [recodeEnum, bind_eq_ok, pure_eq_ok] at hrecode
  obtain ⟨_, -, _, -, rfl⟩ := hrecode
  rfl

/-- What is left alone in a message while its options are recoded. -/
theorem names_of_recodeBody {table : MessageTable} {body recoded : MessageBody}
    (hrecode : recodeBody table body = .ok recoded) :
    recoded.enums.map Enumeration.name = body.enums.map Enumeration.name ∧
      recoded.fields.map Field.typeName = body.fields.map Field.typeName := by
  simp only [recodeBody, bind_eq_ok, pure_eq_ok, mapM_eq_ok] at hrecode
  obtain ⟨_, -, fields, hfields, enums, henums, _, -, _, -, _, -, rfl⟩ := hrecode
  refine ⟨(map_eq_map_of_forall₂ henums fun _ _ henum => (name_of_recodeEnum henum).symm).symm,
    (map_eq_map_of_forall₂ hfields fun field field' hfield => ?_).symm⟩
  simp only [recodeField, bind_eq_ok, pure_eq_ok] at hfield
  obtain ⟨_, -, rfl⟩ := hfield
  rfl

theorem keepsNames_of_recodeFile {table : MessageTable} {file recoded : File}
    (hrecode : recodeFile table file = .ok recoded) : KeepsNames file recoded := by
  obtain ⟨hname, hpackage, hservices⟩ := names_of_recodeFile hrecode
  obtain ⟨_, _, enums, _, _, -, hmessages, henums, hkept, -, rfl⟩ := recodeFile_eq_ok.1 hrecode
  have hall := recodesBody_of_recodeMessages file.package hmessages
  refine ⟨hname, hpackage, ?_, map_enumsOf_eq hpackage ?_ ?_, hservices, methodNames_eq hpackage ?_⟩
  · exact (map_eq_map_of_forall₂ hall fun _ _ hentry => hentry.1.symm).symm
  · exact (map_eq_map_of_forall₂ henums fun _ _ henum => (name_of_recodeEnum henum).symm).symm
  · exact hall.imp fun entry entry' hentry => ⟨hentry.1, (names_of_recodeBody hentry.2).1⟩
  · refine hkept.imp fun service service' hservice => ?_
    obtain ⟨_, methods, -, hmethods, rfl⟩ := recodeService_eq_ok.1 hservice
    refine ⟨rfl, (map_eq_map_of_forall₂ hmethods fun method method' hmethod => ?_).symm⟩
    obtain ⟨_, -, rfl⟩ := recodeMethod_eq_ok.1 hmethod
    rfl

/-- The files of a pool declare what the files it is built from declare. -/
theorem Builds.keepsNames {files : List (Dialect × File)} {symbols : SymbolTable}
    {resolved : List File} {pool : Pool} (hbuilds : Builds files symbols resolved pool) :
    List.Forall₂ KeepsNames (files.map Prod.snd) pool.files := by
  have hresolved := hbuilds.resolves.imp fun _ _ => keepsNames_of_resolveFile
  have hrecoded := hbuilds.recodes.imp fun _ _ => keepsNames_of_recodeFile
  exact forall₂_of_runs hresolved.flip hrecoded fun _ _ _ _ => KeepsNames.trans

/-- No two messages of a file of a pool have the same full name. -/
theorem Builds.eq_of_mem_messagesOf {files : List (Dialect × File)} {symbols : SymbolTable}
    {resolved : List File} {pool : Pool} (hbuilds : Builds files symbols resolved pool)
    {file : File}
    (hfile : file ∈ pool.files) {fullName : String} {message other : Message}
    (hmessage : (fullName, message) ∈ messagesOf file)
    (hother : (fullName, other) ∈ messagesOf file) :
    message = other := by
  obtain ⟨source, hsource, hkeeps⟩ := forall₂_exists_of_mem hbuilds.keepsNames.flip hfile
  have hall : ((files.map Prod.snd).flatMap fun file => (messagesOf file).map Prod.fst).Nodup :=
    SymbolTable.nodup_of_sublist hbuilds.enters (by decide) sublist_messages_entriesOf
  have hnodup : ((messagesOf file).map Prod.fst).Nodup := by
    rw [hkeeps.messages]
    exact (List.nodup_flatMap.1 hall).1 source hsource
  have hlookup := lookup_eq_some_of_mem hnodup hmessage
  rw [lookup_eq_some_of_mem hnodup hother, Option.some.injEq] at hlookup
  exact hlookup.symm

/-! ## References of a pool -/

/-- Something holds of all type names that the fields of a file refer by, and something
of those that its methods do. -/
structure RefersBy (ofField ofMethod : String → Prop) (file : File) : Prop where
  fields : ∀ entry ∈ messagesOf file, ∀ field ∈ entry.2.body.fields, ofField field.typeName
  methods : ∀ service ∈ file.services, ∀ method ∈ service.methods,
    ofMethod method.inputType ∧ ofMethod method.outputType

theorem RefersBy.imp {ofField ofField' ofMethod ofMethod' : String → Prop} {file : File}
    (hrefers : RefersBy ofField ofMethod file)
    (hfield : ∀ typeName, ofField typeName → ofField' typeName)
    (hmethod : ∀ typeName, ofMethod typeName → ofMethod' typeName) :
    RefersBy ofField' ofMethod' file where
  fields := fun entry hentry field hmem => hfield _ (hrefers.fields entry hentry field hmem)
  methods := fun service hservice method hmem =>
    ⟨hmethod _ (hrefers.methods service hservice method hmem).1,
      hmethod _ (hrefers.methods service hservice method hmem).2⟩

theorem refersBy_of_resolveFile {symbols : SymbolTable} {files : List File}
    {messages : List (String × Message)} {enums : List (String × Enumeration)}
    {file resolved : File} (hresolve : resolveFile symbols files messages enums file = .ok resolved)
    {ofField ofMethod : String → Prop}
    (hfield : ∀ scope body path earlier field resolved,
      resolveField (contextOf symbols files messages enums file) scope body path earlier field =
        .ok resolved → ofField resolved.typeName)
    (hmethod : ∀ scope name symbol,
      (contextOf symbols files messages enums file).outlook.resolve .message scope name =
        .ok symbol →
        ofMethod ("." ++ symbol.name)) :
    RefersBy ofField ofMethod resolved := by
  obtain ⟨-, -, _, _, _, hmessages, hservices, -, rfl⟩ := resolveFile_eq_ok.1 hresolve
  constructor
  · intro entry hentry field hmem
    obtain ⟨_, -, hsource⟩ :=
      forall₂_exists_of_mem (resolvesMessage_of_resolveMessages hmessages).flip hentry
    obtain ⟨_, -, _, _, hone⟩ := forall₂_exists_of_mem hsource.fields.flip hmem
    exact hfield _ _ _ _ _ _ hone
  · intro service hservice method hmem
    obtain ⟨_, -, hsource⟩ := forall₂_exists_of_mem hservices.flip hservice
    obtain ⟨_, hmethods, rfl⟩ := resolveService_eq_ok.1 hsource
    obtain ⟨_, -, hone⟩ := forall₂_exists_of_mem hmethods.flip hmem
    obtain ⟨_, _, hinput, houtput, rfl⟩ := resolveMethod_eq_ok.1 hone
    exact ⟨hmethod _ _ _ hinput, hmethod _ _ _ houtput⟩

theorem RefersBy.recodeFile {ofField ofMethod : String → Prop} {file : File}
    (hrefers : RefersBy ofField ofMethod file) {table : MessageTable} {recoded : File}
    (hrecode : recodeFile table file = .ok recoded) : RefersBy ofField ofMethod recoded := by
  obtain ⟨_, _, _, _, _, -, hmessages, -, hservices, -, rfl⟩ := recodeFile_eq_ok.1 hrecode
  constructor
  · intro entry hentry field hfield
    obtain ⟨source, hmem, -, hbody⟩ :=
      forall₂_exists_of_mem (recodesBody_of_recodeMessages file.package hmessages).flip hentry
    have htypes : field.typeName ∈ source.2.body.fields.map Field.typeName := by
      rw [← (names_of_recodeBody hbody).2]
      exact List.mem_map_of_mem hfield
    obtain ⟨before, hbefore, hsame⟩ := List.mem_map.1 htypes
    rw [← hsame]
    exact hrefers.fields source hmem before hbefore
  · intro service hservice method hmethod
    obtain ⟨source, hmem, hsource⟩ := forall₂_exists_of_mem hservices.flip hservice
    obtain ⟨_, _, -, hmethods, rfl⟩ := recodeService_eq_ok.1 hsource
    obtain ⟨before, hbefore, hone⟩ := forall₂_exists_of_mem hmethods.flip hmethod
    obtain ⟨_, -, rfl⟩ := recodeMethod_eq_ok.1 hone
    exact hrefers.methods source hmem before hbefore

/-- What holds of every resolved type name holds of those that a pool refers by. -/
theorem Builds.refersBy {files : List (Dialect × File)} {symbols : SymbolTable}
    {resolved : List File} {pool : Pool} (hbuilds : Builds files symbols resolved pool)
    {file : File}
    (hfile : file ∈ pool.files) {ofField ofMethod : String → Prop}
    (hfield : ∀ (context : Context) scope body path earlier field resolved,
      context.outlook.table = symbols →
      resolveField context scope body path earlier field = .ok resolved → ofField resolved.typeName)
    (hmethod : ∀ (outlook : Outlook) scope name symbol, outlook.table = symbols →
      outlook.resolve .message scope name = .ok symbol → ofMethod ("." ++ symbol.name)) :
    RefersBy ofField ofMethod file := by
  obtain ⟨middle, hmiddle, hrecode⟩ := forall₂_exists_of_mem hbuilds.recodes.flip hfile
  obtain ⟨_, -, hresolve⟩ := forall₂_exists_of_mem hbuilds.resolves.flip hmiddle
  refine (refersBy_of_resolveFile hresolve ?_ ?_).recodeFile hrecode
  · exact fun scope body path earlier field resolved => hfield _ _ _ _ _ _ _ rfl
  · exact fun scope name symbol => hmethod _ _ _ _ rfl

/-- The references of a pool lead to types, as far as they are absolute. -/
theorem Builds.refersTo {files : List (Dialect × File)} {symbols : SymbolTable}
    {resolved : List File} {pool : Pool} (hbuilds : Builds files symbols resolved pool)
    {file : File}
    (hfile : file ∈ pool.files) : RefersBy symbols.LeadsTo symbols.LeadsTo file := by
  refine hbuilds.refersBy hfile ?_ ?_
  · rintro context _ _ _ _ _ _ rfl hone
    exact leadsTo_of_resolveField hone
  · rintro outlook _ _ _ rfl hone
    exact Outlook.leadsTo_of_resolve hone

end ProtoSource.Pool

namespace ProtoSource.Render

open ProtoSource.Descriptor
open ProtoSource.Pool
open ProtoSource.Related
open ProtoSource.Text

/-- What a name stands for depends on the names that files declare. -/
theorem symbolKind?_congr {files files' : List File}
    (hnames : List.Forall₂ KeepsNames files files') :
    symbolKind? files' = symbolKind? files := by
  funext name
  have hmessages := any_eq_any_of_forall₂ hnames fun _ _ hfile =>
    any_name_eq hfile.messages (Name.bare name)
  have henums := any_eq_any_of_forall₂ hnames fun _ _ hfile =>
    any_name_eq hfile.enums (Name.bare name)
  have hservices := any_eq_any_of_forall₂ hnames fun _ _ hfile =>
    any_name_eq hfile.services (Name.bare name)
  have hpackages : (files'.any fun file => Name.isPackageAround file.package name) =
      files.any fun file => Name.isPackageAround file.package name :=
    any_eq_any_of_forall₂ hnames fun file file' hfile => by rw [hfile.package]
  unfold symbolKind?
  simp only [hmessages, henums, hservices, hpackages]

theorem reference_congr {files files' : List File} (hnames : List.Forall₂ KeepsNames files files')
    (package name typeName : String) :
    Scope.reference ⟨files', package, name⟩ typeName =
      Scope.reference ⟨files, package, name⟩ typeName := by
  have hcandidate (first : String) (rest : Option String) :
      Scope.candidate? files' first rest = Scope.candidate? files first rest := by
    funext outer
    unfold Scope.candidate?
    rw [symbolKind?_congr hnames]
  unfold Scope.reference Scope.resolve
  simp only [Scope.spellings, hcandidate]

/-- A type that a reference leads to is one of the files. -/
theorem isType_of_leadsTo {files : List (Dialect × File)} {symbols : SymbolTable}
    (henter : SymbolTable.ofFiles files = .ok symbols) {typeName : String}
    (hleads : symbols.LeadsTo typeName) :
    ∀ fullName ∈ Name.absolute? typeName, isType (files.map Prod.snd) fullName = true := by
  intro fullName hfull
  obtain ⟨symbol, hfind, hkind⟩ := hleads fullName hfull
  obtain ⟨file, hfile, hmem⟩ := SymbolTable.exists_mem_typesOf henter hfind hkind
  exact isType_iff.2 ⟨file.2, List.mem_map_of_mem hfile, hmem⟩

end ProtoSource.Render
