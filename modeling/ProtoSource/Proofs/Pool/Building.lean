import ProtoSource.Pool.Basic
import ProtoSource.Proofs.Success

/-!
# How a pool is built

A pool holds its files in their order, resolved and with their options in
canonical form.
-/

namespace ProtoSource.Pool

open ProtoSource.Descriptor
open ProtoSource.Related
open ProtoSource.Success
open ProtoSource.Text

section Resolved

variable {symbols : SymbolTable} {files : List File} {messages : List (String × Message)}
  {enums : List (String × Enumeration)} {file resolved : File}

/-- What the references of `file` are resolved by. -/
def contextOf (symbols : SymbolTable) (files : List File) (messages : List (String × Message))
    (enums : List (String × Enumeration)) (file : File) : Context :=
  ⟨⟨symbols, visibleFrom files file⟩, messages, enums⟩

theorem resolveFile_eq_ok :
    resolveFile symbols files messages enums file = .ok resolved ↔
      let context := contextOf symbols files messages enums file
      checkImports files file = .ok () ∧ file.enums.forM checkEnum = .ok () ∧
        ∃ resolvedMessages services extensions,
          resolveMessages context file.package [] 4 0 file.messages = .ok resolvedMessages ∧
          List.Forall₂ (fun service service' =>
            resolveService context file.package service = .ok service') file.services services ∧
          resolveExtensions context file.package [] 7 0 file.extensions = .ok extensions ∧
          { file with messages := resolvedMessages, services, extensions } = resolved := by
  simp only [resolveFile, bind_eq_ok, pure_eq_ok, mapM_eq_ok, contextOf]
  constructor
  · rintro ⟨_, himports, messages, hmessages, _, henums, services, hservices, extensions,
      hextensions, rfl⟩
    exact ⟨himports, henums, messages, services, extensions, hmessages, hservices, hextensions, rfl⟩
  · rintro ⟨himports, henums, messages, services, extensions, hmessages, hservices,
      hextensions, rfl⟩
    exact ⟨_, himports, messages, hmessages, _, henums, services, hservices, extensions,
      hextensions, rfl⟩

theorem resolveService_eq_ok {context : Context} {scope : String} {service service' : Service} :
    resolveService context scope service = .ok service' ↔ ∃ methods,
      List.Forall₂ (fun method method' =>
        resolveMethod context (Name.join scope service.name) method = .ok method')
        service.methods methods ∧ { service with methods } = service' := by
  simp only [resolveService, bind_eq_ok, pure_eq_ok, mapM_eq_ok]

theorem resolveMethod_eq_ok {context : Context} {scope : String} {method method' : Method} :
    resolveMethod context scope method = .ok method' ↔ ∃ input output,
      context.outlook.resolve .message (Name.join scope method.name) method.inputType = .ok input ∧
      context.outlook.resolve .message (Name.join scope method.name) method.outputType =
        .ok output ∧
      { method with
        inputType? := some ("." ++ input.name)
        outputType? := some ("." ++ output.name) } = method' := by
  simp only [resolveMethod, bind_eq_ok, pure_eq_ok]
  constructor
  · rintro ⟨input, hinput, output, houtput, rfl⟩
    exact ⟨input, output, hinput, houtput, rfl⟩
  · rintro ⟨input, output, hinput, houtput, rfl⟩
    exact ⟨input, hinput, output, houtput, rfl⟩

end Resolved

section Recoded

variable {table : MessageTable}

/-- Options that may be absent are absent or in canonical form. -/
abbrev RecodesOptions {kind : OptionsKind} (table : MessageTable)
    (options? options?' : Option (Options kind)) : Prop :=
  Option.Rel (fun options options' => recodeOptions table options = .ok options') options? options?'

theorem recodeOptions_eq_ok {kind : OptionsKind} {options options' : Options kind} :
    recodeOptions table options = .ok options' ↔ ∃ payload,
      (Wire.Schema.recode (schemaOf (optionsTable table kind)) (optionsName kind) options.payload =
        .ok payload) ∧ Options.decode kind payload = .ok options' := by
  simp only [recodeOptions, recode, bind_eq_ok, mapError_eq_ok]

theorem recodeMethod_eq_ok {method method' : Method} :
    recodeMethod table method = .ok method' ↔ ∃ options?,
      RecodesOptions table method.options? options? ∧ { method with options? } = method' := by
  simp only [recodeMethod, bind_eq_ok, pure_eq_ok, option_mapM_eq_ok]

theorem recodeService_eq_ok {service service' : Service} :
    recodeService table service = .ok service' ↔ ∃ options? methods,
      RecodesOptions table service.options? options? ∧
      List.Forall₂ (fun method method' => recodeMethod table method = .ok method')
        service.methods methods ∧
      { service with options?, methods } = service' := by
  simp only [recodeService, bind_eq_ok, pure_eq_ok, option_mapM_eq_ok, mapM_eq_ok]
  constructor
  · rintro ⟨options?, hoptions, methods, hmethods, rfl⟩
    exact ⟨options?, methods, hoptions, hmethods, rfl⟩
  · rintro ⟨options?, methods, hoptions, hmethods, rfl⟩
    exact ⟨options?, hoptions, methods, hmethods, rfl⟩

theorem recodeFile_eq_ok {file file' : File} :
    recodeFile table file = .ok file' ↔ ∃ options? messages enums services extensions,
      RecodesOptions table file.options? options? ∧
      recodeMessages table file.messages = .ok messages ∧
      List.Forall₂ (fun enumeration enumeration' =>
        recodeEnum table enumeration = .ok enumeration') file.enums enums ∧
      List.Forall₂ (fun service service' => recodeService table service = .ok service')
        file.services services ∧
      List.Forall₂ (fun field field' => recodeField table field = .ok field')
        file.extensions extensions ∧
      { file with options?, messages, enums, services, extensions } = file' := by
  simp only [recodeFile, bind_eq_ok, pure_eq_ok, option_mapM_eq_ok, mapM_eq_ok]
  constructor
  · rintro ⟨options?, hoptions, messages, hmessages, enums, henums, services, hservices, extensions,
      hextensions, rfl⟩
    exact ⟨options?, messages, enums, services, extensions, hoptions, hmessages, henums, hservices,
      hextensions, rfl⟩
  · rintro ⟨options?, messages, enums, services, extensions, hoptions, hmessages, henums, hservices,
      hextensions, rfl⟩
    exact ⟨options?, hoptions, messages, hmessages, enums, henums, services, hservices, extensions,
      hextensions, rfl⟩

end Recoded

/-! ## Pools -/

/-- The pool is built from `files` with the given symbols and resolved files. -/
structure Builds (files : List (Dialect × File)) (symbols : SymbolTable) (resolved : List File)
    (pool : Pool) : Prop where
  enters : SymbolTable.ofFiles files = .ok symbols
  resolves : List.Forall₂ (fun file file' =>
    resolveFile symbols (files.map Prod.snd) ((files.map Prod.snd).flatMap messagesOf)
      ((files.map Prod.snd).flatMap enumsOf) file = .ok file') (files.map Prod.snd) resolved
  table_eq : pool.table = messageTable ((files.map Prod.fst).zip resolved)
  recodes : List.Forall₂ (fun file file' => recodeFile pool.table file = .ok file')
    resolved pool.files

theorem exists_builds {files : List (Dialect × File)} {pool : Pool}
    (hpool : ofDialects files = .ok pool) :
    ∃ symbols resolved, Builds files symbols resolved pool := by
  simp only [ofDialects, bind_eq_ok, pure_eq_ok, resolveFiles, mapM_eq_ok] at hpool
  obtain ⟨symbols, henters, resolved, hresolves, recoded, hrecodes, rfl⟩ := hpool
  exact ⟨symbols, resolved, henters, hresolves, rfl, hrecodes⟩

/-- The names of the services of a file. -/
def serviceNames (file : File) : List String :=
  (servicesOf file).map Prod.fst

theorem serviceNames_eq (file : File) :
    serviceNames file = file.services.map fun service => Name.join file.package service.name := by
  simp [serviceNames, servicesOf, Function.comp_def]

/-- Resolution keeps the name and package of a file and the names of its services. -/
theorem names_of_resolveFile {symbols : SymbolTable} {files : List File}
    {messages : List (String × Message)} {enums : List (String × Enumeration)}
    {file resolved : File}
    (hresolve : resolveFile symbols files messages enums file = .ok resolved) :
    resolved.name = file.name ∧ resolved.package = file.package ∧
      serviceNames resolved = serviceNames file := by
  obtain ⟨-, -, _, services, _, -, hservices, -, rfl⟩ := resolveFile_eq_ok.1 hresolve
  refine ⟨rfl, rfl, ?_⟩
  rw [serviceNames_eq, serviceNames_eq]
  refine (map_eq_map_of_forall₂ hservices fun service service' hservice => ?_).symm
  obtain ⟨_, -, rfl⟩ := resolveService_eq_ok.1 hservice
  rfl

theorem names_of_recodeFile {table : MessageTable} {file recoded : File}
    (hrecode : recodeFile table file = .ok recoded) :
    recoded.name = file.name ∧ recoded.package = file.package ∧
      serviceNames recoded = serviceNames file := by
  obtain ⟨_, _, _, services, _, -, -, -, hservices, -, rfl⟩ := recodeFile_eq_ok.1 hrecode
  refine ⟨rfl, rfl, ?_⟩
  rw [serviceNames_eq, serviceNames_eq]
  refine (map_eq_map_of_forall₂ hservices fun service service' hservice => ?_).symm
  obtain ⟨_, _, -, -, rfl⟩ := recodeService_eq_ok.1 hservice
  rfl

section Names

variable {files : List (Dialect × File)} {symbols : SymbolTable} {resolved : List File}
    {pool : Pool}

/-- A pool has the names of the files it is built from. -/
theorem Builds.map_names (hbuilds : Builds files symbols resolved pool) :
    pool.files.map File.name = files.map (fun file => file.2.name) ∧
      pool.files.map serviceNames = files.map fun file => serviceNames file.2 := by
  have hresolved := hbuilds.resolves.imp fun _ _ => names_of_resolveFile
  have hrecoded := hbuilds.recodes.imp fun _ _ => names_of_recodeFile
  refine ⟨?_, ?_⟩
  · rw [← map_eq_map_of_forall₂ hrecoded fun _ _ hnames => hnames.1.symm,
      ← map_eq_map_of_forall₂ hresolved fun _ _ hnames => hnames.1.symm, List.map_map]
    rfl
  · rw [← map_eq_map_of_forall₂ hrecoded fun _ _ hnames => hnames.2.2.symm,
      ← map_eq_map_of_forall₂ hresolved fun _ _ hnames => hnames.2.2.symm, List.map_map]
    rfl

end Names

theorem dialects_eq_ok {files : List File} {dialected : List (Dialect × File)}
    (hdialects : dialects files = .ok dialected) : dialected.map Prod.snd = files := by
  induction files generalizing dialected with
  | nil =>
      obtain rfl : [] = dialected := by simpa [dialects] using hdialects
      rfl
  | cons file rest ih =>
      unfold dialects at hdialects
      split at hdialects
      · simp at hdialects
      · obtain ⟨others, hothers, rfl⟩ := map_eq_ok.1 hdialects
        rw [List.map_cons, ih hothers]

end ProtoSource.Pool
