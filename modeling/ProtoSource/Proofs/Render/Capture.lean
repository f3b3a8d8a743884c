import ProtoSource.Proofs.Pool.Members
import ProtoSource.Proofs.Render.Widened

/-!
# Types of methods

A compiler looks up the types of a method by a stricter rule than those of a field.
It starts from the service, and a lone name leads to the first thing of that name,
whatever it is, which then has to be a message.  The references of a method are chosen
by the rule for fields.  So a lone name is captured by what stands between the service
and the type without being a type itself, above all by a method of that name, and is
refused.  Every other reference leads to its type, and none leads to another one.
-/

namespace ProtoSource.Render

open ProtoSource.Descriptor
open ProtoSource.Pool
open ProtoSource.Success
open ProtoSource.Text

def isMessage (files : List File) (fullName : String) : Bool :=
  files.any fun file => ((messagesOf file).map Prod.fst).contains fullName

/-- Something of `files` has this full name. -/
def isDeclared (files : List File) (fullName : String) : Bool :=
  files.any fun file => (holdersOf file ++ membersOf file).contains fullName

/-- How a compiler that sees `files` reads a type of a method of `service`.  A lone name
leads to the first thing of that name from the service outward, whatever it is; a longer
one goes on below the first holder found.  In the end there must be a message. -/
def lookUpMessage (files : List File) (service spelling : String) : Option String :=
  match Name.absolute? spelling with
  | some fullName => Option.guard (isMessage files) fullName
  | none =>
      let places (first : String) :=
        (Name.enclosing service).map fun outer => Name.join outer first
      match Name.splitFirst spelling with
      | (first, none) => ((places first).find? (isDeclared files)).filter (isMessage files)
      | (first, some rest) =>
          match (places first).find? (isHolder files) with
          | none => none
          | some holder => Option.guard (isMessage files) (holder ++ "." ++ rest)

/-- On the way from `scope` to `target` something else has the lone name. -/
def Captured (files : List File) (scope spelling target : String) : Prop :=
  '.' ∉ spelling.toList ∧
    ∃ name ∈ ((Name.enclosing scope).map (Name.join · spelling)).takeWhile (· != target),
      isDeclared files name = true

instance (files : List File) (scope spelling target : String) :
    Decidable (Captured files scope spelling target) :=
  inferInstanceAs (Decidable (_ ∧ _))

theorem isMessage_iff {files : List File} {fullName : String} :
    isMessage files fullName = true ↔
      ∃ file ∈ files, fullName ∈ (messagesOf file).map Prod.fst := by
  simp [isMessage]

theorem isDeclared_iff {files : List File} {fullName : String} :
    isDeclared files fullName = true ↔
      ∃ file ∈ files, fullName ∈ holdersOf file ∨ fullName ∈ membersOf file := by
  simp [isDeclared]

theorem isType_of_isMessage {files : List File} {fullName : String}
    (hmessage : isMessage files fullName = true) : isType files fullName = true := by
  obtain ⟨file, hfile, hmem⟩ := isMessage_iff.1 hmessage
  exact isType_iff.2 ⟨file, hfile, List.mem_append_left _ hmem⟩

theorem isHolder_of_isType {files : List File} {fullName : String}
    (htype : isType files fullName = true) : isHolder files fullName = true := by
  obtain ⟨file, hfile, hmem⟩ := isType_iff.1 htype
  exact isHolder_iff.2 ⟨file, hfile, List.mem_append_left _ (List.mem_append_right _ hmem)⟩

theorem isDeclared_of_isHolder {files : List File} {fullName : String}
    (hholder : isHolder files fullName = true) : isDeclared files fullName = true := by
  obtain ⟨file, hfile, hmem⟩ := isHolder_iff.1 hholder
  exact isDeclared_iff.2 ⟨file, hfile, Or.inl hmem⟩

section Rules

variable {files : List File} {scope spelling target : String}

/-- A lone name that leads to a message by the rule for fields leads to it by the rule
for methods, or is captured. -/
theorem filter_find?_isDeclared {places : List String} (hmessage : isMessage files target = true)
    (hfind : places.find? (isType files) = some target) :
    (places.find? (isDeclared files)).filter (isMessage files) =
      if (places.takeWhile (· != target)).any (isDeclared files) then none else some target := by
  obtain ⟨htype, inner, outer, rfl, hinner⟩ := List.find?_eq_some_iff_append.1 hfind
  have hdeclared : isDeclared files target = true :=
    isDeclared_of_isHolder (isHolder_of_isType htype)
  have hother : ∀ name ∈ inner, (name != target) = true := by
    intro name hname
    have hnot := hinner name hname
    rw [bne_iff_ne]
    rintro rfl
    simp [htype] at hnot
  have htake : (inner ++ target :: outer).takeWhile (· != target) = inner := by
    rw [List.takeWhile_append_of_pos hother]
    simp
  rw [htake, List.find?_append]
  cases hcapture : inner.find? (isDeclared files) with
  | none =>
      have hnone : inner.any (isDeclared files) = false := by
        simpa using List.find?_eq_none.1 hcapture
      simp [hnone, hdeclared, hmessage]
  | some name =>
      have hany : inner.any (isDeclared files) = true :=
        List.any_eq_true.2 ⟨name, List.mem_of_find?_eq_some hcapture, List.find?_some hcapture⟩
      have hnot : isMessage files name = false := by
        rw [← Bool.not_eq_true]
        intro hfound
        have hnotType := hinner name (List.mem_of_find?_eq_some hcapture)
        simp [isType_of_isMessage hfound] at hnotType
      simp [hany, hnot]

/-- A name that leads to a message by the rule for fields leads to it by the rule for
methods, unless it is captured. -/
theorem lookUpMessage_of_lookUp (hmessage : isMessage files target = true)
    (hlookUp : lookUp files scope spelling = some target) :
    lookUpMessage files scope spelling =
      if Captured files scope spelling target then none else some target := by
  unfold lookUp at hlookUp
  unfold lookUpMessage
  cases habsolute : Name.absolute? spelling with
  | some fullName =>
      have hdot : '.' ∈ spelling.toList := by
        rw [Name.absolute?_eq_some.1 habsolute]
        exact List.mem_cons_self
      rw [habsolute] at hlookUp
      obtain ⟨-, rfl⟩ : isType files fullName = true ∧ fullName = target := by
        simpa [Option.guard] using hlookUp
      simp [Captured, hdot, Option.guard, hmessage]
  | none =>
      rw [habsolute] at hlookUp
      obtain ⟨hlone, hsplit⟩ | ⟨first, rest, -, hchars, hsplit⟩ := Name.splitFirst_cases spelling
      · simp only [hsplit] at hlookUp ⊢
        rw [filter_find?_isDeclared hmessage hlookUp]
        simp only [Captured, hlone, List.any_eq_true, not_false_eq_true, true_and]
      · have hdot : '.' ∈ spelling.toList := by simp [hchars]
        simp only [hsplit] at hlookUp ⊢
        generalize ((Name.enclosing scope).map fun outer => Name.join outer first).find?
          (isHolder files) = holder? at hlookUp ⊢
        cases holder? with
        | none => simp at hlookUp
        | some holder =>
            obtain ⟨-, rfl⟩ : isType files (holder ++ "." ++ rest) = true ∧
                holder ++ "." ++ rest = target := by
              simpa [Option.guard] using hlookUp
            simp [Captured, hdot, Option.guard, hmessage]

/-- If nothing lies below a declaration, a name that is looked up from it is looked up
from its scope. -/
theorem lookUp_join {name : String} (hname : Name.IsIdentifier name)
    (hnone : ∀ first, isHolder files (Name.join (Name.join scope name) first) = false) :
    lookUp files (Name.join scope name) spelling = lookUp files scope spelling := by
  have hnotType (first : String) : isType files (Name.join (Name.join scope name) first) =
      false := by
    rw [← Bool.not_eq_true]
    intro htype
    simpa [hnone first] using isHolder_of_isType htype
  simp only [lookUp, Name.enclosing_join scope hname, List.map_cons, List.find?_cons, hnone,
    hnotType]

end Rules

/-! ## Methods of a pool -/

section Built

variable {files : List (Dialect × File)} {symbols : SymbolTable} {resolved : List File}
    {pool : Pool}
  (hbuilds : Builds files symbols resolved pool) (hwords : ∀ file ∈ pool.files, DeclaresWords file)
  {file : File} (hfile : file ∈ pool.files) {service : Service} (hservice : service ∈ file.services)

include hbuilds hwords hfile hservice

/-- Nothing lies below a method. -/
theorem not_isHolder_below_method {method : Method} (hmethod : method ∈ service.methods)
    (first : String) :
    isHolder pool.files
      (Name.join (Name.join (Name.join file.package service.name) method.name) first) = false := by
  rw [← Bool.not_eq_true]
  intro hholder
  obtain ⟨other, hother, hmem⟩ := isHolder_iff.1 hholder
  have hidentifier := ((hwords file hfile).methods service hservice method hmethod).isIdentifier
  have hcut := Name.toList_join
    (Name.join_ne_empty hidentifier.1 (Name.join file.package service.name)) first
  have hname : Name.join (Name.join file.package service.name) method.name ∈ methodNames file :=
    List.mem_flatMap.2 ⟨_, List.mem_map_of_mem hservice, List.mem_map_of_mem hmethod⟩
  exact hbuilds.notMem_holdersOf_of_mem_methodNames hfile hother hname (mem_holdersOf_of_mem_scopes
    ((hwords other hother).wellNamed.mem_scopes_of_mem_holdersOf hmem hcut))

/-- What has a name in a service is a method of the service. -/
theorem isDeclared_in_service_iff (hextends : ∀ file ∈ pool.files, ExtendsWords file)
    {name : String}
    (hname : '.' ∉ name.toList) :
    isDeclared pool.files (Name.join (Name.join file.package service.name) name) = true ↔
      ∃ method ∈ service.methods, method.name = name := by
  have hscope : Name.join file.package service.name ∈ serviceNames file :=
    List.mem_map_of_mem (List.mem_map_of_mem hservice)
  have hnonempty : Name.join file.package service.name ≠ "" :=
    Name.join_ne_empty ((hwords file hfile).services service hservice).1 file.package
  rw [isDeclared_iff]
  constructor
  · rintro ⟨other, hother, hholder | hmember⟩
    · -- What a holder lies in is a package or a message, and the service is neither.
      have hfree := hbuilds.notMem_scopes_of_mem_serviceNames hfile hother hscope
      obtain hpackage | hmessage :=
        (hwords other hother).wellNamed.mem_scopes_of_mem_holdersOf hholder
        (Name.toList_join hnonempty name)
      · exact absurd hpackage hfree.1
      · exact absurd hmessage hfree.2
    · have hfree := hbuilds.notMem_scopes_of_mem_serviceNames hfile hother hscope
      obtain ⟨scope, member, hjoin, hword, hplace⟩ :=
        exists_join_of_mem_membersOf (hwords other hother) (hextends other hother) hmember
      obtain ⟨rfl, rfl⟩ := Name.join_inj hname hword.isIdentifier.2 hjoin
      obtain hmessage | hpackage | ⟨found, hfound, hmethod⟩ := hplace
      · exact absurd hmessage hfree.2
      · refine absurd ?_ hfree.1
        rw [hpackage] at hnonempty ⊢
        exact Name.mem_packages.2 ⟨hnonempty, Or.inl rfl⟩
      · have hlookup := hbuilds.lookup_service hother hfound
        rw [hbuilds.lookup_service hfile (List.mem_map_of_mem hservice)] at hlookup
        rwa [Option.some.inj hlookup]
  · rintro ⟨method, hmethod, rfl⟩
    refine ⟨file, hfile, Or.inr (List.mem_append_right _ ?_)⟩
    exact List.mem_flatMap.2 ⟨_, List.mem_map_of_mem hservice, List.mem_map_of_mem hmethod⟩

/-- The name of something in the own package is captured by a method of that name and by
nothing else. -/
theorem captured_iff_of_package (hextends : ∀ file ∈ pool.files, ExtendsWords file)
    (name : String) :
    Captured pool.files (Name.join file.package service.name) name (Name.join file.package name) ↔
      ∃ method ∈ service.methods, method.name = name := by
  have hidentifier := ((hwords file hfile).services service hservice).isIdentifier
  by_cases hdot : '.' ∈ name.toList
  · refine iff_of_false (fun hcaptured => hcaptured.1 hdot) ?_
    rintro ⟨method, hmethod, rfl⟩
    exact ((hwords file hfile).methods service hservice method hmethod).isIdentifier.2 hdot
  · obtain ⟨outer, houter⟩ := Name.exists_enclosing_eq_cons file.package
    have hother :
        Name.join (Name.join file.package service.name) name ≠ Name.join file.package name :=
      fun hsame => Name.join_ne_self hidentifier.1 file.package (Name.join_inj hdot hdot hsame).1
    have htake : ((Name.enclosing (Name.join file.package service.name)).map
        (Name.join · name)).takeWhile (· != Name.join file.package name) =
          [Name.join (Name.join file.package service.name) name] := by
      rw [Name.enclosing_join file.package hidentifier, houter]
      simp [hother]
    rw [Captured, htake, ← isDeclared_in_service_iff hbuilds hwords hfile hservice hextends hdot]
    simp [hdot]

end Built

/-- How a type is written in the signature of a method. -/
def methodReference (pool : Pool) (file : File) (service : Service) (method : Method)
    (typeName : String) : String :=
  (((Scope.ofPackage pool.files file.package).nested service.name).nested method.name).reference
    typeName

/-- A reference printed for a type of a method leads to the type by the rule for methods,
unless it is captured; then it leads nowhere.  In the own package of the service it is
captured exactly if the service has a method of that name. -/
theorem lookUpMessage_reference {files : List (Dialect × File)} {pool : Pool}
    (hpool : Pool.ofDialects files = .ok pool) (hwords : ∀ file ∈ pool.files, DeclaresWords file)
    (hextends : ∀ file ∈ pool.files, ExtendsWords file) {file : File} (hfile : file ∈ pool.files)
    {service : Service} (hservice : service ∈ file.services) {method : Method}
    (hmethod : method ∈ service.methods) {typeName : String}
    (htype : typeName = method.inputType ∨ typeName = method.outputType) :
    let scope := Name.join file.package service.name
    let printed := methodReference pool file service method typeName
    ∃ target, typeName = "." ++ target ∧
      (lookUpMessage pool.files scope printed =
        if Captured pool.files scope printed target then none else some target) ∧
      (target = Name.join file.package printed →
        (Captured pool.files scope printed target ↔
          ∃ other ∈ service.methods, other.name = printed)) := by
  intro scope printed
  obtain ⟨symbols, resolved, hbuilds⟩ := exists_builds hpool
  obtain ⟨hinput, houtput⟩ := (hbuilds.refersByNames hfile).methods service hservice method hmethod
  have hpoints : symbols.PointsAt (· == .message) typeName := by
    obtain rfl | rfl := htype
    · exact hinput
    · exact houtput
  obtain ⟨symbol, hfind, hkind, rfl⟩ := hpoints
  refine ⟨symbol.name, rfl, ?_, fun hown => ?_⟩
  · have hnames : ∀ file ∈ pool.files, WellNamed file :=
      fun file hfile => (hwords file hfile).wellNamed
    have hsymbol : (symbols.find? symbol.name).map Symbol.kind = some .message := by
      rw [hfind, Option.map_some, beq_iff_eq.1 hkind]
    have hmessage : isMessage pool.files symbol.name = true := by
      obtain ⟨other, hother, hentry⟩ := (hbuilds.kind_eq_some_iff (by decide) .proto3).1 hsymbol
      exact isMessage_iff.2 ⟨other, hother, by simpa using (mem_entriesOf_iff (by decide)).1 hentry⟩
    have hbelow : lookUp pool.files (Name.join scope method.name) printed =
        lookUp pool.files scope printed :=
      lookUp_join ((hwords file hfile).methods service hservice method hmethod).isIdentifier
        (not_isHolder_below_method hbuilds hwords hfile hservice hmethod)
    have hlookUp : lookUp pool.files scope printed = some symbol.name := by
      rw [← hbelow]
      exact hbuilds.lookUp_reference_of_pointsAt hnames (fun _ => isType_of_beq_message)
        ⟨symbol, hfind, hkind, rfl⟩ rfl
    exact lookUpMessage_of_lookUp hmessage hlookUp
  · rw [hown]
    exact captured_iff_of_package hbuilds hwords hfile hservice hextends printed

/-- A method with the name of the message that it takes. -/
def pingFile : File where
  name? := some "p.proto"
  package? := some "demo"
  messages := [.mk { name? := some "Ping" } [], .mk { name? := some "Pong" } []]
  services :=
    [{ name? := some "S"
       methods := [{ name? := some "Ping", inputType? := some ".demo.Ping"
                     outputType? := some ".demo.Pong" }] }]
  dialect? := some "proto3"

theorem exists_pool_pingFile : ∃ pool file service method,
    Pool.ofDialects [(.proto3, pingFile)] = .ok pool ∧ (∀ file ∈ pool.files, DeclaresWords file) ∧
      (∀ file ∈ pool.files, ExtendsWords file) ∧ file ∈ pool.files ∧ service ∈ file.services ∧
      method ∈ service.methods ∧ Name.join file.package service.name = "demo.S" ∧
      (method.inputType = ".demo.Ping" ∧ methodReference pool file service method ".demo.Ping" =
        "Ping" ∧
        isMessage pool.files "demo.Ping" = true ∧ lookUpMessage pool.files "demo.S" "Ping" = none) ∧
      method.outputType = ".demo.Pong" ∧ methodReference pool file service method ".demo.Pong" =
        "Pong" ∧
      ¬ Captured pool.files "demo.S" "Pong" "demo.Pong" := by
  have hcomputed : (Pool.ofDialects [(.proto3, pingFile)]).toOption.map (fun pool =>
      decide ((∀ file ∈ pool.files, DeclaresWords file) ∧ (∀ file ∈ pool.files, ExtendsWords file) ∧
        ∃ file ∈ pool.files, ∃ service ∈ file.services, ∃ method ∈ service.methods,
          Name.join file.package service.name = "demo.S" ∧
            (method.inputType = ".demo.Ping" ∧
              methodReference pool file service method ".demo.Ping" = "Ping" ∧
              isMessage pool.files "demo.Ping" = true ∧
              lookUpMessage pool.files "demo.S" "Ping" = none) ∧
            method.outputType = ".demo.Pong" ∧
            methodReference pool file service method ".demo.Pong" = "Pong" ∧
            ¬ Captured pool.files "demo.S" "Pong" "demo.Pong")) = some true := by
    decide
  obtain ⟨pool, hpool, hfound⟩ := exists_ok_of_map_eq_some hcomputed
  obtain ⟨hwords, hextends, file, hfile, service, hservice, method, hmethod, hrest⟩ :=
    of_decide_eq_true hfound
  exact ⟨pool, file, service, method, hpool, hwords, hextends, hfile, hservice, hmethod, hrest⟩

theorem lookUpMessage_reference_pong : ∃ pool file service method,
    Pool.ofDialects [(.proto3, pingFile)] = .ok pool ∧ file ∈ pool.files ∧ service ∈ file.services ∧
      method ∈ service.methods ∧ method.outputType = ".demo.Pong" ∧
      lookUpMessage pool.files "demo.S" (methodReference pool file service method ".demo.Pong") =
        some "demo.Pong" := by
  obtain ⟨pool, file, service, method, hpool, hwords, hextends, hfile, hservice, hmethod, hscope, -,
    houtput, hprinted, hfree⟩ := exists_pool_pingFile
  obtain ⟨target, htarget, hlookUp, -⟩ :=
    lookUpMessage_reference hpool hwords hextends hfile hservice
    hmethod (Or.inr houtput.symm)
  obtain rfl : "demo.Pong" = target := (String.append_right_inj ".").1 htarget
  rw [hscope, hprinted, if_neg hfree] at hlookUp
  refine ⟨pool, file, service, method, hpool, hfile, hservice, hmethod, houtput, ?_⟩
  rwa [hprinted]

/-- The message `Ping` is captured by the method that takes it. -/
theorem ping_captured : ∃ pool file service method,
    Pool.ofDialects [(.proto3, pingFile)] = .ok pool ∧ (∀ file ∈ pool.files, DeclaresWords file) ∧
      (∀ file ∈ pool.files, ExtendsWords file) ∧ file ∈ pool.files ∧ service ∈ file.services ∧
      method ∈ service.methods ∧ Name.join file.package service.name = "demo.S" ∧
      method.inputType = ".demo.Ping" ∧ methodReference pool file service method ".demo.Ping" =
        "Ping" ∧
      isMessage pool.files "demo.Ping" = true ∧
        lookUpMessage pool.files "demo.S" "Ping" = none := by
  obtain ⟨pool, file, service, method, hpool, hwords, hextends, hfile, hservice, hmethod, hscope,
    hinput, -⟩ := exists_pool_pingFile
  exact ⟨pool, file, service, method, hpool, hwords, hextends, hfile, hservice, hmethod,
    hscope, hinput⟩

end ProtoSource.Render
