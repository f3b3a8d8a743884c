import ProtoSource.Proofs.Descriptor.Plain
import ProtoSource.Proofs.Http.Outcome
import ProtoSource.Proofs.Load.Completing
import ProtoSource.Proofs.Load.Filling

/-!
# Sets with all types filled in

Filling in the types of a set does to its files what it says and nothing else,
keeps the HTTP rules of all methods, and leaves nothing to fill in.
-/

namespace ProtoSource.Load

open ProtoSource.Descriptor
open ProtoSource.Http (Rule SameOption exists_passable)
open ProtoSource.Related
open ProtoSource.WellKnown
open ProtoSource.Wire
open ProtoSource.Wire.Records

/-- The encoded options of a method. -/
def payloadOf (method : Method) : Bytes :=
  (method.options?.map (·.payload)).getD []

/-- The services of two files have the same names, and their methods are related
one by one. -/
def PairMethods (relation : Method → Method → Prop) (file file' : File) : Prop :=
  List.Forall₂ (fun service service' => service'.name = service.name ∧
    List.Forall₂ relation service.methods service'.methods) file.services file'.services

/-- The rules of all methods of a file, service by service, as far as they can be
read. -/
def ruleOutcomes (file : File) : List (List (Option (Option Rule))) :=
  file.services.map fun service => service.methods.map fun method =>
    (Rule.ofOptions (payloadOf method)).toOption

theorem ruleOutcomes_eq_of_pairMethods {file file' : File}
    (hpair : PairMethods (fun method method' => SameOption (payloadOf method) (payloadOf method'))
      file file') :
    ruleOutcomes file = ruleOutcomes file' :=
  map_eq_of_forall₂ (fun _ _ _ _ hservice =>
    map_eq_of_forall₂ (fun _ _ _ _ hmethod => hmethod.toOption_ofOptions_eq) hservice.2) hpair

theorem payloads_eq_nil_iff {number : Nat} {records : List Record} :
    payloads number records = [] ↔ messages number records = [] := by
  induction records with
  | nil => simp [payloads, messages]
  | cons record rest ih =>
      cases record with
      | message found payload inner =>
          by_cases hnumber : found = number
          · simp [payloads, messages, hnumber]
          · simpa [payloads, messages, hnumber] using ih
      | _ => simpa [payloads, messages] using ih

/-- The encoded options of a method are all payloads of its options together. -/
theorem payloadOf_ofRecords (method : List Record) :
    payloadOf (.ofRecords method) = payload 4 method := by
  unfold payloadOf Method.ofRecords Options.read?
  cases hmessages : messages 4 method with
  | nil =>
      have hpayloads := payloads_eq_nil_iff.2 hmessages
      simp [message?, payload, hmessages, hpayloads]
  | cons first rest => simp [message?, hmessages, Options.ofRecords]

/-- The records of the options of a method are those of its encoded options. -/
def HoldsOptions (method : List Record) : Prop :=
  schema.Holds (nestingLimit - 4) (.options .method) (payload 4 method) (messages 4 method).flatten

theorem httpNumber_missed : setSchema.Misses Part.typeName (.options .method) httpNumber :=
  rfl

theorem sameOption_of_same {method method' : List Record}
    (hsame : schema.Same (setSchema.Misses Part.typeName) .method method method')
    (hholds : HoldsOptions method) (hholds' : HoldsOptions method') :
    SameOption (payloadOf (.ofRecords method)) (payloadOf (.ofRecords method')) := by
  rw [payloadOf_ofRecords, payloadOf_ofRecords]
  have hunknown : schema.field? (.options .method) httpNumber = none := rfl
  obtain ⟨raws, hpassable, hraws⟩ :=
    exists_passable (isFlat_schema _) rfl hunknown (by decide) hholds
  obtain ⟨raws', hpassable', hraws'⟩ :=
    exists_passable (isFlat_schema _) rfl hunknown (by decide) hholds'
  refine ⟨raws, raws', hpassable, hpassable', ?_⟩
  rw [hraws, hraws']
  have hoptions : schema.field? .method 4 = some { kind := .message (.options .method) } := rfl
  have halike := (hsame.flatten_messages hoptions rfl rfl rfl).alike
  have hown := (Schema.alike_iff.1 halike).2 httpNumber hunknown httpNumber_missed
  rwa [Schema.counting_eq_own (choice?_schema _ _),
    Schema.counting_eq_own (choice?_schema _ _)] at hown

/-- The options of all methods of a file are those of their encoded options. -/
def HoldsAllOptions (file : List Record) : Prop :=
  ∀ service ∈ messages 6 file, ∀ method ∈ messages 2 service, HoldsOptions method

theorem pairMethods_of_same {file file' : List Record}
    (hsame : schema.Same (setSchema.Misses Part.typeName) .file file file')
    (hholds : HoldsAllOptions file) (hholds' : HoldsAllOptions file') :
    PairMethods (fun method method' => SameOption (payloadOf method) (payloadOf method'))
      (.ofRecords file) (.ofRecords file') := by
  have hservices : schema.field? .file 6 =
      some { kind := .message .service, repeated := true } := rfl
  have hmethods : schema.field? .service 2 =
      some { kind := .message .method, repeated := true } := rfl
  unfold PairMethods File.ofRecords Service.ofRecords
  rw [List.forall₂_map_left_iff, List.forall₂_map_right_iff]
  refine forall₂_imp_of_mem (fun service hservice service' hservice' hsame => ?_)
    (hsame.messages hservices rfl rfl rfl)
  have hname := congrArg Service.name (Service.plain_eq_of_same hsame)
  refine ⟨hname.symm, ?_⟩
  rw [List.forall₂_map_left_iff, List.forall₂_map_right_iff]
  refine forall₂_imp_of_mem (fun method hmethod method' hmethod' hsame => ?_)
    (hsame.messages hmethods rfl rfl rfl)
  exact sameOption_of_same hsame (hholds service hservice method hmethod)
    (hholds' service' hservice' method' hmethod')

theorem holdsAllOptions_of_holds {bytes : Bytes} {set : List Record}
    (hholds : schema.Holds nestingLimit .set bytes set) :
    ∀ file ∈ messages 1 set, HoldsAllOptions file := by
  intro file hfile service hservice method hmethod
  have hset : schema.Holds (99 + 1) .set bytes set := hholds
  obtain ⟨_, hfile⟩ := hset.inner (isFlat_schema _) (by decide) rfl rfl hfile
  obtain ⟨_, hservice⟩ := hfile.inner (isFlat_schema _) (by decide) rfl rfl hservice
  obtain ⟨_, hmethod⟩ := hservice.inner (isFlat_schema _) (by decide) rfl rfl hmethod
  exact hmethod.payload (isFlat_schema _) (by decide) rfl rfl

theorem payloads_fillType {number found : Nat} {method : List Record} :
    payloads found (fillType number method) = payloads found method := by
  unfold fillType
  split <;> simp [payloads]

theorem messages_fillType {number found : Nat} {method : List Record} :
    messages found (fillType number method) = messages found method := by
  unfold fillType
  split <;> simp [messages]

theorem holdsOptions_fillMethod {method : List Record} (hholds : HoldsOptions method) :
    HoldsOptions (fillMethod method) := by
  unfold HoldsOptions payload fillMethod at *
  rwa [payloads_fillType, payloads_fillType, messages_fillType, messages_fillType]

theorem holdsAllOptions_fillFile {file : List Record} (hholds : HoldsAllOptions file) :
    HoldsAllOptions (if needsTypes (.ofRecords file) then fillFile file else file) := by
  split
  · intro service hservice method hmethod
    have hadded : messages 6 (fillFile file) =
        (messages 6 file).map (editMessages 2 fillMethod) := by
      change messages 6 (addImport (editMessages 6 (editMessages 2 fillMethod) file)) = _
      unfold addImport
      split <;> simp [messages_append_text, messages_editMessages]
    rw [hadded, List.mem_map] at hservice
    obtain ⟨service, hservice, rfl⟩ := hservice
    rw [messages_editMessages, List.mem_map] at hmethod
    obtain ⟨method, hmethod, rfl⟩ := hmethod
    exact holdsOptions_fillMethod (hholds service hservice method hmethod)
  · exact hholds

/-- The files that are put in front of a set that needs types. -/
def frontFiles (files : List File) : List File :=
  if hasFile files emptyPath then [] else [emptyFile]

theorem frontFiles_mem (files : List File) : frontFiles files ∈ [[], [emptyFile]] := by
  unfold frontFiles
  split <;> simp

theorem mem_wellKnownFiles_of_mem_front {front : List File} (hfront : front ∈ [[], [emptyFile]]) :
    ∀ file ∈ front, file ∈ wellKnownFiles := by
  simp only [List.mem_cons, List.not_mem_nil, or_false] at hfront
  obtain rfl | rfl := hfront <;> simp [wellKnownFiles]

theorem decodeFiles_front (files : List File) :
    decodeFiles (if hasFile files emptyPath then [] else encodeSet [emptyFile]) =
      .ok (frontFiles files) := by
  unfold frontFiles
  split
  · exact decodeFiles_eq_ok.2 ⟨[], Reader.Steps.nil, rfl⟩
  · exact decodeFiles_encodeSet_singleton (by simp [wellKnownFiles])

/-! ## The whole set -/

/-- The edited set, read again, says what the edited records say. -/
theorem exists_holds_filled {bytes : Bytes} {reads founds : List Record}
    (hreads : schema.Holds nestingLimit .set bytes reads)
    (hfounds : setSchema.Holds nestingLimit setName bytes founds)
    (hlength : (encode (setSchema.canonical setName (fillFiles founds))).length < 2 ^ 64) :
    ∃ others, schema.Holds nestingLimit .set
        (encode (setSchema.canonical setName (fillFiles founds))) others ∧
      schema.Same (setSchema.Misses Part.typeName) .set (fillFiles reads) others := by
  have hall : List.Forall₂ (AgreesOn (97 + 3) .set) founds reads :=
    agrees_of_holds keeps_setSchema (Nat.le_refl _) (Nat.le_refl _) trivial hreads hfounds
  have hfilled := forall₂_fillFiles hall
  obtain ⟨others, hothers, halike⟩ :=
    holds_canonical keeps_setSchema (Nat.le_refl _) trivial hfilled hlength
  refine ⟨others, hothers, halike, fun read hread => ?_,
    hothers.types isFlat_schema (Nat.le_refl _)⟩
  obtain ⟨found, -, hagrees⟩ := forall₂_exists_of_mem hfilled.flip hread
  exact Agrees.types keeps_setSchema isFlat_schema (Nat.le_refl _) trivial hagrees

theorem needsTypes_plain (file : File) : needsTypes file.plain = needsTypes file := by
  have hlacks (method : Method) : lacksType method.plain = lacksType method := rfl
  simp [needsTypes, File.plain, Service.plain, List.any_map, Function.comp_def, hlacks]

theorem any_needsTypes_eq_of_plain {files files' : List File}
    (hplain : files.map File.plain = files'.map File.plain) :
    files.any needsTypes = files'.any needsTypes := by
  have hany (files : List File) : (files.map File.plain).any needsTypes = files.any needsTypes := by
    simp [List.any_map, Function.comp_def, needsTypes_plain]
  rw [← hany files, ← hany files', hplain]

theorem any_needsTypes_filled (files : List File) :
    (frontFiles files ++ files.map filledFile).any needsTypes = false := by
  have hfront : (frontFiles files).any needsTypes = false := by
    unfold frontFiles
    split
    · rfl
    · rfl
  simp [hfront, needsTypes_filledFile]

theorem pairMethods_filledFile_iff {relation : Method → Method → Prop} {file file' : File}
    (hrelation : ∀ method method',
      relation (filledMethod method) method' ↔ relation method method') :
    PairMethods relation (filledFile file) file' ↔ PairMethods relation file file' := by
  unfold filledFile
  split
  · simp [PairMethods, filledService, Service.name, List.forall₂_map_left_iff, hrelation]
  · exact Iff.rfl

/-- The methods of the edited set have the HTTP options they had. -/
theorem pairMethods_filled {bytes filled : Bytes} {reads others : List Record}
    (hreads : schema.Holds nestingLimit .set bytes reads)
    (hothers : schema.Holds nestingLimit .set filled others)
    (hsame : schema.Same (setSchema.Misses Part.typeName) .set (fillFiles reads) others) :
    List.Forall₂
      (PairMethods fun method method' => SameOption (payloadOf method) (payloadOf method'))
      (filesOfRecords reads) (filesOfRecords others) := by
  have hfiles : schema.field? .set 1 = some { kind := .message .file, repeated := true } := rfl
  have hholds : ∀ file ∈ messages 1 (fillFiles reads), HoldsAllOptions file := by
    unfold fillFiles
    rw [messages_editMessages, List.forall_mem_map]
    exact fun file hfile => holdsAllOptions_fillFile (holdsAllOptions_of_holds hreads file hfile)
  have hfilled : List.Forall₂
      (PairMethods fun method method' => SameOption (payloadOf method) (payloadOf method'))
      (filesOfRecords (fillFiles reads)) (filesOfRecords others) := by
    unfold filesOfRecords
    rw [List.forall₂_map_left_iff, List.forall₂_map_right_iff]
    refine forall₂_imp_of_mem (fun file hfile file' hfile' hsame => ?_)
      (hsame.messages hfiles rfl rfl rfl)
    exact pairMethods_of_same hsame (hholds file hfile)
      (holdsAllOptions_of_holds hothers file' hfile')
  rw [filesOfRecords_fillFiles, List.forall₂_map_left_iff] at hfilled
  exact hfilled.imp fun file file' => (pairMethods_filledFile_iff fun _ _ => Iff.rfl).1

theorem fillTypes_eq_none {bytes : Bytes} {files : List File}
    (hdecode : decodeFiles bytes = .ok files) (hneeds : files.any needsTypes = false) :
    fillTypes bytes = .ok none := by
  simp [fillTypes, hdecode, hneeds, bind, Except.bind, pure, Except.pure]

theorem fillTypes_eq_some {bytes : Bytes} {files : List File} {filled? : Option Bytes}
    (hdecode : decodeFiles bytes = .ok files) (hneeds : files.any needsTypes = true)
    (hfill : fillTypes bytes = .ok filled?) :
    ∃ founds, setSchema.Holds nestingLimit setName bytes founds ∧
      filled? = some ((if hasFile files emptyPath then [] else encodeSet [emptyFile]) ++
        encode (setSchema.canonical setName (fillFiles founds))) := by
  cases hfounds : setSchema.decode setName bytes with
  | error fault =>
      simp [fillTypes, hdecode, hneeds, hfounds, bind, Except.bind, Except.mapError] at hfill
  | ok founds =>
      simp [fillTypes, hdecode, hneeds, hfounds, bind, Except.bind, Except.mapError, pure,
        Except.pure] at hfill
      exact ⟨founds, Schema.decode_eq_ok.1 hfounds, hfill.symm⟩

/-- If no method lacks a type nothing is filled in.  Otherwise the files of the
filled set are the edited files after the file of the empty message, up to the
encoded form of options; the rule of every method is what it was, and there is
nothing left to fill in. -/
theorem decodeFiles_fillTypes {bytes : Bytes} {files : List File}
    (hdecode : decodeFiles bytes = .ok files) :
    (files.any needsTypes = false → fillTypes bytes = .ok none) ∧
      (files.any needsTypes = true → ∀ filled?, fillTypes bytes = .ok filled? →
        ∃ filled, filled? = some filled ∧ (filled.length < 2 ^ 64 →
          ∃ files', decodeFiles filled = .ok files' ∧
            files'.map File.plain = (frontFiles files ++ files.map filledFile).map File.plain ∧
            files'.map ruleOutcomes = (frontFiles files ++ files).map ruleOutcomes ∧
            fillTypes filled = .ok none)) := by
  refine ⟨fillTypes_eq_none hdecode, fun hneeds filled? hfill => ?_⟩
  obtain ⟨founds, hfounds, rfl⟩ := fillTypes_eq_some hdecode hneeds hfill
  refine ⟨_, rfl, fun hlength => ?_⟩
  obtain ⟨reads, hreads, rfl⟩ := decodeFiles_eq_ok.1 hdecode
  rw [List.length_append] at hlength
  obtain ⟨others, hothers, hsame⟩ := exists_holds_filled hreads hfounds (by omega)
  have hagain := decodeFiles_append (decodeFiles_front (filesOfRecords reads))
    (decodeFiles_eq_ok.2 ⟨others, hothers, rfl⟩)
  have hplain : (frontFiles (filesOfRecords reads) ++ filesOfRecords others).map File.plain =
      (frontFiles (filesOfRecords reads) ++ (filesOfRecords reads).map filledFile).map
        File.plain := by
    rw [← filesOfRecords_fillFiles, List.map_append, List.map_append,
      filesOfRecords_plain_eq_of_same hsame]
  refine ⟨_, hagain, hplain, ?_, fillTypes_eq_none hagain ?_⟩
  · rw [List.map_append, List.map_append]
    congr 1
    refine (map_eq_of_forall₂ (fun file _ file' _ hpair => ?_)
      (pairMethods_filled hreads hothers hsame)).symm
    exact ruleOutcomes_eq_of_pairMethods hpair
  · rw [any_needsTypes_eq_of_plain hplain, any_needsTypes_filled]

/-! ## The fault of a rule -/

/-- A set of one method that lacks a type.  Its HTTP option is cut short, and
another option follows. -/
def cutShort : Bytes :=
  [10, 26, 50, 24, 10, 1, 83, 18, 19, 10, 1, 109, 26, 1, 77, 34, 11, 130, 211, 228, 147, 2,
   3, 18, 2, 97, 8, 1]

theorem fillTypes_cutShort : ∃ files filled files',
    decodeFiles cutShort = .ok files ∧ files.any needsTypes = true ∧
      fillTypes cutShort = .ok (some filled) ∧ decodeFiles filled = .ok files' ∧
      files'.map File.plain = (frontFiles files ++ files.map filledFile).map File.plain ∧
      files'.map ruleOutcomes = (frontFiles files ++ files).map ruleOutcomes ∧
      fillTypes filled = .ok none := by
  have hneeds : (decodeFiles cutShort).toOption.map (·.any needsTypes) = some true := by
    decide +kernel
  have hlength : (fillTypes cutShort).toOption.map (fun filled? => (filled?.getD []).length) =
      some 274 := by
    decide +kernel
  cases hdecode : decodeFiles cutShort with
  | error _ => simp [hdecode, Except.toOption] at hneeds
  | ok files =>
      cases hfill : fillTypes cutShort with
      | error _ => simp [hfill, Except.toOption] at hlength
      | ok filled? =>
          replace hneeds : files.any needsTypes = true := by
            simpa [hdecode, Except.toOption] using hneeds
          obtain ⟨filled, rfl, hfilled⟩ := (decodeFiles_fillTypes hdecode).2 hneeds filled? hfill
          replace hlength : filled.length = 274 := by
            simpa [hfill, Except.toOption] using hlength
          obtain ⟨files', hfiles'⟩ := hfilled (by rw [hlength]; decide)
          exact ⟨files, filled, files', rfl, hneeds, rfl, hfiles'⟩

/-- Why the rules of the methods of a file cannot be read. -/
def ruleFaults (file : File) : List (Option Fault) :=
  file.services.flatMap fun service => service.methods.map fun method =>
    match Rule.ofOptions (payloadOf method) with
    | .ok _ => none
    | .error fault => some fault

/-- The canonical form puts the other option first, so another fault is met. -/
theorem fillTypes_changes_fault :
    (decodeFiles cutShort).toOption.map (·.flatMap ruleFaults) =
        some [some ⟨["HttpMethodOptions.http"], .overrun⟩] ∧
      ((fillTypes cutShort).toOption.join.bind fun filled => (decodeFiles filled).toOption).map
          (·.flatMap ruleFaults) =
        some [some ⟨["HttpRule.pattern", "HttpMethodOptions.http"], .underflow⟩] := by
  decide +kernel

end ProtoSource.Load
