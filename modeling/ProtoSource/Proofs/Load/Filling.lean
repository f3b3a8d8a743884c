import ProtoSource.Proofs.Descriptor.Described

/-!
# Filling in types

The edit of a set without all its types, as it shows in the files of the set.
The records that are edited come from the schema that describes everything in a
set; the files come from another schema, and the edit does the same to both.
-/

namespace ProtoSource.Load

open ProtoSource.Descriptor
open ProtoSource.WellKnown
open ProtoSource.Wire
open ProtoSource.Wire.Records

/-- A reference that is empty or absent becomes one to the empty message. -/
def filledType (type? : Option String) : Option String :=
  if (type?.getD "").isEmpty then some emptyType else type?

def filledMethod (method : Method) : Method :=
  { method with
    inputType? := filledType method.inputType?
    outputType? := filledType method.outputType? }

def filledService (service : Service) : Service :=
  { service with methods := service.methods.map filledMethod }

def filledImports (imports : List String) : List String :=
  if imports.contains emptyPath then imports else imports ++ [emptyPath]

/-- A file that needs types, with its types and the import for them. -/
def filledFile (file : File) : File :=
  if needsTypes file then
    { file with
      services := file.services.map filledService
      imports := filledImports file.imports }
  else
    file

theorem isEmpty_filledType (type? : Option String) :
    ((filledType type?).getD "").isEmpty = false := by
  unfold filledType
  split
  · decide
  · next hempty => simpa using hempty

theorem lacksType_filledMethod (method : Method) : lacksType (filledMethod method) = false := by
  simp [lacksType, filledMethod, Method.inputType, Method.outputType, isEmpty_filledType]

theorem needsTypes_filledFile (file : File) : needsTypes (filledFile file) = false := by
  unfold filledFile
  split
  · simp [needsTypes, filledService, lacksType_filledMethod]
  · next hneeds => simpa using hneeds

/-! ## The edit of records -/

section Views

variable {number found : Nat} {edit : List Record → List Record} {records : List Record}

/-- A view that does not look into the edited messages shows what it did. -/
theorem filterMap_editMessages {α : Type} {view : Record → Option α}
    (hview : ∀ payload inner,
      view (.embed number (edit inner)) = view (.message number payload inner)) :
    (editMessages number edit records).filterMap view = records.filterMap view := by
  unfold editMessages
  rw [List.filterMap_map]
  refine List.filterMap_congr fun record _ => ?_
  cases record with
  | message other payload inner =>
      by_cases hnumber : other = number
      · subst hnumber
        simp [hview payload inner]
      · simp [hnumber]
  | _ => rfl

theorem texts_editMessages : texts found (editMessages number edit records) = texts found records :=
  filterMap_editMessages fun _ _ => rfl

theorem varints_editMessages :
    varints found (editMessages number edit records) = varints found records := by
  unfold varints editMessages
  rw [List.flatMap_map]
  refine List.flatMap_congr fun record _ => ?_
  cases record with
  | message other payload inner =>
      by_cases hnumber : other = number <;> simp [hnumber, Record.embed]
  | _ => rfl

theorem messages_editMessages :
    messages number (editMessages number edit records) = (messages number records).map edit := by
  unfold messages editMessages
  rw [List.filterMap_map, List.map_filterMap]
  refine List.filterMap_congr fun record _ => ?_
  cases record with
  | message other payload inner =>
      by_cases hnumber : other = number <;> simp [hnumber, Record.embed]
  | _ => rfl

theorem messages_editMessages_of_ne (hne : number ≠ found) :
    messages found (editMessages number edit records) = messages found records :=
  filterMap_editMessages fun _ _ => by simp [Record.embed, hne]

theorem payloads_editMessages_of_ne (hne : number ≠ found) :
    payloads found (editMessages number edit records) = payloads found records :=
  filterMap_editMessages fun _ _ => by simp [Record.embed, hne]

theorem read?_editMessages_of_ne (hne : number ≠ found) (kind : OptionsKind) :
    Options.read? kind found (editMessages number edit records) =
      Options.read? kind found records := by
  rw [Options.read?, Options.read?, message?, message?, payload, payload,
    messages_editMessages_of_ne hne, payloads_editMessages_of_ne hne]

end Views

theorem editMessages_message (number : Nat) (edit : List Record → List Record) (payload : Bytes)
    (inner rest : List Record) :
    editMessages number edit (.message number payload inner :: rest) =
      .embed number (edit inner) :: editMessages number edit rest := by
  simp [editMessages]

theorem editMessages_cons_of_ne {number : Nat} {edit : List Record → List Record} {record : Record}
    (hne : record.number ≠ number) (rest : List Record) :
    editMessages number edit (record :: rest) = record :: editMessages number edit rest := by
  cases record <;> simp_all [editMessages, Record.number]

section Appended

variable {number found : Nat} {value : String} {records : List Record}

theorem texts_append_text :
    texts number (records ++ [.text number value]) = texts number records ++ [value] := by
  simp [texts]

theorem texts_append_text_of_ne (hne : number ≠ found) :
    texts found (records ++ [.text number value]) = texts found records := by
  simp [texts, hne]

theorem varints_append_text :
    varints found (records ++ [.text number value]) = varints found records := by
  simp [varints]

theorem messages_append_text :
    messages found (records ++ [.text number value]) = messages found records := by
  simp [messages]

theorem read?_append_text (kind : OptionsKind) :
    Options.read? kind found (records ++ [.text number value]) =
      Options.read? kind found records := by
  have hpayloads :
      payloads found (records ++ [.text number value]) = payloads found records := by
    simp [payloads]
  rw [Options.read?, Options.read?, message?, message?, payload, payload, messages_append_text,
    hpayloads]

end Appended

section Types

variable {number found : Nat} {method : List Record}

theorem text?_fillType : text? number (fillType number method) = filledType
    (text? number method) := by
  unfold fillType filledType
  split
  · rw [text?, texts_append_text]
    simp
  · rfl

theorem text?_fillType_of_ne (hne : number ≠ found) :
    text? found (fillType number method) = text? found method := by
  unfold fillType
  split
  · rw [text?, texts_append_text_of_ne hne, text?]
  · rfl

theorem flag?_fillType : flag? found (fillType number method) = flag? found method := by
  unfold fillType
  split
  · rw [flag?, varints_append_text, flag?]
  · rfl

theorem read?_fillType (kind : OptionsKind) :
    Options.read? kind found (fillType number method) = Options.read? kind found method := by
  unfold fillType
  split
  · exact read?_append_text kind
  · rfl

end Types

/-- Fills in both types of a method. -/
abbrev fillMethod (method : List Record) : List Record :=
  fillType 3 (fillType 2 method)

theorem ofRecords_fillMethod (method : List Record) :
    Method.ofRecords (fillMethod method) = filledMethod (.ofRecords method) := by
  unfold Method.ofRecords filledMethod fillMethod
  rw [text?_fillType_of_ne (by decide), text?_fillType_of_ne (by decide),
    text?_fillType_of_ne (by decide), text?_fillType, text?_fillType,
    text?_fillType_of_ne (by decide), read?_fillType, read?_fillType, flag?_fillType,
    flag?_fillType, flag?_fillType, flag?_fillType]

theorem ofRecords_fillService (service : List Record) :
    Service.ofRecords (editMessages 2 fillMethod service) = filledService (.ofRecords service) := by
  unfold Service.ofRecords filledService
  rw [text?, texts_editMessages, messages_editMessages, read?_editMessages_of_ne (by decide), text?]
  simp [ofRecords_fillMethod]

theorem ofRecords_addImport (file : List Record) :
    File.ofRecords (addImport file) =
      { File.ofRecords file with imports := filledImports (texts 3 file) } := by
  unfold addImport filledImports
  split
  · rfl
  · unfold File.ofRecords
    simp only [text?, ints, message?, texts_append_text, messages_append_text, varints_append_text,
      read?_append_text]
    rw [texts_append_text_of_ne (by decide), texts_append_text_of_ne (by decide),
      texts_append_text_of_ne (by decide)]

theorem ofRecords_fillServices (file : List Record) :
    File.ofRecords (editMessages 6 (editMessages 2 fillMethod) file) =
      { File.ofRecords file with
        services := (File.ofRecords file).services.map filledService } := by
  have hservices (services : List (List Record)) :
      (services.map (editMessages 2 fillMethod)).map Service.ofRecords =
        (services.map Service.ofRecords).map filledService := by
    simp [ofRecords_fillService]
  unfold File.ofRecords
  simp only [text?, ints, message?, texts_editMessages, varints_editMessages,
    messages_editMessages, hservices]
  rw [messages_editMessages_of_ne (by decide), messages_editMessages_of_ne (by decide),
    messages_editMessages_of_ne (by decide), messages_editMessages_of_ne (by decide),
    read?_editMessages_of_ne (by decide)]

theorem ofRecords_fillFile (file : List Record) :
    File.ofRecords (if needsTypes (.ofRecords file) then fillFile file else file) =
      filledFile (.ofRecords file) := by
  unfold filledFile
  split
  · change File.ofRecords (addImport (editMessages 6 (editMessages 2 fillMethod) file)) = _
    rw [ofRecords_addImport, ofRecords_fillServices, texts_editMessages]
    rfl
  · rfl

/-- The edit of a set shows in its files as the edit of each file. -/
theorem filesOfRecords_fillFiles (set : List Record) :
    filesOfRecords (fillFiles set) = (filesOfRecords set).map filledFile := by
  unfold filesOfRecords fillFiles
  rw [messages_editMessages, List.map_map, List.map_map]
  exact List.map_congr_left fun file _ => ofRecords_fillFile file

/-! ## Both readings of a set -/

section Readings

variable {budget : Nat} {founds reads : List Record}

/-- The record of the schema of descriptors and the record of the schema that
describes all of a set come from one field of a `part`. -/
abbrev AgreesOn (budget : Nat) (part : Part) : Record → Record → Prop :=
  Agrees schema setSchema budget part part.typeName

theorem forall₂_editMessages {budget number : Nat} {part type : Part} {spec : FieldSpec Part}
    (hfield : schema.field? part number = some spec) (hkind : spec.kind = .message type)
    {edit : List Record → List Record}
    (hedit : ∀ founds reads, List.Forall₂ (AgreesOn budget type) founds reads →
      List.Forall₂ (AgreesOn budget type) (edit founds) (edit reads))
    (hall : List.Forall₂ (AgreesOn (budget + 1) part) founds reads) :
    List.Forall₂ (AgreesOn (budget + 1) part) (editMessages number edit founds)
      (editMessages number edit reads) := by
  obtain ⟨written, hwritten, hfits⟩ := fits_setSchema hfield
  have hkind' : written.kind = .message type.typeName := by rw [hfits.kind, hkind, Kind.map]
  induction hall with
  | nil => exact .nil
  | @cons found read founds reads hagrees _ ih =>
      by_cases hnumber : found.number = number
      · have hvalid := hagrees.isFieldNumber
        obtain ⟨less, _, _, inner, inner', hless, hfound, hread, hinner⟩ :=
          hagrees.message (by rw [hnumber, hfield]) hkind (by rw [hnumber, hwritten]) hkind'
        obtain rfl : budget = less := by omega
        rw [hnumber] at hfound hread hvalid
        rw [hfound, hread, editMessages_message, editMessages_message]
        refine .cons ⟨hvalid, Or.inr ?_⟩ ih
        exact ⟨number, _, _, _, _, spec, written, type, type.typeName, rfl, rfl, hfield, hkind,
          hwritten, hkind', hedit _ _ hinner⟩
      · rw [editMessages_cons_of_ne hnumber,
          editMessages_cons_of_ne (hagrees.number_eq ▸ hnumber)]
        exact .cons hagrees ih

theorem agrees_text {number : Nat} (hnumber : IsFieldNumber number) {part : Part}
    {spec : FieldSpec Part} (hfield : schema.field? part number = some spec)
    (hkind : spec.kind = .text) (value : String) :
    AgreesOn budget part (.text number value) (.text number value) := by
  obtain ⟨written, hwritten, hfits⟩ := fits_setSchema hfield
  refine Agrees.of_direct hnumber (.value hfield hwritten ?_ (by simp [hkind]))
  exact .text (by rw [hfits.kind, hkind, Kind.map])

theorem texts_eq_of_agreesOn {number : Nat} {part : Part} {spec : FieldSpec Part}
    (hfield : schema.field? part number = some spec) (hkind : spec.kind = .text)
    (hall : List.Forall₂ (AgreesOn budget part) founds reads) :
    texts number founds = texts number reads := by
  obtain ⟨written, hwritten, -⟩ := fits_setSchema hfield
  exact texts_eq_of_agrees hall hfield hkind (by simp [hwritten])

theorem forall₂_messages_of_agreesOn {number : Nat} {part type : Part} {spec : FieldSpec Part}
    (hfield : schema.field? part number = some spec) (hkind : spec.kind = .message type)
    (hall : List.Forall₂ (AgreesOn (budget + 1) part) founds reads) :
    List.Forall₂ (List.Forall₂ (AgreesOn budget type)) (messages number founds)
      (messages number reads) := by
  obtain ⟨written, hwritten, hfits⟩ := fits_setSchema hfield
  exact forall₂_messages_of_agrees hall hfield hkind hwritten (by rw [hfits.kind, hkind, Kind.map])

theorem forall₂_fillType {number : Nat} (hnumber : IsFieldNumber number)
    (hfield : schema.field? .method number = some { kind := .text })
    (hall : List.Forall₂ (AgreesOn budget .method) founds reads) :
    List.Forall₂ (AgreesOn budget .method) (fillType number founds) (fillType number reads) := by
  unfold fillType text?
  rw [texts_eq_of_agreesOn hfield rfl hall]
  split
  · exact List.rel_append hall (.cons (agrees_text hnumber hfield rfl emptyType) .nil)
  · exact hall

theorem forall₂_addImport (hall : List.Forall₂ (AgreesOn budget .file) founds reads) :
    List.Forall₂ (AgreesOn budget .file) (addImport founds) (addImport reads) := by
  have hfield : schema.field? .file 3 = some { kind := .text, repeated := true } := rfl
  unfold addImport
  rw [texts_eq_of_agreesOn hfield rfl hall]
  split
  · exact hall
  · exact List.rel_append hall (.cons (agrees_text ⟨by decide, by decide⟩ hfield rfl
      emptyPath) .nil)

theorem needsTypes_ofRecords (file : List Record) :
    needsTypes (.ofRecords file) = (messages 6 file).any fun service =>
      (messages 2 service).any fun method => lacksType (.ofRecords method) := by
  simp [needsTypes, File.ofRecords, Service.ofRecords, List.any_map, Function.comp_def]

theorem any_eq_of_forall₂ {α β : Type} {relation : α → β → Prop} {p : α → Bool} {q : β → Bool}
    {lefts : List α} {rights : List β}
    (hsame : ∀ left right, relation left right → p left = q right)
    (hall : List.Forall₂ relation lefts rights) : lefts.any p = rights.any q := by
  induction hall with
  | nil => rfl
  | cons hhead _ ih => rw [List.any_cons, List.any_cons, hsame _ _ hhead, ih]

theorem needsTypes_eq (hall : List.Forall₂ (AgreesOn (budget + 2) .file) founds reads) :
    needsTypes (.ofRecords founds) = needsTypes (.ofRecords reads) := by
  rw [needsTypes_ofRecords, needsTypes_ofRecords]
  refine any_eq_of_forall₂ (fun services services' hservice => ?_)
    (forall₂_messages_of_agreesOn rfl rfl hall)
  refine any_eq_of_forall₂ (fun method method' hmethod => ?_)
    (forall₂_messages_of_agreesOn rfl rfl hservice)
  have hinput : texts 2 method = texts 2 method' := texts_eq_of_agreesOn rfl rfl hmethod
  have houtput : texts 3 method = texts 3 method' := texts_eq_of_agreesOn rfl rfl hmethod
  simp only [lacksType, Method.inputType, Method.outputType, Method.ofRecords, text?, hinput,
    houtput]

/-- The edit does the same to both readings of a set. -/
theorem forall₂_fillFiles (hall : List.Forall₂ (AgreesOn (budget + 3) .set) founds reads) :
    List.Forall₂ (AgreesOn (budget + 3) .set) (fillFiles founds) (fillFiles reads) := by
  refine forall₂_editMessages rfl rfl (fun file file' hfile => ?_) hall
  rw [needsTypes_eq hfile]
  split
  · refine forall₂_addImport
      (forall₂_editMessages rfl rfl (fun service service' hservice => ?_) hfile)
    refine forall₂_editMessages rfl rfl (fun method method' hmethod => ?_) hservice
    exact forall₂_fillType ⟨by decide, by decide⟩ rfl
      (forall₂_fillType ⟨by decide, by decide⟩ rfl hmethod)
  · exact hfile

end Readings

end ProtoSource.Load
