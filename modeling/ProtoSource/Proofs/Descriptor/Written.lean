import ProtoSource.Descriptor.Write
import ProtoSource.Proofs.Descriptor.Plain
import ProtoSource.Proofs.Wire.Writing

/-!
# Descriptors read from what is written of them

Each field of a descriptor is written with a number of its own.  What is read of the
records is therefore the descriptor itself, if its numbers fit and each of its options
messages is what its own records say.
-/

namespace ProtoSource.Descriptor

open ProtoSource.Wire
open ProtoSource.Wire.Records

theorem own_eq_ite {number other : Nat} {records : List Record}
    (hrecords : ∀ record ∈ records, record.number = other) :
    own number records = if other = number then records else [] := by
  split_ifs with hother
  · exact own_eq_self (hother ▸ hrecords)
  · exact own_eq_nil hother hrecords

section Own

variable {α : Type} (number other : Nat)

@[simp]
theorem own_text (value : Option String) :
    own number (Write.text other value) = if other = number then Write.text other value else [] :=
  own_eq_ite (by simp [Write.text, Record.number])

@[simp]
theorem own_texts (values : List String) :
    own number (Write.texts other values) =
      if other = number then Write.texts other values else [] :=
  own_eq_ite (by simp [Write.texts, Record.number])

@[simp]
theorem own_int (value : Option Int) :
    own number (Write.int other value) = if other = number then Write.int other value else [] :=
  own_eq_ite (by simp [Write.int, Record.number])

@[simp]
theorem own_ints (values : List Int) :
    own number (Write.ints other values) = if other = number then Write.ints other values else [] :=
  own_eq_ite (by simp [Write.ints, Record.number])

@[simp]
theorem own_flag (value : Option Bool) :
    own number (Write.flag other value) = if other = number then Write.flag other value else [] :=
  own_eq_ite fun record hrecord => by
    obtain ⟨_, -, rfl⟩ := List.mem_map.1 hrecord
    rfl

@[simp]
theorem own_one (records : α → List Record) (value : Option α) :
    own number (Write.one other records value) =
      if other = number then Write.one other records value else [] :=
  own_eq_ite (by simp [Write.one, Record.embed, Record.number])

@[simp]
theorem own_many (records : α → List Record) (values : List α) :
    own number (Write.many other records values) =
      if other = number then Write.many other records values else [] :=
  own_eq_ite (by simp [Write.many, Record.embed, Record.number])

end Own

/-- The number is one of 32 bits. -/
def IsInt32 (value : Int) : Prop :=
  -2 ^ 31 ≤ value ∧ value < 2 ^ 31

instance (value : Int) : Decidable (IsInt32 value) :=
  inferInstanceAs (Decidable (-2 ^ 31 ≤ value ∧ value < 2 ^ 31))

theorem IsInt32.toInt32_ofInt {value : Int} (hvalue : IsInt32 value) :
    toInt32 (ofInt value) = value := by
  rw [Wire.toInt32_ofInt]
  unfold IsInt32 at hvalue
  rw [Int.bmod_def]
  omega

/-- The options are what is read of their records. -/
def Options.Tidy {kind : OptionsKind} (options : Options kind) : Prop :=
  Options.ofRecords kind (encode options.records) options.records = options

instance {kind : OptionsKind} (options : Options kind) : Decidable options.Tidy :=
  decidable_of_iff (kind.settings.filterMap (fun spec =>
        (spec.value? options.records).map (spec.number, ·)) = options.settings ∧
      (messages 999 options.records).map UninterpretedOption.ofRecords = options.uninterpreted ∧
      encode options.records = options.payload) <| by
    cases options
    exact Iff.of_eq (Options.mk.injEq ..).symm

section Read

variable {α : Type} {number : Nat} {records : List Record}

theorem payloads_own (number : Nat) (records : List Record) :
    payloads number (own number records) = payloads number records := by
  unfold payloads own
  rw [List.filterMap_filter]
  refine List.filterMap_congr fun record _ => ?_
  cases record <;> simp [Record.number]

theorem text?_of_own {value : Option String} (hown : own number records = Write.text number value) :
    text? number records = value := by
  rw [text?, ← Schema.texts_own, hown]
  cases value <;> simp [texts, Write.text]

theorem texts_of_own {values : List String}
    (hown : own number records = Write.texts number values) :
    texts number records = values := by
  rw [← Schema.texts_own, hown]
  simp [texts, Write.texts]

theorem ints_of_own {values : List Int} (hvalues : ∀ value ∈ values, IsInt32 value)
    (hown : own number records = Write.ints number values) : ints number records = values := by
  have hvarints : varints number (Write.ints number values) = values.map ofInt := by
    rw [varints, Write.ints, List.flatMap_map, List.map_eq_flatMap]
    simp only [if_true]
  rw [ints, ← Schema.varints_own, hown, hvarints, List.map_map]
  refine (List.map_congr_left fun value hvalue => ?_).trans (List.map_id _)
  rw [Function.comp_apply, (hvalues value hvalue).toInt32_ofInt, id]

theorem int?_of_own {value : Option Int} (hvalue : ∀ int ∈ value, IsInt32 int)
    (hown : own number records = Write.int number value) : int? number records = value := by
  rw [int?, ints_of_own (fun int hint => hvalue int (Option.mem_toList.1 hint)) hown]
  cases value <;> rfl

theorem flag?_of_own {value : Option Bool} (hown : own number records = Write.flag number value) :
    flag? number records = value := by
  rw [flag?, ← Schema.varints_own, hown]
  obtain _ | _ | _ := value <;> simp [varints, Write.flag]

theorem messages_of_own {write : α → List Record} {values : List α}
    (hown : own number records = Write.many number write values) :
    messages number records = values.map write := by
  rw [← Schema.messages_own, hown]
  simp [messages, Write.many, Record.embed, List.filterMap_map]

theorem map_messages_of_own {write : α → List Record} {read : List Record → α} {values : List α}
    (hvalues : ∀ value ∈ values, read (write value) = value)
    (hown : own number records = Write.many number write values) :
    (messages number records).map read = values := by
  rw [messages_of_own hown, List.map_map]
  exact (List.map_congr_left hvalues).trans (List.map_id _)

theorem message?_of_own {write : α → List Record} {value : Option α}
    (hown : own number records = Write.one number write value) :
    message? number records = value.map write := by
  have hmessages : messages number records = value.toList.map write := messages_of_own hown
  rw [message?, hmessages]
  cases value <;> simp

theorem read?_of_own {kind : OptionsKind} {options? : Option (Options kind)}
    (hoptions : ∀ options ∈ options?, options.Tidy)
    (hown : own number records = Write.one number Options.records options?) :
    Options.read? kind number records = options? := by
  have hpayload : payload number records =
      (options?.toList.map fun options => encode options.records).flatten := by
    rw [payload, ← payloads_own, hown]
    simp [payloads, Write.one, Record.embed, List.filterMap_map]
  rw [Options.read?, message?_of_own hown, hpayload]
  cases options? with
  | none => rfl
  | some options =>
      rw [Option.toList_some, List.map_singleton, List.flatten_singleton]
      exact congrArg some (hoptions options rfl)

end Read

/-! ## Tidy descriptors -/

/-- The number, if there is one, is one of 32 bits. -/
def FitsInt32 (value? : Option Int) : Prop :=
  ∀ value ∈ value?, IsInt32 value

instance (value? : Option Int) : Decidable (FitsInt32 value?) := by
  unfold FitsInt32
  infer_instance

/-- The options, if there are any, are what is read of their records. -/
def TidyOptions {kind : OptionsKind} (options? : Option (Options kind)) : Prop :=
  ∀ options ∈ options?, options.Tidy

instance {kind : OptionsKind} (options? : Option (Options kind)) :
    Decidable (TidyOptions options?) := by
  unfold TidyOptions
  infer_instance

def Field.Tidy (field : Field) : Prop :=
  (∀ value? ∈ [field.number?, field.labelCode?, field.typeCode?, field.oneofIndex?],
    FitsInt32 value?) ∧ TidyOptions field.options?

instance (field : Field) : Decidable field.Tidy := by
  unfold Field.Tidy
  infer_instance

def Range.Tidy (range : Range) : Prop :=
  FitsInt32 range.start? ∧ FitsInt32 range.stop?

instance (range : Range) : Decidable range.Tidy := by
  unfold Range.Tidy
  infer_instance

def ExtensionRange.Tidy (extensionRange : ExtensionRange) : Prop :=
  extensionRange.range.Tidy ∧ TidyOptions extensionRange.options?

instance (extensionRange : ExtensionRange) : Decidable extensionRange.Tidy := by
  unfold ExtensionRange.Tidy
  infer_instance

def EnumValue.Tidy (value : EnumValue) : Prop :=
  FitsInt32 value.number? ∧ TidyOptions value.options?

instance (value : EnumValue) : Decidable value.Tidy := by
  unfold EnumValue.Tidy
  infer_instance

def Enumeration.Tidy (enumeration : Enumeration) : Prop :=
  (∀ value ∈ enumeration.values, value.Tidy) ∧ TidyOptions enumeration.options? ∧
    ∀ range ∈ enumeration.reservedRanges, range.Tidy

instance (enumeration : Enumeration) : Decidable enumeration.Tidy := by
  unfold Enumeration.Tidy
  infer_instance

def MessageBody.Tidy (body : MessageBody) : Prop :=
  (∀ field ∈ body.fields, field.Tidy) ∧ (∀ enumeration ∈ body.enums, enumeration.Tidy) ∧
    (∀ range ∈ body.extensionRanges, range.Tidy) ∧ (∀ field ∈ body.extensions, field.Tidy) ∧
    TidyOptions body.options? ∧ (∀ oneof ∈ body.oneofs, TidyOptions oneof.options?) ∧
    ∀ range ∈ body.reservedRanges, range.Tidy

instance (body : MessageBody) : Decidable body.Tidy := by
  unfold MessageBody.Tidy
  infer_instance

mutual

/-- What a message and the messages in it declare. -/
def Message.bodies : Message → List MessageBody
  | .mk body nested => body :: bodiesIn nested

def Message.bodiesIn : List Message → List MessageBody
  | [] => []
  | message :: rest => message.bodies ++ bodiesIn rest

end

def Service.Tidy (service : Service) : Prop :=
  (∀ method ∈ service.methods, TidyOptions method.options?) ∧ TidyOptions service.options?

instance (service : Service) : Decidable service.Tidy := by
  unfold Service.Tidy
  infer_instance

/-- All numbers of the file fit, all its options are what their records say, and no
source positions are kept. -/
def File.Tidy (file : File) : Prop :=
  (∀ body ∈ Message.bodiesIn file.messages, body.Tidy) ∧
    (∀ enumeration ∈ file.enums, enumeration.Tidy) ∧ (∀ service ∈ file.services, service.Tidy) ∧
    (∀ field ∈ file.extensions, field.Tidy) ∧ TidyOptions file.options? ∧ file.locations? = none ∧
    (∀ value ∈ file.publicImports, IsInt32 value) ∧ ∀ value ∈ file.weakImports, IsInt32 value

instance (file : File) : Decidable file.Tidy := by
  unfold File.Tidy
  infer_instance

theorem Field.ofRecords_records {field : Field} (hfield : field.Tidy) :
    Field.ofRecords field.records = field := by
  obtain ⟨hnumbers, hoptions⟩ := hfield
  simp only [List.forall_mem_cons] at hnumbers
  obtain ⟨hnumber, hlabel, htype, honeof, -⟩ := hnumbers
  cases field
  simp only [Field.ofRecords, Field.mk.injEq]
  exact ⟨text?_of_own (by simp [Field.records]), text?_of_own (by simp [Field.records]),
    int?_of_own hnumber (by simp [Field.records]), int?_of_own hlabel (by simp [Field.records]),
    int?_of_own htype (by simp [Field.records]), text?_of_own (by simp [Field.records]),
    text?_of_own (by simp [Field.records]), read?_of_own hoptions (by simp [Field.records]),
    int?_of_own honeof (by simp [Field.records]), text?_of_own (by simp [Field.records]),
    flag?_of_own (by simp [Field.records])⟩

theorem Oneof.ofRecords_records {oneof : Oneof} (hoptions : TidyOptions oneof.options?) :
    Oneof.ofRecords oneof.records = oneof := by
  cases oneof
  simp only [Oneof.ofRecords, Oneof.mk.injEq]
  exact ⟨text?_of_own (by simp [Oneof.records]), read?_of_own hoptions (by simp [Oneof.records])⟩

/-- More may be written after a range. -/
theorem Range.ofRecords_append {range : Range} (hrange : range.Tidy) {rest : List Record}
    (hfirst : own 1 rest = []) (hsecond : own 2 rest = []) :
    Range.ofRecords (range.records ++ rest) = range := by
  cases range
  simp only [Range.ofRecords, Range.mk.injEq]
  exact ⟨int?_of_own hrange.1 (by simp [Range.records, hfirst]),
    int?_of_own hrange.2 (by simp [Range.records, hsecond])⟩

theorem Range.ofRecords_records {range : Range} (hrange : range.Tidy) :
    Range.ofRecords range.records = range := by
  rw [← List.append_nil range.records]
  exact Range.ofRecords_append hrange rfl rfl

theorem ExtensionRange.ofRecords_records {extensionRange : ExtensionRange}
    (hrange : extensionRange.Tidy) :
    ExtensionRange.ofRecords extensionRange.records = extensionRange := by
  cases extensionRange
  simp only [ExtensionRange.ofRecords, ExtensionRange.mk.injEq]
  exact ⟨Range.ofRecords_append hrange.1 (by simp) (by simp),
    read?_of_own hrange.2 (by simp [ExtensionRange.records, Range.records])⟩

theorem EnumValue.ofRecords_records {value : EnumValue} (hvalue : value.Tidy) :
    EnumValue.ofRecords value.records = value := by
  cases value
  simp only [EnumValue.ofRecords, EnumValue.mk.injEq]
  exact ⟨text?_of_own (by simp [EnumValue.records]),
    int?_of_own hvalue.1 (by simp [EnumValue.records]),
      read?_of_own hvalue.2 (by simp [EnumValue.records])⟩

theorem Enumeration.ofRecords_records {enumeration : Enumeration} (henum : enumeration.Tidy) :
    Enumeration.ofRecords enumeration.records = enumeration := by
  obtain ⟨hvalues, hoptions, hranges⟩ := henum
  cases enumeration
  simp only [Enumeration.ofRecords, Enumeration.mk.injEq]
  exact ⟨text?_of_own (by simp [Enumeration.records]),
    map_messages_of_own (fun value hvalue => EnumValue.ofRecords_records (hvalues value hvalue))
      (by simp [Enumeration.records]),
    read?_of_own hoptions (by simp [Enumeration.records]),
    map_messages_of_own (fun range hrange => Range.ofRecords_records (hranges range hrange))
      (by simp [Enumeration.records]),
    texts_of_own (by simp [Enumeration.records])⟩

/-- What a message declares does not depend on the messages in it. -/
theorem MessageBody.ofRecords_recordsWith {body : MessageBody} (hbody : body.Tidy)
    (nested : List Message) :
    MessageBody.ofRecords (body.recordsWith (Write.many 3 Message.records nested)) = body := by
  obtain ⟨hfields, henums, hextensionRanges, hextensions, hoptions, honeofs, hranges⟩ := hbody
  cases body
  simp only [MessageBody.ofRecords, MessageBody.mk.injEq]
  exact ⟨text?_of_own (by simp [recordsWith]),
    map_messages_of_own (fun field hfield => Field.ofRecords_records (hfields field hfield))
      (by simp [recordsWith]),
    map_messages_of_own (fun enum henum => Enumeration.ofRecords_records (henums enum henum))
      (by simp [recordsWith]),
    map_messages_of_own
      (fun range hrange => ExtensionRange.ofRecords_records (hextensionRanges range hrange))
      (by simp [recordsWith]),
    map_messages_of_own (fun field hfield => Field.ofRecords_records (hextensions field hfield))
      (by simp [recordsWith]),
    read?_of_own hoptions (by simp [recordsWith]),
    map_messages_of_own (fun oneof honeof => Oneof.ofRecords_records (honeofs oneof honeof))
      (by simp [recordsWith]),
    map_messages_of_own (fun range hrange => Range.ofRecords_records (hranges range hrange))
      (by simp [recordsWith]),
    texts_of_own (by simp [recordsWith])⟩

theorem Message.nestedRecords_eq (messages : List Message) :
    nestedRecords messages = Write.many 3 Message.records messages := by
  induction messages with
  | nil => rfl
  | cons message rest ih => rw [nestedRecords, ih]; rfl

mutual

theorem Message.ofRecords_records : ∀ message : Message, (∀ body ∈ message.bodies, body.Tidy) →
    Message.ofRecords message.records = message
  | .mk body nested, hbodies => by
      rw [bodies, List.forall_mem_cons] at hbodies
      have hown : own 3 (body.recordsWith (Write.many 3 Message.records nested)) =
          Write.many 3 Message.records nested := by
        simp [MessageBody.recordsWith]
      rw [Message.records, Message.ofRecords, nestedOfRecords_eq, nestedRecords_eq,
        MessageBody.ofRecords_recordsWith hbodies.1, messages_of_own hown, List.map_map]
      exact congrArg _ (map_ofRecords_records nested hbodies.2)

theorem Message.map_ofRecords_records : ∀ messages : List Message,
    (∀ body ∈ bodiesIn messages, body.Tidy) →
      messages.map (Message.ofRecords ∘ Message.records) = messages
  | [], _ => rfl
  | message :: rest, hbodies => by
      rw [bodiesIn, List.forall_mem_append] at hbodies
      rw [List.map_cons, map_ofRecords_records rest hbodies.2]
      exact congrArg (· :: rest) (message.ofRecords_records hbodies.1)

end

theorem Method.ofRecords_records {method : Method} (hoptions : TidyOptions method.options?) :
    Method.ofRecords method.records = method := by
  cases method
  simp only [Method.ofRecords, Method.mk.injEq]
  exact ⟨text?_of_own (by simp [Method.records]), text?_of_own (by simp [Method.records]),
    text?_of_own (by simp [Method.records]), read?_of_own hoptions (by simp [Method.records]),
    flag?_of_own (by simp [Method.records]), flag?_of_own (by simp [Method.records])⟩

theorem Service.ofRecords_records {service : Service} (hservice : service.Tidy) :
    Service.ofRecords service.records = service := by
  obtain ⟨hmethods, hoptions⟩ := hservice
  cases service
  simp only [Service.ofRecords, Service.mk.injEq]
  exact ⟨text?_of_own (by simp [Service.records]),
    map_messages_of_own (fun method hmethod => Method.ofRecords_records (hmethods method hmethod))
      (by simp [Service.records]),
    read?_of_own hoptions (by simp [Service.records])⟩

/-- A tidy file is what is read of the records that are written of it. -/
theorem File.ofRecords_records {file : File} (hfile : file.Tidy) :
    File.ofRecords file.records = file := by
  obtain ⟨hbodies, henums, hservices, hextensions, hoptions, hlocations, hpublic, hweak⟩ := hfile
  have hinfo : message? 9 file.records = none := by
    rw [message?_of_own (by simp [File.records] : own 9 file.records =
      Write.one 9 (Write.many 1 Location.records) file.locations?), hlocations]
    rfl
  have hmessages : (Records.messages 4 file.records).map Message.ofRecords = file.messages := by
    rw [messages_of_own (by simp [File.records] : own 4 file.records =
      Write.many 4 Message.records file.messages), List.map_map]
    exact Message.map_ofRecords_records _ hbodies
  cases file
  simp only [File.ofRecords, File.mk.injEq, hinfo]
  exact ⟨text?_of_own (by simp [File.records]), text?_of_own (by simp [File.records]),
    texts_of_own (by simp [File.records]), hmessages,
    map_messages_of_own (fun enum henum => Enumeration.ofRecords_records (henums enum henum))
      (by simp [File.records]),
    map_messages_of_own (fun service hservice => Service.ofRecords_records
      (hservices service hservice))
      (by simp [File.records]),
    map_messages_of_own (fun field hfield => Field.ofRecords_records (hextensions field hfield))
      (by simp [File.records]),
    read?_of_own hoptions (by simp [File.records]), hlocations.symm,
    ints_of_own hpublic (by simp [File.records]), ints_of_own hweak (by simp [File.records]),
    text?_of_own (by simp [File.records])⟩

theorem filesOfRecords_many {files : List File} (hfiles : ∀ file ∈ files, file.Tidy) :
    filesOfRecords (Write.many 1 File.records files) = files :=
  map_messages_of_own (fun file hfile => File.ofRecords_records (hfiles file hfile)) (by simp)

/-! ## Messages in place -/

section Embeds

open ProtoSource.Wire.Record (EmbedAll embedAll_iff)

variable {α : Type} (number : Nat)

@[simp]
theorem embedAll_append {front back : List Record} :
    EmbedAll (front ++ back) ↔ EmbedAll front ∧ EmbedAll back := by
  simp only [embedAll_iff, List.forall_mem_append]

theorem embedAll_map {write : α → Record} {values : List α} :
    EmbedAll (values.map write) ↔ ∀ value ∈ values, (write value).Embeds := by
  rw [embedAll_iff, List.forall_mem_map]

@[simp]
theorem embedAll_text (value : Option String) : EmbedAll (Write.text number value) := by
  simp [Write.text, embedAll_map, Record.Embeds]

@[simp]
theorem embedAll_texts (values : List String) : EmbedAll (Write.texts number values) := by
  simp [Write.texts, embedAll_map, Record.Embeds]

@[simp]
theorem embedAll_int (value : Option Int) : EmbedAll (Write.int number value) := by
  simp [Write.int, embedAll_map, Record.Embeds]

@[simp]
theorem embedAll_ints (values : List Int) : EmbedAll (Write.ints number values) := by
  simp [Write.ints, embedAll_map, Record.Embeds]

@[simp]
theorem embedAll_flag (value : Option Bool) : EmbedAll (Write.flag number value) := by
  simp [Write.flag, embedAll_map, Record.Embeds]

@[simp]
theorem embedAll_packedInts (values : List Int) : EmbedAll (Write.packedInts number values) := by
  cases values <;> simp [Write.packedInts, EmbedAll, Record.Embeds]

@[simp]
theorem embedAll_many {write : α → List Record} {values : List α} :
    EmbedAll (Write.many number write values) ↔ ∀ value ∈ values, EmbedAll (write value) := by
  simp [embedAll_iff, Write.many, Record.embed, Record.Embeds]

@[simp]
theorem embedAll_one {write : α → List Record} {value : Option α} :
    EmbedAll (Write.one number write value) ↔ ∀ inner ∈ value, EmbedAll (write inner) := by
  cases value <;> simp [embedAll_iff, Write.one, Record.embed, Record.Embeds]

@[simp]
theorem NamePart.embedAll_records (part : NamePart) : EmbedAll part.records := by
  simp [NamePart.records]

@[simp]
theorem UninterpretedOption.embedAll_records (option : UninterpretedOption) :
    EmbedAll option.records := by
  simp [UninterpretedOption.records, embedAll_map, Record.Embeds]

@[simp]
theorem Options.embedAll_records {kind : OptionsKind} (options : Options kind) :
    EmbedAll options.records := by
  have hsettings : EmbedAll (options.settings.map fun setting => setting.2.record setting.1) := by
    refine embedAll_map.2 fun setting _ => ?_
    cases setting.2 <;> trivial
  simp [Options.records, hsettings]

@[simp]
theorem Field.embedAll_records (field : Field) : EmbedAll field.records := by
  simp [Field.records]

@[simp]
theorem Range.embedAll_records (range : Range) : EmbedAll range.records := by
  simp [Range.records]

@[simp]
theorem Enumeration.embedAll_records (enumeration : Enumeration) :
    EmbedAll enumeration.records := by
  simp [Enumeration.records, EnumValue.records]

theorem MessageBody.embedAll_recordsWith (body : MessageBody) {nested : List Record}
    (hnested : EmbedAll nested) : EmbedAll (body.recordsWith nested) := by
  simp [MessageBody.recordsWith, ExtensionRange.records, Oneof.records, hnested]

mutual

theorem Message.embedAll_records : ∀ message : Message, EmbedAll message.records
  | .mk body nested => body.embedAll_recordsWith (embedAll_nestedRecords nested)

theorem Message.embedAll_nestedRecords : ∀ messages : List Message,
    EmbedAll (nestedRecords messages)
  | [] => trivial
  | message :: rest => ⟨⟨rfl, message.embedAll_records⟩, embedAll_nestedRecords rest⟩

end

theorem File.embedAll_records (file : File) : EmbedAll file.records := by
  simp [File.records, Message.embedAll_records, Service.records, Method.records, Location.records]

end Embeds

end ProtoSource.Descriptor
