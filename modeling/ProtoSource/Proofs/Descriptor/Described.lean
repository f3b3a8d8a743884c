import ProtoSource.Load.RpcTypes
import ProtoSource.Proofs.Wire.Agreement

/-!
# Descriptors describe themselves

The well-known file of descriptors declares the messages that a set is made of.
What it says of them fits the schema under which sets are read, so a set can be
written under the one and read under the other.
-/

namespace ProtoSource.Descriptor

open ProtoSource.Load
open ProtoSource.Pool
open ProtoSource.Wire

namespace Part

/-- The full name of the message. -/
def typeName : Part → String
  | .set => setName
  | .file => "google.protobuf.FileDescriptorProto"
  | .message => "google.protobuf.DescriptorProto"
  | .extensionRange => "google.protobuf.DescriptorProto.ExtensionRange"
  | .reservedRange => "google.protobuf.DescriptorProto.ReservedRange"
  | .field => "google.protobuf.FieldDescriptorProto"
  | .oneof => "google.protobuf.OneofDescriptorProto"
  | .enumeration => "google.protobuf.EnumDescriptorProto"
  | .enumReservedRange => "google.protobuf.EnumDescriptorProto.EnumReservedRange"
  | .enumValue => "google.protobuf.EnumValueDescriptorProto"
  | .service => "google.protobuf.ServiceDescriptorProto"
  | .method => "google.protobuf.MethodDescriptorProto"
  | .options kind => optionsName kind
  | .uninterpretedOption => "google.protobuf.UninterpretedOption"
  | .namePart => "google.protobuf.UninterpretedOption.NamePart"
  | .sourceInfo => "google.protobuf.SourceCodeInfo"
  | .location => "google.protobuf.SourceCodeInfo.Location"

def all : List Part :=
  [.set, .file, .message, .extensionRange, .reservedRange, .field, .oneof, .enumeration,
   .enumReservedRange, .enumValue, .service, .method, .options .file, .options .message,
   .options .extensionRange, .options .field, .options .oneof, .options .enumeration,
   .options .enumValue, .options .service, .options .method, .uninterpretedOption, .namePart,
   .sourceInfo, .location]

theorem mem_all (part : Part) : part ∈ all := by
  rcases part with _ | _ | _ | _ | _ | _ | _ | _ | _ | _ | _ | _ | kind | _ | _ | _ | _
  case options => cases kind <;> decide
  all_goals decide

end Part

/-! ## The schema of sets -/

theorem field?_eq_some {part : Part} {number : Nat} {spec : FieldSpec Part}
    (hfield : schema.field? part number = some spec) :
    ∃ entry ∈ part.entries, entry.number = number ∧
      spec = { kind := entry.kind, repeated := entry.repeated } := by
  obtain ⟨entry, hentry, hspec⟩ := Option.map_eq_some_iff.1 hfield
  exact ⟨entry, List.mem_of_find?_eq_some hentry, by simpa using List.find?_some hentry, hspec.symm⟩

def isGroup {τ : Type} : Kind τ → Bool
  | .group _ => true
  | _ => false

theorem ne_group {τ : Type} {kind : Kind τ} (hkind : isGroup kind = false) (type : τ) :
    kind ≠ .group type := by
  rintro rfl
  simp [isGroup] at hkind

theorem isGroup_entries : ∀ part ∈ Part.all, ∀ entry ∈ part.entries,
    isGroup entry.kind = false := by
  decide

theorem isFlat_schema (part : Part) : schema.IsFlat part := by
  intro number spec hfield
  obtain ⟨entry, hentry, -, rfl⟩ := field?_eq_some hfield
  exact ⟨by simp [Schema.entry?, schema], ne_group (isGroup_entries part part.mem_all entry hentry)⟩

theorem choice?_schema (part : Part) (number : Nat) : schema.choice? part number = none := by
  cases hfield : schema.field? part number with
  | none => simp [Schema.choice?, hfield]
  | some spec =>
      obtain ⟨entry, -, -, rfl⟩ := field?_eq_some hfield
      simp [Schema.choice?, hfield]

/-! ## The schema that the well-known file describes -/

/-- A field that is described so is read as the entry says. -/
def Entry.isDescribedBy (entry : Entry) (written : FieldSpec String) : Bool :=
  written.kind = entry.kind.map Part.typeName && written.repeated == entry.repeated &&
    (entry.repeated || written.presence)

/-- The well-known file describes the fields of every part as they are read. -/
theorem describes_entries (part : Part) :
    (descriptorTable.lookup part.typeName).any fun message => part.entries.all fun entry =>
      (message.fields.lookup (entry.number : Int)).any entry.isDescribedBy := by
  -- One computation for each part: all of them together take far more memory.
  cases part with
  | options kind => cases kind <;> decide +kernel
  | _ => decide +kernel

/-- Nothing in the file of descriptors is a map, a group or a member of a choice. -/
theorem plain_descriptorTable : ∀ message ∈ descriptorTable, message.2.isEntry = false ∧
    ∀ field ∈ message.2.fields, field.2.choice = none ∧ isGroup field.2.kind = false := by
  decide

theorem mem_of_lookup {α β : Type} [BEq α] [LawfulBEq α] {key : α} {value : β}
    {pairs : List (α × β)} (hlookup : pairs.lookup key = some value) : (key, value) ∈ pairs := by
  obtain ⟨front, back, rfl, -⟩ := List.lookup_eq_some_iff.1 hlookup
  simp

theorem setSchema_field? {owner : String} {number : Nat} {spec : FieldSpec String}
    (hfield : setSchema.field? owner number = some spec) :
    spec.choice = none ∧ isGroup spec.kind = false := by
  obtain ⟨message, hmessage, hfield⟩ := Option.bind_eq_some_iff.1 hfield
  exact (plain_descriptorTable _ (mem_of_lookup hmessage)).2 _ (mem_of_lookup hfield)

theorem setSchema_isEntry (owner : String) : setSchema.isEntry owner = false := by
  change ((descriptorTable.lookup owner).map MessageSpec.isEntry).getD false = false
  cases hmessage : descriptorTable.lookup owner with
  | none => rfl
  | some message => exact (plain_descriptorTable _ (mem_of_lookup hmessage)).1

theorem isFlat_setSchema (owner : String) : setSchema.IsFlat owner := by
  intro number spec hfield
  refine ⟨?_, ne_group (setSchema_field? hfield).2⟩
  simp [Schema.entry?, setSchema_isEntry]

theorem choice?_setSchema (owner : String) (number : Nat) :
    setSchema.choice? owner number = none := by
  cases hfield : setSchema.field? owner number with
  | none => simp [Schema.choice?, hfield]
  | some spec => simp [Schema.choice?, hfield, (setSchema_field? hfield).1]

/-- Every field that is read of a set is described by the well-known file. -/
theorem fits_setSchema {part : Part} {number : Nat} {spec : FieldSpec Part}
    (hfield : schema.field? part number = some spec) :
    ∃ written, setSchema.field? part.typeName number = some written ∧
      spec.Fits Part.typeName written := by
  obtain ⟨entry, hentry, rfl, rfl⟩ := field?_eq_some hfield
  obtain ⟨message, hmessage, hentries⟩ := (Option.any_eq_true _ _).1 (describes_entries part)
  obtain ⟨written, hlookup, hfits⟩ := (Option.any_eq_true _ _).1
    (List.all_eq_true.1 hentries entry hentry)
  have hwritten : setSchema.field? part.typeName entry.number = some written := by
    simp [setSchema, schemaOf, hmessage, hlookup]
  simp only [Entry.isDescribedBy, Bool.and_eq_true, decide_eq_true_eq, beq_iff_eq,
    Bool.or_eq_true] at hfits
  exact ⟨written, hwritten, hfits.1.1, hfits.1.2, hfits.2.imp id Or.inl⟩

/-- A set that is written as the well-known file says keeps what is read of it. -/
theorem keeps_setSchema : schema.Keeps setSchema Part.typeName fun _ => True where
  flatReader part _ := isFlat_schema part
  noMaps part _ := (isFlat_setSchema part.typeName).hasNoMaps
  first _ := rfl
  fits part _ number spec written hreader hwriter := by
    obtain ⟨written', hwritten, hfits⟩ := fits_setSchema hreader
    obtain rfl := Option.some.inj (hwriter.symm.trans hwritten)
    exact hfits
  closed _ _ _ _ _ _ _ _ _ := trivial
  excludes part _ number _ later := by
    simp [Schema.Excludes, choice?_schema, choice?_setSchema]

end ProtoSource.Descriptor
