import ProtoSource.Descriptor.Read
import ProtoSource.Pool.Fault
import ProtoSource.Pool.Schema
import ProtoSource.WellKnown.Descriptor
import ProtoSource.Wire.Canonical

/-!
# Options of a pool

The encoded options of every declaration must be a message of the type that holds such options. The
set may describe that type itself; if it does not, the well-known description counts. A pool has
the options in canonical form, and its standard options are those that the canonical form sets.
-/

namespace ProtoSource.Pool

open ProtoSource.Descriptor
open ProtoSource.WellKnown
open ProtoSource.Wire

/-- The messages that describe descriptors. -/
def descriptorTable : MessageTable :=
  messageTable [(.proto2, descriptorFile)]

/-- The full name of the message that holds the options of a kind. -/
def optionsName (kind : OptionsKind) : String :=
  "google.protobuf." ++ kind.messageName

/-- The messages by which options of a kind are read: those of the set if it describes them. -/
def optionsTable (table : MessageTable) (kind : OptionsKind) : MessageTable :=
  if (table.lookup (optionsName kind)).isSome then table else descriptorTable

/-- The canonical form of encoded options. -/
def recode (table : MessageTable) (kind : OptionsKind) (payload : Bytes) : Except Fault Bytes :=
  ((schemaOf (optionsTable table kind)).recode (optionsName kind) payload).mapError
    fun _ => .undecodable

/-- The options that `options` are in canonical form. -/
def recodeOptions {kind : OptionsKind} (table : MessageTable) (options : Options kind) :
    Except Fault (Options kind) := do
  let payload ← recode table kind options.payload
  (Options.decode kind payload).mapError fun _ => .undecodable

def recodeField (table : MessageTable) (field : Field) : Except Fault Field := do
  return { field with options? := ← field.options?.mapM (recodeOptions table) }

def recodeOneof (table : MessageTable) (oneof : Oneof) : Except Fault Oneof := do
  return { oneof with options? := ← oneof.options?.mapM (recodeOptions table) }

def recodeRange (table : MessageTable) (range : ExtensionRange) : Except Fault ExtensionRange := do
  return { range with options? := ← range.options?.mapM (recodeOptions table) }

def recodeEnumValue (table : MessageTable) (value : EnumValue) : Except Fault EnumValue := do
  return { value with options? := ← value.options?.mapM (recodeOptions table) }

def recodeEnum (table : MessageTable) (enumeration : Enumeration) :
    Except Fault Enumeration := do
  return { enumeration with
    options? := ← enumeration.options?.mapM (recodeOptions table)
    values := ← enumeration.values.mapM (recodeEnumValue table) }

def recodeBody (table : MessageTable) (body : MessageBody) : Except Fault MessageBody := do
  return { body with
    options? := ← body.options?.mapM (recodeOptions table)
    fields := ← body.fields.mapM (recodeField table)
    enums := ← body.enums.mapM (recodeEnum table)
    extensionRanges := ← body.extensionRanges.mapM (recodeRange table)
    extensions := ← body.extensions.mapM (recodeField table)
    oneofs := ← body.oneofs.mapM (recodeOneof table) }

mutual

def recodeMessage (table : MessageTable) : Message → Except Fault Message
  | .mk body nested => do
    let recoded ← recodeBody table body
    let inner ← recodeMessages table nested
    return .mk recoded inner

def recodeMessages (table : MessageTable) : List Message → Except Fault (List Message)
  | [] => .ok []
  | message :: rest => do
    let recoded ← recodeMessage table message
    let others ← recodeMessages table rest
    return recoded :: others

end

def recodeMethod (table : MessageTable) (method : Method) : Except Fault Method := do
  return { method with options? := ← method.options?.mapM (recodeOptions table) }

def recodeService (table : MessageTable) (service : Service) : Except Fault Service := do
  return { service with
    options? := ← service.options?.mapM (recodeOptions table)
    methods := ← service.methods.mapM (recodeMethod table) }

/-- The file with the options of all that it declares in canonical form. -/
def recodeFile (table : MessageTable) (file : File) : Except Fault File := do
  return { file with
    options? := ← file.options?.mapM (recodeOptions table)
    messages := ← recodeMessages table file.messages
    enums := ← file.enums.mapM (recodeEnum table)
    services := ← file.services.mapM (recodeService table)
    extensions := ← file.extensions.mapM (recodeField table) }

end ProtoSource.Pool
