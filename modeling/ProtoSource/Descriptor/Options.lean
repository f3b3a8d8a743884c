import ProtoSource.Wire.Record

/-!
# Options

Every kind of declaration can carry options. The standard options of a kind are a fixed list of
named settings; whatever else the encoded options hold, such as extensions, is kept in their
payload.
-/

namespace ProtoSource.Descriptor

open ProtoSource.Wire

/-- The kinds of declaration that carry options. -/
inductive OptionsKind where
  | file
  | message
  | extensionRange
  | field
  | oneof
  | enumeration
  | enumValue
  | service
  | method
  deriving DecidableEq, Repr

/-- The name of the message that holds the options of a kind. -/
def OptionsKind.messageName : OptionsKind → String
  | .file => "FileOptions"
  | .message => "MessageOptions"
  | .extensionRange => "ExtensionRangeOptions"
  | .field => "FieldOptions"
  | .oneof => "OneofOptions"
  | .enumeration => "EnumOptions"
  | .enumValue => "EnumValueOptions"
  | .service => "ServiceOptions"
  | .method => "MethodOptions"

/-- What a standard option can be set to. -/
inductive SettingShape where
  | text
  | flag
  /-- one of some named numbers; other numbers are kept as they are -/
  | choice (names : List (Int × String))

/-- A standard option. -/
structure SettingSpec where
  number : Nat
  name : String
  shape : SettingShape

namespace OptionsKind

def fileSettings : List SettingSpec :=
  [⟨1, "java_package", .text⟩,
   ⟨8, "java_outer_classname", .text⟩,
   ⟨9, "optimize_for", .choice [(1, "SPEED"), (2, "CODE_SIZE"), (3, "LITE_RUNTIME")]⟩,
   ⟨10, "java_multiple_files", .flag⟩,
   ⟨11, "go_package", .text⟩,
   ⟨16, "cc_generic_services", .flag⟩,
   ⟨17, "java_generic_services", .flag⟩,
   ⟨18, "py_generic_services", .flag⟩,
   ⟨20, "java_generate_equals_and_hash", .flag⟩,
   ⟨23, "deprecated", .flag⟩,
   ⟨27, "java_string_check_utf8", .flag⟩,
   ⟨31, "cc_enable_arenas", .flag⟩,
   ⟨36, "objc_class_prefix", .text⟩,
   ⟨37, "csharp_namespace", .text⟩,
   ⟨39, "swift_prefix", .text⟩,
   ⟨40, "php_class_prefix", .text⟩,
   ⟨41, "php_namespace", .text⟩,
   ⟨42, "php_generic_services", .flag⟩,
   ⟨44, "php_metadata_namespace", .text⟩,
   ⟨45, "ruby_package", .text⟩]

def messageSettings : List SettingSpec :=
  [⟨1, "message_set_wire_format", .flag⟩,
   ⟨2, "no_standard_descriptor_accessor", .flag⟩,
   ⟨3, "deprecated", .flag⟩,
   ⟨7, "map_entry", .flag⟩]

def fieldSettings : List SettingSpec :=
  [⟨1, "ctype", .choice [(0, "STRING"), (1, "CORD"), (2, "STRING_PIECE")]⟩,
   ⟨2, "packed", .flag⟩,
   ⟨3, "deprecated", .flag⟩,
   ⟨5, "lazy", .flag⟩,
   ⟨6, "jstype", .choice [(0, "JS_NORMAL"), (1, "JS_STRING"), (2, "JS_NUMBER")]⟩,
   ⟨10, "weak", .flag⟩]

def enumSettings : List SettingSpec :=
  [⟨2, "allow_alias", .flag⟩,
   ⟨3, "deprecated", .flag⟩]

def enumValueSettings : List SettingSpec :=
  [⟨1, "deprecated", .flag⟩]

def serviceSettings : List SettingSpec :=
  [⟨33, "deprecated", .flag⟩]

def methodSettings : List SettingSpec :=
  [⟨33, "deprecated", .flag⟩,
   ⟨34, "idempotency_level",
      .choice [(0, "IDEMPOTENCY_UNKNOWN"), (1, "NO_SIDE_EFFECTS"), (2, "IDEMPOTENT")]⟩]

/-- The standard options of a kind in ascending order of number. -/
def settings : OptionsKind → List SettingSpec
  | .file => fileSettings
  | .message => messageSettings
  | .field => fieldSettings
  | .enumeration => enumSettings
  | .enumValue => enumValueSettings
  | .service => serviceSettings
  | .method => methodSettings
  | .oneof => []
  | .extensionRange => []

end OptionsKind

/-- The value of a standard option. -/
inductive SettingValue where
  | text (value : String)
  | flag (value : Bool)
  | choice (number : Int)
  deriving DecidableEq, Repr

def SettingValue.record (number : Nat) : SettingValue → Record
  | .text value => .text number value
  | .flag value => .varint number value.toNat
  | .choice value => .varint number (ofInt value)

/-- One component of the name of an option that nobody has interpreted yet. -/
structure NamePart where
  namePart? : Option String := none
  isExtension? : Option Bool := none
  deriving DecidableEq, Repr

/-- An option as it was written, before its name was resolved. -/
structure UninterpretedOption where
  name : List NamePart := []
  identifier? : Option String := none
  positive? : Option Nat := none
  negative? : Option Nat := none
  /-- the bits of the number -/
  double? : Option Nat := none
  bytes? : Option Bytes := none
  aggregate? : Option String := none
  deriving DecidableEq, Repr

/-- The options of a declaration of kind `kind`: its standard options by number, options without
interpretation, and the encoded form of all of it. -/
structure Options (kind : OptionsKind) where
  settings : List (Nat × SettingValue) := []
  uninterpreted : List UninterpretedOption := []
  payload : Bytes := []

/-- The setting that marks the entry message of a map. -/
def mapEntryNumber : Nat := 7

/-- The setting that lets the values of an enum share a number. -/
def allowAliasNumber : Nat := 2

/-- The setting that packs the numbers of a repeated field. -/
def packedNumber : Nat := 2

namespace Options

variable {kind : OptionsKind}

/-- Options that hold nothing but standard options. -/
def ofSettings (settings : List (Nat × SettingValue)) : Options kind where
  settings := settings
  payload := encode (settings.map fun setting => setting.2.record setting.1)

/-- A flag, if it is set to anything. -/
def flag? (options : Options kind) (number : Nat) : Option Bool :=
  match options.settings.lookup number with
  | some (.flag value) => some value
  | _ => none

def flag (options : Options kind) (number : Nat) : Bool :=
  (options.flag? number).getD false

end Options

end ProtoSource.Descriptor
