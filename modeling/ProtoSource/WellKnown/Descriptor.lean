import ProtoSource.WellKnown.Http

/-!
# The file of descriptors

The file that declares descriptors themselves. The options of every kind of declaration are
described here, and extensions of them refer to it.
-/

namespace ProtoSource.WellKnown

open ProtoSource.Descriptor

/-- The options of a field that is no longer to be used. -/
def deprecated : Options .field :=
  .ofSettings [(3, .flag true)]

/-- The options of a field whose numbers are packed. -/
def packed : Options .field :=
  .ofSettings [(packedNumber, .flag true)]

def fileDescriptorSetMessage : Message :=
  .mk {
    name? := some "FileDescriptorSet"
    fields :=
      [named .repeated "file" 1 .message ".google.protobuf.FileDescriptorProto"] } []

def fileDescriptorProtoMessage : Message :=
  .mk {
    name? := some "FileDescriptorProto"
    fields :=
      [plain .optional "name" 1 .string,
       plain .optional "package" 2 .string,
       plain .repeated "dependency" 3 .string,
       plain .repeated "public_dependency" 10 .int32,
       plain .repeated "weak_dependency" 11 .int32,
       named .repeated "message_type" 4 .message ".google.protobuf.DescriptorProto",
       named .repeated "enum_type" 5 .message ".google.protobuf.EnumDescriptorProto",
       named .repeated "service" 6 .message ".google.protobuf.ServiceDescriptorProto",
       named .repeated "extension" 7 .message ".google.protobuf.FieldDescriptorProto",
       named .optional "options" 8 .message ".google.protobuf.FileOptions",
       named .optional "source_code_info" 9 .message ".google.protobuf.SourceCodeInfo",
       plain .optional "syntax" 12 .string,
       named .optional "edition" 14 .enumeration ".google.protobuf.Edition"] } []

def descriptorProtoMessage : Message :=
  .mk {
    name? := some "DescriptorProto"
    fields :=
      [plain .optional "name" 1 .string,
       named .repeated "field" 2 .message ".google.protobuf.FieldDescriptorProto",
       named .repeated "extension" 6 .message ".google.protobuf.FieldDescriptorProto",
       named .repeated "nested_type" 3 .message ".google.protobuf.DescriptorProto",
       named .repeated "enum_type" 4 .message ".google.protobuf.EnumDescriptorProto",
       named .repeated "extension_range" 5 .message
         ".google.protobuf.DescriptorProto.ExtensionRange",
       named .repeated "oneof_decl" 8 .message ".google.protobuf.OneofDescriptorProto",
       named .optional "options" 7 .message ".google.protobuf.MessageOptions",
       named .repeated "reserved_range" 9 .message ".google.protobuf.DescriptorProto.ReservedRange",
       plain .repeated "reserved_name" 10 .string] }
    [.mk {
        name? := some "ExtensionRange"
        fields :=
          [plain .optional "start" 1 .int32,
           plain .optional "end" 2 .int32,
           named .optional "options" 3 .message ".google.protobuf.ExtensionRangeOptions"] } [],
     .mk {
        name? := some "ReservedRange"
        fields :=
          [plain .optional "start" 1 .int32,
           plain .optional "end" 2 .int32] } []]

def extensionRangeOptionsMessage : Message :=
  .mk {
    name? := some "ExtensionRangeOptions"
    fields :=
      [named .repeated "uninterpreted_option" 999 .message ".google.protobuf.UninterpretedOption",
       { named .repeated "declaration" 2 .message
             ".google.protobuf.ExtensionRangeOptions.Declaration" with
           options? := some {} },
       named .optional "features" 50 .message ".google.protobuf.FeatureSet",
       { named .optional "verification" 3 .enumeration
             ".google.protobuf.ExtensionRangeOptions.VerificationState" with
           defaultValue? := some "UNVERIFIED" }]
    enums :=
      [enumeration "VerificationState"
         [("DECLARATION", 0), ("UNVERIFIED", 1)]]
    extensionRanges := [extensionRange 1000 536870912] }
    [.mk {
        name? := some "Declaration"
        fields :=
          [plain .optional "number" 1 .int32,
           plain .optional "full_name" 2 .string,
           plain .optional "type" 3 .string,
           plain .optional "reserved" 5 .bool,
           plain .optional "repeated" 6 .bool]
        reservedRanges := [range 4 5] } []]

def fieldDescriptorProtoMessage : Message :=
  .mk {
    name? := some "FieldDescriptorProto"
    fields :=
      [plain .optional "name" 1 .string,
       plain .optional "number" 3 .int32,
       named .optional "label" 4 .enumeration ".google.protobuf.FieldDescriptorProto.Label",
       named .optional "type" 5 .enumeration ".google.protobuf.FieldDescriptorProto.Type",
       plain .optional "type_name" 6 .string,
       plain .optional "extendee" 2 .string,
       plain .optional "default_value" 7 .string,
       plain .optional "oneof_index" 9 .int32,
       plain .optional "json_name" 10 .string,
       named .optional "options" 8 .message ".google.protobuf.FieldOptions",
       plain .optional "proto3_optional" 17 .bool]
    enums :=
      [enumeration "Type"
         [("TYPE_DOUBLE", 1), ("TYPE_FLOAT", 2), ("TYPE_INT64", 3), ("TYPE_UINT64", 4),
          ("TYPE_INT32", 5), ("TYPE_FIXED64", 6), ("TYPE_FIXED32", 7), ("TYPE_BOOL", 8),
          ("TYPE_STRING", 9), ("TYPE_GROUP", 10), ("TYPE_MESSAGE", 11), ("TYPE_BYTES", 12),
          ("TYPE_UINT32", 13), ("TYPE_ENUM", 14), ("TYPE_SFIXED32", 15), ("TYPE_SFIXED64", 16),
          ("TYPE_SINT32", 17), ("TYPE_SINT64", 18)],
       enumeration "Label"
         [("LABEL_OPTIONAL", 1), ("LABEL_REPEATED", 3), ("LABEL_REQUIRED", 2)]] } []

def oneofDescriptorProtoMessage : Message :=
  .mk {
    name? := some "OneofDescriptorProto"
    fields :=
      [plain .optional "name" 1 .string,
       named .optional "options" 2 .message ".google.protobuf.OneofOptions"] } []

def enumDescriptorProtoMessage : Message :=
  .mk {
    name? := some "EnumDescriptorProto"
    fields :=
      [plain .optional "name" 1 .string,
       named .repeated "value" 2 .message ".google.protobuf.EnumValueDescriptorProto",
       named .optional "options" 3 .message ".google.protobuf.EnumOptions",
       named .repeated "reserved_range" 4 .message
         ".google.protobuf.EnumDescriptorProto.EnumReservedRange",
       plain .repeated "reserved_name" 5 .string] }
    [.mk {
        name? := some "EnumReservedRange"
        fields :=
          [plain .optional "start" 1 .int32,
           plain .optional "end" 2 .int32] } []]

def enumValueDescriptorProtoMessage : Message :=
  .mk {
    name? := some "EnumValueDescriptorProto"
    fields :=
      [plain .optional "name" 1 .string,
       plain .optional "number" 2 .int32,
       named .optional "options" 3 .message ".google.protobuf.EnumValueOptions"] } []

def serviceDescriptorProtoMessage : Message :=
  .mk {
    name? := some "ServiceDescriptorProto"
    fields :=
      [plain .optional "name" 1 .string,
       named .repeated "method" 2 .message ".google.protobuf.MethodDescriptorProto",
       named .optional "options" 3 .message ".google.protobuf.ServiceOptions"] } []

def methodDescriptorProtoMessage : Message :=
  .mk {
    name? := some "MethodDescriptorProto"
    fields :=
      [plain .optional "name" 1 .string,
       plain .optional "input_type" 2 .string,
       plain .optional "output_type" 3 .string,
       named .optional "options" 4 .message ".google.protobuf.MethodOptions",
       { plain .optional "client_streaming" 5 .bool with defaultValue? := some "false" },
       { plain .optional "server_streaming" 6 .bool with defaultValue? := some "false" }] } []

def fileOptionsMessage : Message :=
  .mk {
    name? := some "FileOptions"
    fields :=
      [plain .optional "java_package" 1 .string,
       plain .optional "java_outer_classname" 8 .string,
       { plain .optional "java_multiple_files" 10 .bool with defaultValue? := some "false" },
       { plain .optional "java_generate_equals_and_hash" 20 .bool with
           options? := some deprecated },
       { plain .optional "java_string_check_utf8" 27 .bool with defaultValue? := some "false" },
       { named .optional "optimize_for" 9 .enumeration
             ".google.protobuf.FileOptions.OptimizeMode" with
           defaultValue? := some "SPEED" },
       plain .optional "go_package" 11 .string,
       { plain .optional "cc_generic_services" 16 .bool with defaultValue? := some "false" },
       { plain .optional "java_generic_services" 17 .bool with defaultValue? := some "false" },
       { plain .optional "py_generic_services" 18 .bool with defaultValue? := some "false" },
       { plain .optional "php_generic_services" 42 .bool with defaultValue? := some "false" },
       { plain .optional "deprecated" 23 .bool with defaultValue? := some "false" },
       { plain .optional "cc_enable_arenas" 31 .bool with defaultValue? := some "true" },
       plain .optional "objc_class_prefix" 36 .string,
       plain .optional "csharp_namespace" 37 .string,
       plain .optional "swift_prefix" 39 .string,
       plain .optional "php_class_prefix" 40 .string,
       plain .optional "php_namespace" 41 .string,
       plain .optional "php_metadata_namespace" 44 .string,
       plain .optional "ruby_package" 45 .string,
       named .optional "features" 50 .message ".google.protobuf.FeatureSet",
       named .repeated "uninterpreted_option" 999 .message ".google.protobuf.UninterpretedOption"]
    enums :=
      [enumeration "OptimizeMode"
         [("SPEED", 1), ("CODE_SIZE", 2), ("LITE_RUNTIME", 3)]]
    extensionRanges := [extensionRange 1000 536870912]
    reservedRanges := [range 38 39] } []

def messageOptionsMessage : Message :=
  .mk {
    name? := some "MessageOptions"
    fields :=
      [{ plain .optional "message_set_wire_format" 1 .bool with defaultValue? := some "false" },
       { plain .optional "no_standard_descriptor_accessor" 2 .bool with
           defaultValue? := some "false" },
       { plain .optional "deprecated" 3 .bool with defaultValue? := some "false" },
       plain .optional "map_entry" 7 .bool,
       { plain .optional "deprecated_legacy_json_field_conflicts" 11 .bool with
           options? := some deprecated },
       named .optional "features" 12 .message ".google.protobuf.FeatureSet",
       named .repeated "uninterpreted_option" 999 .message ".google.protobuf.UninterpretedOption"]
    extensionRanges := [extensionRange 1000 536870912]
    reservedRanges := [range 4 5, range 5 6, range 6 7, range 8 9, range 9 10] } []

def fieldOptionsMessage : Message :=
  .mk {
    name? := some "FieldOptions"
    fields :=
      [{ named .optional "ctype" 1 .enumeration ".google.protobuf.FieldOptions.CType" with
           defaultValue? := some "STRING" },
       plain .optional "packed" 2 .bool,
       { named .optional "jstype" 6 .enumeration ".google.protobuf.FieldOptions.JSType" with
           defaultValue? := some "JS_NORMAL" },
       { plain .optional "lazy" 5 .bool with defaultValue? := some "false" },
       { plain .optional "unverified_lazy" 15 .bool with defaultValue? := some "false" },
       { plain .optional "deprecated" 3 .bool with defaultValue? := some "false" },
       { plain .optional "weak" 10 .bool with defaultValue? := some "false" },
       { plain .optional "debug_redact" 16 .bool with defaultValue? := some "false" },
       named .optional "retention" 17 .enumeration ".google.protobuf.FieldOptions.OptionRetention",
       named .repeated "targets" 19 .enumeration ".google.protobuf.FieldOptions.OptionTargetType",
       named .repeated "edition_defaults" 20 .message
         ".google.protobuf.FieldOptions.EditionDefault",
       named .optional "features" 21 .message ".google.protobuf.FeatureSet",
       named .repeated "uninterpreted_option" 999 .message ".google.protobuf.UninterpretedOption"]
    enums :=
      [enumeration "CType"
         [("STRING", 0), ("CORD", 1), ("STRING_PIECE", 2)],
       enumeration "JSType"
         [("JS_NORMAL", 0), ("JS_STRING", 1), ("JS_NUMBER", 2)],
       enumeration "OptionRetention"
         [("RETENTION_UNKNOWN", 0), ("RETENTION_RUNTIME", 1), ("RETENTION_SOURCE", 2)],
       enumeration "OptionTargetType"
         [("TARGET_TYPE_UNKNOWN", 0), ("TARGET_TYPE_FILE", 1),
          ("TARGET_TYPE_EXTENSION_RANGE", 2), ("TARGET_TYPE_MESSAGE", 3),
          ("TARGET_TYPE_FIELD", 4), ("TARGET_TYPE_ONEOF", 5), ("TARGET_TYPE_ENUM", 6),
          ("TARGET_TYPE_ENUM_ENTRY", 7), ("TARGET_TYPE_SERVICE", 8), ("TARGET_TYPE_METHOD", 9)]]
    extensionRanges := [extensionRange 1000 536870912]
    reservedRanges := [range 4 5, range 18 19] }
    [.mk {
        name? := some "EditionDefault"
        fields :=
          [named .optional "edition" 3 .enumeration ".google.protobuf.Edition",
           plain .optional "value" 2 .string] } []]

def oneofOptionsMessage : Message :=
  .mk {
    name? := some "OneofOptions"
    fields :=
      [named .optional "features" 1 .message ".google.protobuf.FeatureSet",
       named .repeated "uninterpreted_option" 999 .message ".google.protobuf.UninterpretedOption"]
    extensionRanges := [extensionRange 1000 536870912] } []

def enumOptionsMessage : Message :=
  .mk {
    name? := some "EnumOptions"
    fields :=
      [plain .optional "allow_alias" 2 .bool,
       { plain .optional "deprecated" 3 .bool with defaultValue? := some "false" },
       { plain .optional "deprecated_legacy_json_field_conflicts" 6 .bool with
           options? := some deprecated },
       named .optional "features" 7 .message ".google.protobuf.FeatureSet",
       named .repeated "uninterpreted_option" 999 .message ".google.protobuf.UninterpretedOption"]
    extensionRanges := [extensionRange 1000 536870912]
    reservedRanges := [range 5 6] } []

def enumValueOptionsMessage : Message :=
  .mk {
    name? := some "EnumValueOptions"
    fields :=
      [{ plain .optional "deprecated" 1 .bool with defaultValue? := some "false" },
       named .optional "features" 2 .message ".google.protobuf.FeatureSet",
       { plain .optional "debug_redact" 3 .bool with defaultValue? := some "false" },
       named .repeated "uninterpreted_option" 999 .message ".google.protobuf.UninterpretedOption"]
    extensionRanges := [extensionRange 1000 536870912] } []

def serviceOptionsMessage : Message :=
  .mk {
    name? := some "ServiceOptions"
    fields :=
      [named .optional "features" 34 .message ".google.protobuf.FeatureSet",
       { plain .optional "deprecated" 33 .bool with defaultValue? := some "false" },
       named .repeated "uninterpreted_option" 999 .message ".google.protobuf.UninterpretedOption"]
    extensionRanges := [extensionRange 1000 536870912] } []

def methodOptionsMessage : Message :=
  .mk {
    name? := some "MethodOptions"
    fields :=
      [{ plain .optional "deprecated" 33 .bool with defaultValue? := some "false" },
       { named .optional "idempotency_level" 34 .enumeration
             ".google.protobuf.MethodOptions.IdempotencyLevel" with
           defaultValue? := some "IDEMPOTENCY_UNKNOWN" },
       named .optional "features" 35 .message ".google.protobuf.FeatureSet",
       named .repeated "uninterpreted_option" 999 .message ".google.protobuf.UninterpretedOption"]
    enums :=
      [enumeration "IdempotencyLevel"
         [("IDEMPOTENCY_UNKNOWN", 0), ("NO_SIDE_EFFECTS", 1), ("IDEMPOTENT", 2)]]
    extensionRanges := [extensionRange 1000 536870912] } []

def uninterpretedOptionMessage : Message :=
  .mk {
    name? := some "UninterpretedOption"
    fields :=
      [named .repeated "name" 2 .message ".google.protobuf.UninterpretedOption.NamePart",
       plain .optional "identifier_value" 3 .string,
       plain .optional "positive_int_value" 4 .uint64,
       plain .optional "negative_int_value" 5 .int64,
       plain .optional "double_value" 6 .double,
       plain .optional "string_value" 7 .bytes,
       plain .optional "aggregate_value" 8 .string] }
    [.mk {
        name? := some "NamePart"
        fields :=
          [plain .required "name_part" 1 .string,
           plain .required "is_extension" 2 .bool] } []]

def featureSetMessage : Message :=
  .mk {
    name? := some "FeatureSet"
    fields :=
      [{ named .optional "field_presence" 1 .enumeration
             ".google.protobuf.FeatureSet.FieldPresence" with
           options? := some {} },
       { named .optional "enum_type" 2 .enumeration ".google.protobuf.FeatureSet.EnumType" with
           options? := some {} },
       { named .optional "repeated_field_encoding" 3 .enumeration
             ".google.protobuf.FeatureSet.RepeatedFieldEncoding" with
           options? := some {} },
       { named .optional "utf8_validation" 4 .enumeration
             ".google.protobuf.FeatureSet.Utf8Validation" with
           options? := some {} },
       { named .optional "message_encoding" 5 .enumeration
             ".google.protobuf.FeatureSet.MessageEncoding" with
           options? := some {} },
       { named .optional "json_format" 6 .enumeration ".google.protobuf.FeatureSet.JsonFormat" with
           options? := some {} }]
    enums :=
      [enumeration "FieldPresence"
         [("FIELD_PRESENCE_UNKNOWN", 0), ("EXPLICIT", 1), ("IMPLICIT", 2), ("LEGACY_REQUIRED", 3)],
       enumeration "EnumType"
         [("ENUM_TYPE_UNKNOWN", 0), ("OPEN", 1), ("CLOSED", 2)],
       enumeration "RepeatedFieldEncoding"
         [("REPEATED_FIELD_ENCODING_UNKNOWN", 0), ("PACKED", 1), ("EXPANDED", 2)],
       enumeration "Utf8Validation"
         [("UTF8_VALIDATION_UNKNOWN", 0), ("NONE", 1), ("VERIFY", 2)],
       enumeration "MessageEncoding"
         [("MESSAGE_ENCODING_UNKNOWN", 0), ("LENGTH_PREFIXED", 1), ("DELIMITED", 2)],
       enumeration "JsonFormat"
         [("JSON_FORMAT_UNKNOWN", 0), ("ALLOW", 1), ("LEGACY_BEST_EFFORT", 2)]]
    extensionRanges :=
      [extensionRange 1000 1001, extensionRange 1001 1002, extensionRange 9995 10000]
    reservedRanges := [range 999 1000] } []

def featureSetDefaultsMessage : Message :=
  .mk {
    name? := some "FeatureSetDefaults"
    fields :=
      [named .repeated "defaults" 1 .message
         ".google.protobuf.FeatureSetDefaults.FeatureSetEditionDefault",
       named .optional "minimum_edition" 4 .enumeration ".google.protobuf.Edition",
       named .optional "maximum_edition" 5 .enumeration ".google.protobuf.Edition"] }
    [.mk {
        name? := some "FeatureSetEditionDefault"
        fields :=
          [named .optional "edition" 3 .enumeration ".google.protobuf.Edition",
           named .optional "features" 2 .message ".google.protobuf.FeatureSet"] } []]

def sourceCodeInfoMessage : Message :=
  .mk {
    name? := some "SourceCodeInfo"
    fields :=
      [named .repeated "location" 1 .message ".google.protobuf.SourceCodeInfo.Location"] }
    [.mk {
        name? := some "Location"
        fields :=
          [{ plain .repeated "path" 1 .int32 with options? := some packed },
           { plain .repeated "span" 2 .int32 with options? := some packed },
           plain .optional "leading_comments" 3 .string,
           plain .optional "trailing_comments" 4 .string,
           plain .repeated "leading_detached_comments" 6 .string] } []]

def generatedCodeInfoMessage : Message :=
  .mk {
    name? := some "GeneratedCodeInfo"
    fields :=
      [named .repeated "annotation" 1 .message ".google.protobuf.GeneratedCodeInfo.Annotation"] }
    [.mk {
        name? := some "Annotation"
        fields :=
          [{ plain .repeated "path" 1 .int32 with options? := some packed },
           plain .optional "source_file" 2 .string,
           plain .optional "begin" 3 .int32,
           plain .optional "end" 4 .int32,
           named .optional "semantic" 5 .enumeration
             ".google.protobuf.GeneratedCodeInfo.Annotation.Semantic"]
        enums :=
          [enumeration "Semantic"
             [("NONE", 0), ("SET", 1), ("ALIAS", 2)]] } []]

def editionEnum : Enumeration :=
  enumeration "Edition"
    [("EDITION_UNKNOWN", 0), ("EDITION_PROTO2", 998), ("EDITION_PROTO3", 999),
     ("EDITION_2023", 1000), ("EDITION_1_TEST_ONLY", 1), ("EDITION_2_TEST_ONLY", 2),
     ("EDITION_99997_TEST_ONLY", 99997), ("EDITION_99998_TEST_ONLY", 99998),
     ("EDITION_99999_TEST_ONLY", 99999)]

/-- The file has no dialect, so it is read as the first one. -/
def descriptorFile : File where
  name? := some descriptorPath
  package? := some "google.protobuf"
  messages :=
    [fileDescriptorSetMessage, fileDescriptorProtoMessage, descriptorProtoMessage,
     extensionRangeOptionsMessage, fieldDescriptorProtoMessage, oneofDescriptorProtoMessage,
     enumDescriptorProtoMessage, enumValueDescriptorProtoMessage, serviceDescriptorProtoMessage,
     methodDescriptorProtoMessage, fileOptionsMessage, messageOptionsMessage,
     fieldOptionsMessage, oneofOptionsMessage, enumOptionsMessage, enumValueOptionsMessage,
     serviceOptionsMessage, methodOptionsMessage, uninterpretedOptionMessage, featureSetMessage,
     featureSetDefaultsMessage, sourceCodeInfoMessage, generatedCodeInfoMessage]
  enums := [editionEnum]
  options? := some (.ofSettings
      [(1, .text "com.google.protobuf"),
       (8, .text "DescriptorProtos"),
       (9, .choice 1),
       (11, .text "google.golang.org/protobuf/types/descriptorpb"),
       (31, .flag true),
       (36, .text "GPB"),
       (37, .text "Google.Protobuf.Reflection")])

end ProtoSource.WellKnown
