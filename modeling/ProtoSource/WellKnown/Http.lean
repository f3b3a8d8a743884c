import ProtoSource.WellKnown.Declare

/-!
# HTTP annotations

The files that declare HTTP rules and the method option that carries one. The option is imported
through the annotations file, which declares the rules itself or imports them.
-/

namespace ProtoSource.WellKnown

open ProtoSource.Descriptor

def descriptorPath : String := "google/protobuf/descriptor.proto"

def annotationsPath : String := "google/api/annotations.proto"

def httpPath : String := "google/api/http.proto"

/-- The package of HTTP rules. -/
def httpPackage : String := "google.api"

/-- The number of the HTTP option among the options of a method. -/
def httpNumber : Nat := 72295728

def httpRuleType : String := ".google.api.HttpRule"

def httpMessage : Message :=
  .mk {
    name? := some "Http"
    fields :=
      [named .repeated "rules" 1 .message httpRuleType,
       plain .optional "fully_decode_reserved_expansion" 2 .bool] } []

/-- A member of the pattern of a rule. -/
def patternField (field : Field) : Field :=
  { field with oneofIndex? := some 0 }

def httpRuleMessage : Message :=
  .mk {
    name? := some "HttpRule"
    fields :=
      [plain .optional "selector" 1 .string,
       patternField (plain .optional "get" 2 .string),
       patternField (plain .optional "put" 3 .string),
       patternField (plain .optional "post" 4 .string),
       patternField (plain .optional "delete" 5 .string),
       patternField (plain .optional "patch" 6 .string),
       patternField (named .optional "custom" 8 .message ".google.api.CustomHttpPattern"),
       plain .optional "body" 7 .string,
       plain .optional "response_body" 12 .string,
       named .repeated "additional_bindings" 11 .message httpRuleType]
    oneofs := [{ name? := some "pattern" }] } []

def customPatternMessage : Message :=
  .mk {
    name? := some "CustomHttpPattern"
    fields :=
      [plain .optional "kind" 1 .string,
       plain .optional "path" 2 .string] } []

/-- The file of HTTP rules. -/
def httpFile : File where
  name? := some httpPath
  package? := some httpPackage
  messages := [httpMessage, httpRuleMessage, customPatternMessage]
  dialect? := some "proto3"

/-- The method option that carries an HTTP rule. -/
def httpExtension : Field :=
  { named .optional "http" httpNumber .message httpRuleType with
    extendee? := some ".google.protobuf.MethodOptions" }

/-- The file of the HTTP option together with the rules. -/
def annotationsWithRules : File :=
  { httpFile with
    name? := some annotationsPath
    imports := [descriptorPath]
    extensions := [httpExtension] }

/-- The file of the HTTP option, which imports the rules. -/
def annotationsImportingRules : File where
  name? := some annotationsPath
  package? := some httpPackage
  imports := [httpPath, descriptorPath]
  extensions := [httpExtension]
  dialect? := some "proto3"

end ProtoSource.WellKnown
