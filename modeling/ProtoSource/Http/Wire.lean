import ProtoSource.Http.Rule
import ProtoSource.WellKnown.Http
import ProtoSource.Wire.Canonical

/-!
# HTTP rules on the wire

The rule of a method is read from its encoded options, of which every other field is skipped. Of
the members of a pattern the last one read counts; a custom pattern that follows a custom pattern
is merged into it.
-/

namespace ProtoSource.Http

open ProtoSource.Wire
open ProtoSource.Wire.Records
open ProtoSource.WellKnown (httpNumber)

/-- The messages around an HTTP rule. -/
inductive Part where
  | methodOptions
  | rule
  | customPattern
  deriving DecidableEq, Repr

def patternNumbers : List Nat := [2, 3, 4, 5, 6, 8]

namespace Part

def kind? : Part → Nat → Option (Kind Part)
  | .methodOptions, number => if number = httpNumber then some (.message .rule) else none
  | .rule, number =>
    match number with
    | 8 => some (.message .customPattern)
    | 11 => some (.message .rule)
    | _ => if number ∈ [1, 2, 3, 4, 5, 6, 7, 12] then some .text else none
  | .customPattern, number => if number ∈ [1, 2] then some .text else none

/-- A text outside of the pattern is empty when it is absent, so only messages and the members of
the pattern are present or not. -/
def field? (part : Part) (number : Nat) : Option (FieldSpec Part) :=
  (part.kind? number).map fun kind =>
    { kind := kind
      repeated := part = .rule && number = 11
      presence := kind.type?.isSome || (part = .rule && number ∈ patternNumbers)
      choice := if part = .rule ∧ number ∈ patternNumbers then some 0 else none }

/-- Where a fault happened: the members of a pattern go by its name. -/
def place? : Part → Nat → Option String
  | .methodOptions, _ => some "HttpMethodOptions.http"
  | .rule, number =>
    match number with
    | 1 => some "HttpRule.selector"
    | 7 => some "HttpRule.body"
    | 11 => some "HttpRule.additional_bindings"
    | 12 => some "HttpRule.response_body"
    | _ => some "HttpRule.pattern"
  | .customPattern, number =>
    match number with
    | 1 => some "CustomHttpPattern.kind"
    | _ => some "CustomHttpPattern.path"

end Part

def schema : Schema Part where
  field? := Part.field?
  place? := Part.place?

/-- The pattern in records that hold at most one member. -/
def Pattern.ofRecords? (records : List Record) : Option Pattern :=
  ((text? 2 records).map Pattern.get)
    <|> ((text? 3 records).map Pattern.put)
    <|> ((text? 4 records).map Pattern.post)
    <|> ((text? 5 records).map Pattern.delete)
    <|> ((text? 6 records).map Pattern.patch)
    <|> ((message? 8 records).map fun custom =>
      Pattern.custom ((text? 1 custom).getD "") ((text? 2 custom).getD ""))

def Binding.ofRecords (records : List Record) : Binding where
  selector := (text? 1 records).getD ""
  pattern? := Pattern.ofRecords? (schema.settle .rule records)
  body := (text? 7 records).getD ""
  responseBody := (text? 12 records).getD ""

namespace Rule

mutual

/-- The additional binding that a record of a rule holds. -/
def additionalOfRecord : Record → List Rule
  | .message number _ inner =>
    if number = 11 then [mk (.ofRecords inner) (additionalOfRecords inner)] else []
  | _ => []

def additionalOfRecords : List Record → List Rule
  | [] => []
  | record :: rest => additionalOfRecord record ++ additionalOfRecords rest

end

def ofRecords (records : List Record) : Rule :=
  mk (.ofRecords records) (additionalOfRecords records)

/-- The rule in the encoded options of a method, if there is one. -/
def ofOptions (payload : Bytes) : Except Fault (Option Rule) :=
  (schema.decode .methodOptions payload).map fun records =>
    (message? httpNumber records).map ofRecords

end Rule

/-! ## Writing -/

/-- Empty text is left out. -/
def textRecord (number : Nat) (value : String) : List Record :=
  if value.isEmpty then [] else [.text number value]

def Pattern.record : Pattern → Record
  | .get path => .text 2 path
  | .put path => .text 3 path
  | .post path => .text 4 path
  | .delete path => .text 5 path
  | .patch path => .text 6 path
  | .custom kind path => .embed 8 (textRecord 1 kind ++ textRecord 2 path)

/-- The records of a rule whose additional bindings have the records `additional`. -/
def Binding.recordsWith (binding : Binding) (additional : List Record) : List Record :=
  textRecord 1 binding.selector ++ binding.pattern?.toList.map Pattern.record ++
    textRecord 7 binding.body ++ additional ++ textRecord 12 binding.responseBody

namespace Rule

mutual

def records : Rule → List Record
  | mk binding additional => binding.recordsWith (additionalRecords additional)

/-- Rules as additional bindings of another. -/
def additionalRecords : List Rule → List Record
  | [] => []
  | rule :: rest => .embed 11 rule.records :: additionalRecords rest

end

/-- The encoded method options that hold nothing but this rule. -/
def toOptions (rule : Rule) : Bytes :=
  encode [.embed httpNumber rule.records]

end Rule

end ProtoSource.Http
