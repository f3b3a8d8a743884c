import ProtoSource.Json.Writer
import ProtoSource.Summary

/-!
# Summaries as text

A summary as a short listing, in which `verbose` adds the names behind the counts, and as JSON.
-/

namespace ProtoSource

open ProtoSource.Json

namespace Http.Summary

def line (summary : Http.Summary) : String :=
  "    " ++ summary.verb ++ " " ++ summary.path ++
    match summary.body? with
    | some body => " (body: " ++ body ++ ")"
    | none => ""

def document (summary : Http.Summary) : Document :=
  .record ([("verb", .text summary.verb), ("path", .text summary.path)] ++
    summary.body?.toList.map fun body => ("body", .text body))

end Http.Summary

namespace MethodSummary

/-- A type with the mark of a stream. -/
def streamed (isStream : Bool) (type : String) : String :=
  if isStream then "stream " ++ type else type

def lines (method : MethodSummary) : List String :=
  ("  • " ++ method.name ++ " (" ++ streamed method.clientStreaming method.inputType ++ ") → (" ++
      streamed method.serverStreaming method.outputType ++ ")") ::
    method.http?.toList.map Http.Summary.line

def document (method : MethodSummary) : Document :=
  .record ([("name", .text method.name), ("input_type", .text method.inputType),
      ("output_type", .text method.outputType),
      ("client_streaming", .flag method.clientStreaming),
      ("server_streaming", .flag method.serverStreaming)] ++
    method.http?.toList.map fun http => ("http", http.document))

end MethodSummary

namespace ServiceSummary

def lines (service : ServiceSummary) : List String :=
  "" :: ("Service: " ++ service.name) :: service.methods.flatMap MethodSummary.lines

def document (service : ServiceSummary) : Document :=
  .record [("name", .text service.name),
    ("methods", .list (service.methods.map MethodSummary.document))]

end ServiceSummary

namespace FileSummary

/-- The lines of a listing. -/
def lines (verbose : Bool) (summary : FileSummary) : List String :=
  let named (mark : String) (names : List String) := if verbose then names.map (mark ++ ·) else []
  ["File:", "  Name: " ++ summary.name] ++
    (if summary.package.isEmpty then [] else ["  Package: " ++ summary.package]) ++
    ["  Imports: " ++ toString summary.imports.length] ++
    named "    " summary.imports ++
    summary.services.flatMap ServiceSummary.lines ++
    ["", "Messages: " ++ toString summary.messages.length] ++
    named "  • " summary.messages ++
    ["Enums: " ++ toString summary.enums.length] ++
    named "  • " summary.enums

def listing (verbose : Bool) (summary : FileSummary) : String :=
  String.join ((summary.lines verbose).map (· ++ "\n"))

def document (summary : FileSummary) : Document :=
  .record [("name", .text summary.name), ("package", .text summary.package),
    ("imports", .list (summary.imports.map .text)),
    ("services", .list (summary.services.map ServiceSummary.document)),
    ("messages", .list (summary.messages.map .text)),
    ("enums", .list (summary.enums.map .text))]

/-- The summary as a JSON text. -/
def json (summary : FileSummary) : String :=
  summary.document.write ++ "\n"

end FileSummary

end ProtoSource
