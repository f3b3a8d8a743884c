import ProtoSource.Http.Summary
import ProtoSource.Load.Basic

/-!
# Summaries

A digest of a file: its imports, its services with the signatures and HTTP bindings of their
methods, and the names of its top-level messages and enums.
-/

namespace ProtoSource

open ProtoSource.Descriptor
open ProtoSource.Text
open ProtoSource.Wire

structure MethodSummary where
  name : String
  inputType : String
  outputType : String
  clientStreaming : Bool
  serverStreaming : Bool
  http? : Option Http.Summary
  deriving DecidableEq, Repr

structure ServiceSummary where
  name : String
  methods : List MethodSummary
  deriving DecidableEq, Repr

structure FileSummary where
  name : String
  package : String
  imports : List String
  services : List ServiceSummary
  messages : List String
  enums : List String
  deriving DecidableEq, Repr

namespace Summary

def ofMethod (serviceName : String) (method : Method) : Except Error MethodSummary := do
  let fullName := Name.join serviceName method.name
  let rule? ← Http.ruleOf fullName method
  let http? ← rule?.mapM (Http.Rule.summary fullName)
  return {
    name := method.name
    inputType := Name.bare method.inputType
    outputType := Name.bare method.outputType
    clientStreaming := method.clientStreaming
    serverStreaming := method.serverStreaming
    http? }

/-- The summary of a service with the given full name. -/
def ofService (fullName : String) (service : Service) : Except Error ServiceSummary := do
  let methods ← service.methods.mapM (ofMethod fullName)
  return { name := service.name, methods }

/-- The summary of a file of `pool`. -/
def ofFile (pool : Pool) (file : File) : Except Error FileSummary := do
  let services ← (pool.services file).mapM fun found => do
    let entry ← found
    ofService entry.1 entry.2
  let messages ← (pool.messages file).mapM fun found => do return (← found).2.name
  let enums ← (pool.enums file).mapM fun found => do return (← found).2.name
  return {
    name := file.name
    package := file.package
    imports := file.imports
    services, messages, enums }

/-- The summary of the file that was asked for. -/
def ofLoaded (loaded : Loaded) : Except Error FileSummary := do
  ofFile loaded.pool (← loaded.file)

/-- The summary of the last file of an encoded set. -/
def ofSet (synthesize : Bool) (bytes : Bytes) : Except Error FileSummary := do
  ofLoaded (← Load.load synthesize bytes)

end Summary

end ProtoSource
