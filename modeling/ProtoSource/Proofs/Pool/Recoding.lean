import ProtoSource.Proofs.Descriptor.Plain
import ProtoSource.Proofs.Pool.Building
import ProtoSource.Proofs.Wire.Recoding

/-!
# Options under two tables

Two tables that read all options alike but those of methods give files that differ
in the options of methods only.
-/

namespace ProtoSource.Pool

open ProtoSource.Descriptor
open ProtoSource.Related
open ProtoSource.Success

/-- The tables give the same canonical form to all options but those of methods. -/
def RecodeAlike (table table' : MessageTable) : Prop :=
  ∀ kind, kind ≠ .method → ∀ options : Options kind,
    recodeOptions table' options = recodeOptions table options

namespace RecodeAlike

variable {table table' : MessageTable} (halike : RecodeAlike table table')

include halike

theorem recodeField_eq : recodeField table' = recodeField table := by
  have hoptions := funext (halike .field (by simp))
  funext field
  simp only [recodeField, hoptions]

theorem recodeEnum_eq : recodeEnum table' = recodeEnum table := by
  have hoptions := funext (halike .enumeration (by simp))
  have hvalue : recodeEnumValue table' = recodeEnumValue table := by
    have hoptions := funext (halike .enumValue (by simp))
    funext value
    simp only [recodeEnumValue, hoptions]
  funext enumeration
  simp only [recodeEnum, hoptions, hvalue]

theorem recodeBody_eq : recodeBody table' = recodeBody table := by
  have hoptions := funext (halike .message (by simp))
  have honeof : recodeOneof table' = recodeOneof table := by
    have hoptions := funext (halike .oneof (by simp))
    funext oneof
    simp only [recodeOneof, hoptions]
  have hrange : recodeRange table' = recodeRange table := by
    have hoptions := funext (halike .extensionRange (by simp))
    funext range
    simp only [recodeRange, hoptions]
  funext body
  simp only [recodeBody, hoptions, honeof, hrange, halike.recodeField_eq, halike.recodeEnum_eq]

end RecodeAlike

mutual

theorem RecodeAlike.recodeMessage_eq {table table' : MessageTable}
    (halike : RecodeAlike table table')
    (message : Message) : recodeMessage table' message = recodeMessage table message := by
  obtain ⟨body, nested⟩ := message
  simp only [recodeMessage, halike.recodeBody_eq, halike.recodeMessages_eq nested]

theorem RecodeAlike.recodeMessages_eq {table table' : MessageTable}
    (halike : RecodeAlike table table') (messages : List Message) :
    recodeMessages table' messages = recodeMessages table messages := by
  cases messages with
  | nil => simp only [recodeMessages]
  | cons message rest =>
      simp only [recodeMessages, halike.recodeMessage_eq message, halike.recodeMessages_eq rest]

end

/-- Tables that give the same canonical form to the options of methods too give the same
files. -/
theorem RecodeAlike.recodeFile_congr {table table' : MessageTable}
    (halike : RecodeAlike table table')
    (hmethods : ∀ options : Options .method,
      recodeOptions table' options = recodeOptions table options) :
    recodeFile table' = recodeFile table := by
  have hoptions := funext (halike .file (by simp))
  have hservice : recodeService table' = recodeService table := by
    have hoptions := funext (halike .service (by simp))
    have hmethod : recodeMethod table' = recodeMethod table := by
      funext method
      simp only [recodeMethod, funext hmethods]
    funext service
    simp only [recodeService, hoptions, hmethod]
  funext file
  simp only [recodeFile, hoptions, halike.recodeMessages_eq, halike.recodeEnum_eq,
    halike.recodeField_eq, hservice]

/-- What is left of one method under both tables. -/
def RecodesMethod (table table' : MessageTable) (sources : List Method) (method method' : Method) :
    Prop :=
  ∃ source ∈ sources, recodeMethod table source = .ok method ∧
    recodeMethod table' source = .ok method'

/-- The second service is the first with other options of its methods. -/
def RecodesService (table table' : MessageTable) (sources : List Service)
    (service service' : Service) :
    Prop :=
  ∃ source ∈ sources, { service with methods := service'.methods } = service' ∧
    List.Forall₂ (RecodesMethod table table' source.methods) service.methods service'.methods

theorem RecodeAlike.recodesService {table table' : MessageTable} (halike : RecodeAlike table table')
    {sources : List Service} {source service service' : Service} (hsource : source ∈ sources)
    (hservice : recodeService table source = .ok service)
    (hservice' : recodeService table' source = .ok service') :
    RecodesService table table' sources service service' := by
  have hoptions := funext (halike .service (by simp))
  simp only [recodeService, bind_eq_ok, pure_eq_ok] at hservice hservice'
  obtain ⟨options?, hopts, methods, hmethods, rfl⟩ := hservice
  simp only [hoptions, hopts, Except.ok.injEq, exists_eq_left'] at hservice'
  obtain ⟨methods', hmethods', rfl⟩ := hservice'
  refine ⟨source, hsource, rfl, ?_⟩
  exact forall₂_of_runs (mapM_eq_ok.1 hmethods) (mapM_eq_ok.1 hmethods')
    fun method hmethod _ _ hleft hright => ⟨method, hmethod, hleft, hright⟩

/-- The file under the second table is that under the first with other options of its
methods. -/
theorem RecodeAlike.recodeFile_eq {table table' : MessageTable} (halike : RecodeAlike table table')
    {source file file' : File} (hfile : recodeFile table source = .ok file)
    (hfile' : recodeFile table' source = .ok file') :
    { file with services := file'.services } = file' ∧
      List.Forall₂ (RecodesService table table' source.services) file.services file'.services := by
  have hoptions := funext (halike .file (by simp))
  simp only [recodeFile, bind_eq_ok, pure_eq_ok] at hfile hfile'
  obtain ⟨options?, hopts, messages, hmessages, enums, henums, services, hservices, extensions,
    hextensions, rfl⟩ := hfile
  simp only [hoptions, halike.recodeMessages_eq, halike.recodeEnum_eq, halike.recodeField_eq, hopts,
    hmessages, henums, hextensions, Except.ok.injEq, exists_eq_left'] at hfile'
  obtain ⟨services', hservices', rfl⟩ := hfile'
  refine ⟨rfl, ?_⟩
  exact forall₂_of_runs (mapM_eq_ok.1 hservices) (mapM_eq_ok.1 hservices')
    fun service hservice _ _ hleft hright => halike.recodesService hservice hleft hright

end ProtoSource.Pool
