import Mathlib.Logic.Function.Basic
import Schemreg.Confluent.Model
import Schemreg.Traits

/-
  The operations of the Confluent client, and the registry that they talk to.

  The registry is not part of the crate. It is here as the state machine that the crate's
  documentation describes: registering known content returns its ID, a deletion has two stages,
  and each refusal has its error code. What it decides by (the normal form and the compatibility
  of contents) is a parameter, and so is how it renders an answer as an HTTP response.
-/

namespace Schemreg.Confluent

open Retry

/-- `RegisterSchemaRequest`. -/
structure RegisterSchemaRequest where
  schema : String
  schemaType : String
  references : List SchemaReference
  deriving DecidableEq

/-- The requests of the operations, by what their URL and body are made of. A version that is
    not named is `latest`. -/
inductive Request where
  | register (subject : String) (normalize : Bool) (body : RegisterSchemaRequest)
  | lookup (subject : String) (normalize : Bool) (body : RegisterSchemaRequest)
  | deleteSubject (subject : String) (permanent : Bool)
  | deleteVersion (subject : String) (version : Option Int32) (permanent : Bool)
  | putConfig (subject : Option String) (level : CompatibilityLevel)

/-! ## The registry -/

/-- A version of a subject. It is hidden when it is soft-deleted. -/
structure Stored where
  id : SchemaId
  version : Int32
  content : RegisterSchemaRequest
  deleted : Bool
  deriving DecidableEq

/-- The state of a registry: the versions of each subject in order, the IDs of all contents,
    and the compatibility policies (of a subject, or the global one). -/
structure Registry where
  subjects : String → List Stored
  ids : List (RegisterSchemaRequest × SchemaId)
  config : Option String → Option CompatibilityLevel

/-- What a registry decides by. -/
structure Policy where
  normalize : RegisterSchemaRequest → RegisterSchemaRequest
  compatible : Option CompatibilityLevel → List RegisterSchemaRequest → RegisterSchemaRequest → Bool

inductive Answer where
  | registered (id : SchemaId)
  | found (subject : String) (stored : Stored)
  | versions (versions : List Int32)
  | version (version : Int32)
  | config (level : CompatibilityLevel)
  | refused (status : UInt16) (error : ErrorResponse)

def notFound (code : Int32) (message : String) : Answer := .refused 404 ⟨code, message⟩

def live (versions : List Stored) : List Stored := versions.filter fun v => !v.deleted

def latest (versions : List Stored) : Option Int32 := ((live versions).getLast?).map Stored.version

def nextVersion (versions : List Stored) : Int32 := (versions.map Stored.version).foldl max 0 + 1

namespace Registry

def store (registry : Registry) (subject : String) (versions : List Stored) : Registry :=
  { registry with subjects := Function.update registry.subjects subject versions }

/-- The ID of a content, which is a new one for new content. -/
def idOf (registry : Registry) (content : RegisterSchemaRequest) : SchemaId :=
  (registry.ids.lookup content).getD ⟨UInt32.ofNat (registry.ids.length + 1)⟩

/-- The content as a new version. -/
def add (registry : Registry) (subject : String) (content : RegisterSchemaRequest) : Registry :=
  let versions := registry.subjects subject
  let stored : Stored := ⟨registry.idOf content, nextVersion versions, content, false⟩
  { registry.store subject (versions ++ [stored]) with
    ids := (content, registry.idOf content) :: registry.ids }

def find (registry : Registry) (subject : String) (content : RegisterSchemaRequest) :
    Option Stored :=
  (live (registry.subjects subject)).find? fun v => v.content = content

variable (policy : Policy)

def content (normalize : Bool) (body : RegisterSchemaRequest) : RegisterSchemaRequest :=
  if normalize then policy.normalize body else body

/-- Register a content, unless it is there already. -/
def register (registry : Registry) (subject : String) (content : RegisterSchemaRequest) :
    Answer × Registry :=
  match registry.find subject content with
  | some stored => (.registered stored.id, registry)
  | none =>
      let level := (registry.config (some subject)).or (registry.config none)
      let earlier := (live (registry.subjects subject)).map Stored.content
      if policy.compatible level earlier content then
        (.registered (registry.idOf content), registry.add subject content)
      else
        (.refused 409 ⟨409, "Schema being registered is incompatible with an earlier schema"⟩,
          registry)

def lookup (registry : Registry) (subject : String) (content : RegisterSchemaRequest) : Answer :=
  if live (registry.subjects subject) = [] then
    notFound ErrorCode.subjectNotFound ("Subject '" ++ subject ++ "' not found.")
  else
    match registry.find subject content with
    | some stored => .found subject stored
    | none => notFound ErrorCode.schemaNotFound "Schema not found"

/-- A soft delete hides the live versions; a permanent one removes the hidden ones. -/
def deleteSubject (registry : Registry) (subject : String) (permanent : Bool) :
    Answer × Registry :=
  let versions := registry.subjects subject
  if versions = [] then
    (notFound ErrorCode.subjectNotFound ("Subject '" ++ subject ++ "' not found."), registry)
  else if permanent then
    if live versions = [] then
      (.versions (versions.map Stored.version), registry.store subject [])
    else
      (notFound ErrorCode.subjectNotSoftDeleted ("Subject '" ++ subject ++
        "' was not deleted first before being permanently deleted"), registry)
  else if live versions = [] then
    (notFound ErrorCode.subjectSoftDeleted ("Subject '" ++ subject ++ "' was soft deleted."),
      registry)
  else
    (.versions ((live versions).map Stored.version),
      registry.store subject (versions.map fun v => { v with deleted := true }))

/-- The same two stages, for one version. -/
def deleteVersion (registry : Registry) (subject : String) (named : Option Int32)
    (permanent : Bool) : Answer × Registry :=
  let versions := registry.subjects subject
  if versions = [] then
    (notFound ErrorCode.subjectNotFound ("Subject '" ++ subject ++ "' not found."), registry)
  else
    match named.or (latest versions) with
    | none => (notFound ErrorCode.versionNotFound "Version not found.", registry)
    | some version =>
        let entries := versions.filter fun v => v.version = version
        if entries = [] then
          (notFound ErrorCode.versionNotFound "Version not found.", registry)
        else if permanent then
          if live entries = [] then
            (.version version, registry.store subject (versions.filter fun v => v.version ≠ version))
          else
            (notFound ErrorCode.versionNotSoftDeleted
              "Version was not deleted first before being permanently deleted", registry)
        else if live entries = [] then
          (notFound ErrorCode.versionSoftDeleted "Version was soft deleted.", registry)
        else
          (.version version, registry.store subject
            (versions.map fun v => if v.version = version then { v with deleted := true } else v))

def apply (registry : Registry) : Request → Answer × Registry
  | .register subject normalize body =>
      registry.register policy subject (content policy normalize body)
  | .lookup subject normalize body =>
      (registry.lookup subject (content policy normalize body), registry)
  | .deleteSubject subject permanent => registry.deleteSubject subject permanent
  | .deleteVersion subject version permanent => registry.deleteVersion subject version permanent
  | .putConfig subject level =>
      (.config level,
        { registry with config := Function.update registry.config subject (some level) })

end Registry

/-- The registry behind its HTTP interface. -/
def serve (policy : Policy) (respond : Answer → HttpResponse) (req : Request)
    (registry : Registry) : HttpResponse × Registry :=
  let (answer, registry) := registry.apply policy req
  (respond answer, registry)

/-! ## The client -/

/-- `version_path_segment`. -/
def versionPathSegment (version : SchemaVersion) : Option Int32 :=
  if version.asI32 < 0 then none else some version.asI32

/-- `schema_from_subject_response`. -/
def schemaFromSubjectResponse (body : SchemaBySubjectResponse) : Result Schema := do
  let schemaType ← SchemaType.fromStr body.schemaType
  return ⟨some body.id, body.guid, schemaType, body.schema, some body.version, some body.subject,
    body.references.getD []⟩

/-- The request of an operation. -/
def requestOf (normalize : Bool) : Operation → Result Request
  | .registerSchema subject schema schemaType references => do
      validateSubject subject
      return .register subject normalize ⟨schema, schemaType.asStr, references⟩
  | .lookupSchema subject schema schemaType references => do
      validateSubject subject
      return .lookup subject normalize ⟨schema, schemaType.asStr, references⟩
  | .deleteSubject subject permanent => do
      validateSubject subject
      return .deleteSubject subject permanent
  | .deleteVersion subject version permanent => do
      validateSubject subject
      return .deleteVersion subject (versionPathSegment version) permanent
  | .setCompatibility subject level => do
      if subject.isEmpty then return .putConfig none level
      validateSubject subject
      return .putConfig (some subject) level

/-- What an operation makes of the response. -/
def outcomeOf (serde : Serde) (resp : HttpResponse) : Operation → Result Returned
  | .registerSchema .. => return .id (← handleResponse serde serde.registerSchemaResponse resp)
  | .lookupSchema .. =>
      match handleResponse serde serde.schemaBySubjectResponse resp with
      | .ok found => return .found (some (← schemaFromSubjectResponse found))
      | .error e => if e.isNotFound then .ok (.found none) else .error e
  | .deleteSubject .. => return .versions (← handleResponse serde serde.versions resp)
  | .deleteVersion .. => return .version ⟨← handleResponse serde serde.version resp⟩
  | .setCompatibility .. => do
      handleUnitResponse serde resp
      return .unit

/-- An operation of the client. -/
def program (serde : Serde) (normalize : Bool) (op : Operation) : Requests Request :=
  match requestOf normalize op with
  | .error err => .done (some (.error err))
  | .ok req => .send req fun answer => .done (some (answer >>= fun resp => outcomeOf serde resp op))

end Schemreg.Confluent
