import Schemreg.Confluent.Routes
import Schemreg.Lib.SharedServer
import Schemreg.Lookup.Reads
import Schemreg.Resolver

/-
  The calls of the Confluent client, from the request to the result, against a registry that
  answers its URLs.

  The registry is not part of the crate, and a parameter: a state machine that replies to what its
  interface takes a request for (`Service`). `Identifies` says what is documented of its
  identifiers. What comes back may be lost, or be the refusal of a proxy in between. An attempt that
  is retried is a request of its own, like those of other clients: both move the registry, and
  nobody reads what it replies.
-/

namespace Schemreg.Confluent

open Dialogue Target

/-! ## The client -/

/-- `SchemaByIdResponse`. -/
structure SchemaByIdResponse where
  schema : String
  schemaType : String
  references : Option (List SchemaReference)
  guid : Option SchemaGuid
  subject : Option String
  version : Option SchemaVersion
  deriving DecidableEq

structure ReadSerde extends Serde where
  schemaByIdResponse : List UInt8 → Except String SchemaByIdResponse

/-- `schema_from_id_response`. -/
def schemaFromIdResponse (body : SchemaByIdResponse) (id : Option SchemaId)
    (guid : Option SchemaGuid) : Result Schema := do
  let schemaType ← SchemaType.fromStr body.schemaType
  return ⟨id, body.guid.or guid, schemaType, body.schema, body.version, body.subject,
    body.references.getD []⟩

section

variable (serde : ReadSerde)

/-- The end of the methods that get a version of a subject. -/
def bySubject (answer : Result HttpResponse) : Result Schema := do
  let resp ← answer
  schemaFromSubjectResponse (← handleResponse serde.toSerde serde.schemaBySubjectResponse resp)

/-- The end of `get_schema_by_id` and `get_schema_by_guid`. -/
def byIdentifier (id : Option SchemaId) (guid : Option SchemaGuid) (answer : Result HttpResponse) :
    Result Schema := do
  let resp ← answer
  schemaFromIdResponse (← handleResponse serde.toSerde serde.schemaByIdResponse resp) id guid

/-- What the methods make of the end of `HttpClient::request`. -/
def outcome : (call : Resolver.Call) → Result HttpResponse → Result call.Answer
  | .registerSchema .., answer => do
      handleResponse serde.toSerde serde.registerSchemaResponse (← answer)
  | .lookupSchema .., answer =>
      match answer >>= handleResponse serde.toSerde serde.schemaBySubjectResponse with
      | .ok found => (schemaFromSubjectResponse found).map some
      | .error e => if e.isNotFound then .ok none else .error e
  | .getLatestSchema _, answer => bySubject serde answer
  | .getSchemaById id, answer => byIdentifier serde (some id) none answer

def readOutcome : Lookup.Read → Result HttpResponse → Result Schema
  | .getSchemaById id => byIdentifier serde (some id) none
  | .getSchemaByGuid guid => byIdentifier serde none (some guid)
  | .getSchemaByVersion _ _ => bySubject serde

end

/-- The methods that a resolution calls. -/
def methodOf : Resolver.Call → Call
  | .registerSchema subject schema schemaType references =>
      .registerSchema subject ⟨schema, schemaType.asStr, references⟩
  | .lookupSchema subject schema schemaType references =>
      .lookupSchema subject ⟨schema, schemaType.asStr, references⟩
  | .getLatestSchema subject => .getLatestSchema subject
  | .getSchemaById id => .getSchemaById id

/-- The methods that a decoder calls. -/
def methodOfRead : Lookup.Read → Call
  | .getSchemaById id => .getSchemaById id
  | .getSchemaByGuid guid => .getSchemaByGuid guid
  | .getSchemaByVersion subject version => .getSchemaByVersion subject version

/-! ## The registry -/

/-- A registry behind its REST interface, and what it replies to a request for a resource. -/
structure Service (σ : Type) where
  mount : List String
  interface : Interface
  documented : RestInterface mount interface
  reply : σ → Resource → HttpResponse × σ

/-- A deletion for good. -/
def Resource.isPermanent : Resource → Bool
  | .write (.deleteSubject _ permanent) => permanent
  | .write (.deleteVersion _ _ permanent) => permanent
  | _ => false

/-- The resource that an identifier names. -/
def keyResource : SchemaKey → Resource
  | .id id => .schemaById id
  | .guid guid => .schemaByGuid guid

/-- The content that a body describes. -/
def SchemaBySubjectResponse.content (body : SchemaBySubjectResponse) : RegisterSchemaRequest :=
  ⟨body.schema, body.schemaType, body.references.getD []⟩

def SchemaByIdResponse.content (body : SchemaByIdResponse) : RegisterSchemaRequest :=
  ⟨body.schema, body.schemaType, body.references.getD []⟩

/-- The identifiers that a body reports. -/
def SchemaBySubjectResponse.Reports (body : SchemaBySubjectResponse) : SchemaKey → Prop
  | .id id => body.id = id
  | .guid guid => body.guid = some guid

section

variable {σ : Type}

/-- What is documented of the identifiers of a registry. `stands` is what an identifier has ever
    been given to, `serves` what the registry still serves under it, and `filed` what becomes of a
    content that is registered, in its normal form or as it is. -/
structure Identifies (serde : ReadSerde) (reply : σ → Resource → HttpResponse × σ)
    (filed : Bool → RegisterSchemaRequest → RegisterSchemaRequest)
    (stands serves : σ → SchemaKey → Option RegisterSchemaRequest) : Prop where
  /-- A content is filed under its type. -/
  schemaType (normalize : Bool) (body : RegisterSchemaRequest) :
    (filed normalize body).schemaType = body.schemaType
  /-- An identifier is never given to anything else. -/
  immutable {s : σ} {key : SchemaKey} {content : RegisterSchemaRequest}
    (h : stands s key = some content) (resource : Resource) :
    stands (reply s resource).2 key = some content
  stood {s : σ} {key : SchemaKey} {content : RegisterSchemaRequest}
    (h : serves s key = some content) : stands s key = some content
  /-- Only what is deleted for good is no longer served. -/
  stays {s : σ} {key : SchemaKey} {content : RegisterSchemaRequest}
    (h : serves s key = some content) {resource : Resource}
    (kept : resource.isPermanent = false) : serves (reply s resource).2 key = some content
  registered {s : σ} {subject : String} {normalize : Bool} {body : RegisterSchemaRequest}
    {id : SchemaId} (h : handleResponse serde.toSerde serde.registerSchemaResponse
      (reply s (.write (.register subject normalize body))).1 = .ok id) :
    serves (reply s (.write (.register subject normalize body))).2 (.id id) =
      some (filed normalize body)
  found {s : σ} {subject : String} {normalize : Bool} {body : RegisterSchemaRequest}
    {version : SchemaBySubjectResponse}
    (h : handleResponse serde.toSerde serde.schemaBySubjectResponse
      (reply s (.write (.lookup subject normalize body))).1 = .ok version)
    {key : SchemaKey} (hkey : version.Reports key) :
    serves (reply s (.write (.lookup subject normalize body))).2 key = some (filed normalize body)
  version {s : σ} {subject : String} {named : Option Int32} {version : SchemaBySubjectResponse}
    (h : handleResponse serde.toSerde serde.schemaBySubjectResponse
      (reply s (.version subject named)).1 = .ok version)
    {key : SchemaKey} (hkey : version.Reports key) :
    serves (reply s (.version subject named)).2 key = some version.content
  /-- The body of a schema is what its identifier stands for, and what a GUID in it stands for. -/
  schema {s : σ} {key : SchemaKey} {body : SchemaByIdResponse}
    (h : handleResponse serde.toSerde serde.schemaByIdResponse
      (reply s (keyResource key)).1 = .ok body)
    {other : SchemaKey}
    (hother : other = key ∨ ∃ guid, body.guid = some guid ∧ other = .guid guid) :
    serves (reply s (keyResource key)).2 other = some body.content
  /-- What is served can be asked for. -/
  answers {s : σ} {key : SchemaKey} {content : RegisterSchemaRequest}
    (h : serves s key = some content) : ∃ body,
      handleResponse serde.toSerde serde.schemaByIdResponse (reply s (keyResource key)).1 = .ok body

end

/-! ## In between -/

/-- What becomes of a request. -/
inductive Transit where
  | lost (err : SchemaRegError)
  | refused (resp : HttpResponse)
  | served

/-- The client with its decoders, and the registry that its base URL leads to. -/
structure Connection (σ : Type) where
  client : ConfluentSchemaRegistry
  serde : ReadSerde
  service : Service σ
  leads : LeadsTo client.baseUrl service.mount

namespace Connection

variable {σ : Type} (conn : Connection σ)

/-- `HttpClient::request`, in its last attempt. -/
def exchange (registry : σ) (req : HttpRequest) : Transit → Option (Result HttpResponse × σ)
  | .lost err => some (.error err, registry)
  | .refused resp => if isSuccess resp.status then none else some (.ok resp, registry)
  | .served => (route conn.service.interface req).map fun resource =>
      let (resp, registry) := conn.service.reply registry resource
      (.ok resp, registry)

/-- A method of the client. What fails before a request is sent is the result. -/
def perform {A : Type} (method : Call) (finish : Result HttpResponse → Result A) (registry : σ)
    (transit : Transit) : Option (Result A × σ) :=
  match method.request conn.client with
  | .error err => some (.error err, registry)
  | .ok req => (conn.exchange registry req transit).map fun (answer, registry) =>
      (finish answer, registry)

def answer (registry : σ) (call : Resolver.Call) (transit : Transit) :
    Option (Resolver.Response call × σ) :=
  conn.perform (methodOf call) (outcome conn.serde call) registry transit

def read (registry : σ) (read : Lookup.Read) (transit : Transit) : Option (Result Schema × σ) :=
  conn.perform (methodOfRead read) (readOutcome conn.serde read) registry transit

/-- The registry in front of the calls of a resolution. Its other clients send what they like. -/
def server : Server σ Resolver.Call Transit Resource Resolver.Response where
  answer := conn.answer
  tick registry resource := some (conn.service.reply registry resource).2

end Connection

end Schemreg.Confluent
