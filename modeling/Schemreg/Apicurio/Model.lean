import Schemreg.Http
import Schemreg.Cache.Model

/-
  `src/apicurio/mod.rs`: the lookups of the Apicurio client.

  A GET is named by what its URL is made of (`Get`). The transport and the JSON decoder are
  parameters of the client. `version_schema` sends two GETs; `combine` is what it makes of
  their answers, so that other clients may act between the two.
-/

namespace Schemreg.Apicurio

/-- The GETs of the lookups: `/groups/{g}/artifacts/{a}/versions/{expr}`, its `/content`,
    and `/ids/globalIds/{id}`. -/
inductive Get where
  | version (artifact : ArtifactId) (expression : String)
  | content (artifact : ArtifactId) (expression : String) (dereference : Bool)
  | globalId (id : SchemaId) (dereference : Bool)
  deriving DecidableEq

/-- `serde_json::Number`. -/
inductive Number where
  | posInt (n : UInt64)
  | negInt (n : Int64)
  | float
  deriving DecidableEq, Repr

def Number.asI64 : Number → Option Int64
  | .posInt n => if n ≤ 0x7FFFFFFFFFFFFFFF then some n.toInt64 else none
  | .negInt n => some n
  | .float => none

/-- `serde_json::Value`, as far as a version is read from it. -/
inductive Value where
  | string (s : String)
  | number (n : Number)
  | other
  deriving DecidableEq, Repr

/-- `VersionMetaData`. -/
structure VersionMetaData where
  globalId : Int64
  version : Option Value
  artifactType : Option String
  groupId : Option String
  artifactId : Option String
  deriving DecidableEq, Repr

/-- `ApicurioError`. -/
structure ApicurioError where
  detail : Option String
  title : Option String
  message : Option String
  deriving DecidableEq, Repr

def ApicurioError.intoMessage (e : ApicurioError) : String :=
  ((e.detail.or e.message).or e.title).getD "unknown error"

/-- `serde_json::from_slice` at the types that the client decodes. -/
structure Serde where
  versionMetaData : List UInt8 → Except String VersionMetaData
  apicurioError : List UInt8 → Option ApicurioError

/-- `ApicurioSchemaRegistry`. -/
structure ApicurioSchemaRegistry where
  request : Get → Result HttpResponse
  serde : Serde
  dereference : Bool

def latestVersionExpression : String := "branch=latest"

def hdrArtifactType : String := "x-registry-artifacttype"

/-! ## Subjects -/

/-- Parse a subject after validating it, and validate its components on their own. -/
def artifactId (subject : String) : Result ArtifactId := do
  validateSubject subject
  let id := ArtifactId.fromSubject subject
  if id.group.isEmpty || id.artifact.isEmpty then
    .error (.config ("Apicurio subject must be '\x7bgroup\x7d/\x7bartifact\x7d' or " ++
      "'\x7bartifact\x7d' with non-empty components"))
  validateSubject id.group
  validateSubject id.artifact
  return id

/-! ## Responses -/

def isSuccess (status : UInt16) : Bool := 200 ≤ status && status < 300

def parseErrorBody (serde : Serde) (body : List UInt8) : String :=
  match serde.apicurioError body with
  | some e => e.intoMessage
  | none =>
      let preview := Utf8.fromUtf8Lossy body
      if preview.isEmpty then "<empty>" else String.ofList (preview.toList.take 256)

/-- `handle_json_response`, for the metadata of a version. -/
def handleJsonResponse (serde : Serde) (resp : HttpResponse) : Result VersionMetaData :=
  if isSuccess resp.status then
    match serde.versionMetaData resp.body with
    | .ok metaData => .ok metaData
    | .error e => .error (.invalidState ("failed to parse Apicurio response: " ++ e))
  else
    let msg := parseErrorBody serde resp.body
    if resp.status = 401 ∨ resp.status = 403 then .error (.auth resp.status msg)
    else if resp.status = 404 then .error (.api 40401 msg)
    else if resp.status = 409 then .error (.api 40902 msg)
    else .error (.http resp.status msg)

/-- `get_content`, from the response on. -/
def handleContentResponse (serde : Serde) (resp : HttpResponse) : Result HttpResponse :=
  if resp.status = 404 then .error (.api 40401 (parseErrorBody serde resp.body))
  else if resp.status = 401 ∨ resp.status = 403 then
    .error (.auth resp.status (parseErrorBody serde resp.body))
  else if !isSuccess resp.status then .error (.http resp.status (parseErrorBody serde resp.body))
  else .ok resp

def ApicurioSchemaRegistry.getJson (client : ApicurioSchemaRegistry) (get : Get) :
    Result VersionMetaData := do
  handleJsonResponse client.serde (← client.request get)

def ApicurioSchemaRegistry.getContent (client : ApicurioSchemaRegistry) (get : Get) :
    Result HttpResponse := do
  handleContentResponse client.serde (← client.request get)

/-- The artifact type of a header, which defaults to Avro. -/
def artifactTypeFromHeaders (resp : HttpResponse) : SchemaType :=
  match resp.header hdrArtifactType with
  | some s => (SchemaType.fromStr s).toOption.getD .avro
  | none => .avro

def contentAsUtf8 (resp : HttpResponse) : Result String :=
  match Utf8.fromUtf8 resp.body with
  | .ok text => .ok text
  | .error e => .error (.wireFormat ("invalid UTF-8 in Apicurio schema content: " ++ e.toString))

/-- Apicurio numbers global IDs as `int64`, while the wire format carries a `u32`. -/
def globalIdToSchemaId (globalId : Int64) : Result SchemaId :=
  if globalId.toInt < 0 ∨ globalId.toInt > 0xFFFFFFFF then
    .error (.invalidState ("Apicurio global_id " ++ toString globalId.toInt ++
      " is outside the u32 range the Confluent wire format can carry"))
  else .ok ⟨globalId.toUInt64.toUInt32⟩

/-- A negative version means "latest". -/
def versionExpression (version : SchemaVersion) : String :=
  if version.asI32.toInt < 0 then latestVersionExpression else toString version.asI32.toInt

def digit (c : Char) : Option Nat :=
  if '0' ≤ c ∧ c ≤ '9' then some (c.toNat - '0'.toNat) else none

/-- The value of a sequence of decimal digits. -/
def digits (cs : List Char) : Option Nat :=
  match cs with
  | [] => none
  | cs => cs.foldlM (fun n c => (digit c).map (n * 10 + ·)) 0

/-- `str::parse::<i32>`. -/
def parseI32 (s : String) : Option Int32 := do
  let n ← match s.toList with
    | '-' :: cs => (digits cs).map fun n => -(n : Int)
    | '+' :: cs => (digits cs).map fun n => (n : Int)
    | cs => (digits cs).map fun n => (n : Int)
  if -2147483648 ≤ n ∧ n ≤ 2147483647 then some (Int32.ofInt n) else none

def parseVersion : Value → Option SchemaVersion
  | .string s => (parseI32 s).map SchemaVersion.mk
  | .number n => n.asI64.map fun n => ⟨n.toInt32⟩
  | .other => none

/-! ## Schemas -/

/-- `schema_from_global_id_response`: subject and version are unavailable. -/
def schemaFromGlobalIdResponse (resp : HttpResponse) (id : SchemaId) : Result Schema := do
  let schemaType := artifactTypeFromHeaders resp
  let schema ← contentAsUtf8 resp
  return ⟨some id, none, schemaType, schema, none, none, []⟩

/-- The subject that the server reported, or else the one that was asked for. -/
def resolvedSubject (metaData : VersionMetaData) (subject : String) : String :=
  match metaData.groupId, metaData.artifactId with
  | some group, some name => group ++ "/" ++ name
  | _, _ => subject

/-- The reported artifact type, which defaults to Avro. -/
def schemaTypeOf (metaData : VersionMetaData) : Result SchemaType :=
  match metaData.artifactType with
  | some s => SchemaType.fromStr s
  | none => .ok .avro

/-- `version_schema`, from the answers to its two GETs. -/
def combine (metaData : VersionMetaData) (content : HttpResponse) (subject : String) :
    Result Schema := do
  let schemaType ← schemaTypeOf metaData
  let id ← globalIdToSchemaId metaData.globalId
  let schema ← contentAsUtf8 content
  return ⟨some id, none, schemaType, schema, metaData.version.bind parseVersion,
    some (resolvedSubject metaData subject), []⟩

/-- What a schema takes from its metadata and its content. -/
theorem combine_ok {metaData : VersionMetaData} {content : HttpResponse} {subject : String}
    {schema : Schema} (h : combine metaData content subject = .ok schema) :
    (∃ id, schema.id = some id ∧ globalIdToSchemaId metaData.globalId = .ok id) ∧
      schema.version = metaData.version.bind parseVersion ∧
      contentAsUtf8 content = .ok schema.schema ∧ schema.guid = none ∧
      schema.subject = some (resolvedSubject metaData subject) := by
  unfold combine at h
  obtain ⟨_, _, h⟩ := Result.bind_eq_ok.mp h
  obtain ⟨id, hid, h⟩ := Result.bind_eq_ok.mp h
  obtain ⟨text, htext, h⟩ := Result.bind_eq_ok.mp h
  cases h
  exact ⟨⟨id, rfl, hid⟩, rfl, htext, rfl, rfl⟩

namespace ApicurioSchemaRegistry

/-- Two round trips: the content route returns the text and nothing that identifies it. -/
def versionSchema (client : ApicurioSchemaRegistry) (artifact : ArtifactId)
    (expression subject : String) : Result Schema := do
  let metaData ← client.getJson (.version artifact expression)
  let content ← client.getContent (.content artifact expression client.dereference)
  combine metaData content subject

/-- `get_latest_schema_impl`. -/
def getLatestSchema (client : ApicurioSchemaRegistry) (subject : String) : Result Schema := do
  let artifact ← artifactId subject
  client.versionSchema artifact latestVersionExpression subject

/-- `get_schema_by_version_impl`. -/
def getSchemaByVersion (client : ApicurioSchemaRegistry) (subject : String)
    (version : SchemaVersion) : Result Schema := do
  let artifact ← artifactId subject
  client.versionSchema artifact (versionExpression version) subject

def getSchemaById (client : ApicurioSchemaRegistry) (id : SchemaId) : Result Schema := do
  let resp ← client.getContent (.globalId id client.dereference)
  schemaFromGlobalIdResponse resp id

/-- The default of `SchemaRegistryClient`. -/
def getSchemaByGuid (_client : ApicurioSchemaRegistry) (_guid : SchemaGuid) : Result Schema :=
  .error (.notSupported "get_schema_by_guid is not supported by this registry")

/-- The answer of the client to a lookup of the cache. -/
def answer (client : ApicurioSchemaRegistry) : Cache.Lookup → Result Schema
  | .byKey .id id => client.getSchemaById id
  | .byKey .guid guid => client.getSchemaByGuid guid
  | .latest subject => client.getLatestSchema subject
  | .byVersion subject version => client.getSchemaByVersion subject version

end ApicurioSchemaRegistry

end Schemreg.Apicurio
