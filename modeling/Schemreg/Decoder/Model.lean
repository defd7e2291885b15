import Schemreg.Wire.Model

/-
  `src/decoder.rs`: the decoder for both wire formats.

  A registry client is the function that its lookups compute during one call of `decode`.
  The crate is modelled with its `glue` feature.
-/

namespace Schemreg.Decoder

open Checked Glue Wire

/-- `SchemaFormat`. -/
inductive SchemaFormat where
  | avro
  | protobuf
  | json
  | unknown
  deriving DecidableEq, Repr

/-- `From<SchemaType>`. -/
def SchemaFormat.ofSchemaType : SchemaType → SchemaFormat
  | .avro => .avro
  | .protobuf => .protobuf
  | .json => .json

/-- `From<GlueDataFormat>`. -/
def SchemaFormat.ofGlueDataFormat : GlueDataFormat → SchemaFormat
  | .avro => .avro
  | .json => .json
  | .protobuf => .protobuf

/-- `SchemaMetadata`. -/
inductive SchemaMetadata where
  | confluent (schema : Schema)
  | glue (schema : GlueSchema)
  deriving DecidableEq

/-- `DecodedMessage`. -/
structure DecodedMessage where
  schemaFormat : SchemaFormat
  payload : Bytes
  schemaMetadata : Option SchemaMetadata
  protobufMessageIndexes : Option (List UInt32)
  deriving DecidableEq

/-- `WireFormatDecoder`: the registries that are configured. -/
structure WireFormatDecoder where
  confluent : Option (SchemaKey → Result Schema)
  glue : Option (GlueSchemaVersionId → Result GlueSchema)

/-- A message that is handed on as it came. -/
def passthrough (data : Bytes) : DecodedMessage :=
  { schemaFormat := .unknown
    payload := data
    schemaMetadata := none
    protobufMessageIndexes := none }

variable (zlibRead : Bytes → Nat → Except String Bytes)

namespace WireFormatDecoder

/-- The Confluent branch of `decode`. -/
def decodeConfluent (client : SchemaKey → Result Schema) (data : Bytes) (key : SchemaKey)
    (payloadOffset : Nat) : Decoding DecodedMessage := do
  let afterHeader ← sliceFrom data payloadOffset
  let schema ← Outcome.ofExcept (client key)
  let (payload, protobufMessageIndexes) ←
    (if schema.schemaType = .protobuf then do
      let (indexes, consumed) ← decodeProtobufMessageIndexes afterHeader
      let payload ← sliceFrom afterHeader consumed
      .ok (payload, some indexes)
    else .ok (afterHeader, none) : Decoding (Bytes × Option (List UInt32)))
  .ok
    { schemaFormat := .ofSchemaType schema.schemaType
      payload := payload
      schemaMetadata := some (.confluent schema)
      protobufMessageIndexes := protobufMessageIndexes }

/-- The Glue branch of `decode`. -/
def decodeGlue (client : GlueSchemaVersionId → Result GlueSchema) (data : Bytes)
    (versionId : GlueSchemaVersionId) (compression : GlueCompression) (payloadOffset : Nat) :
    Decoding DecodedMessage := do
  let raw ← sliceFrom data payloadOffset
  let payload ← match compression with
    | .none => .ok raw
    | .zlib => decompressZlib zlibRead raw
  let schema ← Outcome.ofExcept (client versionId)
  .ok
    { schemaFormat := .ofGlueDataFormat schema.dataFormat
      payload := payload
      schemaMetadata := some (.glue schema)
      protobufMessageIndexes := none }

/-- Decode a wire-formatted payload. -/
def decode (self : WireFormatDecoder) (data : Bytes) : Decoding DecodedMessage := do
  match ← detectWireFormat data with
  | .confluent key payloadOffset =>
    match self.confluent with
    | none => .err (.invalidState
        "Confluent-framed message received but no Confluent registry backend is configured")
    | some client => decodeConfluent client data key payloadOffset
  | .glue versionId compression payloadOffset =>
    match self.glue with
    | none => .err (.invalidState
        "Glue-framed message received but no Glue registry backend is configured")
    | some client => decodeGlue zlibRead client data versionId compression payloadOffset
  | .invalidConfluent | .invalidGlue => .ok (passthrough data)
  | .unknown => .ok (passthrough data)

end WireFormatDecoder

end Schemreg.Decoder
