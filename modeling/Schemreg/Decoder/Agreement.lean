import Schemreg.Decoder.Model
import Schemreg.Protobuf.Model
import Schemreg.Wire.Detection
import Schemreg.Wire.MessageIndexes

/-
  `WireFormatDecoder::decode` and the decoders of the single formats.

  On a Confluent frame with a Protobuf schema `decode` computes what `unframe` computes, error
  and panic included (`decode_protobuf`); on a Glue frame what `decode_glue_wire_format_bytes`
  computes (`decode_glue`). A buffer with neither header is handed on.
-/

namespace Schemreg.Decoder

open Checked Glue Wire Protobuf

variable {zlibRead : Bytes → Nat → Except String Bytes} {self : WireFormatDecoder} {b rest : Bytes}

section Confluent

variable {client : SchemaKey → Result Schema} {key : SchemaKey} {schema : Schema}

theorem decodeConfluent_append (hclient : self.confluent = some client)
    (hschema : client key = .ok schema) :
    self.decode zlibRead (putPrefix key ++ rest) = (do
      let (payload, protobufMessageIndexes) ←
        (if schema.schemaType = .protobuf then do
          let (indexes, consumed) ← decodeProtobufMessageIndexes rest
          let payload ← sliceFrom rest consumed
          .ok (payload, some indexes)
        else .ok (rest, none) : Decoding (Bytes × Option (List UInt32)))
      .ok
        { schemaFormat := .ofSchemaType schema.schemaType
          payload := payload
          schemaMetadata := some (.confluent schema)
          protobufMessageIndexes := protobufMessageIndexes }) := by
  have hdetect : detectWireFormat (putPrefix key ++ rest) =
      .ok (.confluent key (putPrefix key).length) := detect_confluent_iff.mpr ⟨rfl, rest, rfl⟩
  unfold WireFormatDecoder.decode
  rw [hdetect, Outcome.bind_ok, hclient]
  dsimp only
  unfold WireFormatDecoder.decodeConfluent
  rw [sliceFrom_putPrefix, Outcome.bind_ok, hschema]
  rfl

/-- The message that `decode` returns for an unframed Protobuf message. -/
def ofUnframed (schema : Schema) (unframed : UnframedProtobuf) : DecodedMessage :=
  { schemaFormat := .protobuf
    payload := unframed.payload
    schemaMetadata := some (.confluent schema)
    protobufMessageIndexes := some unframed.messageIndexes }

theorem unframe_append (key : SchemaKey) (rest : Bytes) :
    ProtobufSchemaDecoder.new.unframe (putPrefix key ++ rest) = (do
      let (messageIndexes, offset) ← decodeProtobufMessageIndexes rest
      let payload ← sliceFrom rest offset
      .ok ⟨key, messageIndexes, payload⟩) := by
  have hstart : decodeWireFormatBytes (putPrefix key ++ rest) = .ok (key, rest) :=
    decodeWireFormat_append key rest
  unfold ProtobufSchemaDecoder.unframe
  rw [hstart, Outcome.bind_ok]
  rfl

/-- On a Protobuf schema `decode` is `unframe`. -/
theorem decode_protobuf (hclient : self.confluent = some client)
    (hschema : client key = .ok schema) (htype : schema.schemaType = .protobuf) :
    self.decode zlibRead (putPrefix key ++ rest) =
      (ProtobufSchemaDecoder.new.unframe (putPrefix key ++ rest) >>= fun unframed =>
        .ok (ofUnframed schema unframed)) := by
  rw [decodeConfluent_append hclient hschema, unframe_append, if_pos htype, htype]
  cases hidx : decodeProtobufMessageIndexes rest with
  | ok found =>
    obtain ⟨indexes, consumed⟩ := found
    have hle := (decodeIndexes_bounds hidx).1
    simp only [Outcome.bind_ok, sliceFrom_of_le hle]
    rfl
  | err e => rfl
  | panic p => rfl

/-- On any other schema `decode` strips the prefix. -/
theorem decode_other (hclient : self.confluent = some client)
    (hschema : client key = .ok schema) (htype : schema.schemaType ≠ .protobuf) :
    ∃ message, self.decode zlibRead (putPrefix key ++ rest) = .ok message ∧
      message.payload = rest := by
  rw [decodeConfluent_append hclient hschema, if_neg htype]
  exact ⟨_, rfl, rfl⟩

end Confluent

section Glue

variable {client : GlueSchemaVersionId → Result GlueSchema} {id : GlueSchemaVersionId}
  {c : GlueCompression} {schema : GlueSchema}

/-- On a Glue frame `decode` returns the payload of `decode_glue_wire_format_bytes`. -/
theorem decode_glue (hclient : self.glue = some client) (hschema : client id = .ok schema) :
    self.decode zlibRead (header id c ++ rest) =
      (decodeGlueWireFormatBytes zlibRead (header id c ++ rest) >>= fun decoded =>
        .ok
          { schemaFormat := .ofGlueDataFormat schema.dataFormat
            payload := decoded.2
            schemaMetadata := some (.glue schema)
            protobufMessageIndexes := none }) := by
  have hdetect : detectWireFormat (header id c ++ rest) = .ok (.glue id c glueHeaderSize) :=
    detect_glue_iff.mpr ⟨rfl, rest, rfl⟩
  unfold WireFormatDecoder.decode
  rw [hdetect, Outcome.bind_ok, hclient, decodeGlue_append]
  dsimp only
  unfold WireFormatDecoder.decodeGlue
  rw [sliceFrom_header, Outcome.bind_ok, hschema]
  cases c with
  | none => rfl
  | zlib =>
    unfold inflate
    dsimp only
    cases decompressZlib zlibRead rest with
    | ok payload => rfl
    | err e => rfl
    | panic p => rfl

end Glue

/-- A buffer whose header no decoder accepts. -/
theorem decode_unrecognised (hconfluent : ¬ (decodeWireFormatBytes b).IsOk)
    (hglue : ¬ (validateGlueWireHeader b).IsOk) :
    self.decode zlibRead b = .ok (passthrough b) := by
  rcases detectWireFormat_cases b with ⟨key, rest, -, rfl⟩ | ⟨id, c, rest, -, rfl⟩ | hrej
  · exact absurd ⟨_, decodeWireFormat_append key rest⟩ hconfluent
  · exact absurd ⟨_, validate_append id c rest⟩ hglue
  · obtain ⟨d, hdetect, hd⟩ := hrej.detected
    unfold WireFormatDecoder.decode
    rw [hdetect]
    rcases hd with rfl | rfl | rfl <;> rfl

/-- What `decode` and the decoders of the single formats agree on for the buffer `b`. -/
structure Agrees (zlibRead : Bytes → Nat → Except String Bytes) (self : WireFormatDecoder)
    (b : Bytes) : Prop where
  protobuf : ∀ key rest client schema, decodeWireFormatBytes b = .ok (key, rest) →
    self.confluent = some client → client key = .ok schema → schema.schemaType = .protobuf →
    (∃ message unframed, self.decode zlibRead b = .ok message ∧
      ProtobufSchemaDecoder.new.unframe b = .ok unframed ∧
      message.protobufMessageIndexes = some unframed.messageIndexes ∧
      message.payload = unframed.payload) ∨
    (¬ (self.decode zlibRead b).IsOk ∧ ¬ (ProtobufSchemaDecoder.new.unframe b).IsOk)
  other : ∀ key rest client schema, decodeWireFormatBytes b = .ok (key, rest) →
    self.confluent = some client → client key = .ok schema → schema.schemaType ≠ .protobuf →
    ∃ message, self.decode zlibRead b = .ok message ∧ message.payload = rest
  glue : ∀ id c client schema, validateGlueWireHeader b = .ok (id, c) →
    self.glue = some client → client id = .ok schema → ∀ payload,
    (∃ message, self.decode zlibRead b = .ok message ∧ message.payload = payload) ↔
      decodeGlueWireFormatBytes zlibRead b = .ok (id, payload)
  unrecognised : ¬ (decodeWireFormatBytes b).IsOk → ¬ (validateGlueWireHeader b).IsOk →
    self.decode zlibRead b = .ok (passthrough b)

/-- `decode` agrees with the decoders of the single formats on every buffer. -/
theorem decode_agrees (zlibRead : Bytes → Nat → Except String Bytes) (self : WireFormatDecoder)
    (b : Bytes) : Agrees zlibRead self b where
  protobuf key rest client schema hframed hclient hschema htype := by
    obtain rfl := decodeWireFormat_eq_ok.mp hframed
    rw [decode_protobuf hclient hschema htype]
    cases ProtobufSchemaDecoder.new.unframe (putPrefix key ++ rest) with
    | ok unframed => exact Or.inl ⟨_, unframed, rfl, rfl, rfl, rfl⟩
    | err e => exact Or.inr ⟨Outcome.not_isOk_err e, Outcome.not_isOk_err e⟩
    | panic p => exact Or.inr ⟨Outcome.not_isOk_panic p, Outcome.not_isOk_panic p⟩
  other key rest client schema hframed hclient hschema htype := by
    obtain rfl := decodeWireFormat_eq_ok.mp hframed
    exact decode_other hclient hschema htype
  glue id c client schema hvalid hclient hschema payload := by
    obtain ⟨rest, rfl⟩ := validate_eq_ok.mp hvalid
    rw [decode_glue hclient hschema, decodeGlue_append]
    cases inflate zlibRead c rest with
    | ok raw =>
      constructor
      · rintro ⟨message, hmessage, rfl⟩
        cases hmessage
        rfl
      · intro hdecoded
        cases hdecoded
        exact ⟨_, rfl, rfl⟩
    | err e =>
      constructor
      · rintro ⟨message, hmessage, -⟩
        cases hmessage
      · intro hdecoded
        cases hdecoded
    | panic p =>
      constructor
      · rintro ⟨message, hmessage, -⟩
        cases hmessage
      · intro hdecoded
        cases hdecoded
  unrecognised := decode_unrecognised

end Schemreg.Decoder
