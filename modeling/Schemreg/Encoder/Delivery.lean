import Schemreg.Decoder.Agreement
import Schemreg.Encoder.Served
import Schemreg.Wire.RoundTrip

/-
  From the encoders of the crate to `WireFormatDecoder` and `decode_schema_id_header`.

  Both read the message indexes by the schema type that the registry serves, and an encoder
  writes them by its own. So a frame is read as it was written if the key stands for a schema of
  the encoder's type (`delivered_of_finish`). An encoder that registers or looks up its schema
  frames with such keys only. One that follows the latest version frames what it has serialised
  itself under a schema that it never looks at, of whatever type.
-/

namespace Schemreg.Encoder

open CacheInner (CallId)
open Checked Decoder Lookup Transition Wire

variable {Value Parsed : Type}

/-- The encoders that the crate builds. -/
inductive OfCrate : {Value Parsed : Type} → SchemaEncoder Value Parsed → Prop where
  | confluent (settings : Settings) (schemaType : SchemaType) (indexes : List UInt32) :
      OfCrate (confluentSchemaEncoder settings schemaType indexes)
  | avro {Value Parsed : Type} (settings : Settings) (avroSchema : Parsed)
      (serialize : Parsed → Value → Result Bytes) :
      OfCrate (avroSchemaEncoder settings avroSchema serialize)
  | json {Value Parsed : Type} (settings : Settings) (validator : Parsed) (validateOnEncode : Bool)
      (validate : Parsed → Value → Result Unit) (toVec : Value → Except String Bytes) :
      OfCrate (jsonSchemaEncoder settings validator validateOnEncode validate toVec)
  | protobuf {Value : Type} (settings : Settings) (indexes : List UInt32)
      (encodeToVec : Value → Bytes) : OfCrate (protobufSchemaEncoder settings indexes encodeToVec)

/-- Message indexes are for Protobuf, and Protobuf is never without. -/
theorem OfCrate.messageIndexes_isSome {e : SchemaEncoder Value Parsed} (h : OfCrate e) :
    e.messageIndexes.isSome = true ↔ e.schemaType = .protobuf := by
  cases h with
  | confluent settings schemaType indexes =>
    show (if schemaType = .protobuf then some indexes else none).isSome = true ↔
      schemaType = .protobuf
    by_cases htype : schemaType = .protobuf
    · rw [if_pos htype]
      exact iff_of_true rfl htype
    · rw [if_neg htype]
      exact iff_of_false nofun htype
  | avro | json => exact iff_of_false nofun nofun
  | protobuf => exact iff_of_true rfl rfl

variable {e : SchemaEncoder Value Parsed} {s : State Value Parsed} {holds : Cache.Registry}
  {registry : Lookup.Registry} {call : EncodeCall Value} {decoder : WireFormatDecoder}
  {zlibRead : Bytes → Nat → Except String Bytes} {key : SchemaKey} {schema : Schema} {raw : Bytes}
  {frame : Frame}

/-- The path is within the cap of the decoders. -/
def PathFits (e : SchemaEncoder Value Parsed) : Prop :=
  ∀ path, e.messageIndexes = some path → path.length ≤ 512

/-- What a consumer gets: out of a frame the payload, the schema and the path; out of a header the
    key and the path, beside a payload without a prefix. -/
def Delivered (zlibRead : Bytes → Nat → Except String Bytes) (decoder : WireFormatDecoder)
    (e : SchemaEncoder Value Parsed) (call : EncodeCall Value) (key : SchemaKey) (schema : Schema)
    (raw : Bytes) : Frame → Prop
  | .framed data =>
      decoder.decode zlibRead data = .ok
        { schemaFormat := .ofSchemaType e.schemaType
          payload := raw
          schemaMetadata := some (.confluent schema)
          protobufMessageIndexes := e.messageIndexes.map readAs }
  | .headerFramed record =>
      record.headerName = schemaIdHeaderName call.target ∧
        decodeSchemaIdHeader record.headerValue = .ok (key, e.messageIndexes.map readAs) ∧
          record.payload = raw

/-- The consumer gets an error. -/
def Refused (zlibRead : Bytes → Nat → Except String Bytes) (decoder : WireFormatDecoder) :
    Frame → Prop
  | .framed data => (decoder.decode zlibRead data).IsErr
  | .headerFramed record => (decodeSchemaIdHeader record.headerValue).IsErr

/-! ## Out of a frame -/

theorem decode_frame (hcrate : OfCrate e) (hfits : PathFits e)
    (hclient : decoder.confluent = some registry.schemaByKey)
    (hschema : registry.schemaByKey key = .ok schema) (htype : schema.schemaType = e.schemaType) :
    decoder.decode zlibRead (e.framePayload key raw) = .ok
      { schemaFormat := .ofSchemaType e.schemaType
        payload := raw
        schemaMetadata := some (.confluent schema)
        protobufMessageIndexes := e.messageIndexes.map readAs } := by
  unfold SchemaEncoder.framePayload
  have hprotobuf := hcrate.messageIndexes_isSome
  cases hindexes : e.messageIndexes with
  | none =>
    rw [hindexes] at hprotobuf
    have hother : schema.schemaType ≠ .protobuf := fun h => nomatch hprotobuf.mpr (htype ▸ h)
    show decoder.decode zlibRead (putPrefix key ++ raw) = _
    rw [decodeConfluent_append hclient hschema, if_neg hother, htype]
    rfl
  | some path =>
    rw [hindexes] at hprotobuf
    have hpath : schema.schemaType = .protobuf := htype.trans (hprotobuf.mp rfl)
    show decoder.decode zlibRead (putPrefix key ++ putMessageIndexes path ++ raw) = _
    rw [List.append_assoc, decodeConfluent_append hclient hschema, if_pos hpath,
      decodeIndexes_put (hfits path hindexes), Outcome.bind_ok]
    dsimp only
    rw [sliceFrom_of_le (by rw [List.length_append]; omega), List.drop_left, htype]
    rfl

theorem decode_long_frame {path : List UInt32} (hcrate : OfCrate e)
    (hindexes : e.messageIndexes = some path) (hlong : 512 < path.length)
    (hclient : decoder.confluent = some registry.schemaByKey)
    (hschema : registry.schemaByKey key = .ok schema) (htype : schema.schemaType = e.schemaType) :
    (decoder.decode zlibRead (e.framePayload key raw)).IsErr := by
  have hprotobuf := hcrate.messageIndexes_isSome.mp (by rw [hindexes]; rfl)
  unfold SchemaEncoder.framePayload
  rw [hindexes]
  show (decoder.decode zlibRead (putPrefix key ++ putMessageIndexes path ++ raw)).IsErr
  obtain ⟨err, herr⟩ := decodeIndexes_put_long hlong raw
  rw [List.append_assoc, decodeConfluent_append hclient hschema, if_pos (htype.trans hprotobuf),
    herr]
  exact ⟨err, rfl⟩

/-! ## Out of a header -/

theorem decode_header (hfits : PathFits e) :
    decodeSchemaIdHeader (encodeSchemaIdHeader key e.messageIndexes) =
      .ok (key, e.messageIndexes.map readAs) := by
  cases hindexes : e.messageIndexes with
  | none => exact decodeSchemaIdHeader_append key []
  | some path =>
    have hend := (@decodeHeader_put key path (hfits path hindexes) []).1 rfl
    rwa [List.append_nil] at hend

theorem decode_long_header {path : List UInt32} (hlong : 512 < path.length) :
    (decodeSchemaIdHeader (encodeSchemaIdHeader key (some path))).IsErr := by
  show (decodeSchemaIdHeader (putPrefix key ++ putMessageIndexes path)).IsErr
  rw [decodeSchemaIdHeader_append, if_neg (by simpa using putMessageIndexes_ne_nil path)]
  obtain ⟨err, herr⟩ := decodeIndexes_put_long hlong []
  rw [List.append_nil] at herr
  unfold afterPrefix
  rw [herr]
  exact ⟨err, rfl⟩

/-! ## Every frame -/

theorem delivered_of_finish (hcrate : OfCrate e)
    (hclient : decoder.confluent = some registry.schemaByKey)
    (hfinish : e.finish call (e.entry key) = .ok frame)
    (hschema : registry.schemaByKey key = .ok schema) (htype : schema.schemaType = e.schemaType) :
    ∃ raw, e.serialise e.parsed call.value = .ok raw ∧
      (PathFits e → Delivered zlibRead decoder e call key schema raw frame) ∧
        (¬ PathFits e → Refused zlibRead decoder frame) := by
  obtain ⟨raw, hraw, hframe⟩ := Result.bind_eq_ok.mp hfinish
  have hlong : ¬ PathFits e → ∃ path, e.messageIndexes = some path ∧ 512 < path.length := by
    intro h
    unfold PathFits at h
    push Not at h
    exact h
  refine ⟨raw, hraw, ?_⟩
  cases hplacement : call.placement with
  | payload =>
    rw [hplacement] at hframe
    obtain rfl := Except.ok.inj hframe
    refine ⟨fun hfits => decode_frame hcrate hfits hclient hschema htype, fun hfits => ?_⟩
    obtain ⟨path, hindexes, hlen⟩ := hlong hfits
    exact decode_long_frame hcrate hindexes hlen hclient hschema htype
  | header =>
    rw [hplacement] at hframe
    obtain rfl := Except.ok.inj hframe
    refine ⟨fun hfits => ⟨rfl, decode_header hfits, rfl⟩, fun hfits => ?_⟩
    obtain ⟨path, hindexes, hlen⟩ := hlong hfits
    show (decodeSchemaIdHeader (encodeSchemaIdHeader key e.messageIndexes)).IsErr
    rw [hindexes]
    exact decode_long_header hlen

/-- Every frame in every run of an encoder has a key that a resolution of its subject has ended
    with. If a registry serves a schema of the encoder's type for the key, consumers read out of
    the frame what the encoder has put in, provided that the path has at most 512 segments, and
    refuse it otherwise. They are served the encoder's own schema, if the encoder registers or
    looks up, is answered with identifiers that stand for something, and the registry serves
    what they stand for. -/
theorem frames_are_delivered (zlibRead : Bytes → Nat → Except String Bytes) (hcrate : OfCrate e)
    (hclient : decoder.confluent = some registry.schemaByKey) {maxEntries : Nat}
    {es : List (Event Value)}
    (hrun : Run (step e) (fun _ _ => True) (State.init maxEntries) es s) {c : CallId}
    (hframe : s.calls c = .encoded call (.ok frame)) :
    ∃ subject key raw, e.subjectFor call = .ok subject ∧ ResolvedFor e s subject key ∧
      e.serialise e.parsed call.value = .ok raw ∧
      (∀ schema, registry.schemaByKey key = .ok schema → schema.schemaType = e.schemaType →
        (PathFits e → Delivered zlibRead decoder e call key schema raw frame) ∧
          (¬ PathFits e → Refused zlibRead decoder frame)) ∧
      (∀ holds, Run (step e) (Answers holds) (State.init maxEntries) es s →
        e.resolution ≠ .useLatestVersion → Serves registry holds →
        ∃ schema, registry.schemaByKey key = .ok schema ∧ Cache.contentOf schema = e.content) := by
  obtain ⟨subject, key, hsubject, hresolved, hfinish⟩ := (sound_run hrun).encoded c call _ hframe
  obtain ⟨raw, hraw, -⟩ := Result.bind_eq_ok.mp hfinish
  refine ⟨subject, key, raw, hsubject, hresolved, hraw, fun schema hschema htype => ?_,
    fun holds hanswers hmode hserves =>
      hserves key _ (content_of_resolved hmode hanswers hresolved)⟩
  obtain ⟨raw', hraw', hdelivered⟩ := delivered_of_finish hcrate hclient hfinish hschema htype
  obtain rfl : raw' = raw := Except.ok.inj (hraw'.symm.trans hraw)
  exact hdelivered

/-! ## A line of an order -/

namespace Line

def proto : String := "syntax = \"proto3\";"

/-- An encoder of the first message in the second message of a file. -/
def lineEncoder : SchemaEncoder Bytes Unit :=
  protobufSchemaEncoder ⟨proto, .topicName, [], .autoRegister, .schemaId⟩ [1, 0] id

def lines : Lookup.Registry := fun _ =>
  .ok ⟨some ⟨1⟩, none, .protobuf, proto, none, none, []⟩

def lineIds : Cache.Registry := fun _ _ => some ⟨.protobuf, proto, []⟩

def lineCall : EncodeCall Bytes := ⟨[0x0A], "orders", none, .value, .payload⟩

def lineFrame : Bytes := [0, 0, 0, 0, 1, 4, 2, 0, 0x0A]

def oneEncode : List (Event Bytes) :=
  [.encode 0 lineCall, .resume 0, .resume 0,
    .answer 0 ⟨.registerSchema "orders-value" proto .protobuf [], .ok ⟨1⟩⟩,
    .resume 0, .resume 0, .resume 0, .finish 0]

def noZlib : Bytes → Nat → Except String Bytes := fun _ _ => .error "corrupt deflate stream"

theorem oneEncode_run : ∃ s, Run (step lineEncoder) (Answers lineIds) (State.init 10) oneEncode s ∧
    s.calls 0 = .encoded lineCall (.ok (.framed lineFrame)) := by
  obtain ⟨s, h, hframe⟩ : ∃ s, exec (step lineEncoder) (State.init 10) oneEncode = some s ∧
      s.calls 0 = .encoded lineCall (.ok (.framed lineFrame)) := ⟨_, rfl, rfl⟩
  refine ⟨s, Run.of_exec h (Along.of_forall fun ev hev s c x heq => ?_), hframe⟩
  subst heq
  simp only [oneEncode, List.mem_cons, List.not_mem_nil, Event.answer.injEq, reduceCtorEq,
    or_false, false_or] at hev
  obtain ⟨-, rfl⟩ := hev
  rfl

theorem pathFits_lineEncoder : PathFits lineEncoder := by
  intro path hpath
  cases hpath
  decide

theorem serves_lines : Serves lines lineIds := by
  intro key content hcontent
  cases key with
  | id id | guid guid =>
    cases hcontent
    exact ⟨_, rfl, rfl⟩

end Line

open Line in
/-- The path arrives beside the payload. -/
theorem a_line_is_delivered : ∃ schema,
    (⟨some lines.schemaByKey, none⟩ : WireFormatDecoder).decode noZlib lineFrame =
      .ok ⟨.protobuf, [0x0A], some (.confluent schema), some [1, 0]⟩ := by
  obtain ⟨s, hrun, hframe⟩ := oneEncode_run
  have hclient : (⟨some lines.schemaByKey, none⟩ : WireFormatDecoder).confluent =
      some lines.schemaByKey := rfl
  obtain ⟨subject, key, raw, -, -, hraw, hdelivered, hown⟩ :=
    frames_are_delivered noZlib (.protobuf _ _ _) hclient (hrun.mono fun _ _ _ => trivial) hframe
  obtain ⟨schema, hschema, hcontent⟩ := hown _ hrun (by decide) serves_lines
  obtain rfl : [0x0A] = raw := Except.ok.inj hraw
  have htype := congrArg Cache.Content.schemaType hcontent
  exact ⟨schema, (hdelivered schema hschema htype).1 pathFits_lineEncoder⟩

end Schemreg.Encoder
