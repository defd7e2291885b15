import Schemreg.CacheInner.Step
import Schemreg.Resolver
import Schemreg.Subject

/-
  The encoders of `src/confluent/encoder.rs`, `src/avro/mod.rs`, `src/json/mod.rs` and
  `src/protobuf/mod.rs`, over any registry.

  They share the way from a record to its frame: the strategy names the subject, the cache of
  the encoder answers it or resolves it, and the key of the entry goes in front of the payload
  or into a header. A step is one step of the cache, an answer of the registry to the call that
  a resolution waits for, a dropped future, or the end of an `encode`.

  * The record name is the caller's for `ConfluentSchemaEncoder`, and the name of the encoder's
    own schema for the others.
  * `sent` and `exchanges` record the calls to the registry and their answers. They are ghosts:
    no step reads them.
-/

namespace Schemreg.Encoder

open CacheInner (CallId)
open Checked Dialogue Resolver Wire

/-- What the builders of all encoders set. -/
structure Settings where
  schemaStr : String
  strategy : SubjectNameStrategy
  references : List SchemaReference
  resolution : SchemaResolution
  framing : Framing

/-- An encoder. `parsed` is what it keeps of its schema to write a value. -/
structure SchemaEncoder (Value Parsed : Type) extends Settings where
  schemaType : SchemaType
  parsed : Parsed
  serialise : Parsed → Value → Result Bytes
  messageIndexes : Option (List UInt32)

/-- `EncoderEntry`: what the cache holds for a subject. -/
structure EncoderEntry (Parsed : Type) where
  key : SchemaKey
  parsed : Parsed

/-- `encode`, or `encode_with_header`. -/
inductive Placement where
  | payload
  | header
  deriving DecidableEq

/-- A call of `encode` or of `encode_with_header`. -/
structure EncodeCall (Value : Type) where
  value : Value
  topic : String
  recordName : Option String
  target : EncodeTarget
  placement : Placement

/-- What they return. -/
inductive Frame where
  | framed (data : Bytes)
  | headerFramed (record : HeaderFramed)
  deriving DecidableEq

/-- The bytes at whose start a consumer finds the identifier. -/
def Frame.identifier : Frame → Bytes
  | .framed data => data
  | .headerFramed record => record.headerValue

/-! ## The encoders -/

/-- `ConfluentSchemaEncoder` takes payloads that are serialised already. -/
def confluentSchemaEncoder (settings : Settings) (schemaType : SchemaType)
    (protobufMessageIndexes : List UInt32) : SchemaEncoder Bytes Unit :=
  { settings with
    schemaType := schemaType
    parsed := ()
    serialise := fun _ payload => .ok payload
    messageIndexes := if schemaType = .protobuf then some protobufMessageIndexes else none }

section

variable {Value Parsed : Type}

def avroSchemaEncoder (settings : Settings) (avroSchema : Parsed)
    (serialize : Parsed → Value → Result Bytes) : SchemaEncoder Value Parsed :=
  { settings with
    schemaType := .avro
    parsed := avroSchema
    serialise := serialize
    messageIndexes := none }

/-- `validate` is the validator's, and `toVec` is `serde_json::to_vec`. -/
def jsonSchemaEncoder (settings : Settings) (validator : Parsed) (validateOnEncode : Bool)
    (validate : Parsed → Value → Result Unit) (toVec : Value → Except String Bytes) :
    SchemaEncoder Value Parsed :=
  { settings with
    schemaType := .json
    parsed := validator
    serialise := fun validator value => do
      if validateOnEncode then validate validator value
      (toVec value).mapError fun e => .wireFormat ("JSON serialization failed: " ++ e)
    messageIndexes := none }

def protobufSchemaEncoder (settings : Settings) (messageIndexes : List UInt32)
    (encodeToVec : Value → Bytes) : SchemaEncoder Value Unit :=
  { settings with
    schemaType := .protobuf
    parsed := ()
    serialise := fun _ message => .ok (encodeToVec message)
    messageIndexes := some messageIndexes }

namespace SchemaEncoder

variable (e : SchemaEncoder Value Parsed)

/-- The subject of a record. -/
def subjectFor (call : EncodeCall Value) : Result String :=
  e.strategy.subjectName call.topic call.recordName call.target

/-- The fetch of `resolve_subject`, up to its entry. -/
def resolveSubject (subject : String) : Resolution :=
  resolveSchemaKey e.resolution e.framing subject e.schemaStr e.schemaType e.references

def entry (key : SchemaKey) : EncoderEntry Parsed := ⟨key, e.parsed⟩

/-- Frame a payload, with the message-index array when the schema type calls for one. -/
def framePayload (key : SchemaKey) (payload : Bytes) : Bytes :=
  match e.messageIndexes with
  | some indexes => encodeProtobufWireFormat key indexes payload
  | none => encodeWireFormat key payload

/-- What `encode` and `encode_with_header` do once they have the entry. -/
def finish (call : EncodeCall Value) (entry : EncoderEntry Parsed) : Result Frame := do
  let raw ← e.serialise entry.parsed call.value
  match call.placement with
  | .payload => .ok (.framed (e.framePayload entry.key raw))
  | .header => .ok (.headerFramed (HeaderFramed.new call.target entry.key e.messageIndexes raw))

end SchemaEncoder

/-! ## Calls in progress -/

/-- Where a call stands between two of its steps. -/
inductive Phase (Value : Type) where
  | idle
  | resolving (call : EncodeCall Value)
  | encoded (call : EncodeCall Value) (result : Result Frame)
  | invalidating
  | dropped

/-- The cache of the encoder and the calls in progress. -/
structure State (Value Parsed : Type) where
  cache : CacheInner.State String (EncoderEntry Parsed)
  calls : CallId → Phase Value
  pending : CallId → Option Resolution
  sent : List (CallId × Call)
  exchanges : List (CallId × Exchange)

inductive Event (Value : Type) where
  | encode (c : CallId) (call : EncodeCall Value)
  | invalidateSubject (c : CallId) (subject : String)
  | resume (c : CallId)
  | answer (c : CallId) (x : Exchange)
  | drop (c : CallId)
  | finish (c : CallId)

namespace State

def init (maxSubjectCacheEntries : Nat) : State Value Parsed :=
  ⟨CacheInner.State.init (some (max maxSubjectCacheEntries 1)) subjectResolutionCancelled,
    fun _ => .idle, fun _ => none, [], []⟩

variable (s : State Value Parsed)

/-- Move call `c` to a phase. -/
def goto (c : CallId) (phase : Phase Value) : State Value Parsed :=
  { s with calls := Function.update s.calls c phase }

def withCache (cache : CacheInner.State String (EncoderEntry Parsed)) : State Value Parsed :=
  { s with cache := cache }

/-- Call `c` sends what its resolution asks next, and waits for the answer. -/
def wait (c : CallId) (resolution : Resolution) : State Value Parsed :=
  { s with
    pending := Function.update s.pending c (some resolution)
    sent := s.sent ++ (resolution.waiting.map fun call => (c, call)).toList }

/-- Call `c` has no resolution any more. -/
def settle (c : CallId) : State Value Parsed :=
  { s with pending := Function.update s.pending c none }

/-- The registry answers call `c`. -/
def record (c : CallId) (x : Exchange) : State Value Parsed :=
  { s with exchanges := s.exchanges ++ [(c, x)] }

/-- One step of the cache. -/
def cacheStep (ie : CacheInner.Event String (EncoderEntry Parsed)) :
    Option (State Value Parsed) :=
  (CacheInner.step s.cache ie).map s.withCache

end State

variable (e : SchemaEncoder Value Parsed) (s : State Value Parsed)

/-- `cached_schema_key`. -/
def cachedSchemaKey (subject : String) : Option SchemaKey :=
  (s.cache.cache.get subject).map EncoderEntry.key

/-- `encode` names the subject, and `resolve_subject` looks it up. -/
def beginEncode (c : CallId) (call : EncodeCall Value) : Option (State Value Parsed) :=
  match e.subjectFor call with
  | .ok subject => (s.cacheStep (.begin c (.getOrFetch subject))).map (·.goto c (.resolving call))
  | .error err => some (s.goto c (.encoded call (.error err)))

/-- The next section of call `c` in the cache. A leader's resolution starts when it is polled
    for the first time. -/
def runSection (c : CallId) : Option (State Value Parsed) :=
  match s.cache.calls c with
  | .elected subject _ => (s.cacheStep (.resume c)).map (·.wait c (e.resolveSubject subject))
  | _ => s.cacheStep (.resume c)

/-- The registry answers what call `c` waits for. -/
def answer (c : CallId) (x : Exchange) : Option (State Value Parsed) :=
  match (s.pending c).bind (·.resume x) with
  | some (.done result) =>
      (s.cacheStep (.reply c (result.map e.entry))).map fun t => (t.record c x).settle c
  | some (.ask call next) => some ((s.record c x).wait c (.ask call next))
  | none => none

/-- One step of the encoder. -/
def step : Event Value → Option (State Value Parsed)
  | .encode c call =>
      match s.calls c with
      | .idle => beginEncode e s c call
      | _ => none
  | .invalidateSubject c subject =>
      match s.calls c with
      | .idle => (s.cacheStep (.begin c (.invalidate subject))).map (·.goto c .invalidating)
      | _ => none
  | .resume c => runSection e s c
  | .answer c x => answer e s c x
  | .drop c => (s.cacheStep (.drop c)).map fun t => (t.settle c).goto c .dropped
  | .finish c =>
      match s.calls c, s.cache.calls c with
      | .resolving call, .returned _ result =>
          some (s.goto c (.encoded call (result.bind (e.finish call))))
      | _, _ => none

end

end Schemreg.Encoder
