import Schemreg.Avro.Dependencies
import Schemreg.Lookup.Reads

/-
  `AvroSchemaDecoder` of `src/avro/mod.rs`.

  The decoder fetches the schema that a frame names with everything it references, and keeps the
  parsed set under the key of the frame. Reading and writing values is `apache_avro`'s
  (`Datum`).

  Proved (`coalesced_decode_is_direct`): whatever other decodes it shares a fetch with, a decode
  that succeeds returns what `decodeDirect` returns, which asks the registry for everything
  itself; and if the registry answers every request, a decode fails like `decodeDirect` does, or
  because the fetch that it waited for was cancelled.
-/

namespace Schemreg.Avro

open CacheInner (CallId)
open Dialogue Lookup Program Transition

variable {Rest Json Value : Type}

/-- What the module uses of `apache_avro` to write and to read a value. -/
structure Datum (Rest Value : Type) where
  toAvroDatum : AvroSchema Rest → Value → Except String Bytes
  toAvroDatumSchemata : AvroSchema Rest → List (AvroSchema Rest) → Value → Except String Bytes
  fromAvroDatum : AvroSchema Rest → Bytes → Except String Value
  fromAvroDatumSchemata : AvroSchema Rest → List (AvroSchema Rest) → Bytes → Except String Value
  fromAvroDatumReaderSchemata : AvroSchema Rest → List (AvroSchema Rest) → Bytes →
    AvroSchema Rest → List (AvroSchema Rest) → Except String Value

namespace ResolvedAvroSchema

variable (datum : Datum Rest Value) (self : ResolvedAvroSchema Rest)

/-- The name table handed to the codec. -/
def codecSchemata : List (AvroSchema Rest) :=
  if self.schemata.isEmpty then [self.root] else self.schemata

def serialize (value : Value) : Result Bytes :=
  (if self.schemata.isEmpty then datum.toAvroDatum self.root value
    else datum.toAvroDatumSchemata self.root self.codecSchemata value).mapError fun e =>
      .wireFormat ("Avro serialization failed: " ++ e)

/-- Decode bytes written with this schema, optionally resolving to `reader`. -/
def deserialize (bytes : Bytes) (reader : Option (ResolvedAvroSchema Rest)) : Result Value :=
  (match reader with
    | none =>
      if self.schemata.isEmpty then datum.fromAvroDatum self.root bytes
      else datum.fromAvroDatumSchemata self.root self.codecSchemata bytes
    | some reader =>
      datum.fromAvroDatumReaderSchemata self.root self.codecSchemata bytes reader.root
        reader.codecSchemata).mapError fun e => .wireFormat ("Avro deserialization failed: " ++ e)

end ResolvedAvroSchema

section

variable [DecidableEq Json] (api : Api Rest Json) (datum : Datum Rest Value)

/-! ## The decoder -/

/-- `avro_schema_lookup_cancelled`. -/
def avroSchemaLookupCancelled (key : SchemaKey) : SchemaRegError :=
  .invalidState ("Avro schema lookup cancelled before completion for schema " ++ key.toString)

/-- `collect_reference_closure` from the root's references, and what it has collected. -/
def collectReferences (references : List SchemaReference) : Reading (List String) :=
  (DepthFirst.walkProgram marker getReferenced Schema.references checkRoom push nestTooDeep
    maxReferenceDepth references ⟨[], [], []⟩).bind fun
  | (.ok (), walk) => .done (.ok walk.out)
  | (.error err, _) => .done (.error err)

/-- The fetch of `get_avro_schema`. -/
def getAvroSchema (key : SchemaKey) : Reading (ResolvedAvroSchema Rest) :=
  (getSchemaByKey key).bindOk fun registrySchema =>
  (collectReferences registrySchema.references).bindOk fun deps =>
  .done (ResolvedAvroSchema.parse api registrySchema.schema deps .writerRegistry)

/-- `AvroSchemaDecoder`, whose calls are `decode`. -/
def avroSchemaDecoder (readerSchema : Option (ResolvedAvroSchema Rest)) :
    Component Bytes SchemaKey (ResolvedAvroSchema Rest) Value Read fun _ => Schema where
  route data :=
    match unframe data with
    | .ok (key, payload) => .lookup key fun writer => writer.deserialize datum payload readerSchema
    | .error err => .done (.error err)
  fetch := getAvroSchema api
  cancelled := avroSchemaLookupCancelled

/-! ## Without a cache -/

variable (registry : Registry)

/-- The texts that a schema references, and those that they reference. -/
def referencedTexts (references : List SchemaReference) : Result (List String) :=
  match referenceClosure registry.schemaByVersion references with
  | (.ok (), walk) => .ok walk.out
  | (.error err, _) => .error err

/-- The set of schemas that a key stands for. -/
def writerSchema (key : SchemaKey) : Result (ResolvedAvroSchema Rest) := do
  let schema ← registry.schemaByKey key
  let deps ← referencedTexts registry schema.references
  ResolvedAvroSchema.parse api schema.schema deps .writerRegistry

/-- A decode that asks for everything itself. -/
def decodeDirect (readerSchema : Option (ResolvedAvroSchema Rest)) (data : Bytes) :
    Result Value := do
  let (key, payload) ← unframe data
  let writer ← writerSchema api registry key
  writer.deserialize datum payload readerSchema

end

variable {api : Api Rest Json} {datum : Datum Rest Value} {registry : Registry}
  {readerSchema : Option (ResolvedAvroSchema Rest)} {data : Bytes}

theorem eval_collectReferences (references : List SchemaReference) :
    (collectReferences references).eval registry = referencedTexts registry references := by
  have hwalk : DepthFirst.walk marker (fun e => (getReferenced e).eval registry) Schema.references
      checkRoom push nestTooDeep maxReferenceDepth references ⟨[], [], []⟩ =
        referenceClosure registry.schemaByVersion references := rfl
  rw [collectReferences, eval_bind, DepthFirst.eval_walkProgram, hwalk, referencedTexts]
  obtain ⟨result, walk⟩ := referenceClosure registry.schemaByVersion references
  cases result <;> rfl

theorem strict_collectReferences (references : List SchemaReference) :
    Strict IsError (collectReferences references) := by
  have hwalk : Strict DepthFirst.Failed (DepthFirst.walkProgram marker getReferenced
      Schema.references checkRoom push nestTooDeep maxReferenceDepth references ⟨[], [], []⟩) :=
    DepthFirst.strict_walkProgram strict_getReferenced _ _ _
  refine hwalk.bind ?_ ?_
  · rintro ⟨_, walk⟩ ⟨err, rfl⟩
    exact ⟨_, rfl, err, rfl⟩
  · rintro ⟨result, walk⟩
    cases result <;> trivial

variable [DecidableEq Json]

theorem eval_getAvroSchema (key : SchemaKey) :
    (getAvroSchema api key).eval registry = writerSchema api registry key := by
  rw [getAvroSchema, eval_bindOk, Registry.eval_getSchemaByKey]
  simp only [eval_bindOk, eval_collectReferences, eval_done]
  rfl

theorem avroSchemaDecoder_stopsAtFailures :
    (avroSchemaDecoder api datum readerSchema).StopsAtFailures := fun key =>
  (strict_getSchemaByKey key).bindOk fun schema =>
    (strict_collectReferences schema.references).bindOk fun _ => trivial

theorem direct_avroSchemaDecoder :
    (avroSchemaDecoder api datum readerSchema).direct registry data =
      decodeDirect api datum registry readerSchema data := by
  unfold Component.direct decodeDirect avroSchemaDecoder
  dsimp only
  cases hframe : unframe data with
  | error err => rfl
  | ok framed =>
    dsimp only
    rw [eval_getAvroSchema]
    rfl

/-! ## Every run -/

/-- Whatever shares a fetch with it and whatever is dropped, evicted or cleared meanwhile: a decode
    that succeeds returns what `decodeDirect` returns, even if requests to the registry fail. If
    none fails, a decode returns what `decodeDirect` returns, or the error of a fetch that was
    cancelled; and if nothing is dropped or cleared either, always the former. -/
theorem coalesced_decode_is_direct (api : Api Rest Json) (datum : Datum Rest Value)
    (registry : Registry) (readerSchema : Option (ResolvedAvroSchema Rest)) (maxEntries : Nat)
    (cancels : Prop)
    (es : List (Lookup.Event Bytes SchemaKey Read fun _ => Schema))
    (s : Lookup.State Bytes SchemaKey (ResolvedAvroSchema Rest) Value Read fun _ => Schema)
    (c : CallId) (data : Bytes) :
    ((avroSchemaDecoder api datum readerSchema).Runs (AnsweredOrFailed registry) True maxEntries
        es s → ∀ value, s.calls c = .returned data (.ok value) →
        decodeDirect api datum registry readerSchema data = .ok value) ∧
    ((avroSchemaDecoder api datum readerSchema).Runs (AnsweredBy registry) cancels maxEntries
        es s → ∀ result, s.calls c = .returned data result →
        result = decodeDirect api datum registry readerSchema data ∨
          (cancels ∧ ∃ key payload, unframe data = .ok (key, payload) ∧
            result = .error (avroSchemaLookupCancelled key))) := by
  constructor
  · intro hrun value h
    rw [← direct_avroSchemaDecoder]
    exact ok_of_run avroSchemaDecoder_stopsAtFailures hrun h
  · intro hrun result h
    rcases result_of_run hrun h with hdirect | ⟨hcancels, key, finish, hroute, hresult⟩
    · rw [← direct_avroSchemaDecoder]
      exact Or.inl hdirect
    · refine Or.inr ⟨hcancels, key, ?_⟩
      unfold avroSchemaDecoder at hroute
      dsimp only at hroute
      split at hroute
      · rename_i key' payload hframe
        cases hroute
        exact ⟨payload, hframe, hresult⟩
      · cases hroute

/-! ## Two decodes of a card -/

namespace Spelling

/-- A card, and the hash that it references. -/
def cards : Registry
  | .getSchemaById _ => .ok
      ⟨some ⟨1⟩, none, .avro, card, none, none, [⟨"Hash", "hash-value", ⟨1⟩⟩]⟩
  | .getSchemaByVersion _ _ => .ok ⟨some ⟨2⟩, none, .avro, hash, none, none, []⟩
  | .getSchemaByGuid _ => .error (.network "no route")

/-- Values are their encodings. -/
def bytes : Datum Unit Bytes where
  toAvroDatum _ value := .ok value
  toAvroDatumSchemata _ _ value := .ok value
  fromAvroDatum _ payload := .ok payload
  fromAvroDatumSchemata _ _ payload := .ok payload
  fromAvroDatumReaderSchemata _ _ payload _ _ := .ok payload

def cardDecoder := avroSchemaDecoder parsing bytes none

def cardFrame : Bytes := [0, 0, 0, 0, 1, 0x42]

/-- The first decode fetches and is dropped after the first answer. The second one, which waits
    for it, gets an error. The third one fetches again. -/
def threeDecodes : List (Lookup.Event Bytes SchemaKey Read fun _ => Schema) :=
  [.call 0 cardFrame, .call 1 cardFrame, .resume 0, .resume 1, .resume 0,
    .answer 0 ⟨.getSchemaById ⟨1⟩, cards (.getSchemaById ⟨1⟩)⟩, .drop 0,
    .call 2 cardFrame, .resume 2, .resume 2,
    .answer 2 ⟨.getSchemaById ⟨1⟩, cards (.getSchemaById ⟨1⟩)⟩,
    .answer 2 ⟨.getSchemaByVersion "hash-value" ⟨1⟩, cards (.getSchemaByVersion "hash-value" ⟨1⟩)⟩,
    .resume 2, .resume 2, .resume 2, .finish 2]

theorem threeDecodes_answered : ∀ e ∈ threeDecodes,
    ∀ s : Lookup.State Bytes SchemaKey (ResolvedAvroSchema Unit) Bytes Read fun _ => Schema,
      Allowed (AnsweredBy cards) True s e := by
  intro e he s
  refine ⟨fun c x heq => ?_, fun _ => trivial⟩
  subst heq
  simp only [threeDecodes, List.mem_cons, List.not_mem_nil, Lookup.Event.answer.injEq, reduceCtorEq,
    or_false, false_or] at he
  rcases he with ⟨-, rfl⟩ | ⟨-, rfl⟩ | ⟨-, rfl⟩ <;> rfl

end Spelling

open Spelling in
/-- The decode that has fetched the card and the hash returns what it carries. -/
theorem a_refetched_card_decodes :
    decodeDirect parsing bytes cards none cardFrame = .ok [0x42] := by
  have hexec : (exec (step cardDecoder) (.init cardDecoder 10) threeDecodes).map
      (fun s => (s.calls 2).succeeded) = some (some (cardFrame, [0x42])) := by decide +kernel
  obtain ⟨s, h, hsucceeded⟩ := Option.map_eq_some_iff.mp hexec
  have hreturned := Phase.succeeded_eq_some.mp hsucceeded
  have hrun : cardDecoder.Runs (AnsweredBy cards) True 10
      threeDecodes s := Run.of_exec h (Along.of_forall threeDecodes_answered)
  rcases (coalesced_decode_is_direct parsing bytes cards none 10 True threeDecodes s 2
    cardFrame).2 hrun _ hreturned with hdirect | ⟨-, key, payload, -, herr⟩
  · exact hdirect.symm
  · cases herr

end Schemreg.Avro
