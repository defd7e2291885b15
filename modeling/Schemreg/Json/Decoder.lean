import Schemreg.Encoder.Served
import Schemreg.Json.Model

/-
  `JsonSchemaDecoder` of `src/json/mod.rs`, and what it makes of the frames of
  `JsonSchemaEncoder`.

  A decoder that validates fetches the schema that a frame names with everything it references,
  compiles the set, and keeps the validator under the key of the frame. What `serde_json` and
  `jsonschema` do is a parameter (`Api`); a validator is compiled with a retriever, and the only
  one that the crate installs is `retrieve`.

  * `coalesced_validation_is_direct`: a decode that shares its fetch with others returns what it
    would return if it asked for everything itself.
  * `value_of_encode`: the frames of an encoder decode to the values that were encoded, and pass
    the validation of the decoder.
-/

namespace Schemreg.Json

open CacheInner (CallId)
open Dialogue Encoder Lookup Program Transition Wire

variable {Value Validator : Type}

/-- What the module uses of `serde_json` and `jsonschema`. -/
structure Api (Value Validator : Type) where
  fromStr : String → Except String Value
  fromSlice : Bytes → Except String Value
  toVec : Value → Except String Bytes
  validatorFor : Value → Except String Validator
  build : (String → Except String Value) → Value → Except String Validator
  iterErrors : Validator → Value → List String

/-! ## Compilation and validation -/

def ReferenceSet.isEmpty (set : ReferenceSet Value) : Bool := set.byKey.keys.isEmpty

/-- `retrieve`: the only place that a `$ref` is resolved at. -/
def ReferenceSet.retrieve (set : ReferenceSet Value) (key : String) : Except String Value :=
  match set.lookup key with
  | some schema => .ok schema
  | none => .error ("JSON Schema reference '" ++ key ++ "' was not supplied. Register it under a " ++
      "subject and name it in the schema's `references` list, or pass it to " ++
      "JsonSchemaEncoderBuilder::dependencies")

section Definitions

variable (api : Api Value Validator)

/-- `compile_schema_with_refs`. -/
def compileSchemaWithRefs (schemaStr : String) (refs : ReferenceSet Value) : Result Validator := do
  let schema ← (api.fromStr schemaStr).mapError fun e =>
    .config ("invalid JSON Schema (parse): " ++ e)
  if refs.isEmpty then
    (api.validatorFor schema).mapError fun e => .config ("invalid JSON Schema (compile): " ++ e)
  else
    (api.build refs.retrieve schema).mapError fun e =>
      .config ("invalid JSON Schema (compile, with referenced schemas): " ++ e)

/-- `validate`: all errors in one. -/
def validate (validator : Validator) (value : Value) : Result Unit :=
  let errors := api.iterErrors validator value
  if errors.isEmpty then .ok ()
  else .error (.wireFormat ("JSON Schema validation failed: " ++ String.intercalate "; " errors))

variable [DecidableEq Value]

/-! ## The decoder -/

/-- `json_validator_lookup_cancelled`. -/
def jsonValidatorLookupCancelled (key : SchemaKey) : SchemaRegError :=
  .invalidState ("JSON Schema validator lookup cancelled before completion for schema " ++
    key.toString)

/-- What `collect_reference_closure` does on leaving a reference. -/
def insertDocument (reference : SchemaReference) (referenced : Schema) (out : ReferenceSet Value) :
    Result (ReferenceSet Value) := do
  let value ← parseReferenced api.fromStr reference referenced
  out.insert reference.name value

/-- `collect_reference_closure` from the root's references, and the set that it has collected. -/
def collectReferences (references : List SchemaReference) : Reading (ReferenceSet Value) :=
  (DepthFirst.walkProgram target getReferenced Schema.references (fun _ => .ok ())
    (insertDocument api) nestTooDeep maxReferenceDepth references
    ⟨[], [], ReferenceSet.empty⟩).bind fun
  | (.ok (), walk) => .done (.ok walk.out)
  | (.error err, _) => .done (.error err)

/-- The fetch of `get_validator`. -/
def getValidator (key : SchemaKey) : Reading Validator :=
  (getSchemaByKey key).bindOk fun registrySchema =>
  (collectReferences api registrySchema.references).bindOk fun refs =>
  .done (compileSchemaWithRefs api registrySchema.schema refs)

def deserialisationFailed (e : String) : SchemaRegError :=
  .wireFormat ("JSON deserialisation failed: " ++ e)

/-- `JsonSchemaDecoder`, whose calls are `decode`. -/
def jsonSchemaDecoder (validateOnDecode : Bool) :
    Component Bytes SchemaKey Validator Value Read fun _ => Schema where
  route data :=
    match unframe data with
    | .error err => .done (.error err)
    | .ok (key, payload) =>
      match api.fromSlice payload with
      | .error e => .done (.error (deserialisationFailed e))
      | .ok value =>
        if validateOnDecode then
          .lookup key fun validator => do
            validate api validator value
            return value
        else .done (.ok value)
  fetch := getValidator api
  cancelled := jsonValidatorLookupCancelled

/-! ## Without a cache -/

variable (registry : Lookup.Registry)

/-- The validator that a key stands for. -/
def registeredValidator (key : SchemaKey) : Result Validator := do
  let schema ← registry.schemaByKey key
  let refs ← referenceClosure api.fromStr registry.schemaByVersion schema.references
  compileSchemaWithRefs api schema.schema refs

/-- A decode that asks for everything itself. -/
def decodeDirect (validateOnDecode : Bool) (data : Bytes) : Result Value := do
  let (key, payload) ← unframe data
  let value ← (api.fromSlice payload).mapError deserialisationFailed
  if validateOnDecode then
    let validator ← registeredValidator api registry key
    validate api validator value
  return value

end Definitions

variable [DecidableEq Value] {api : Api Value Validator} {registry : Lookup.Registry}
  {validateOnDecode : Bool} {data : Bytes}

theorem eval_collectReferences (references : List SchemaReference) :
    (collectReferences api references).eval registry =
      referenceClosure api.fromStr registry.schemaByVersion references := by
  have hwalk : DepthFirst.walk target (fun e => (getReferenced e).eval registry) Schema.references
      (fun _ => .ok ()) (insertDocument api) nestTooDeep maxReferenceDepth references
        ⟨[], [], ReferenceSet.empty⟩ =
        collectReferenceClosure api.fromStr registry.schemaByVersion maxReferenceDepth references
          ⟨[], [], ReferenceSet.empty⟩ := rfl
  rw [collectReferences, eval_bind, DepthFirst.eval_walkProgram, hwalk, referenceClosure]
  generalize collectReferenceClosure api.fromStr registry.schemaByVersion maxReferenceDepth
    references ⟨[], [], ReferenceSet.empty⟩ = run
  obtain ⟨result, walk⟩ := run
  cases result <;> rfl

theorem strict_collectReferences (references : List SchemaReference) :
    Strict IsError (collectReferences api references) := by
  have hwalk : Strict DepthFirst.Failed (DepthFirst.walkProgram target getReferenced
      Schema.references (fun _ => .ok ()) (insertDocument api) nestTooDeep maxReferenceDepth
        references ⟨[], [], ReferenceSet.empty⟩) :=
    DepthFirst.strict_walkProgram strict_getReferenced _ _ _
  refine hwalk.bind ?_ ?_
  · rintro ⟨_, walk⟩ ⟨err, rfl⟩
    exact ⟨_, rfl, err, rfl⟩
  · rintro ⟨result, walk⟩
    cases result <;> trivial

theorem eval_getValidator (key : SchemaKey) :
    (getValidator api key).eval registry = registeredValidator api registry key := by
  rw [getValidator, eval_bindOk, Registry.eval_getSchemaByKey]
  simp only [eval_bindOk, eval_collectReferences, eval_done]
  rfl

theorem jsonSchemaDecoder_stopsAtFailures :
    (jsonSchemaDecoder api validateOnDecode).StopsAtFailures := fun key =>
  (strict_getSchemaByKey key).bindOk fun schema =>
    (strict_collectReferences schema.references).bindOk fun _ => trivial

theorem direct_jsonSchemaDecoder :
    (jsonSchemaDecoder api validateOnDecode).direct registry data =
      decodeDirect api registry validateOnDecode data := by
  unfold Component.direct decodeDirect jsonSchemaDecoder
  dsimp only
  cases hframe : unframe data with
  | error err => rfl
  | ok framed =>
    show _ = ((api.fromSlice framed.2).mapError deserialisationFailed).bind _
    dsimp only
    cases hvalue : api.fromSlice framed.2 with
    | error e => rfl
    | ok value =>
      cases validateOnDecode with
      | false => rfl
      | true =>
        dsimp only
        rw [if_pos rfl]
        dsimp only
        rw [eval_getValidator]
        rfl

/-! ## Every run -/

/-- Whatever shares a fetch with it and whatever is dropped, evicted or cleared meanwhile: a decode
    that succeeds returns what `decodeDirect` returns, even if requests to the registry fail. If
    none fails, a decode returns what `decodeDirect` returns, or the error of a fetch that was
    cancelled; and if nothing is dropped or cleared either, always the former. A decoder that
    does not validate never sees a cancelled fetch. -/
theorem coalesced_validation_is_direct (api : Api Value Validator) (registry : Lookup.Registry)
    (validateOnDecode : Bool) (maxEntries : Nat) (cancels : Prop)
    (es : List (Lookup.Event Bytes SchemaKey Read fun _ => Schema))
    (s : Lookup.State Bytes SchemaKey Validator Value Read fun _ => Schema) (c : CallId)
    (data : Bytes) :
    ((jsonSchemaDecoder api validateOnDecode).Runs (AnsweredOrFailed registry) True maxEntries
        es s → ∀ value, s.calls c = .returned data (.ok value) →
        decodeDirect api registry validateOnDecode data = .ok value) ∧
    ((jsonSchemaDecoder api validateOnDecode).Runs (AnsweredBy registry) cancels maxEntries
        es s → ∀ result, s.calls c = .returned data result →
        result = decodeDirect api registry validateOnDecode data ∨
          (cancels ∧ validateOnDecode = true ∧ ∃ key payload, unframe data = .ok (key, payload) ∧
            result = .error (jsonValidatorLookupCancelled key))) := by
  constructor
  · intro hrun value h
    rw [← direct_jsonSchemaDecoder]
    exact ok_of_run jsonSchemaDecoder_stopsAtFailures hrun h
  · intro hrun result h
    rcases result_of_run hrun h with hdirect | ⟨hcancels, key, finish, hroute, hresult⟩
    · rw [← direct_jsonSchemaDecoder]
      exact Or.inl hdirect
    · refine Or.inr ⟨hcancels, ?_⟩
      unfold jsonSchemaDecoder at hroute
      dsimp only at hroute
      split at hroute
      · cases hroute
      · rename_i key' payload hframe
        split at hroute
        · cases hroute
        · split at hroute
          · rename_i hvalidate
            cases hroute
            exact ⟨hvalidate, key, payload, hframe, hresult⟩
          · cases hroute

/-! ## Two decodes of an order -/

namespace Amount

/-- An order refers to `money.json`, which bounds the amount. -/
inductive Document where
  | order
  | money
  | amount (n : UInt8)
  deriving DecidableEq

/-- A validator is the greatest amount that it accepts. -/
def parsing : Api Document Nat where
  fromStr text :=
    if text = "order" then .ok .order
    else if text = "money" then .ok .money
    else .error "expected value at line 1 column 1"
  fromSlice
    | [n] => .ok (.amount n)
    | _ => .error "trailing characters at line 1 column 2"
  toVec
    | .amount n => .ok [n]
    | _ => .ok []
  validatorFor _ := .ok 255
  build retrieve _ := (retrieve "https://example.com/money.json").map fun _ => 100
  iterErrors
    | maximum, .amount n => if n.toNat ≤ maximum then [] else ["greater than the maximum"]
    | _, _ => ["not a number"]

def references : List SchemaReference := [⟨"money.json", "money-value", ⟨1⟩⟩]

def orders : Lookup.Registry
  | .getSchemaById _ => .ok ⟨some ⟨1⟩, none, .json, "order", none, none, references⟩
  | .getSchemaByVersion _ _ => .ok ⟨some ⟨2⟩, none, .json, "money", none, none, []⟩
  | .getSchemaByGuid _ => .error (.network "no route")

def orderDecoder := jsonSchemaDecoder parsing true

def orderFrame : Bytes := [0, 0, 0, 0, 1, 42]

/-- The first decode fetches and is dropped before an answer. The second one, which has waited
    for it, gets an error. The third one fetches again. -/
def threeDecodes : List (Lookup.Event Bytes SchemaKey Read fun _ => Schema) :=
  [.call 0 orderFrame, .call 1 orderFrame, .resume 0, .resume 1, .resume 0, .drop 0,
    .call 2 orderFrame, .resume 2, .resume 2,
    .answer 2 ⟨.getSchemaById ⟨1⟩, orders (.getSchemaById ⟨1⟩)⟩,
    .answer 2 ⟨.getSchemaByVersion "money-value" ⟨1⟩, orders (.getSchemaByVersion "money-value" ⟨1⟩)⟩,
    .resume 2, .resume 2, .resume 2, .finish 2]

theorem threeDecodes_answered : ∀ e ∈ threeDecodes,
    ∀ s : Lookup.State Bytes SchemaKey Nat Document Read fun _ => Schema,
      Allowed (AnsweredBy orders) True s e := by
  intro e he s
  refine ⟨fun c x heq => ?_, fun _ => trivial⟩
  subst heq
  simp only [threeDecodes, List.mem_cons, List.not_mem_nil, Lookup.Event.answer.injEq, reduceCtorEq,
    or_false, false_or] at he
  rcases he with ⟨-, rfl⟩ | ⟨-, rfl⟩ <;> rfl

end Amount

open Amount in
/-- The decode that has fetched both schemas returns what it has validated. -/
theorem a_refetched_order_is_valid :
    decodeDirect parsing orders true orderFrame = .ok (.amount 42) := by
  have hexec : (exec (step orderDecoder) (.init orderDecoder 10) threeDecodes).map
      (fun s => (s.calls 2).succeeded) = some (some (orderFrame, .amount 42)) := by decide +kernel
  obtain ⟨s, h, hsucceeded⟩ := Option.map_eq_some_iff.mp hexec
  have hreturned := Phase.succeeded_eq_some.mp hsucceeded
  have hrun : orderDecoder.Runs (AnsweredBy orders) True 10
      threeDecodes s := Run.of_exec h (Along.of_forall threeDecodes_answered)
  rcases (coalesced_validation_is_direct parsing orders true 10 True threeDecodes s 2
    orderFrame).2 hrun _ hreturned with hdirect | ⟨-, -, key, payload, -, herr⟩
  · exact hdirect.symm
  · cases herr

/-! ## Frames -/

/-- `JsonSchemaEncoderBuilder::build`. -/
def buildEncoder (api : Api Value Validator) (settings : Settings)
    (dependencies : List (String × String)) (validateOnEncode : Bool) :
    Result (SchemaEncoder Value Validator) := do
  let refs ← referenceSetFromPairs api.fromStr dependencies
  let validator ← compileSchemaWithRefs api settings.schemaStr refs
  return jsonSchemaEncoder settings validator validateOnEncode (validate api) api.toVec

omit [DecidableEq Value] in
theorem lookup_none_of_isEmpty {set : ReferenceSet Value} (h : set.isEmpty = true) (uri : String) :
    set.lookup uri = none := by
  obtain ⟨byKey⟩ := set
  have hkeys : byKey.keys = [] := List.isEmpty_iff.mp h
  have hnone : ∀ key, byKey.lookup key = none := fun key =>
    AList.lookup_eq_none.mpr (by rw [AList.mem_keys, hkeys]; exact List.not_mem_nil)
  unfold ReferenceSet.lookup
  rw [hnone]
  cases lastSegment uri with
  | none => rfl
  | some tail => exact hnone tail

omit [DecidableEq Value] in
/-- A set that resolves something is not empty. -/
theorem isEmpty_eq_of_lookup {set set' : ReferenceSet Value}
    (h : ∀ uri, set.lookup uri = set'.lookup uri) : set.isEmpty = set'.isEmpty := by
  have hempty : ∀ {a b : ReferenceSet Value}, (∀ uri, a.lookup uri = b.lookup uri) →
      a.isEmpty = true → b.isEmpty = true := by
    intro a b hab ha
    unfold ReferenceSet.isEmpty
    cases hkeys : b.byKey.keys with
    | nil => rfl
    | cons key keys =>
      have hmem : key ∈ b.byKey := by
        rw [AList.mem_keys, hkeys]
        exact List.mem_cons_self
      obtain ⟨value, hvalue⟩ := Option.isSome_iff_exists.mp (AList.lookup_isSome.mpr hmem)
      have hlookup : b.lookup key = some value := by
        unfold ReferenceSet.lookup
        rw [hvalue]
        rfl
      rw [← hab, lookup_none_of_isEmpty ha] at hlookup
      cases hlookup
  cases hset : set.isEmpty with
  | true => exact (hempty h hset).symm
  | false =>
    cases hset' : set'.isEmpty with
    | true => exact hset.symm.trans (hempty (fun uri => (h uri).symm) hset')
    | false => rfl

omit [DecidableEq Value] in
/-- Compilation sees a set only through what it resolves. -/
theorem compile_congr {set set' : ReferenceSet Value} (h : ∀ uri, set.lookup uri = set'.lookup uri)
    (schemaStr : String) :
    compileSchemaWithRefs api schemaStr set = compileSchemaWithRefs api schemaStr set' := by
  have hretrieve : set.retrieve = set'.retrieve := by
    funext uri
    unfold ReferenceSet.retrieve
    rw [h]
  unfold compileSchemaWithRefs
  rw [isEmpty_eq_of_lookup h, hretrieve]

omit [DecidableEq Value] in
/-- What is serialised was valid, if the encoder validates. -/
theorem serialised_of_finish {settings : Settings} {validator : Validator} {validateOnEncode : Bool}
    {value : Value} {raw : Bytes}
    (h : (jsonSchemaEncoder settings validator validateOnEncode (validate api) api.toVec).serialise
      validator value = .ok raw) :
    api.toVec value = .ok raw ∧
      (validateOnEncode = true → validate api validator value = .ok ()) := by
  unfold jsonSchemaEncoder at h
  dsimp only at h
  cases hvec : api.toVec value with
  | error err =>
    rw [hvec] at h
    cases validateOnEncode with
    | false => cases h
    | true =>
      obtain ⟨-, -, h⟩ := Result.bind_eq_ok.mp h
      cases h
  | ok bytes =>
    rw [hvec] at h
    cases validateOnEncode with
    | false => exact ⟨congrArg _ (Except.ok.inj h), nofun⟩
    | true =>
      obtain ⟨⟨⟩, hvalid, h⟩ := Result.bind_eq_ok.mp h
      exact ⟨congrArg _ (Except.ok.inj h), fun _ => hvalid⟩

/-- An encoder that registers or looks up its schema, and a decoder, each in a run of its own. The
    decoder reads a registry that serves what the encoder's identifiers stand for, and whose
    references resolve every `$ref` as the dependencies of the encoder do. Then every frame
    decodes to the encoded value, provided that JSON reads it back, and that it was validated if
    the decoder validates: no decode of the frame succeeds with another value, and where no
    request fails and nothing is cancelled it succeeds. -/
theorem value_of_encode {settings : Settings} {deps : List (String × String)}
    {validateOnEncode : Bool} {e : SchemaEncoder Value Validator} {holds : Cache.Registry}
    {supplied closure : ReferenceSet Value}
    (hbuild : buildEncoder api settings deps validateOnEncode = .ok e)
    (hmode : settings.resolution ≠ .useLatestVersion) (hserves : Serves registry holds)
    (hsupplied : referenceSetFromPairs api.fromStr deps = .ok supplied)
    (hclosure : referenceClosure api.fromStr registry.schemaByVersion settings.references =
      .ok closure)
    (hsame : ∀ uri, closure.lookup uri = supplied.lookup uri)
    (hvalidates : validateOnDecode = true → validateOnEncode = true)
    {maxSubjects : Nat} {es : List (Encoder.Event Value)} {s : Encoder.State Value Validator}
    (hrun : Run (Encoder.step e) (Answers holds) (.init maxSubjects) es s) {c : CallId}
    {call : EncodeCall Value} {data : Bytes}
    (hreads : ∀ bytes, api.toVec call.value = .ok bytes → api.fromSlice bytes = .ok call.value)
    (hframe : s.calls c = .encoded call (.ok (.framed data))) :
    ∀ maxEntries fs t d result, t.calls d = .returned data result →
      ((jsonSchemaDecoder api validateOnDecode).Runs (AnsweredOrFailed registry) True maxEntries
        fs t → ∀ value, result = .ok value → value = call.value) ∧
      ((jsonSchemaDecoder api validateOnDecode).Runs (AnsweredBy registry) False maxEntries
        fs t → result = .ok call.value) := by
  obtain ⟨refs, hrefs, hbuild⟩ := Result.bind_eq_ok.mp hbuild
  obtain rfl : refs = supplied := Except.ok.inj (hrefs.symm.trans hsupplied)
  obtain ⟨validator, hvalidator, hbuild⟩ := Result.bind_eq_ok.mp hbuild
  obtain rfl := Except.ok.inj hbuild
  obtain ⟨key, schema, hfinish, hschema, -, htext, hreferences⟩ :=
    served_of_frame hmode hserves hrun hframe
  have htext : schema.schema = settings.schemaStr := htext
  have hreferences : schema.references = settings.references := hreferences
  obtain ⟨raw, hraw, rfl⟩ := framed_of_finish hfinish
  obtain ⟨hvec, hvalid⟩ := serialised_of_finish hraw
  have hread := hreads raw hvec
  -- and the decoder compiles the same validator
  have hregistered : registeredValidator api registry key = .ok validator := by
    unfold registeredValidator
    rw [hschema]
    show (referenceClosure api.fromStr registry.schemaByVersion schema.references).bind _ = _
    rw [hreferences, hclosure, htext]
    show compileSchemaWithRefs api settings.schemaStr closure = _
    rw [compile_congr hsame]
    exact hvalidator
  have hdirect : decodeDirect api registry validateOnDecode (putPrefix key ++ ([] ++ raw)) =
      .ok call.value := by
    unfold decodeDirect
    rw [unframe_append]
    show ((api.fromSlice ([] ++ raw)).mapError deserialisationFailed).bind _ = _
    rw [List.nil_append, hread]
    cases hdecode : validateOnDecode with
    | false => rfl
    | true =>
      show (registeredValidator api registry key).bind _ = _
      rw [hregistered]
      show (validate api validator call.value).bind _ = _
      rw [hvalid (hvalidates hdecode)]
      rfl
  intro maxEntries fs t d result hd
  constructor
  · rintro hfs value rfl
    have hvalue := ok_of_run jsonSchemaDecoder_stopsAtFailures hfs hd
    rw [direct_jsonSchemaDecoder] at hvalue
    exact Except.ok.inj (hvalue.symm.trans hdirect)
  · intro hfs
    rcases result_of_run hfs hd with hresult | ⟨himpossible, -⟩
    · rw [direct_jsonSchemaDecoder] at hresult
      exact hresult.trans hdirect
    · exact himpossible.elim

/-! ## One order -/

namespace Amount

/-- Every ID stands for the order. -/
def orderIds : Cache.Registry := fun x _ =>
  match x with
  | .id => some ⟨.json, "order", references⟩
  | .guid => none

theorem orders_serves : Serves orders orderIds := by
  intro key content h
  cases key with
  | id id =>
    cases h
    exact ⟨_, rfl, rfl⟩
  | guid guid => cases h

def orderSettings : Settings := ⟨"order", .topicName, references, .autoRegister, .schemaId⟩

/-- The encoder was given the bound under its name. -/
def orderEncoder : SchemaEncoder Document Nat :=
  jsonSchemaEncoder orderSettings 100 true (validate parsing) parsing.toVec

def amountCall : EncodeCall Document := ⟨.amount 42, "orders", none, .value, .payload⟩

def oneEncode : List (Encoder.Event Document) :=
  [.encode 0 amountCall, .resume 0, .resume 0,
    .answer 0 ⟨.registerSchema "orders-value" "order" .json references, .ok ⟨1⟩⟩,
    .resume 0, .resume 0, .resume 0, .finish 0]

/-- What the dependencies and the references of the order come to. -/
def moneySet : ReferenceSet Document := ⟨AList.singleton "money.json" .money⟩

end Amount

open Amount in
/-- A decoder that validates returns the amount that the encoder has validated. -/
theorem orders_round_trip : amountCall.value = .amount 42 ∧ ∀ fs t d result,
    t.calls d = .returned orderFrame result → orderDecoder.Runs (AnsweredBy orders) False 10 fs t →
      result = .ok (.amount 42) := by
  have hbuild : buildEncoder parsing orderSettings [("money.json", "money")] true =
      .ok orderEncoder := rfl
  obtain ⟨s, h, hframe⟩ : ∃ s, exec (Encoder.step orderEncoder) (.init 10) oneEncode = some s ∧
      s.calls 0 = .encoded amountCall (.ok (.framed orderFrame)) := ⟨_, rfl, rfl⟩
  have hrun : Run (Encoder.step orderEncoder) (Answers orderIds) (.init 10) oneEncode s := by
    refine Run.of_exec h (Along.of_forall fun ev hev s c x heq => ?_)
    subst heq
    simp only [oneEncode, List.mem_cons, List.not_mem_nil, Encoder.Event.answer.injEq, reduceCtorEq,
      or_false, false_or] at hev
    obtain ⟨-, rfl⟩ := hev
    rfl
  have hmode : orderSettings.resolution ≠ .useLatestVersion := by decide
  have hsupplied : referenceSetFromPairs parsing.fromStr [("money.json", "money")] =
      .ok moneySet := rfl
  have hclosure : referenceClosure parsing.fromStr orders.schemaByVersion references =
      .ok moneySet := rfl
  have hreads : ∀ bytes, parsing.toVec amountCall.value = .ok bytes →
      parsing.fromSlice bytes = .ok amountCall.value := by
    intro bytes hbytes
    obtain rfl := Except.ok.inj hbytes
    rfl
  have hvalidates : true = true → true = true := id
  have hdecoded := value_of_encode hbuild hmode orders_serves hsupplied hclosure (fun _ => rfl)
    hvalidates hrun hreads hframe
  exact ⟨rfl, fun fs t d result hd hfs => (hdecoded 10 fs t d result hd).2 hfs⟩

end Schemreg.Json
