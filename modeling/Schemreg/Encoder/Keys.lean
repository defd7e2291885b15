import Schemreg.Cache.Transparency
import Schemreg.Encoder.Resolutions
import Schemreg.Wire.Prefix

/-
  Encoders frame with a key that stands for the right schema.

  `holds` says which content an identifier stands for. The registry registers, looks up and
  reports by it (`Faithful`); of what it reports as the latest version nothing is assumed. A
  frame carries a key that `resolve_schema_key` ended with for the frame's own subject, and
  what the registry has answered in that dialogue says what the key stands for.
-/

namespace Schemreg.Encoder

open Cache (Content Honest contentOf)
open CacheInner (CallId)
open Dialogue Resolver Transition Wire

variable {Value Parsed : Type} {e : SchemaEncoder Value Parsed} {s t : State Value Parsed}
  {ev : Event Value} {holds : Cache.Registry} {subject : String} {key : SchemaKey}

/-- `get_schema_by_key`. -/
def getSchemaByKey (holds : Cache.Registry) : SchemaKey → Option Content
  | .id id => holds .id id
  | .guid guid => holds .guid guid

/-- The registry answers a call by what it holds. -/
def Faithful (holds : Cache.Registry) : Exchange → Prop
  | ⟨.registerSchema _ schema schemaType references, .ok id⟩ =>
      holds .id id = some ⟨schemaType, schema, references⟩
  | ⟨.lookupSchema _ schema schemaType references, .ok (some found)⟩ =>
      contentOf found = ⟨schemaType, schema, references⟩ ∧ Honest holds found
  | ⟨.getSchemaById id, .ok schema⟩ =>
      holds .id id = some (contentOf schema) ∧ Honest holds schema
  | _ => True

/-- Every answer is faithful. -/
def Answers (holds : Cache.Registry) (_ : State Value Parsed) (ev : Event Value) : Prop :=
  ∀ c x, ev = .answer c x → Faithful holds x

/-- The encoder's own schema. -/
def SchemaEncoder.content (e : SchemaEncoder Value Parsed) : Content :=
  ⟨e.schemaType, e.schemaStr, e.references⟩

/-- A consumer finds the key in the frame. -/
def Frame.Carries (frame : Frame) (key : SchemaKey) : Prop :=
  ∃ n, decodeWirePrefix frame.identifier = .ok (key, n)

/-- The key is an identifier of the version: one that the version was reported with, or the
    GUID that was reported for its ID. -/
def Identifies (xs : List Exchange) (version : Schema) : SchemaKey → Prop
  | .id id => version.id = some id
  | .guid guid => version.guid = some guid ∨ (version.guid = none ∧ ∃ id schema,
      version.id = some id ∧ ⟨.getSchemaById id, .ok schema⟩ ∈ xs ∧ schema.guid = some guid)

/-- What the key for a subject stands for: the encoder's own schema, or a version that the
    registry has returned as the latest of that subject. -/
def StandsFor (e : SchemaEncoder Value Parsed) (holds : Cache.Registry) (s : State Value Parsed)
    (subject : String) (key : SchemaKey) : Prop :=
  match e.resolution with
  | .autoRegister | .lookupOnly => getSchemaByKey holds key = some e.content
  | .useLatestVersion => ∃ l latest, (l, ⟨.getLatestSchema subject, .ok latest⟩) ∈ s.exchanges ∧
      Identifies (s.dialogue l) latest key ∧
        (Honest holds latest → getSchemaByKey holds key = some (contentOf latest))

/-! ## The frame -/

theorem framePayload_eq (key : SchemaKey) (payload : Bytes) :
    ∃ rest, e.framePayload key payload = putPrefix key ++ rest := by
  unfold SchemaEncoder.framePayload
  cases e.messageIndexes with
  | some indexes =>
    exact ⟨putMessageIndexes indexes ++ payload, List.append_assoc _ _ _⟩
  | none => exact ⟨payload, rfl⟩

/-- Both placements put the key of the entry where a consumer looks for it. -/
theorem carries_of_finish {call : EncodeCall Value} {entry : EncoderEntry Parsed} {frame : Frame}
    (h : e.finish call entry = .ok frame) : frame.Carries entry.key := by
  obtain ⟨raw, -, hframe⟩ := Result.bind_eq_ok.mp h
  cases hplacement : call.placement with
  | payload =>
    rw [hplacement] at hframe
    obtain rfl := Except.ok.inj hframe
    obtain ⟨rest, hrest⟩ := framePayload_eq (e := e) entry.key raw
    refine ⟨(putPrefix entry.key).length, ?_⟩
    show decodeWirePrefix (e.framePayload entry.key raw) = _
    rw [hrest]
    exact decodeWirePrefix_append entry.key rest
  | header =>
    rw [hplacement] at hframe
    obtain rfl := Except.ok.inj hframe
    exact ⟨_, decodeWirePrefix_append entry.key _⟩

/-! ## The key -/

section

variable {resolved : ResolvedIdentity} {framing : Framing} {xs : List Exchange} {content : Content}

/-- Identifiers that stand for a content lead to no other. -/
theorem getSchemaByKey_of_learned (h : Learned resolved framing xs key)
    (hid : ∀ id, resolved.id = some id → holds .id id = some content)
    (hguid : ∀ guid, resolved.guid = some guid → holds .guid guid = some content)
    (hfaithful : ∀ x ∈ xs, Faithful holds x) : getSchemaByKey holds key = some content := by
  cases h with
  | id known => exact hid _ known
  | guid known => exact hguid _ known
  | @fetched id schema guid missing known reported =>
    obtain ⟨hschema, honest⟩ := hfaithful _ (List.mem_singleton_self _)
    have hcontent : content = contentOf schema := by
      rw [hid id known] at hschema
      exact Option.some.inj hschema
    rw [hcontent]
    exact honest .guid guid reported

theorem getSchemaByKey_of_honest {schema : Schema} (honest : Honest holds schema)
    (h : Learned ⟨schema.id, schema.guid⟩ framing xs key)
    (hfaithful : ∀ x ∈ xs, Faithful holds x) :
    getSchemaByKey holds key = some (contentOf schema) :=
  getSchemaByKey_of_learned h (fun id => honest .id id) (fun guid => honest .guid guid) hfaithful

theorem identifies_of_learned {version : Schema} {ys : List Exchange}
    (h : Learned ⟨version.id, version.guid⟩ framing xs key) (hsub : ∀ x ∈ xs, x ∈ ys) :
    Identifies ys version key := by
  cases h with
  | id known => exact known
  | guid known => exact Or.inl known
  | fetched missing known reported =>
    exact Or.inr ⟨missing, _, _, known, hsub _ (List.mem_singleton_self _), reported⟩

end

/-- What the answers in a completed dialogue make of its key. -/
theorem standsFor_of_resolved (h : ResolvedFor e s subject key)
    (hfaithful : ∀ c x, (c, x) ∈ s.exchanges → Faithful holds x) :
    StandsFor e holds s subject key := by
  obtain ⟨l, token, -, hleads⟩ := h
  have hown : ∀ x ∈ s.dialogue l, Faithful holds x := fun x hx =>
    hfaithful l x (s.mem_dialogue.mp hx)
  have hresolved := resolve_cases hleads
  generalize hxs : s.dialogue l = xs at hresolved hown
  unfold StandsFor
  generalize e.resolution = resolution at hresolved ⊢
  cases hresolved with
  | @registered id xs _ learned =>
    have hid : holds .id id = some e.content := hown _ List.mem_cons_self
    refine getSchemaByKey_of_learned learned ?_ nofun fun x hx => hown x (List.mem_cons_of_mem _ hx)
    intro id' hid'
    cases hid'
    exact hid
  | @found found xs _ learned =>
    obtain ⟨hcontent, honest⟩ := hown _ List.mem_cons_self
    have hkey := getSchemaByKey_of_honest honest learned fun x hx =>
      hown x (List.mem_cons_of_mem _ hx)
    rw [hkey, hcontent]
    rfl
  | @latest latest xs _ learned =>
    refine ⟨l, latest, ?_, ?_, fun honest => ?_⟩
    · rw [← s.mem_dialogue, hxs]
      exact List.mem_cons_self
    · rw [hxs]
      exact identifies_of_learned learned fun x hx => List.mem_cons_of_mem _ hx
    · exact getSchemaByKey_of_honest honest learned fun x hx => hown x (List.mem_cons_of_mem _ hx)

/-! ## Every run -/

theorem faithful_run {maxEntries : Nat} {es : List (Event Value)}
    (hrun : Run (step e) (Answers holds) (State.init maxEntries) es s) {c : CallId} {x : Exchange}
    (hmem : (c, x) ∈ s.exchanges) : Faithful holds x := by
  have hall : ∀ c x, (c, x) ∈ s.exchanges → Faithful holds x := by
    refine hrun.invariant (I := fun s => ∀ c x, (c, x) ∈ s.exchanges → Faithful holds x) ?_ ?_
    · intro c x hmem
      cases hmem
    · intro s ev t h answers hs c x hmem
      rcases exchanges_step hs hmem with hold | rfl
      · exact h c x hold
      · exact answers c x rfl
  exact hall c x hmem

/-- A key that has been resolved for a subject is one that the framing can put on the wire, and
    stands for what the mode says. -/
theorem resolvedFor_run {maxEntries : Nat} {es : List (Event Value)}
    (hrun : Run (step e) (Answers holds) (State.init maxEntries) es s)
    (h : ResolvedFor e s subject key) :
    e.framing.Takes key ∧ StandsFor e holds s subject key := by
  refine ⟨?_, standsFor_of_resolved h fun c x => faithful_run hrun⟩
  obtain ⟨l, token, -, hleads⟩ := h
  exact (resolve_cases hleads).takes

/-- So does every key that the cache reports. -/
theorem cachedSchemaKey_run {maxEntries : Nat} {es : List (Event Value)}
    (hrun : Run (step e) (Answers holds) (State.init maxEntries) es s)
    (h : cachedSchemaKey s subject = some key) :
    ResolvedFor e s subject key ∧ e.framing.Takes key ∧ StandsFor e holds s subject key := by
  obtain ⟨entry, hget, rfl⟩ := Option.map_eq_some_iff.mp h
  obtain ⟨stored, hlook, rfl⟩ := CacheInner.get_eq_some_iff.mp hget
  have hres := ((sound_run hrun).keyed.stored subject stored hlook).1
  exact ⟨hres, resolvedFor_run hrun hres⟩

/-- Every frame carries a key of the framing's kind, which a resolution of the frame's own
    subject has ended with. Where the encoder registers or looks up its schema, the key stands
    for that schema; where it follows the latest version, for one that the registry has returned
    for the subject. An encoder that may not write to the registry never registers. -/
theorem frames_carry_own_key {maxEntries : Nat} {es : List (Event Value)}
    (hrun : Run (step e) (Answers holds) (State.init maxEntries) es s) :
    (∀ c call frame, s.calls c = .encoded call (.ok frame) → ∃ subject key,
      e.subjectFor call = .ok subject ∧ e.finish call (e.entry key) = .ok frame ∧
        frame.Carries key ∧ e.framing.Takes key ∧ ResolvedFor e s subject key ∧
          StandsFor e holds s subject key) ∧
    (e.resolution ≠ .autoRegister → ∀ c subject schema schemaType references,
      (c, .registerSchema subject schema schemaType references) ∉ s.sent) := by
  have hsound : Sound e s := sound_run hrun
  constructor
  · intro c call frame hframe
    obtain ⟨subject, key, names, hres, hfinish⟩ := hsound.encoded c call frame hframe
    obtain ⟨htakes, hstands⟩ := resolvedFor_run hrun hres
    exact ⟨subject, key, names, hfinish, carries_of_finish hfinish, htakes, hres, hstands⟩
  · intro hmode c subject schema schemaType references hsent
    obtain ⟨subject', token, -, hasks⟩ := hsound.asked c _ hsent
    have hwrites := writes_of_allowed hasks
    cases hresolution : e.resolution with
    | autoRegister => exact hmode hresolution
    | lookupOnly | useLatestVersion =>
      rw [hresolution] at hwrites
      cases hwrites

/-- An encoder of strings that registers its schema and frames with GUIDs. -/
def stringEncoder : SchemaEncoder Bytes Unit :=
  confluentSchemaEncoder
    ⟨Cache.idSchema.schema, .topicName, [], .autoRegister, .schemaGuid⟩ .avro []

def orderCall : EncodeCall Bytes := ⟨[0x0A], "orders", none, .value, .payload⟩

/-- Two calls for one subject. The first one leads, and registers; the second one waits. -/
def coalescedEncodes : List (Event Bytes) :=
  [.encode 0 orderCall, .encode 1 orderCall, .resume 0, .resume 1, .resume 0,
    .answer 0 ⟨.registerSchema "orders-value" Cache.idSchema.schema .avro [], .ok ⟨7⟩⟩,
    .answer 0 ⟨.getSchemaById ⟨7⟩, .ok Cache.bothSchema⟩,
    .resume 0, .resume 0, .resume 0, .resume 0, .resume 1, .finish 1]

theorem coalescedEncodes_faithful : ∀ ev ∈ coalescedEncodes, ∀ s : State Bytes Unit,
    Answers Cache.stringRegistry s ev := by
  intro ev hev s c x heq
  subst heq
  simp only [coalescedEncodes, List.mem_cons, List.not_mem_nil, Event.answer.injEq, reduceCtorEq,
    or_false, false_or] at hev
  rcases hev with ⟨-, rfl⟩ | ⟨-, rfl⟩
  · rfl
  · exact ⟨rfl, fun _ _ _ => rfl⟩

/-- The frame of the call that waited carries the GUID of the schema that the other one has
    registered. -/
theorem waiter_frames_with_guid : ∃ (s : State Bytes Unit) (frame : Frame) (key : SchemaKey),
    s.calls 1 = .encoded orderCall (.ok frame) ∧ frame.Carries key ∧
      stringEncoder.framing.Takes key ∧
        getSchemaByKey Cache.stringRegistry key = some stringEncoder.content := by
  obtain ⟨s, h, hframe⟩ : ∃ s, exec (step stringEncoder) (State.init 10) coalescedEncodes = some s ∧
      s.calls 1 = .encoded orderCall
        (.ok (.framed (encodeWireFormat (.guid Cache.zeroGuid) [0x0A]))) := ⟨_, rfl, rfl⟩
  have hrun : Run (step stringEncoder) (Answers Cache.stringRegistry) (State.init 10)
      coalescedEncodes s := Run.of_exec h (Along.of_forall coalescedEncodes_faithful)
  obtain ⟨subject, key, -, -, hcarries, htakes, -, hstands⟩ :=
    (frames_carry_own_key hrun).1 1 orderCall _ hframe
  exact ⟨s, _, key, hframe, hcarries, htakes, hstands⟩

end Schemreg.Encoder
