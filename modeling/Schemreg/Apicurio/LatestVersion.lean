import Schemreg.Apicurio.System
import Schemreg.Cache.Vouched

/-
  Reads of the latest version.

  `version_schema` takes the identity of a version from its first GET and the text from its
  second. An expression that names a version stands for the same version both times, but
  `branch=latest` may not: a registration between the two GETs puts the text of the new
  version under the global ID of the old one, and the cache keeps it there. `SameText` is
  the condition under which the two belong together.
-/

namespace Schemreg.Apicurio

open Cache
open CacheInner (CallId)
open Transition

variable {dereference : Bool} {s t : System} {e : SystemEvent}

/-- The version that the expression of a latest read stands for now has the text of the one
    whose metadata was received. -/
def SameText (dereference : Bool) (s : System) (e : SystemEvent) : Prop :=
  ∀ c request gens artifact subject r now, e = .content c →
    s.cache.calls c = .fetching request gens →
    asked request = some (artifact, latestVersionExpression, subject) →
    s.received c = some r →
    resolve s.registry artifact latestVersionExpression = some now →
    contentAsUtf8 (now.content dereference) = contentAsUtf8 (r.content dereference)

/-- The ID, the version and the text of the schema are those of this version. -/
def Belongs (dereference : Bool) (schema : Schema) (r : Registered) : Prop :=
  (∃ id, schema.id = some id ∧ globalIdToSchemaId r.metaData.globalId = .ok id) ∧
    schema.version = r.metaData.version.bind parseVersion ∧
    contentAsUtf8 (r.content dereference) = .ok schema.schema

/-- The ID, the version and the text of the schema are those of one registered version. -/
def OneVersion (dereference : Bool) (registry : List Registered) (schema : Schema) : Prop :=
  ∃ r ∈ registry, Belongs dereference schema r

/-- The text is that of the version with this ID. -/
def TextOf (dereference : Bool) (registry : List Registered) (id : SchemaId) (text : String) :
    Prop :=
  ∃ r ∈ registry, globalIdToSchemaId r.metaData.globalId = .ok id ∧
    contentAsUtf8 (r.content dereference) = .ok text

/-! ## The registry -/

/-- No two versions have the same global ID. -/
def Distinct (registry : List Registered) : Prop :=
  ∀ r ∈ registry, ∀ r' ∈ registry, r.metaData.globalId = r'.metaData.globalId → r = r'

theorem distinct_append {registry : List Registered} {r : Registered} (h : Distinct registry)
    (new : r.isNew registry = true) : Distinct (registry ++ [r]) := by
  have fresh : ∀ old ∈ registry, old.metaData.globalId ≠ r.metaData.globalId := by
    intro old hold
    have := List.all_eq_true.mp new old hold
    exact (of_decide_eq_true this).1
  intro a ha b hb same
  rcases List.mem_append.mp ha with ha | ha
  · rcases List.mem_append.mp hb with hb | hb
    · exact h a ha b hb same
    · rw [List.mem_singleton.mp hb] at same
      exact absurd same (fresh a ha)
  · rcases List.mem_append.mp hb with hb | hb
    · rw [List.mem_singleton.mp ha] at same
      exact absurd same.symm (fresh b hb)
    · rw [List.mem_singleton.mp ha, List.mem_singleton.mp hb]

theorem mem_of_resolve {registry : List Registered} {artifact : ArtifactId} {expression : String}
    {r : Registered} (h : resolve registry artifact expression = some r) : r ∈ registry := by
  unfold resolve at h
  split at h
  · exact List.mem_reverse.mp (List.mem_of_find?_eq_some h)
  · exact List.mem_of_find?_eq_some h

/-- An expression that names a version goes on to stand for it. -/
theorem resolve_append {registry : List Registered} {artifact : ArtifactId} {expression : String}
    {r : Registered} (h : resolve registry artifact expression = some r)
    (named : expression ≠ latestVersionExpression) (new : List Registered) :
    resolve (registry ++ new) artifact expression = some r := by
  unfold resolve at h ⊢
  rw [if_neg named] at h ⊢
  rw [List.find?_append, h]
  rfl

theorem toNat_of_globalId {n : Int64} {id : SchemaId} (h : globalIdToSchemaId n = .ok id) :
    0 ≤ n.toInt ∧ n.toInt.toNat = id.asU32.toNat := by
  unfold globalIdToSchemaId at h
  split at h
  · cases h
  · rename_i hrange
    have hnonneg : 0 ≤ n.toInt := by omega
    have hle : n.toInt.toNat ≤ 0xFFFFFFFF := by omega
    have hclamp : n.toUInt64.toNat = n.toInt.toNat :=
      Int64.toNat_toUInt64_of_le (Int64.le_iff_toInt_le.mpr hnonneg)
    cases h
    refine ⟨hnonneg, ?_⟩
    show _ = n.toUInt64.toUInt32.toNat
    rw [UInt64.toNat_toUInt32, hclamp]
    omega

/-- Global IDs that the wire format can carry are told apart by it. -/
theorem globalId_injective {a b : Int64} {id : SchemaId} (ha : globalIdToSchemaId a = .ok id)
    (hb : globalIdToSchemaId b = .ok id) : a = b := by
  obtain ⟨hanonneg, hanat⟩ := toNat_of_globalId ha
  obtain ⟨hbnonneg, hbnat⟩ := toNat_of_globalId hb
  apply Int64.toInt.inj
  omega

/-! ## What a reader has received -/

/-- The registry has no two versions with one global ID, a reader has received the metadata of
    one of its versions, and a version that was named is still what its name stands for. -/
structure Sound (s : System) : Prop where
  distinct : Distinct s.registry
  member : ∀ c r, s.received c = some r → r ∈ s.registry
  unread : ∀ c, (s.cache.calls c).pre → s.received c = none
  named : ∀ c r request gens artifact expression subject, s.received c = some r →
    s.cache.calls c = .fetching request gens →
    asked request = some (artifact, expression, subject) →
    expression ≠ latestVersionExpression → resolve s.registry artifact expression = some r

theorem sound_init (maxEntries : Nat) : Sound (System.init maxEntries) where
  distinct r hr := by cases hr
  member _ _ h := by cases h
  unread _ _ := rfl
  named _ _ _ _ _ _ _ h := by cases h

/-- A step of the cache leaves what the readers have received. -/
theorem sound_cache (h : Sound s) {ce : Event} {i : State} (inner : Cache.step s.cache ce = some i) :
    Sound { s with cache := i } where
  distinct := h.distinct
  member := h.member
  unread c hpre := by
    refine h.unread c ?_
    by_contra hnot
    exact pre_step hnot inner hpre
  named c r request gens artifact expression subject hr hphase := by
    rcases direct_step inner hphase with hold | ⟨hsampled, _⟩
    · exact h.named c r request gens artifact expression subject hr hold
    · have := h.unread c (by rw [hsampled]; trivial)
      have hr' : s.received c = some r := hr
      rw [this] at hr'
      cases hr'

theorem sound_step (h : Sound s) (hs : step dereference s e = some t) : Sound t := by
  cases step_cases hs with
  | cache silent inner => exact sound_cache h inner
  | content phase second asks found inner => exact sound_cache h inner
  | globalId asks found same inner => exact sound_cache h inner
  | fail inner => exact sound_cache h inner
  | @register r new =>
    refine ⟨distinct_append h.distinct new, fun c r hr => List.mem_append_left _ (h.member c r hr),
      h.unread, ?_⟩
    intro c r request gens artifact expression subject hr hphase hasks hnamed
    exact resolve_append (h.named c r request gens artifact expression subject hr hphase hasks hnamed)
      hnamed _
  | @metaData c request gens artifact expression subject r phase first asks found =>
    refine ⟨h.distinct, ?_, ?_, ?_⟩
    · intro d r' hr
      by_cases hd : d = c
      · subst hd
        have heq : r = r' := by simpa using hr
        exact heq ▸ mem_of_resolve found
      · exact h.member d r' (by simpa [hd] using hr)
    · intro d hpre
      have hd : d ≠ c := by
        rintro rfl
        have hpre' : (s.cache.calls d).pre := hpre
        rw [phase] at hpre'
        exact hpre'
      simpa [hd] using h.unread d hpre
    · intro d r' request' gens' artifact' expression' subject' hr hphase hasks hnamed
      by_cases hd : d = c
      · subst hd
        have hphase' : s.cache.calls d = .fetching request' gens' := hphase
        rw [phase] at hphase'
        cases hphase'
        rw [asks] at hasks
        cases hasks
        have heq : r = r' := by simpa using hr
        exact heq ▸ found
      · exact h.named d r' request' gens' artifact' expression' subject' (by simpa [hd] using hr)
          hphase hasks hnamed

/-! ## Completed reads -/

/-- A read gives one version exactly if the text it got is that of the version whose metadata
    it got. -/
theorem oneVersion_iff {registry : List Registered} {r now : Registered} {subject : String}
    {schema : Schema} (distinct : Distinct registry) (member : r ∈ registry)
    (h : combine r.metaData (now.content dereference) subject = .ok schema) :
    OneVersion dereference registry schema ↔
      contentAsUtf8 (now.content dereference) = contentAsUtf8 (r.content dereference) := by
  obtain ⟨⟨id, hid, hglobal⟩, hversion, htext, _⟩ := combine_ok h
  constructor
  · rintro ⟨r', hr', ⟨id', hid', hglobal'⟩, _, htext'⟩
    have hids : id = id' := by
      rw [hid] at hid'
      exact Option.some.inj hid'
    have hsame : r' = r :=
      distinct r' hr' r member (globalId_injective hglobal' (hids ▸ hglobal))
    rw [htext, ← hsame, htext']
  · intro hsame
    exact ⟨r, member, ⟨id, hid, hglobal⟩, hversion, by rw [← hsame]; exact htext⟩

/-- A read that has completed with a schema has combined the metadata that it had received
    with the content of what its expression stands for now. -/
theorem content_step {c : CallId} {request : Lookup} {v : Fetched} {todo : List Ident}
    {gens : Generations} (hs : step dereference s (.content c) = some t)
    (hv : t.cache.calls c = .indexing request v todo gens) :
    ∃ request gens artifact expression subject r now,
      s.cache.calls c = .fetching request gens ∧ s.received c = some r ∧
      asked request = some (artifact, expression, subject) ∧
      resolve s.registry artifact expression = some now ∧
      combine r.metaData (now.content dereference) subject = .ok v.schema := by
  cases step_cases hs with
  | @content c request' gens' artifact expression subject r now i phase second asks found inner =>
    refine ⟨request', gens', artifact, expression, subject, r, now, phase, second, asks, found, ?_⟩
    have hhanded : (i.calls c).handed = some (request, v) := by
      have hv' : i.calls c = .indexing request v todo gens := hv
      rw [hv']
      rfl
    rcases handed_step inner hhanded with hold | ⟨_, _, _, _, he, _⟩ | ⟨_, schema, he, _, rfl⟩
    · rw [phase] at hold
      cases hold
    · cases he
    · simpa using he

theorem content_sameText_iff (h : Sound s) {c : CallId} {request : Lookup} {gens : Generations}
    {artifact : ArtifactId} {expression subject : String} {r now : Registered}
    (phase : s.cache.calls c = .fetching request gens) (second : s.received c = some r)
    (asks : asked request = some (artifact, expression, subject))
    (found : resolve s.registry artifact expression = some now) :
    contentAsUtf8 (now.content dereference) = contentAsUtf8 (r.content dereference) ↔
      SameText dereference s (.content c) := by
  constructor
  · intro hsame d request₁ gens₁ artifact₁ subject₁ r₁ now₁ he phase₁ asks₁ second₁ found₁
    cases he
    rw [phase] at phase₁
    cases phase₁
    rw [second] at second₁
    cases second₁
    rw [asks] at asks₁
    cases asks₁
    rw [found] at found₁
    cases found₁
    exact hsame
  · intro hsame
    by_cases hnamed : expression = latestVersionExpression
    · subst hnamed
      exact hsame c request gens artifact subject r now rfl phase asks second found
    · -- a version that is named is the same both times
      have hnow := h.named c r request gens artifact expression subject second phase asks hnamed
      rw [found] at hnow
      cases hnow
      rfl

/-- The condition is exact: a read that completes with a schema gives one version if and only
    if the condition holds. -/
theorem content_oneVersion_iff (h : Sound s) {c : CallId} {request : Lookup} {v : Fetched}
    {todo : List Ident} {gens : Generations} (hs : step dereference s (.content c) = some t)
    (hv : t.cache.calls c = .indexing request v todo gens) :
    OneVersion dereference s.registry v.schema ↔ SameText dereference s (.content c) := by
  obtain ⟨request', gens', artifact, expression, subject, r, now, phase, second, asks, found,
    hcombine⟩ := content_step hs hv
  rw [oneVersion_iff h.distinct (h.member c r second) hcombine]
  exact content_sameText_iff h phase second asks found

/-! ## Runs -/

/-- What an identifier stands for in the cache: the text of the version with that ID. The
    client reports no GUIDs. -/
def textTruth (dereference : Bool) (registry : List Registered) :
    (x : Ident) → x.Key → Schema → Prop
  | .id, id, schema => TextOf dereference registry id schema.schema
  | .guid, _, _ => True

/-- Every read so far has given one version, and the cache holds the texts of the IDs. -/
structure Faithful (dereference : Bool) (s : System) : Prop where
  sound : Sound s
  vouched : Vouched (textTruth dereference s.registry) s.cache
  reads : ∀ c request v, (s.cache.calls c).handed = some (request, v) → request.direct →
    OneVersion dereference s.registry v.schema

theorem faithful_init (maxEntries : Nat) : Faithful dereference (System.init maxEntries) where
  sound := sound_init maxEntries
  vouched := vouched_init maxEntries
  reads _ _ _ h := by cases h

theorem OneVersion.vouches {registry : List Registered} {schema : Schema}
    (h : OneVersion dereference registry schema) :
    Vouches (textTruth dereference registry) schema := by
  obtain ⟨r, hr, ⟨id, hid, hglobal⟩, _, htext⟩ := h
  intro x key hkey
  cases x with
  | id =>
    have heq : id = key := by
      have hkey' : schema.id = some key := hkey
      rw [hid] at hkey'
      exact Option.some.inj hkey'
    exact ⟨r, hr, heq ▸ hglobal, htext⟩
  | guid => trivial

/-- A step of the cache whose answer, if it is one, is true, and is one version if the call
    reads a subject. -/
theorem faithful_cache (h : Faithful dereference s) {ce : Event} {i : State}
    (inner : Cache.step s.cache ce = some i)
    (answers : AnswersTrue (textTruth dereference s.registry) s.cache ce)
    (reads : ∀ c schema request gens, ce = .reply c (.ok schema) →
      s.cache.calls c = .fetching request gens → OneVersion dereference s.registry schema) :
    Faithful dereference { s with cache := i } where
  sound := sound_cache h.sound inner
  vouched := vouched_step h.vouched answers inner
  reads c request v hc direct := by
    rcases handed_step inner hc with hold | ⟨x, key, _, _, _, rfl, _⟩ | ⟨gens, schema, he, hphase, rfl⟩
    · exact h.reads c request v hold direct
    · exact absurd rfl (direct x key)
    · exact reads c schema request gens he hphase

theorem textOf_append {registry : List Registered} {id : SchemaId} {text : String}
    (h : TextOf dereference registry id text) (new : List Registered) :
    TextOf dereference (registry ++ new) id text := by
  obtain ⟨r, hr, hrest⟩ := h
  exact ⟨r, List.mem_append_left _ hr, hrest⟩

theorem schemaFromGlobalId_ok {resp : HttpResponse} {id : SchemaId} {schema : Schema}
    (h : schemaFromGlobalIdResponse resp id = .ok schema) :
    schema.id = some id ∧ contentAsUtf8 resp = .ok schema.schema := by
  unfold schemaFromGlobalIdResponse at h
  obtain ⟨text, htext, h⟩ := Result.bind_eq_ok.mp h
  cases h
  exact ⟨rfl, htext⟩

theorem asks_of_askedId {phase : Phase} {id : SchemaId} (h : askedId phase = some id) :
    phase.asks = some ⟨.id, id⟩ := by
  cases phase with
  | looking x key gens =>
    cases x with
    | id =>
      cases h
      rfl
    | guid => cases h
  | child parent id' =>
    cases h
    rfl
  | _ => cases h

theorem faithful_step (h : Faithful dereference s) (guard : SameText dereference s e)
    (hs : step dereference s e = some t) : Faithful dereference t := by
  cases step_cases hs with
  | cache silent inner =>
    exact faithful_cache h inner (fun c schema he => absurd he (silent c _))
      fun c schema _ _ he => absurd he (silent c _)
  | fail inner =>
    exact faithful_cache h inner (fun c schema he => by cases he) fun c schema _ _ he => by cases he
  | metaData phase first asks found => exact ⟨sound_step h.sound hs, h.vouched, h.reads⟩
  | @register r new =>
    refine ⟨sound_step h.sound hs, h.vouched.mono ?_, ?_⟩
    · intro x key schema htruth
      cases x with
      | id => exact textOf_append htruth _
      | guid => trivial
    · intro c request v hc direct
      obtain ⟨r', hr', hbelongs⟩ := h.reads c request v hc direct
      exact ⟨r', List.mem_append_left _ hr', hbelongs⟩
  | @content c request gens artifact expression subject r now i phase second asks found inner =>
    have hsame := (content_sameText_iff h.sound phase second asks found).mpr guard
    have hone : ∀ schema, combine r.metaData (now.content dereference) subject = .ok schema →
        OneVersion dereference s.registry schema := fun schema hcombine =>
      (oneVersion_iff h.sound.distinct (h.sound.member c r second) hcombine).mpr hsame
    refine faithful_cache h inner ?_ ?_
    · intro d schema he
      obtain ⟨rfl, hcombine⟩ : c = d ∧ _ = _ := by simpa using he
      refine ⟨(hone schema hcombine).vouches, fun x key hasks => ?_⟩
      rw [phase] at hasks
      cases hasks
    · intro d schema _ _ he _
      obtain ⟨rfl, hcombine⟩ : c = d ∧ _ = _ := by simpa using he
      exact hone schema hcombine
  | @globalId c id r i asks found same inner =>
    have htext : ∀ schema, schemaFromGlobalIdResponse (r.byGlobalId dereference) id = .ok schema →
        schema.id = some id ∧ TextOf dereference s.registry id schema.schema := by
      intro schema hschema
      obtain ⟨hid, hcontent⟩ := schemaFromGlobalId_ok hschema
      exact ⟨hid, r, found, same, hcontent⟩
    refine faithful_cache h inner ?_ ?_
    · intro d schema he
      obtain ⟨rfl, hschema⟩ : c = d ∧ _ = _ := by simpa using he
      obtain ⟨hid, hof⟩ := htext schema hschema
      have hkey : ∀ x key, (⟨x, key⟩ : (x : Ident) × x.Key) = ⟨.id, id⟩ →
          textTruth dereference s.registry x key schema := by
        rintro x key heq
        cases heq
        exact hof
      refine ⟨fun x key hreported => ?_, fun x key hasks => hkey x key ?_⟩
      · cases x with
        | id =>
          have hreported' : schema.id = some key := hreported
          rw [hid] at hreported'
          cases hreported'
          exact hof
        | guid => trivial
      · rw [asks_of_askedId asks] at hasks
        exact (Option.some.inj hasks).symm
    · intro d schema request gens he hphase
      obtain ⟨rfl, _⟩ : c = d ∧ _ = _ := by simpa using he
      rw [hphase] at asks
      cases asks

/-- Reads of the latest version. Whenever a read completes with a schema, its ID, its version
    and its text belong to one registered version if and only if the expression still stands
    for a version with the text of the one whose metadata was received. So in a run in which
    this holds of every read, every schema that a lookup by subject returns is one version,
    and what is stored under an ID is the text of the version with that ID. -/
theorem latest_reads_consistent (dereference : Bool) (maxEntries : Nat) :
    (∀ s t c request v todo gens,
      Reachable (step dereference) (System.init maxEntries) s →
      step dereference s (.content c) = some t →
      t.cache.calls c = .indexing request v todo gens →
      (OneVersion dereference s.registry v.schema ↔ SameText dereference s (.content c))) ∧
    ∀ es s, Run (step dereference) (SameText dereference) (System.init maxEntries) es s →
      (∀ c request v, s.cache.calls c = .returned request (.ok v) → request.direct →
        OneVersion dereference s.registry v.schema) ∧
      ∀ id entry, (s.cache.side .id).lookup id = some entry →
        TextOf dereference s.registry id entry.value.schema.schema := by
  constructor
  · rintro s t c request v todo gens ⟨es, hrun⟩ hs hv
    have hsound : Sound s :=
      hrun.invariant (sound_init maxEntries) fun _ _ _ h _ hs => sound_step h hs
    exact content_oneVersion_iff hsound hs hv
  · intro es s hrun
    have hfaithful : Faithful dereference s :=
      hrun.invariant (faithful_init maxEntries) fun _ _ _ h guard hs => faithful_step h guard hs
    refine ⟨fun c request v hret direct => ?_, fun id entry hlook => ?_⟩
    · exact hfaithful.reads c request v (by rw [hret]; rfl) direct
    · exact ((hfaithful.vouched.cached .id).stored id entry hlook).1

/-! ## A registration between the two requests -/

/-- A version of one artifact. -/
def ordersVersion (n : Int64) (name text : String) : Registered :=
  ⟨⟨"default", "orders"⟩, name, ⟨n, some (.string name), none, some "default", some "orders"⟩,
    fun _ => Utf8.toUtf8 text⟩

def firstVersion : Registered := ordersVersion 1 "1" "\"string\""

def secondVersion : Registered := ordersVersion 2 "2" "\"int\""

/-- The steps of `get_latest_schema` in call `c` before its two requests. -/
def beginRead (c : CallId) : List SystemEvent :=
  [.cache (.begin c (getLatestSchema "default/orders")), .cache (.advance c), .cache (.advance c),
    .cache (.advance c)]

/-- Its steps after them. -/
def endRead (c : CallId) : List SystemEvent :=
  [.cache (.advance c), .cache (.inner .id c), .cache (.inner .id c), .cache (.advance c),
    .cache (.advance c), .cache (.advance c)]

/-- The condition as a check. -/
def sameText (dereference : Bool) (s : System) (e : SystemEvent) : Bool :=
  match e with
  | .content c =>
      match s.cache.calls c, s.received c with
      | .fetching request _, some r =>
          match asked request with
          | some (artifact, _, _) =>
              (resolve s.registry artifact latestVersionExpression).all fun now =>
                contentAsUtf8 (now.content dereference) = contentAsUtf8 (r.content dereference)
          | none => true
      | _, _ => true
  | _ => true

theorem sameText_of_check (h : sameText dereference s e = true) : SameText dereference s e := by
  rintro c request gens artifact subject r now rfl phase asks second found
  simp only [sameText, phase, second, asks, found, Option.all_some] at h
  exact of_decide_eq_true h

/-- Two reads around a registration return the first and the second version, and both are
    stored with their texts. -/
theorem reads_around_registration :
    ∃ (s : System) (v w : Fetched),
      s.cache.calls 0 = .returned (.latest "default/orders") (.ok v) ∧
      s.cache.calls 1 = .returned (.latest "default/orders") (.ok w) ∧
      v.schema.version = some ⟨1⟩ ∧ w.schema.version = some ⟨2⟩ ∧
      OneVersion false s.registry v.schema ∧ OneVersion false s.registry w.schema ∧
      TextOf false s.registry ⟨1⟩ v.schema.schema := by
  obtain ⟨s, h, hv, hw, hfirst, hpass⟩ : ∃ s, exec (step false) (System.init 1000)
        (.register firstVersion :: beginRead 0 ++ [.metaData 0, .content 0] ++ endRead 0 ++
          .register secondVersion :: beginRead 1 ++ [.metaData 1, .content 1] ++ endRead 1) =
        some s ∧
      s.cache.calls 0 = .returned (.latest "default/orders") (.ok ⟨⟨some ⟨1⟩, none, .avro,
        "\"string\"", some ⟨1⟩, some "default/orders", []⟩, 0⟩) ∧
      s.cache.calls 1 = .returned (.latest "default/orders") (.ok ⟨⟨some ⟨2⟩, none, .avro,
        "\"int\"", some ⟨2⟩, some "default/orders", []⟩, 1⟩) ∧
      (s.cache.side .id).lookup (⟨1⟩ : SchemaId) = some ⟨⟨⟨some ⟨1⟩, none, .avro,
        "\"string\"", some ⟨1⟩, some "default/orders", []⟩, 0⟩, 0⟩ ∧
      passes (step false) (sameText false) (System.init 1000)
        (.register firstVersion :: beginRead 0 ++ [.metaData 0, .content 0] ++ endRead 0 ++
          .register secondVersion :: beginRead 1 ++ [.metaData 1, .content 1] ++ endRead 1) = true :=
    ⟨_, rfl, by rfl, by rfl, by rfl, by decide +kernel⟩
  have hrun := (Run.of_passes h hpass).mono fun _ _ hp => sameText_of_check hp
  obtain ⟨hreads, hstored⟩ := (latest_reads_consistent false 1000).2 _ s hrun
  exact ⟨s, _, _, hv, hw, rfl, rfl, hreads 0 _ _ hv (by nofun), hreads 1 _ _ hw (by nofun),
    hstored ⟨1⟩ _ hfirst⟩

/-- The second version is registered between the two requests of a read. The read returns the
    ID and the version of the first with the text of the second, and the cache stores it under
    the first ID. -/
theorem mixed_versions_are_read :
    ¬ ∀ (es : List SystemEvent) (s : System) (c : CallId) (subject : String) (v : Fetched),
      Run (step false) (fun _ _ => True) (System.init 1000) es s →
      s.cache.calls c = .returned (.latest subject) (.ok v) →
      OneVersion false s.registry v.schema := by
  intro hall
  obtain ⟨s, h, hv, hregistry⟩ : ∃ s, exec (step false) (System.init 1000)
        (.register firstVersion :: beginRead 0 ++
          [.metaData 0, .register secondVersion, .content 0] ++ endRead 0) = some s ∧
      s.cache.calls 0 = .returned (.latest "default/orders") (.ok ⟨⟨some ⟨1⟩, none, .avro,
        "\"int\"", some ⟨1⟩, some "default/orders", []⟩, 0⟩) ∧
      s.registry = [firstVersion, secondVersion] := ⟨_, rfl, by rfl, by rfl⟩
  obtain ⟨r, hr, ⟨id, hid, hglobal⟩, _, htext⟩ :=
    hall _ s 0 _ _ (Run.of_exec_free h) hv
  cases hid
  rw [hregistry] at hr
  rcases List.mem_cons.mp hr with rfl | hr
  · -- the first version has another text
    exact absurd htext (by decide +kernel)
  · -- the second version has another ID
    rw [List.mem_singleton.mp hr] at hglobal
    exact absurd hglobal (by decide +kernel)

end Schemreg.Apicurio
