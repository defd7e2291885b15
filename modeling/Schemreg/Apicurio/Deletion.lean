import Schemreg.Apicurio.Model
import Schemreg.Cache.SubjectBarrier
import Schemreg.Cache.Written

/-
  Deleting a subject through the cache, over the Apicurio client.

  `delete_subject` drops what carries the caller's string. A schema that was fetched by
  subject carries the artifact that the server reported, spelled `{group}/{artifact}`. The
  two are the same string exactly if the caller's names its group: a subject in the default
  group, spelled without it, is never forgotten.
-/

namespace Schemreg.Apicurio

open Cache
open CacheInner (CallId)
open Transition

variable {s t : State} {e : Event} {subject : String}

/-! ## Spellings -/

/-- The server reports the artifact that it was asked for. -/
def ReportsArtifact (client : ApicurioSchemaRegistry) : Prop :=
  ∀ artifact expression metaData, client.getJson (.version artifact expression) = .ok metaData →
    metaData.groupId = some artifact.group ∧ metaData.artifactId = some artifact.artifact

theorem fromSubject_of_artifactId {id : ArtifactId} (h : artifactId subject = .ok id) :
    id = ArtifactId.fromSubject subject := by
  unfold artifactId at h
  obtain ⟨_, _, h⟩ := Result.bind_eq_ok.mp h
  dsimp only at h
  split at h
  · cases h
  · obtain ⟨_, _, h⟩ := Result.bind_eq_ok.mp h
    obtain ⟨_, _, h⟩ := Result.bind_eq_ok.mp h
    exact (Except.ok.inj h).symm

theorem versionSchema_subject {client : ApicurioSchemaRegistry} (reports : ReportsArtifact client)
    {artifact : ArtifactId} {expression : String} {schema : Schema}
    (h : client.versionSchema artifact expression subject = .ok schema) :
    schema.subject = some artifact.toSubject := by
  unfold ApicurioSchemaRegistry.versionSchema at h
  obtain ⟨metaData, hmeta, h⟩ := Result.bind_eq_ok.mp h
  obtain ⟨content, _, h⟩ := Result.bind_eq_ok.mp h
  obtain ⟨hgroup, hname⟩ := reports artifact expression metaData hmeta
  rw [(combine_ok h).2.2.2.2, resolvedSubject, hgroup, hname]
  rfl

theorem answer_subject {client : ApicurioSchemaRegistry} (reports : ReportsArtifact client)
    {request : Lookup} {schema : Schema} (hrequest : request.bySubject subject)
    (h : client.answer request = .ok schema) :
    ∃ id, artifactId subject = .ok id ∧ schema.subject = some id.toSubject := by
  cases request with
  | byKey x key => cases hrequest
  | latest name =>
    cases hrequest
    obtain ⟨id, hid, h⟩ := Result.bind_eq_ok.mp h
    exact ⟨id, hid, versionSchema_subject reports h⟩
  | byVersion name version =>
    cases hrequest
    obtain ⟨id, hid, h⟩ := Result.bind_eq_ok.mp h
    exact ⟨id, hid, versionSchema_subject reports h⟩

/-! ## Sequential runs -/

/-- Every answer is one of the Apicurio client's, whose server reports the artifact that it
    was asked for. The server may change between the calls. -/
def FromApicurio (s : State) (e : Event) : Prop :=
  ∀ c r, e = .reply c r → ∃ client request, ReportsArtifact client ∧
    (s.calls c).awaits = some request ∧ r = client.answer request

/-- The call has not begun, or it has ended. -/
def rests : Phase → Prop
  | .idle | .returned _ _ | .failed _ | .finished | .warmed _ | .dropped => True
  | _ => False

/-- A call begins when no other one is in progress. -/
def Sequential (s : State) (e : Event) : Prop :=
  ∀ c op, e = .begin c op → ∀ d, rests (s.calls d)

def SequentialApicurio (s : State) (e : Event) : Prop := Sequential s e ∧ FromApicurio s e

/-- `delete_subject` of the subject, or `delete_version` of one of its versions. -/
def Deletes (subject : String) (op : Op) : Prop :=
  (∃ permanent, op = deleteSubject subject permanent) ∨
    ∃ version permanent, op = deleteVersion subject version permanent

/-- Deleting the subject forgets what it has put in the cache: in every sequential run, if a
    lookup of the subject has returned before the deletion begins, then no entry that it has
    written is left in either cache when the deletion has returned. -/
def ForgetsSubject (subject : String) : Prop :=
  ∀ (maxEntries : Nat) (s₀ s₁ t : State) (es₁ es₂ : List Event) (c i : CallId) (op : Op)
      (request : Lookup) (v : Fetched) (x : Ident) (key : x.Key) (entry : CacheInner.Entry Fetched),
    Run step SequentialApicurio (State.withMaxEntries maxEntries) es₁ s₀ →
    s₀.calls c = .returned request (.ok v) →
    request.bySubject subject →
    Deletes subject op →
    SequentialApicurio s₀ (.begin i op) →
    step s₀ (.begin i op) = some s₁ →
    Run step SequentialApicurio s₁ es₂ t →
    t.calls i = .finished →
    (t.side x).lookup key = some entry →
    entry.writer ≠ c

/-! ## Subjects that name their group -/

/-- What a lookup by subject returns carries the artifact of the subject. -/
def Spelled (s : State) : Prop :=
  ∀ c request v subject, (s.calls c).handed = some (request, v) → request.bySubject subject →
    ∃ id, artifactId subject = .ok id ∧ v.schema.subject = some id.toSubject

theorem spelled_step (h : Spelled s) (guard : FromApicurio s e) (hs : step s e = some t) :
    Spelled t := by
  intro c request v subject hc hrequest
  rcases handed_step hs hc with hold | ⟨x, key, gens, k, _, rfl, _⟩ | ⟨gens, schema, he, hphase, rfl⟩
  · exact h c request v subject hold hrequest
  · cases hrequest
  · obtain ⟨client, request', reports, hawaits, hanswer⟩ := guard c _ he
    rw [hphase] at hawaits
    cases hawaits
    exact answer_subject reports hrequest hanswer.symm

theorem forgets_of_slash (h : '/' ∈ subject.toList) : ForgetsSubject subject := by
  intro maxEntries s₀ s₁ t es₁ es₂ c i op request v x key entry hrun₁ hc hrequest hop _ hbegin hrun₂
    hreturned hlook
  have hspelled : Spelled s₀ :=
    hrun₁.invariant (fun _ _ _ _ h => by cases h) fun _ _ _ h guard hs => spelled_step h guard.2 hs
  obtain ⟨id, hid, hsubject⟩ := hspelled c request v subject (by rw [hc]; rfl) hrequest
  have hcarries : carries subject v = true := by
    rw [fromSubject_of_artifactId hid, ArtifactId.toSubject_fromSubject h] at hsubject
    simp [carries, hsubject]
  have hdelete : op = .delete subject := by
    rcases hop with ⟨_, rfl⟩ | ⟨_, _, rfl⟩ <;> rfl
  subst hdelete
  exact deletion_forgets (kept_reachable hrun₁.reachable) hc (Lookup.direct_of_bySubject hrequest)
    hcarries hbegin hrun₂ hreturned key entry hlook

/-! ## Subjects in the default group -/

def jsonChar (c : Char) : List Char :=
  if c = '"' || c = '\\' then ['\\', c]
  else if c.toNat < 0x20 then
    ['\\', 'u', '0', '0', Nat.digitChar (c.toNat / 16), Nat.digitChar (c.toNat % 16)]
  else [c]

def jsonString (s : String) : String :=
  "\"" ++ String.ofList (s.toList.flatMap jsonChar) ++ "\""

/-- The metadata of the one version of an artifact, as a server reports it. -/
def metaDataBody (id : ArtifactId) : List UInt8 :=
  Utf8.toUtf8 ("\x7b\"globalId\":7,\"groupId\":" ++ jsonString id.group ++ ",\"artifactId\":" ++
    jsonString id.artifact ++ "\x7d")

/-- A client of a server that has one artifact, with one version. -/
def singleArtifact (id : ArtifactId) : ApicurioSchemaRegistry where
  request
    | .version artifact _ => .ok (if artifact = id then ⟨200, [], metaDataBody id⟩ else ⟨404, [], []⟩)
    | .content artifact _ _ =>
        .ok (if artifact = id then ⟨200, [], Utf8.toUtf8 "\"string\""⟩ else ⟨404, [], []⟩)
    | .globalId _ _ => .ok ⟨404, [], []⟩
  serde :=
    ⟨fun body =>
      if body = metaDataBody id then .ok ⟨7, none, none, some id.group, some id.artifact⟩
      else .error "expected value at line 1 column 1",
    fun _ => none⟩
  dereference := false

/-- The schema of that version. -/
def onlySchema (id : ArtifactId) : Schema :=
  ⟨some ⟨7⟩, none, .avro, "\"string\"", none, some id.toSubject, []⟩

theorem singleArtifact_getJson (id artifact : ArtifactId) (expression : String) :
    (singleArtifact id).getJson (.version artifact expression) =
      if artifact = id then .ok ⟨7, none, none, some id.group, some id.artifact⟩
      else .error (.api 40401 "<empty>") := by
  by_cases hid : artifact = id
  · rw [if_pos hid]
    show handleJsonResponse _ (if artifact = id then _ else _) = _
    rw [if_pos hid]
    simp [singleArtifact, handleJsonResponse, isSuccess]
  · rw [if_neg hid]
    show handleJsonResponse _ (if artifact = id then _ else _) = _
    rw [if_neg hid]
    rfl

theorem singleArtifact_reports (id : ArtifactId) : ReportsArtifact (singleArtifact id) := by
  intro artifact expression metaData h
  rw [singleArtifact_getJson] at h
  split at h
  · rename_i hid
    cases h
    exact ⟨by rw [hid], by rw [hid]⟩
  · cases h

theorem singleArtifact_latest {id : ArtifactId} (h : artifactId subject = .ok id) :
    (singleArtifact id).answer (.latest subject) = .ok (onlySchema id) := by
  have hcontent : (singleArtifact id).getContent (.content id latestVersionExpression false) =
      .ok ⟨200, [], Utf8.toUtf8 "\"string\""⟩ := by
    show handleContentResponse _ (if id = id then _ else _) = _
    rw [if_pos rfl]
    rfl
  have htext : contentAsUtf8 ⟨200, [], Utf8.toUtf8 "\"string\""⟩ = .ok "\"string\"" := by
    decide +kernel
  have hmeta := singleArtifact_getJson id id latestVersionExpression
  rw [if_pos rfl] at hmeta
  show (artifactId subject).bind _ = _
  rw [h]
  show ((singleArtifact id).getJson _).bind _ = _
  rw [hmeta]
  show ((singleArtifact id).getContent (.content id latestVersionExpression false)).bind _ = _
  rw [hcontent]
  show combine _ _ subject = _
  unfold combine
  rw [htext]
  rfl

/-- A section of `invalidate_matching` that finds nothing to remove. -/
theorem match_nothing {x : Ident} {c : CallId} {p : Fetched → Bool}
    (phase : (s.side x).calls c = .matching p) (free : (s.side x).writer = none)
    (nothing : (s.side x).cache.store.doomed p = []) :
    step s (.inner x c) = some (s.setSide x ((s.side x).goto c .finished)) := by
  show runSection s x c = _
  unfold runSection
  rw [phase]
  unfold innerStep CacheInner.step CacheInner.resume
  dsimp only
  rw [phase]
  simp only [CacheInner.whenUnlocked, free, nothing, if_true, Option.map_some]

/-- An artifact is fetched by a subject, and the subject is deleted. If the schema does not
    carry the subject's own string, then it is still stored. -/
theorem kept_run {id : ArtifactId} (h : id.toSubject ≠ subject) :
    ∃ a b s₀ s₁ t,
      exec step State.new [.begin 0 (getLatestSchema subject), .advance 0, .advance 0,
        .advance 0] = some a ∧
      a.calls 0 = .fetching (.latest subject) ⟨0, 0⟩ ∧
      step a (.reply 0 (.ok (onlySchema id))) = some b ∧
      exec step b [.advance 0, .inner .id 0, .inner .id 0, .advance 0, .advance 0, .advance 0] =
        some s₀ ∧
      s₀.calls 0 = .returned (.latest subject) (.ok ⟨onlySchema id, 0⟩) ∧
      step s₀ (.begin 1 (deleteSubject subject false)) = some s₁ ∧
      exec step s₁ [.deleted 1 (.ok ()), .advance 1, .inner .id 1, .advance 1, .advance 1,
        .inner .guid 1, .advance 1, .advance 1] = some t ∧
      t.calls 1 = .finished ∧
      (t.side .id).lookup (⟨7⟩ : SchemaId) = some ⟨⟨onlySchema id, 0⟩, 0⟩ := by
  -- the run up to the section that compares the subjects, and from there on
  obtain ⟨a, b, s₀, s₁, w, t, ha, hphase, hb, hs₀, hret, hs₁, hw, hmatching, hfree, hdoomed, ht,
      hfin, hlook⟩ : ∃ a b s₀ s₁ w t,
      exec step State.new [.begin 0 (getLatestSchema subject), .advance 0, .advance 0,
        .advance 0] = some a ∧
      a.calls 0 = .fetching (.latest subject) ⟨0, 0⟩ ∧
      step a (.reply 0 (.ok (onlySchema id))) = some b ∧
      exec step b [.advance 0, .inner .id 0, .inner .id 0, .advance 0, .advance 0, .advance 0] =
        some s₀ ∧
      s₀.calls 0 = .returned (.latest subject) (.ok ⟨onlySchema id, 0⟩) ∧
      step s₀ (.begin 1 (deleteSubject subject false)) = some s₁ ∧
      exec step s₁ [.deleted 1 (.ok ()), .advance 1] = some w ∧
      (w.side .id).calls 1 = .matching (carries subject) ∧
      (w.side .id).writer = none ∧
      (∀ p : Fetched → Bool, (w.side .id).cache.store.doomed p =
        (List.filter (fun e : (_ : SchemaId) × CacheInner.Entry Fetched => p e.2.value)
          [⟨⟨7⟩, ⟨⟨onlySchema id, 0⟩, 0⟩⟩]).map Sigma.fst) ∧
      exec step (w.setSide .id ((w.side .id).goto 1 .finished)) [.advance 1, .advance 1,
        .inner .guid 1, .advance 1, .advance 1] = some t ∧
      t.calls 1 = .finished ∧
      (t.side .id).lookup (⟨7⟩ : SchemaId) = some ⟨⟨onlySchema id, 0⟩, 0⟩ :=
    ⟨_, _, _, _, _, _, rfl, rfl, rfl, rfl, rfl, rfl, rfl, rfl, rfl, fun _ => rfl, rfl, rfl, rfl⟩
  refine ⟨a, b, s₀, s₁, t, ha, hphase, hb, hs₀, hret, hs₁, ?_, hfin, hlook⟩
  have hnot : carries subject ⟨onlySchema id, 0⟩ = false := by
    simp [carries, onlySchema, h]
  have hnothing : (w.side .id).cache.store.doomed (carries subject) = [] := by
    rw [hdoomed, List.filter_cons_of_neg (by simp [hnot])]
    rfl
  have hstep := match_nothing hmatching hfree hnothing
  rw [show ([.deleted 1 (.ok ()), .advance 1, .inner .id 1, .advance 1, .advance 1,
      .inner .guid 1, .advance 1, .advance 1] : List Event) = [.deleted 1 (.ok ()), .advance 1] ++
      .inner .id 1 :: [.advance 1, .advance 1, .inner .guid 1, .advance 1, .advance 1] from rfl,
    exec_append hw]
  show (step w (.inner .id 1)).bind _ = _
  rw [hstep]
  exact ht

/-- The events of a sequential run between two calls. -/
def Plain : Event → Prop
  | .begin _ _ | .reply _ _ => False
  | _ => True

theorem sequential_of_plain (h : Plain e) : SequentialApicurio s e := by
  constructor
  · rintro c op rfl
    cases h
  · rintro c r rfl
    cases h

/-- A call that takes no part in an execution stays where it is. -/
theorem exec_frame {es : List Event} {d : CallId} (h : exec step s es = some t)
    (hd : ∀ e ∈ es, d ∉ e.movers) : t.calls d = s.calls d := by
  have hrun : Run step (fun _ e => d ∉ e.movers) s es t :=
    Run.of_exec h (Along.of_forall fun e he _ => hd e he)
  exact hrun.invariant (I := fun x => x.calls d = s.calls d) rfl fun x e y hx he hs => by
    rw [calls_other hs he]
    exact hx

theorem not_forgets_of_bare {id : ArtifactId} (hid : artifactId subject = .ok id)
    (h : '/' ∉ subject.toList) : ¬ ForgetsSubject subject := by
  intro hforgets
  have hother : id.toSubject ≠ subject := by
    intro heq
    have := id.slash_mem_toSubject
    rw [heq] at this
    exact h this
  obtain ⟨a, b, s₀, s₁, t, ha, hphase, hb, hs₀, hret, hs₁, ht, hfin, hlook⟩ :=
    kept_run hother
  have plain : ∀ {s t : State} {es : List Event}, exec step s es = some t →
      (∀ e ∈ es, Plain e) → Run step SequentialApicurio s es t := fun hexec hes =>
    Run.of_exec hexec (Along.of_forall fun e he _ => sequential_of_plain (hes e he))
  -- nobody else is there when the lookup begins, and nobody but the lookup before the deletion
  have hbegin₀ : SequentialApicurio State.new (.begin 0 (getLatestSchema subject)) :=
    ⟨fun _ _ _ _ => trivial, fun _ _ he => by cases he⟩
  have hothers : ∀ d, d ≠ 0 → s₀.calls d = .idle := by
    intro d hd
    have hd' : ∀ es : List Event, (∀ e ∈ es, e.movers = [0]) → ∀ e ∈ es, d ∉ e.movers := by
      intro es hes e he
      rw [hes e he]
      simpa using hd
    rw [exec_frame hs₀ (hd' _ (by simp [Event.movers, Event.call])),
      calls_other hb (by simpa [Event.movers, Event.call] using hd),
      exec_frame ha (hd' _ (by simp [Event.movers, Event.call]))]
    rfl
  have hbegin₁ : SequentialApicurio s₀ (.begin 1 (deleteSubject subject false)) := by
    refine ⟨fun _ _ _ d => ?_, fun _ _ he => by cases he⟩
    by_cases hd : d = 0
    · rw [hd, hret]
      trivial
    · rw [hothers d hd]
      trivial
  have hreply : SequentialApicurio a (.reply 0 (.ok (onlySchema id))) := by
    refine ⟨fun _ _ he => (by cases he), fun c r he => ?_⟩
    cases he
    exact ⟨singleArtifact id, .latest subject, singleArtifact_reports id, by rw [hphase]; rfl,
      (singleArtifact_latest hid).symm⟩
  have hrun₁ : Run step SequentialApicurio State.new _ s₀ :=
    (Run.of_exec ha ⟨hbegin₀, fun _ _ => Along.of_forall fun e he _ => sequential_of_plain (by
      have hadvance : e = .advance 0 := by simpa using he
      rw [hadvance]
      trivial)⟩).trans (Run.cons hreply hb (plain hs₀ (by simp [Plain])))
  exact hforgets defaultMaxCacheEntries s₀ s₁ t _ _ 0 1 _ _ _ .id ⟨7⟩ _ hrun₁ hret rfl
    (Or.inl ⟨false, rfl⟩) hbegin₁ hs₁ (plain ht (by simp [Plain])) hfin hlook rfl

/-- Deleting an accepted subject forgets what it has put in the cache exactly if the subject
    names its group. -/
theorem forgets_subject_iff {id : ArtifactId} (h : artifactId subject = .ok id) :
    ForgetsSubject subject ↔ '/' ∈ subject.toList := by
  constructor
  · intro hforgets
    by_contra hslash
    exact not_forgets_of_bare h hslash hforgets
  · exact forgets_of_slash

theorem orders_accepted : artifactId "orders-value" = .ok ⟨"default", "orders-value"⟩ := by
  decide +kernel

/-- One spelling of an artifact's subject is forgotten, and the other is not. -/
theorem forgets_named_group :
    ForgetsSubject "default/orders-value" ∧ ¬ ForgetsSubject "orders-value" := by
  have hnamed : artifactId "default/orders-value" = .ok ⟨"default", "orders-value"⟩ := by
    decide +kernel
  constructor
  · exact (forgets_subject_iff hnamed).mpr (by decide +kernel)
  · intro h
    exact absurd ((forgets_subject_iff orders_accepted).mp h) (by decide +kernel)

/-- A subject in the default group is accepted without it. -/
theorem default_group_is_not_forgotten :
    ¬ ∀ (subject : String) (id : ArtifactId), artifactId subject = .ok id → ForgetsSubject subject := by
  intro h
  exact not_forgets_of_bare orders_accepted (by decide +kernel) (h _ _ orders_accepted)

end Schemreg.Apicurio
