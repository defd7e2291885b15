import Schemreg.Cache.Refetch
import Schemreg.Cache.Vouched

/-
  The cache is transparent.

  The inner registry `holds` one content for each identifier, and what it answers is true of
  the identifier that was asked for and of those it reports (`Truthful`). Then so is every
  schema in either cache, in flight, or on its way to a caller (`Transparent`), and a lookup
  by an identifier returns the content that the registry holds for it. A fetch that failed
  leaves nothing behind: no entry came from its answer, and its call has written none.
-/

namespace Schemreg.Cache

open CacheInner (CallId Keyed Wrote)
open Transition

variable {s t : State} {e : Event} {c : CallId}

/-- What an identifier stands for: the type, the text and the references. -/
structure Content where
  schemaType : SchemaType
  schema : String
  references : List SchemaReference
  deriving DecidableEq

def contentOf (schema : Schema) : Content := ⟨schema.schemaType, schema.schema, schema.references⟩

/-- What the inner registry holds. It is immutable. -/
abbrev Registry : Type := (x : Ident) → x.Key → Option Content

variable {holds : Registry}

/-- The identifiers that are reported for a schema are true. -/
def Honest (holds : Registry) (schema : Schema) : Prop :=
  ∀ x key, reported schema x = some key → holds x key = some (contentOf schema)

/-- The inner client answers with what the registry holds, and reports only true
    identifiers. -/
def Truthful (holds : Registry) (s : State) (e : Event) : Prop :=
  ∀ c schema, e = .reply c (.ok schema) → Honest holds schema ∧
    ∀ x key, (s.calls c).asks = some ⟨x, key⟩ → holds x key = some (contentOf schema)

/-- The schema is right for its key. -/
def Right (holds : Registry) (x : Ident) (key : x.Key) (v : Fetched) : Prop :=
  holds x key = some (contentOf v.schema) ∧ Honest holds v.schema

structure Transparent (holds : Registry) (s : State) : Prop where
  consistent : Consistent s
  cached : ∀ x, Keyed (Right holds x) (s.side x)
  handed : ∀ c request v, (s.calls c).handed = some (request, v) → Honest holds v.schema

theorem transparent_init (maxEntries : Nat) :
    Transparent holds (State.withMaxEntries maxEntries) where
  consistent := consistent_init maxEntries
  cached _ := CacheInner.keyed_init _ _
  handed _ _ _ h := by cases h

theorem Transparent.vouched (h : Transparent holds s) :
    Vouched (fun x key schema => holds x key = some (contentOf schema)) s :=
  ⟨h.consistent, h.cached, h.handed⟩

theorem transparent_step (h : Transparent holds s) (truthful : Truthful holds s e)
    (hs : step s e = some t) : Transparent holds t := by
  have hvouched := vouched_step h.vouched truthful hs
  exact ⟨hvouched.consistent, hvouched.cached, hvouched.handed⟩

/-! ## Failed fetches -/

/-- The call has been answered, and waits for no other answer. -/
structure Answered (c : CallId) (s : State) : Prop where
  sent : c ∈ s.requests
  direct : ∀ request gens, s.calls c ≠ .fetching request gens
  leading : ∀ x k token, (s.side x).calls c ≠ .fetching k token

theorem answered_step (h : Answered c s) (hc : Consistent s) (hs : step s e = some t) :
    Answered c t := by
  obtain ⟨hpre, hun⟩ := hc.sent c h.sent
  refine ⟨requests_mono hs h.sent, ?_, ?_⟩
  · intro request gens hnew
    rcases direct_step hs hnew with hold | ⟨hsampled, _⟩
    · exact h.direct request gens hold
    · exact hpre (by rw [hsampled]; trivial)
  · intro x k token hnew
    rcases side_step hs x with heq | ⟨ie, hinner, issued⟩
    · rw [heq] at hnew
      exact h.leading x k token hnew
    · rcases CacheInner.fetching_step hinner hnew with hold | ⟨_, helected⟩
      · exact h.leading x k token hold
      · exact hun x (by rw [State.methods, helected]; trivial)

/-- What an answer finds: a leader of one cache, or a lookup by subject. -/
theorem reply_cases {r : Result Schema} (hs : step s (.reply c r) = some t) :
    (∃ x key k token i, (s.calls c).asks = some ⟨x, key⟩ ∧
      (s.side x).calls c = .fetching k token ∧
      CacheInner.step (s.side x) (.reply c (fetchedBy c r)) = some i ∧ t = s.setSide x i) ∨
    (∃ request gens, s.calls c = .fetching request gens ∧ t.side = s.side ∧
      t.calls c = match r with
        | .ok schema => .indexing request ⟨schema, c⟩ [.id, .guid] gens
        | .error err => .returned request (.error err)) := by
  have leads : ∀ {x : Ident} {i}, CacheInner.step (s.side x) (.reply c (fetchedBy c r)) = some i →
      ∃ k token, (s.side x).calls c = .fetching k token := by
    intro x i inner
    cases CacheInner.step_cases inner with
    | reply phase => exact ⟨_, _, phase⟩
  cases step_cases hs with
  | @replyLooking _ x key gens _ i phase inner =>
    obtain ⟨k, token, hfetching⟩ := leads inner
    exact Or.inl ⟨x, key, k, token, i, by rw [phase]; rfl, hfetching, inner, rfl⟩
  | @replyChild _ parent id _ i phase inner =>
    obtain ⟨k, token, hfetching⟩ := leads inner
    exact Or.inl ⟨.id, id, k, token, i, by rw [phase]; rfl, hfetching, inner, rfl⟩
  | replyOk phase => exact Or.inr ⟨_, _, phase, rfl, by simp⟩
  | replyError phase => exact Or.inr ⟨_, _, phase, rfl, by simp⟩

theorem not_answered_of_reply {r : Result Schema} (hs : step s (.reply c r) = some t) :
    ¬ Answered c s := by
  intro h
  rcases reply_cases hs with ⟨x, key, k, token, i, _, hfetching, _⟩ | ⟨request, gens, hphase, _⟩
  · exact h.leading x k token hfetching
  · exact h.direct request gens hphase

theorem answered_of_reply {r : Result Schema} (hc : Consistent s)
    (hs : step s (.reply c r) = some t) : Answered c t := by
  rcases reply_cases hs with ⟨x, key, k, token, i, hasks, hfetching, hinner, rfl⟩ |
      ⟨request, gens, hphase, hside, hnew⟩
  · refine ⟨hc.requested.leading x c k token hfetching, ?_, ?_⟩
    · intro request gens hp
      have hp' : s.calls c = .fetching request gens := hp
      rw [hp'] at hasks
      cases hasks
    · intro y k' token' hp
      rcases eq_or_other x y with rfl | rfl
      · rw [State.setSide_self] at hp
        cases CacheInner.step_cases hinner with
        | reply phase => simp at hp
      · rw [State.setSide_ne s i (other_ne x)] at hp
        have hidle := (hc.linked.asks hasks).2
        rw [State.methods, hp] at hidle
        cases hidle
  · have hmethods := (hc.linked c)
    rw [hphase] at hmethods
    refine ⟨requests_mono hs (hc.requested.direct c request gens hphase), ?_, ?_⟩
    · intro request' gens' hp
      rw [hnew] at hp
      cases r <;> cases hp
    · intro x k token hp
      rw [hside] at hp
      have hidle : s.methods c x = .idle := hmethods.2.2 x
      rw [State.methods, hp] at hidle
      cases hidle

/-- A call whose fetch has failed and that has not gone on to anything else. -/
def Phase.gaveUp : Phase → Prop
  | .looking _ _ _ | .child _ _ | .returned _ (.error _) | .finished | .dropped => True
  | _ => False

structure GaveUp (c : CallId) (s : State) : Prop where
  phase : (s.calls c).gaveUp
  methods : ∀ x, s.methods c x = .idle ∨ (s.methods c x).failed

theorem gaveUp_step (h : GaveUp c s) (hs : step s e = some t) : GaveUp c t where
  phase := by
    refine phase_kept (P := Phase.gaveUp) hs h.phase fun p q _ hmoves hphase => ?_
    cases hmoves with
    | @found _ x key gens k v inner =>
      rcases h.methods x with hidle | hfailed
      · rw [State.methods, inner] at hidle
        cases hidle
      · rw [State.methods, inner] at hfailed
        cases hfailed
    | notFound | dropLooking | dropChild | collected => exact trivial
    | _ => cases hphase
  methods x := by
    rcases side_step hs x with heq | ⟨ie, hinner, issued⟩
    · have hsame : t.methods c x = s.methods c x := by
        unfold State.methods
        rw [heq]
      rw [hsame]
      exact h.methods x
    · rcases h.methods x with hidle | hfailed
      · refine Or.inl (CacheInner.idle_step hidle hinner ?_)
        rintro op rfl
        have hphase := h.phase
        rcases issued_begin issued with ⟨_, _, hpre⟩ | ⟨_, _, _, _, _, _, hindex, _⟩ |
            ⟨what, todo, _, hdrop⟩
        · cases hp : s.calls c <;> rw [hp] at hpre hphase <;> cases hpre <;> cases hphase
        · rw [hindex] at hphase
          cases hphase
        · rw [hdrop] at hphase
          cases hphase
      · exact Or.inr (CacheInner.failed_stays hfailed hinner)

theorem gaveUp_of_reply {err : SchemaRegError} (hc : Consistent s)
    (hs : step s (.reply c (.error err)) = some t) : GaveUp c t := by
  rcases reply_cases hs with ⟨x, key, k, token, i, hasks, _, hinner, rfl⟩ |
      ⟨request, gens, hphase, hside, hnew⟩
  · refine ⟨?_, fun y => ?_⟩
    · rw [State.setSide_calls]
      cases hp : s.calls c with
      | looking | child => trivial
      | _ =>
        rw [hp] at hasks
        cases hasks
    · rcases eq_or_other x y with rfl | rfl
      · refine Or.inr ?_
        rw [methods_setSide_self]
        exact CacheInner.failed_of_reply hinner
      · refine Or.inl ?_
        rw [methods_setSide_ne i c (other_ne x)]
        exact (hc.linked.asks hasks).2
  · refine ⟨by rw [hnew]; trivial, fun x => Or.inl ?_⟩
    have hlink := hc.linked c
    rw [hphase] at hlink
    rw [State.methods, hside]
    exact hlink.2.2 x

/-- What the events so far say about the entries and about the calls that were answered. -/
structure Accounted (es : List Event) (s : State) : Prop where
  consistent : Consistent s
  cached : ∀ x, Keyed (fun _ v => .reply v.origin (.ok v.schema) ∈ es) (s.side x)
  handed : ∀ c request v, (s.calls c).handed = some (request, v) →
    .reply v.origin (.ok v.schema) ∈ es
  answered : ∀ c r, .reply c r ∈ es → Answered c s
  once : ∀ c r r', .reply c r ∈ es → .reply c r' ∈ es → r = r'
  wrote : ∀ x, Wrote (s.side x)
  failed : ∀ c err, .reply c (.error err) ∈ es → GaveUp c s ∧
    ∀ x key entry, (s.side x).lookup key = some entry → entry.writer ≠ c

theorem accounted_init (maxEntries : Nat) : Accounted [] (State.withMaxEntries maxEntries) where
  consistent := consistent_init maxEntries
  cached _ := CacheInner.keyed_init _ _
  handed _ _ _ h := by cases h
  answered _ _ h := by cases h
  once _ _ _ h := by cases h
  wrote _ := CacheInner.wrote_init _ _
  failed _ _ h := by cases h

/-- At the time of its answer a call has written nothing. -/
theorem not_writer_of_reply {r : Result Schema} (hc : Consistent s) (hw : ∀ x, Wrote (s.side x))
    (hs : step s (.reply c r) = some t) {x : Ident} {key : x.Key}
    {entry : CacheInner.Entry Fetched} (hlook : (t.side x).lookup key = some entry) :
    entry.writer ≠ c := by
  have hstored : (s.side x).lookup key = some entry := by
    rcases side_step hs x with heq | ⟨ie, hinner, issued⟩
    · rwa [heq] at hlook
    · rcases CacheInner.lookup_step hinner hlook with hold | ⟨_, rfl, _⟩ | ⟨rfl, _⟩
      · exact hold
      · cases issued
      · cases issued
  have hwrote := hw x key entry hstored
  rintro rfl
  rcases reply_cases hs with ⟨y, key', k, token, i, hasks, hfetching, _⟩ | ⟨request, gens, hphase, _⟩
  · rcases eq_or_other y x with rfl | rfl
    · rw [hfetching] at hwrote
      cases hwrote
    · have hidle := (hc.linked.asks hasks).2
      rw [State.methods] at hidle
      rw [hidle] at hwrote
      cases hwrote
  · have hlink := hc.linked entry.writer
    rw [hphase] at hlink
    have hidle := hlink.2.2 x
    rw [State.methods] at hidle
    rw [hidle] at hwrote
    cases hwrote

theorem accounted_step {es : List Event} (h : Accounted es s) (hs : step s e = some t) :
    Accounted (es ++ [e]) t where
  consistent := consistent_step h.consistent hs
  cached x := by
    have later : Keyed (fun _ v => .reply v.origin (.ok v.schema) ∈ es ++ [e]) (s.side x) :=
      (h.cached x).mono fun _ _ hv => List.mem_append_left _ hv
    rcases side_step hs x with heq | ⟨ie, hinner, issued⟩
    · rw [heq]
      exact later
    · refine CacheInner.keyed_step later (h.consistent.addressed x) ⟨?_, ?_⟩ hinner
      · intro c k token v he _
        subst he
        obtain ⟨answer, key, rfl, hr, _⟩ := issued_reply issued
        obtain ⟨hanswer, horigin⟩ := fetchedBy_ok hr.symm
        rw [horigin, ← hanswer]
        exact List.mem_append_right _ (List.mem_singleton_self _)
      · intro c k v g he
        subst he
        obtain ⟨request, todo, gens, -, hphase, -⟩ := issued_insertIfCurrent issued
        exact List.mem_append_left _ (h.handed c request v (by rw [hphase]; rfl))
  handed c request v hc := by
    rcases handed_step hs hc with hold | ⟨x, key, gens, k, _, _, _, hret⟩ |
        ⟨gens, schema, he, _, rfl⟩
    · exact List.mem_append_left _ (h.handed c request v hold)
    · exact List.mem_append_left _ ((h.cached x).returned c k v hret)
    · exact List.mem_append_right _ (by rw [he]; exact List.mem_singleton_self _)
  answered c r hr := by
    rcases List.mem_append.mp hr with hold | hnew
    · exact answered_step (h.answered c r hold) h.consistent hs
    · have he : .reply c r = e := by simpa using hnew
      subst he
      exact answered_of_reply h.consistent hs
  once c r r' hr hr' := by
    have fresh : ∀ r r', .reply c r ∈ es → .reply c r' ∈ [e] → False := by
      intro r r' hold hnew
      have he : .reply c r' = e := by simpa using hnew
      subst he
      exact not_answered_of_reply hs (h.answered c r hold)
    rcases List.mem_append.mp hr with hold | hnew
    · rcases List.mem_append.mp hr' with hold' | hnew'
      · exact h.once c r r' hold hold'
      · exact (fresh r r' hold hnew').elim
    · rcases List.mem_append.mp hr' with hold' | hnew'
      · exact (fresh r' r hold' hnew).elim
      · have he : .reply c r = e := by simpa using hnew
        have he' : .reply c r' = e := by simpa using hnew'
        rw [← he] at he'
        cases he'
        rfl
  wrote x := by
    rcases side_step hs x with heq | ⟨ie, hinner, _⟩
    · rw [heq]
      exact h.wrote x
    · exact CacheInner.wrote_step (h.wrote x) hinner
  failed c err hr := by
    rcases List.mem_append.mp hr with hold | hnew
    · obtain ⟨hgave, hwriter⟩ := h.failed c err hold
      refine ⟨gaveUp_step hgave hs, fun x key entry hlook => ?_⟩
      rcases side_step hs x with heq | ⟨ie, hinner, _⟩
      · rw [heq] at hlook
        exact hwriter x key entry hlook
      · intro heq
        have hstored := CacheInner.not_writer_of_failed (hgave.methods x) hinner hlook heq
        exact hwriter x key entry hstored heq
    · have he : .reply c (.error err) = e := by simpa using hnew
      subst he
      exact ⟨gaveUp_of_reply h.consistent hs, fun x key entry hlook =>
        not_writer_of_reply h.consistent h.wrote hs hlook⟩

/-! ## Transparency -/

/-- The cache is transparent. If the inner client answers truthfully, then a lookup by an
    identifier that returns a schema returns the content which the registry holds for it, and
    so does every entry. No entry is left by a fetch that failed: an entry is the answer to a
    request that was answered with it and with nothing else, and the call that wrote it had
    no error from the inner client. -/
theorem cache_transparent {maxEntries : Nat} {es : List Event}
    (hrun : Run step (Truthful holds) (State.withMaxEntries maxEntries) es s) :
    (∀ c x key v, s.calls c = .returned (.byKey x key) (.ok v) →
      holds x key = some (contentOf v.schema)) ∧
    ∀ x key entry, (s.side x).lookup key = some entry →
      holds x key = some (contentOf entry.value.schema) ∧
      .reply entry.value.origin (.ok entry.value.schema) ∈ es ∧
      ∀ err, .reply entry.value.origin (.error err) ∉ es ∧ .reply entry.writer (.error err) ∉ es := by
  have htrans : Transparent holds s :=
    hrun.invariant (transparent_init maxEntries) fun _ _ _ h guard hs => transparent_step h guard hs
  have hacc : Accounted es s :=
    hrun.relative (accounted_init maxEntries) fun _ _ _ _ h _ hs => accounted_step h hs
  constructor
  · intro c x key v hret
    have hinner := htrans.consistent.handed c x key v (by rw [hret]; rfl)
    exact ((htrans.cached x).returned c key v hinner).1
  · intro x key entry hlook
    have hok := (hacc.cached x).stored key entry hlook
    refine ⟨((htrans.cached x).stored key entry hlook).1, hok, fun err => ⟨?_, ?_⟩⟩
    · intro herr
      cases hacc.once _ _ _ hok herr
    · intro herr
      exact (hacc.failed entry.writer err herr).2 x key entry hlook rfl

/-- A registry in which every identifier stands for the schema of a string. -/
def stringRegistry : Registry := fun _ _ => some (contentOf idSchema)

/-- The answer, if it is one, is the schema of a string. -/
def answersString (_ : State) : Event → Bool
  | .reply _ (.ok schema) => contentOf schema = contentOf idSchema
  | _ => true

theorem truthful_of_answersString (h : answersString s e = true) : Truthful stringRegistry s e := by
  rintro c schema rfl
  have hcontent : contentOf schema = contentOf idSchema := by simpa [answersString] using h
  unfold Honest
  rw [hcontent]
  exact ⟨fun _ _ _ => rfl, fun _ _ _ => rfl⟩

/-- A lookup by GUID is answered, the fetch of the ID 8 fails, and a lookup by the ID 7 hits. -/
def failureBetween : List Event :=
  [.begin 0 (getSchemaByGuid zeroGuid), .advance 0, .advance 0, .advance 0, .inner .guid 0,
    .inner .guid 0, .reply 0 (.ok bothSchema), .inner .guid 0, .inner .guid 0, .inner .guid 0,
    .advance 0, .advance 0, .inner .id 0, .inner .id 0, .advance 0, .advance 0,
    .begin 1 (getSchemaById ⟨8⟩), .advance 1, .advance 1, .advance 1, .inner .id 1, .inner .id 1,
    .reply 1 (.error (.invalidState "unreachable")), .inner .id 1, .inner .id 1, .advance 1,
    .begin 2 (getSchemaById ⟨7⟩), .advance 2, .advance 2, .advance 2, .advance 2, .advance 2,
    .inner .guid 2, .inner .guid 2, .advance 2, .advance 2]

/-- The hit returns what the registry holds, and the failed fetch has left no entry. -/
theorem string_registry_is_transparent :
    ∃ (s : State) (v : Fetched), s.calls 2 = .returned (.byKey .id ⟨7⟩) (.ok v) ∧
      stringRegistry .id ⟨7⟩ = some (contentOf v.schema) ∧
      ∀ x key entry, (s.side x).lookup key = some entry →
        entry.value.origin ≠ 1 ∧ entry.writer ≠ 1 := by
  obtain ⟨s, h, hret⟩ : ∃ s, exec step State.new failureBetween = some s ∧
      s.calls 2 = .returned (.byKey .id ⟨7⟩) (.ok ⟨bothSchema, 0⟩) := ⟨_, rfl, rfl⟩
  have hrun : Run step (Truthful stringRegistry) State.new failureBetween s :=
    (Run.of_passes h (by decide +kernel : passes step answersString State.new failureBetween = true)).mono
      fun _ _ hp => truthful_of_answersString hp
  obtain ⟨hright, hentries⟩ := cache_transparent hrun
  refine ⟨s, ⟨bothSchema, 0⟩, hret, hright 2 .id ⟨7⟩ _ hret, ?_⟩
  intro x key entry hlook
  have hfailed : Event.reply 1 (.error (.invalidState "unreachable")) ∈ failureBetween := by
    simp [failureBetween]
  obtain ⟨_, _, hnone⟩ := hentries x key entry hlook
  obtain ⟨horigin, hwriter⟩ := hnone (.invalidState "unreachable")
  exact ⟨fun heq => horigin (heq ▸ hfailed), fun heq => hwriter (heq ▸ hfailed)⟩

end Schemreg.Cache
