import Schemreg.Cache.Link

/-
  What a wrapper call has sampled, sent and received.

  A call samples the generations of both caches before it looks anything up, and they are
  never larger than the current ones. It sends at most one request to the inner client, and
  the answer carries its name. Together with the link of its phase to its methods this is
  `Consistent`, which holds in every reachable state.
-/

namespace Schemreg.Cache

open CacheInner (CallId)
open Transition

variable {s t : State} {e : Event} {c : CallId} {x : Ident}

/-! ## Beginning and sampling -/

/-- A call that has sampled its generations does not sample again. -/
theorem pre_step (h : ¬ (s.calls c).pre) (hs : step s e = some t) : ¬ (t.calls c).pre := by
  refine phase_kept (P := fun p => ¬ p.pre) hs h fun p q _ hmoves hpre => ?_
  cases hmoves with
  | begin | sampleId | sampleGuid | look | send | spawned => exact absurd trivial hpre
  | _ => exact id

/-- The generations a call has sampled and may still use. -/
def Phase.gens : Phase → Option Generations
  | .sampled _ gens | .looking _ _ gens | .fetching _ gens | .indexing _ _ _ gens
  | .inserting _ _ _ _ gens => some gens
  | _ => none

/-- The generations of a call are the two loads of `generations()`, and stay as they are. -/
theorem gens_step (hs : step s e = some t) {gens : Generations}
    (h : (t.calls c).gens = some gens) :
    (s.calls c).gens = some gens ∨
      (∃ request g, s.calls c = .sampledId request g ∧ gens = ⟨g, (s.side .guid).generation⟩) := by
  refine phase_before (P := fun p => p.gens = some gens) hs h fun p q hp hmoves hgens => ?_
  cases hmoves with
  | @begin _ op => cases op <;> cases hgens
  | @sampleGuid _ request g =>
    cases hgens
    exact Or.inr ⟨request, g, hp, rfl⟩
  | look | send | found | index | skip | inserted | replyOk => exact Or.inl hgens
  | _ => cases hgens

theorem sampledId_step (hs : step s e = some t) {request : Lookup} {g : Nat}
    (h : t.calls c = .sampledId request g) :
    s.calls c = .sampledId request g ∨ g = (s.side .id).generation := by
  refine phase_before (P := fun p => p = .sampledId request g) hs h fun p q _ hmoves hq => ?_
  cases hmoves with
  | @begin _ op => cases op <;> cases hq
  | sampleId =>
    cases hq
    exact Or.inr rfl
  | _ => cases hq

theorem generation_mono (hs : step s e = some t) (x : Ident) :
    (s.side x).generation ≤ (t.side x).generation := by
  rcases side_step hs x with heq | ⟨ie, hinner, _⟩
  · rw [heq]
  · exact CacheInner.generation_step hinner

/-- A method begins as a lookup that the wrapper has sampled for, as the insertion of what it
    has to index, or as what it has to drop. -/
theorem issued_begin {x : Ident} {op : CacheInner.Op x.Key Fetched}
    (h : Issued s e x (.begin c op)) :
    (∃ key, op = .getOrFetch key ∧ (s.calls c).pre) ∨
    (∃ request v todo gens key, op = .insertIfCurrent key v (gens.on x) ∧
      s.calls c = .indexing request v (x :: todo) gens ∧ reported v.schema x = some key) ∨
    (∃ what todo, op = what.op ∧ s.calls c = .dropping (⟨x, what⟩ :: todo)) := by
  cases h with
  | @look _ _ key gens phase => exact Or.inl ⟨key, rfl, by rw [phase]; trivial⟩
  | spawn phase idle => exact Or.inl ⟨_, rfl, by rw [idle]; trivial⟩
  | index phase known => exact Or.inr (Or.inl ⟨_, _, _, _, _, rfl, phase, known⟩)
  | run phase => exact Or.inr (Or.inr ⟨_, _, rfl, phase⟩)

/-- An insertion is one of what the wrapper has to index. -/
theorem issued_insertIfCurrent {x : Ident} {k : x.Key} {v : Fetched} {g : Nat}
    (h : Issued s e x (.begin c (.insertIfCurrent k v g))) :
    ∃ request todo gens, g = gens.on x ∧ s.calls c = .indexing request v (x :: todo) gens ∧
      reported v.schema x = some k := by
  rcases issued_begin h with ⟨key, hop, _⟩ |
      ⟨request, v', todo, gens, key, hop, hphase, hknown⟩ | ⟨what, todo, hop, _⟩
  · cases hop
  · cases hop
    exact ⟨request, todo, gens, rfl, hphase, hknown⟩
  · cases what <;> cases hop

/-- The generations that a state still compares with are not from the future. -/
structure Sampled (s : State) : Prop where
  first : ∀ c request g, s.calls c = .sampledId request g → g ≤ (s.side .id).generation
  both : ∀ c gens, (s.calls c).gens = some gens → ∀ x, gens.on x ≤ (s.side x).generation
  inserting : ∀ x c k v g, (s.side x).calls c = .inserting k v g → g ≤ (s.side x).generation

theorem sampled_init (maxEntries : Nat) : Sampled (State.withMaxEntries maxEntries) where
  first _ _ _ h := by cases h
  both _ _ h := by cases h
  inserting _ _ _ _ _ h := by cases h

theorem sampled_step (h : Sampled s) (hs : step s e = some t) : Sampled t where
  first c request g hc := by
    have hle := generation_mono hs .id
    rcases sampledId_step hs hc with hold | rfl
    · exact Nat.le_trans (h.first c request g hold) hle
    · exact hle
  both c gens hc x := by
    have hle := generation_mono hs x
    rcases gens_step hs hc with hold | ⟨request, g, hold, rfl⟩
    · exact Nat.le_trans (h.both c gens hold x) hle
    · cases x with
      | id => exact Nat.le_trans (h.first c request g hold) hle
      | guid => exact hle
  inserting x c k v g hc := by
    rcases side_step hs x with heq | ⟨ie, hinner, issued⟩
    · rw [heq] at hc ⊢
      exact h.inserting x c k v g hc
    · have hle := CacheInner.generation_step hinner
      rcases CacheInner.inserting_step hinner hc with hold | ⟨rfl, _⟩
      · exact Nat.le_trans (h.inserting x c k v g hold) hle
      · obtain ⟨request, todo, gens, rfl, hphase, _⟩ := issued_insertIfCurrent issued
        exact Nat.le_trans (h.both c gens (by rw [hphase]; rfl) x) hle

/-! ## Requests -/

/-- The method has not come to its request. -/
def unsent {x : Ident} : CacheInner.Phase x.Key Fetched → Prop
  | .missed _ | .elected _ _ => True
  | _ => False

/-- A call that has sent its request sends no other. -/
def Sent (s : State) : Prop :=
  ∀ c ∈ s.requests, ¬ (s.calls c).pre ∧ ∀ x, ¬ unsent (s.methods c x)

theorem unsent_step {x : Ident} (h : ¬ unsent (s.methods c x)) (hp : ¬ (s.calls c).pre)
    (hs : step s e = some t) : ¬ unsent (t.methods c x) := by
  unfold State.methods at h ⊢
  rcases side_step hs x with heq | ⟨ie, hinner, issued⟩
  · rwa [heq]
  · intro hun
    cases hphase : (t.side x).calls c with
    | missed k =>
      rcases CacheInner.missed_step hinner hphase with hold | rfl
      · exact h (by rw [hold]; trivial)
      · rcases issued_begin issued with ⟨_, _, hpre⟩ | ⟨_, _, _, _, _, hop, _⟩ | ⟨what, _, hop, _⟩
        · exact hp hpre
        · cases hop
        · cases what <;> cases hop
    | elected k token =>
      rcases CacheInner.elected_step hinner hphase with hold | hold
      · exact h (by rw [hold]; trivial)
      · exact h (by rw [hold]; trivial)
    | _ =>
      rw [hphase] at hun
      exact hun

theorem requests_step (hs : step s e = some t) (h : c ∈ t.requests) :
    c ∈ s.requests ∨ (∃ request gens, s.calls c = .sampled request gens ∧
        t.calls c = .fetching request gens ∧ t.side = s.side) ∨
      ∃ x k token, (s.side x).calls c = .elected k token ∧
        (t.side x).calls c = .fetching k token := by
  cases step_cases hs with
  | @send d request gens phase direct =>
    have hd : c = d ∨ c ∈ s.requests := by simpa using h
    rcases hd with rfl | hold
    · exact Or.inr (Or.inl ⟨request, gens, phase, by simp, rfl⟩)
    · exact Or.inl hold
  | @sendLeader x d k token i elected inner =>
    have hd : c = d ∨ c ∈ s.requests := by simpa using h
    rcases hd with rfl | hold
    · refine Or.inr (Or.inr ⟨x, k, token, elected, ?_⟩)
      simpa using CacheInner.polled_step elected inner
    · exact Or.inl hold
  | _ => exact Or.inl h

/-- A leader that sends its request is in the lookup of one cache, and has begun nothing in
    the other. -/
theorem Linked.leader (h : Linked s) {x : Ident} (hx : (s.methods c x).sending) :
    ¬ (s.calls c).pre ∧ s.methods c x.other = .idle := by
  have link := h c
  rcases link.1 x hx with ⟨key, gens, hp⟩ | ⟨rfl, parent, id, hp⟩
  · rw [hp] at link ⊢
    exact ⟨id, link.2.2⟩
  · rw [hp] at link ⊢
    exact ⟨fun h => h, link.2.2⟩

theorem sent_step (h : Sent s) (linked : Linked s) (hs : step s e = some t) : Sent t := by
  intro c hc
  rcases requests_step hs hc with hold | ⟨request, gens, hphase, hnew, hside⟩ |
      ⟨x, k, token, helected, hfetching⟩
  · obtain ⟨hpre, hun⟩ := h c hold
    exact ⟨pre_step hpre hs, fun x => unsent_step (hun x) hpre hs⟩
  · refine ⟨by rw [hnew]; exact id, fun x => ?_⟩
    have hidle : s.methods c x = .idle := (linked c).quiet (by rw [hphase]; trivial) x
    have hsame : t.methods c x = s.methods c x := by
      unfold State.methods
      rw [hside]
    rw [hsame, hidle]
    exact id
  · have hsend : (s.methods c x).sending := by
      rw [State.methods, helected]
      trivial
    obtain ⟨hpre, hother⟩ := linked.leader hsend
    refine ⟨pre_step hpre hs, fun y => ?_⟩
    rcases eq_or_other x y with rfl | rfl
    · rw [State.methods, hfetching]
      exact id
    · refine unsent_step ?_ hpre hs
      rw [hother]
      exact id

/-! ## Answers -/

theorem fetchedBy_ok {d : CallId} {r : Result Schema} {v : Fetched} (h : fetchedBy d r = .ok v) :
    r = .ok v.schema ∧ v.origin = d := by
  cases r with
  | ok schema =>
    cases h
    exact ⟨rfl, rfl⟩
  | error err => cases h

/-- What a call is looking up. -/
def Phase.asks : Phase → Option ((x : Ident) × x.Key)
  | .looking x key _ => some ⟨x, key⟩
  | .child _ id => some ⟨.id, id⟩
  | _ => none

theorem Linked.asks (h : Linked s) {x : Ident} {key : x.Key}
    (hasks : (s.calls c).asks = some ⟨x, key⟩) :
    (s.methods c x).getting key ∧ s.methods c x.other = .idle := by
  have link := h c
  cases hp : s.calls c with
  | looking y k gens =>
    rw [hp] at link hasks
    cases hasks
    exact link.2
  | child parent id =>
    rw [hp] at link hasks
    cases hasks
    exact link.2
  | _ =>
    rw [hp] at hasks
    cases hasks

/-- The inner client answers the lookup of the call. -/
theorem issued_reply {x : Ident} {r : Result Fetched} (h : Issued s e x (.reply c r)) :
    ∃ answer key, e = .reply c answer ∧ r = fetchedBy c answer ∧
      (s.calls c).asks = some ⟨x, key⟩ := by
  cases h with
  | @reply _ _ key gens r phase => exact ⟨r, key, rfl, rfl, by rw [phase]; rfl⟩
  | @replyChild _ parent id r phase => exact ⟨r, id, rfl, rfl, by rw [phase]; rfl⟩

/-- What a leader has fetched carries its name. -/
structure Owned (s : State) : Prop where
  fetched : ∀ x c k token v, (s.side x).calls c = .fetched k token (.ok v) → v.origin = c
  claimed : ∀ x c k v ws, (s.side x).calls c = .claimed k v ws → v.origin = c

theorem owned_init (maxEntries : Nat) : Owned (State.withMaxEntries maxEntries) where
  fetched _ _ _ _ _ h := by cases h
  claimed _ _ _ _ _ h := by cases h

theorem owned_step (h : Owned s) (hs : step s e = some t) : Owned t where
  fetched x c k token v hc := by
    rcases side_step hs x with heq | ⟨ie, hinner, issued⟩
    · rw [heq] at hc
      exact h.fetched x c k token v hc
    · rcases CacheInner.fetched_step hinner hc with hold | ⟨rfl, _⟩
      · exact h.fetched x c k token v hold
      · obtain ⟨answer, key, _, hr, _⟩ := issued_reply issued
        exact (fetchedBy_ok hr.symm).2
  claimed x c k v ws hc := by
    rcases side_step hs x with heq | ⟨ie, hinner, _⟩
    · rw [heq] at hc
      exact h.claimed x c k v ws hc
    · rcases CacheInner.claimed_step hinner hc with hold | ⟨token, entry, _, hfetched, _⟩
      · exact h.claimed x c k v ws hold
      · exact h.fetched x c k token v hfetched

/-! ## Results -/

/-- The request that a call answers, and the schema that it is going to return or has
    returned. -/
def Phase.handed : Phase → Option (Lookup × Fetched)
  | .indexing request v _ _ | .inserting request v _ _ _ | .returned request (.ok v) =>
      some (request, v)
  | _ => none

theorem handed_step (hs : step s e = some t) {request : Lookup} {v : Fetched}
    (h : (t.calls c).handed = some (request, v)) :
    (s.calls c).handed = some (request, v) ∨
    (∃ x key gens k, e = .advance c ∧ request = .byKey x key ∧ s.calls c = .looking x key gens ∧
      (s.side x).calls c = .returned k (.ok v)) ∨
    (∃ gens schema, e = .reply c (.ok schema) ∧ s.calls c = .fetching request gens ∧
      v = ⟨schema, c⟩) := by
  refine phase_before (P := fun p => p.handed = some (request, v)) hs h
    fun p q hp hmoves hhanded => ?_
  cases hmoves with
  | @begin _ op => cases op <;> cases hhanded
  | @found _ x key gens k v' inner =>
    cases hhanded
    exact Or.inr (Or.inl ⟨x, key, gens, k, rfl, rfl, hp, inner⟩)
  | @replyOk _ request' gens schema =>
    cases hhanded
    exact Or.inr (Or.inr ⟨gens, schema, rfl, hp, rfl⟩)
  | index | skip | inserted | indexed => exact Or.inl hhanded
  | _ => cases hhanded

/-- What a lookup by an identifier returns is what the cache has returned to it. -/
def Handed (s : State) : Prop :=
  ∀ c x key v, (s.calls c).handed = some (.byKey x key, v) →
    (s.side x).calls c = .returned key (.ok v)

theorem handed_stays (h : Handed s) (linked : Linked s) (hs : step s e = some t) : Handed t := by
  intro c x key v hc
  have hreturned : (s.side x).calls c = .returned key (.ok v) := by
    rcases handed_step hs hc with hold | ⟨x', key', gens, k, _, hreq, hphase, hret⟩ |
        ⟨gens, schema, _, hphase, _⟩
    · exact h c x key v hold
    · cases hreq
      have hget := (linked.asks (by rw [hphase]; rfl) : (s.methods c x).getting key ∧ _).1
      rw [State.methods, hret] at hget
      have hkey : k = key := hget
      rw [← hkey]
      exact hret
    · have link := linked c
      rw [hphase] at link
      exact absurd rfl (link.2.1 x key)
  rcases side_step hs x with heq | ⟨ie, hinner, _⟩
  · rw [heq]
    exact hreturned
  · exact CacheInner.returned_stays hreturned hinner

/-! ## Where the schemas come from -/

theorem requests_mono (hs : step s e = some t) (h : c ∈ s.requests) : c ∈ t.requests := by
  cases step_cases hs with
  | send => exact List.mem_cons_of_mem _ h
  | sendLeader => exact List.mem_cons_of_mem _ h
  | _ => exact h

theorem direct_step (hs : step s e = some t) {request : Lookup} {gens : Generations}
    (h : t.calls c = .fetching request gens) :
    s.calls c = .fetching request gens ∨
      (s.calls c = .sampled request gens ∧ c ∈ t.requests) := by
  refine phase_before (P := fun p => p = .fetching request gens) hs h fun p q hp hmoves hq => ?_
  cases hmoves with
  | @begin _ op => cases op <;> cases hq
  | send sent =>
    cases hq
    exact Or.inr ⟨hp, sent⟩
  | _ => cases hq

theorem leading_step (hs : step s e = some t) {k : x.Key} {token : Nat}
    (h : (t.side x).calls c = .fetching k token) :
    (s.side x).calls c = .fetching k token ∨ c ∈ t.requests := by
  rcases side_step hs x with heq | ⟨ie, hinner, issued⟩
  · rw [heq] at h
    exact Or.inl h
  · rcases CacheInner.fetching_step hinner h with hold | ⟨rfl, helected⟩
    · exact Or.inl hold
    · cases issued with
      | inner =>
        cases step_cases hs with
        | inner _ sent => exact absurd helected (sent k token)
        | sendLeader => exact Or.inr (by simp)

/-- Every fetch has been requested, and every schema answers a request. -/
structure Requested (s : State) : Prop where
  direct : ∀ c request gens, s.calls c = .fetching request gens → c ∈ s.requests
  leading : ∀ x c k token, (s.side x).calls c = .fetching k token → c ∈ s.requests
  cached : ∀ x, CacheInner.Keyed (fun _ v => v.origin ∈ s.requests) (s.side x)
  handed : ∀ c request v, (s.calls c).handed = some (request, v) → v.origin ∈ s.requests

theorem requested_init (maxEntries : Nat) : Requested (State.withMaxEntries maxEntries) where
  direct _ _ _ h := by cases h
  leading _ _ _ _ h := by cases h
  cached _ := CacheInner.keyed_init _ _
  handed _ _ _ h := by cases h

theorem requested_step (h : Requested s) (addressed : ∀ x, CacheInner.Addressed (s.side x))
    (hs : step s e = some t) : Requested t where
  direct c request gens hc := by
    rcases direct_step hs hc with hold | ⟨_, hnew⟩
    · exact requests_mono hs (h.direct c request gens hold)
    · exact hnew
  leading x c k token hc := by
    rcases leading_step hs hc with hold | hnew
    · exact requests_mono hs (h.leading x c k token hold)
    · exact hnew
  cached x := by
    have later : CacheInner.Keyed (fun _ v => v.origin ∈ t.requests) (s.side x) :=
      (h.cached x).mono fun _ _ hv => requests_mono hs hv
    rcases side_step hs x with heq | ⟨ie, hinner, issued⟩
    · rw [heq]
      exact later
    · refine CacheInner.keyed_step later (addressed x) ⟨?_, ?_⟩ hinner
      · intro c k token v he hfetching
        subst he
        obtain ⟨answer, key, _, hr, _⟩ := issued_reply issued
        rw [(fetchedBy_ok hr.symm).2]
        exact requests_mono hs (h.leading x c k token hfetching)
      · intro c k v g he
        subst he
        obtain ⟨request, todo, gens, -, hphase, -⟩ := issued_insertIfCurrent issued
        exact requests_mono hs (h.handed c request v (by rw [hphase]; rfl))
  handed c request v hc := by
    refine requests_mono hs ?_
    rcases handed_step hs hc with hold | ⟨x, key, gens, k, _, _, _, hret⟩ |
        ⟨gens, schema, _, hphase, rfl⟩
    · exact h.handed c request v hold
    · exact (h.cached x).returned c k v hret
    · exact h.direct c request gens hphase

/-! ## All of them -/

/-- The wrapper's calls, their methods, samples, requests and answers fit together. -/
structure Consistent (s : State) : Prop where
  linked : Linked s
  sampled : Sampled s
  sent : Sent s
  owned : Owned s
  handed : Handed s
  requested : Requested s
  locked : ∀ x, CacheInner.Locked (s.side x)
  addressed : ∀ x, CacheInner.Addressed (s.side x)

theorem consistent_init (maxEntries : Nat) : Consistent (State.withMaxEntries maxEntries) where
  linked := linked_init maxEntries
  sampled := sampled_init maxEntries
  sent _ h := by cases h
  owned := owned_init maxEntries
  handed _ _ _ _ h := by cases h
  requested := requested_init maxEntries
  locked _ := CacheInner.locked_init _ _
  addressed _ := CacheInner.addressed_init _ _

theorem consistent_step (h : Consistent s) (hs : step s e = some t) : Consistent t where
  linked := linked_step h.linked hs
  sampled := sampled_step h.sampled hs
  sent := sent_step h.sent h.linked hs
  owned := owned_step h.owned hs
  handed := handed_stays h.handed h.linked hs
  requested := requested_step h.requested h.addressed hs
  locked x := by
    rcases side_step hs x with heq | ⟨ie, hinner, _⟩
    · rw [heq]
      exact h.locked x
    · exact CacheInner.locked_step (h.locked x) hinner
  addressed x := by
    rcases side_step hs x with heq | ⟨ie, hinner, _⟩
    · rw [heq]
      exact h.addressed x
    · exact CacheInner.addressed_step (h.addressed x) hinner

theorem consistent_reachable {maxEntries : Nat}
    (h : Reachable step (State.withMaxEntries maxEntries) s) : Consistent s := by
  obtain ⟨es, hrun⟩ := h
  exact hrun.invariant (consistent_init maxEntries) fun _ _ _ hx _ hs => consistent_step hx hs

end Schemreg.Cache
