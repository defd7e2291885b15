import Schemreg.Cache.Model

/-
  What one step of the wrapper can do.

  `Step s e t` lists the steps of `step` one by one (`step_cases`), and `Moves` what they do to
  a single call (`step_moves`). What a step does to the caches is at most one step of one of
  them: `side_step` says which inner event it is and
  where the wrapper issues it (`Issued`). So an invariant of the inner cache carries over to
  each side of the wrapper (`side_reachable`), and the invariants of the wrapper only have
  to follow the phases of the calls.
-/

namespace Schemreg.Cache

open CacheInner (CallId)
open Transition

namespace State

variable (s : State)

@[simp] theorem goto_side (c : CallId) (phase : Phase) : (s.goto c phase).side = s.side := rfl
@[simp] theorem goto_requests (c : CallId) (phase : Phase) :
    (s.goto c phase).requests = s.requests := rfl
@[simp] theorem goto_calls (c d : CallId) (phase : Phase) :
    (s.goto c phase).calls d = if d = c then phase else s.calls d := by
  simp [goto, Function.update_apply]

@[simp] theorem setSide_calls (x : Ident) (i : CacheInner.State x.Key Fetched) :
    (s.setSide x i).calls = s.calls := rfl
@[simp] theorem setSide_requests (x : Ident) (i : CacheInner.State x.Key Fetched) :
    (s.setSide x i).requests = s.requests := rfl
@[simp] theorem setSide_self (x : Ident) (i : CacheInner.State x.Key Fetched) :
    (s.setSide x i).side x = i := by
  simp [setSide]
theorem setSide_ne {x y : Ident} (i : CacheInner.State x.Key Fetched) (h : y ≠ x) :
    (s.setSide x i).side y = s.side y := by
  simp [setSide, h]

@[simp] theorem request_side (c : CallId) : (s.request c).side = s.side := rfl
@[simp] theorem request_calls (c : CallId) : (s.request c).calls = s.calls := rfl
@[simp] theorem request_requests (c : CallId) : (s.request c).requests = c :: s.requests := rfl

end State

/-- A request for a schema by subject, which is not coalesced. -/
def Lookup.direct (request : Lookup) : Prop := ∀ x key, request ≠ .byKey x key

/-- The steps of the wrapper. -/
inductive Step (s : State) : Event → State → Prop where
  | begin {c op} (phase : s.calls c = .idle) : Step s (.begin c op) (s.goto c (start op))
  -- the lookups
  | sampleId {c request} (phase : s.calls c = .sampling request) :
      Step s (.advance c) (s.goto c (.sampledId request (s.side .id).generation))
  | sampleGuid {c request g} (phase : s.calls c = .sampledId request g) :
      Step s (.advance c) (s.goto c (.sampled request ⟨g, (s.side .guid).generation⟩))
  | look {c x key gens i} (phase : s.calls c = .sampled (.byKey x key) gens)
      (inner : CacheInner.step (s.side x) (.begin c (.getOrFetch key)) = some i) :
      Step s (.advance c) ((s.setSide x i).goto c (.looking x key gens))
  | send {c request gens} (phase : s.calls c = .sampled request gens) (direct : request.direct) :
      Step s (.advance c) ((s.request c).goto c (.fetching request gens))
  | found {c x key gens k v} (phase : s.calls c = .looking x key gens)
      (inner : (s.side x).calls c = .returned k (.ok v)) :
      Step s (.advance c) (s.goto c (.indexing (.byKey x key) v [x.other] gens))
  | notFound {c x key gens k err} (phase : s.calls c = .looking x key gens)
      (inner : (s.side x).calls c = .returned k (.error err)) :
      Step s (.advance c) (s.goto c (.returned (.byKey x key) (.error err)))
  | index {c request v x todo gens key i} (phase : s.calls c = .indexing request v (x :: todo) gens)
      (known : reported v.schema x = some key)
      (inner : CacheInner.step (s.side x) (.begin c (.insertIfCurrent key v (gens.on x))) = some i) :
      Step s (.advance c) ((s.setSide x i).goto c (.inserting request v x todo gens))
  | skip {c request v x todo gens} (phase : s.calls c = .indexing request v (x :: todo) gens)
      (absent : reported v.schema x = none) :
      Step s (.advance c) (s.goto c (.indexing request v todo gens))
  | inserted {c request v x todo gens} (phase : s.calls c = .inserting request v x todo gens)
      (inner : (s.side x).calls c = .finished) :
      Step s (.advance c) (s.goto c (.indexing request v todo gens))
  | indexed {c request v gens} (phase : s.calls c = .indexing request v [] gens) :
      Step s (.advance c) (s.goto c (.returned request (.ok v)))
  -- the invalidations
  | run {c x what todo i} (phase : s.calls c = .dropping (⟨x, what⟩ :: todo))
      (inner : CacheInner.step (s.side x) (.begin c what.op) = some i) :
      Step s (.advance c) ((s.setSide x i).goto c (.running x todo))
  | ran {c x todo} (phase : s.calls c = .running x todo)
      (inner : (s.side x).calls c = .finished) :
      Step s (.advance c) (s.goto c (.dropping todo))
  | dropped {c} (phase : s.calls c = .dropping []) : Step s (.advance c) (s.goto c .finished)
  | deletedOk {c subject u} (phase : s.calls c = .deleting subject) :
      Step s (.deleted c (.ok u)) (s.goto c (.dropping (Invalidation.subject subject).drops))
  | deletedError {c subject err} (phase : s.calls c = .deleting subject) :
      Step s (.deleted c (.error err)) (s.goto c (.failed err))
  -- the sections of the caches, and the answers of the inner client
  | inner {x c i} (inner : CacheInner.step (s.side x) (.resume c) = some i)
      (sent : ∀ k token, (s.side x).calls c ≠ .elected k token) :
      Step s (.inner x c) (s.setSide x i)
  | sendLeader {x c k token i} (elected : (s.side x).calls c = .elected k token)
      (inner : CacheInner.step (s.side x) (.resume c) = some i) :
      Step s (.inner x c) ((s.setSide x i).request c)
  | replyLooking {c x key gens r i} (phase : s.calls c = .looking x key gens)
      (inner : CacheInner.step (s.side x) (.reply c (fetchedBy c r)) = some i) :
      Step s (.reply c r) (s.setSide x i)
  | replyChild {c parent id r i} (phase : s.calls c = .child parent id)
      (inner : CacheInner.step (s.side .id) (.reply c (fetchedBy c r)) = some i) :
      Step s (.reply c r) (s.setSide .id i)
  | replyOk {c request gens schema} (phase : s.calls c = .fetching request gens) :
      Step s (.reply c (.ok schema)) (s.goto c (.indexing request ⟨schema, c⟩ [.id, .guid] gens))
  | replyError {c request gens err} (phase : s.calls c = .fetching request gens) :
      Step s (.reply c (.error err)) (s.goto c (.returned request (.error err)))
  -- dropped futures
  | dropLooking {c x key gens i} (phase : s.calls c = .looking x key gens)
      (inner : CacheInner.step (s.side x) (.drop c) = some i) :
      Step s (.drop c) ((s.setSide x i).goto c .dropped)
  | dropFetching {c request gens} (phase : s.calls c = .fetching request gens) :
      Step s (.drop c) (s.goto c .dropped)
  | dropDeleting {c subject} (phase : s.calls c = .deleting subject) :
      Step s (.drop c) (s.goto c .dropped)
  | dropWarming {c pending running failures}
      (phase : s.calls c = .warming pending running failures) :
      Step s (.drop c) (s.goto c .dropped)
  | dropChild {c parent id i} (phase : s.calls c = .child parent id)
      (inner : CacheInner.step (s.side .id) (.drop c) = some i) :
      Step s (.drop c) ((s.setSide .id i).goto c .dropped)
  -- `warm_cache`
  | spawn {c child id pending running failures i}
      (phase : s.calls c = .warming pending running failures) (idle : s.calls child = .idle)
      (inner : CacheInner.step (s.side .id) (.begin child (.getOrFetch id)) = some i) :
      Step s (.spawn c child id) (((s.setSide .id i).goto child (.child c id)).goto c
        (.warming (pending.erase id) ((child, id) :: running) failures))
  | collect {c child id parent pending running failures k result}
      (phase : s.calls c = .warming pending running failures)
      (isChild : s.calls child = .child parent id)
      (inner : (s.side .id).calls child = .returned k result) :
      Step s (.collect c child) ((s.goto child .finished).goto c
        (.warming pending (running.erase (child, id)) (addFailure id result failures)))
  | warmed {c failures} (phase : s.calls c = .warming [] [] failures) :
      Step s (.advance c) (s.goto c (.warmed failures))

theorem innerStep_eq_some {s t : State} {x : Ident} {e : CacheInner.Event x.Key Fetched} :
    innerStep s x e = some t ↔ ∃ i, CacheInner.step (s.side x) e = some i ∧ s.setSide x i = t := by
  simp [innerStep, Option.map_eq_some_iff]

theorem innerStep_map_eq_some {s t : State} {x : Ident} {e : CacheInner.Event x.Key Fetched}
    {f : State → State} :
    (innerStep s x e).map f = some t ↔
      ∃ i, CacheInner.step (s.side x) e = some i ∧ f (s.setSide x i) = t := by
  simp [innerStep, Option.map_eq_some_iff]

theorem advance_step {s t : State} {c : CallId} (h : advance s c = some t) :
    Step s (.advance c) t := by
  unfold advance at h
  split at h
  · rename_i phase
    cases h
    exact .sampleId phase
  · rename_i phase
    cases h
    exact .sampleGuid phase
  · rename_i phase
    obtain ⟨i, inner, rfl⟩ := innerStep_map_eq_some.mp h
    exact .look phase inner
  · rename_i request gens direct phase
    cases h
    exact .send phase fun x key hr => direct x key hr
  · rename_i phase
    split at h
    · rename_i inner
      cases h
      exact .found phase inner
    · rename_i inner
      cases h
      exact .notFound phase inner
    · cases h
  · rename_i phase
    cases h
    exact .indexed phase
  · rename_i phase
    split at h
    · rename_i key hkey
      obtain ⟨i, inner, rfl⟩ := innerStep_map_eq_some.mp h
      exact .index phase hkey inner
    · rename_i absent
      cases h
      exact .skip phase absent
  · rename_i phase
    split at h
    · rename_i inner
      cases h
      exact .inserted phase inner
    · cases h
  · rename_i phase
    cases h
    exact .dropped phase
  · rename_i phase
    obtain ⟨i, inner, rfl⟩ := innerStep_map_eq_some.mp h
    exact .run phase inner
  · rename_i phase
    split at h
    · rename_i inner
      cases h
      exact .ran phase inner
    · cases h
  · rename_i phase
    cases h
    exact .warmed phase
  · cases h

theorem runSection_step {s t : State} {x : Ident} {c : CallId} (h : runSection s x c = some t) :
    Step s (.inner x c) t := by
  unfold runSection at h
  split at h
  · rename_i elected
    obtain ⟨i, inner, rfl⟩ := innerStep_map_eq_some.mp h
    exact .sendLeader elected inner
  · rename_i sent
    obtain ⟨i, inner, rfl⟩ := innerStep_eq_some.mp h
    exact .inner inner sent

theorem reply_step {s t : State} {c : CallId} {r : Result Schema} (h : reply s c r = some t) :
    Step s (.reply c r) t := by
  unfold reply at h
  split at h
  · rename_i phase
    obtain ⟨i, inner, rfl⟩ := innerStep_eq_some.mp h
    exact .replyLooking phase inner
  · rename_i phase
    obtain ⟨i, inner, rfl⟩ := innerStep_eq_some.mp h
    exact .replyChild phase inner
  · rename_i phase
    cases r with
    | ok schema => cases h; exact .replyOk phase
    | error err => cases h; exact .replyError phase
  · cases h

theorem drop_step {s t : State} {c : CallId} (h : dropFuture s c = some t) :
    Step s (.drop c) t := by
  unfold dropFuture at h
  split at h
  · rename_i phase
    obtain ⟨i, inner, rfl⟩ := innerStep_map_eq_some.mp h
    exact .dropLooking phase inner
  · rename_i phase
    cases h
    exact .dropFetching phase
  · rename_i phase
    cases h
    exact .dropDeleting phase
  · rename_i phase
    cases h
    exact .dropWarming phase
  · rename_i phase
    split at h
    · obtain ⟨i, inner, rfl⟩ := innerStep_map_eq_some.mp h
      exact .dropChild phase inner
    · cases h
  · cases h

theorem spawn_step {s t : State} {c child : CallId} {id : SchemaId}
    (h : spawn s c child id = some t) : Step s (.spawn c child id) t := by
  unfold spawn at h
  split at h
  · rename_i phase idle
    split at h
    · obtain ⟨i, inner, rfl⟩ := innerStep_map_eq_some.mp h
      exact .spawn phase idle inner
    · cases h
  · cases h

theorem collect_step {s t : State} {c child : CallId} (h : collect s c child = some t) :
    Step s (.collect c child) t := by
  unfold collect at h
  split at h
  · rename_i phase isChild inner
    split at h
    · cases h
      exact .collect phase isChild inner
    · cases h
  · cases h

/-- The inversion of `step`. -/
theorem step_cases {s t : State} {e : Event} (h : step s e = some t) : Step s e t := by
  cases e with
  | begin c op =>
    simp only [step] at h
    split at h
    · rename_i phase
      cases h
      exact .begin phase
    · cases h
  | advance c => exact advance_step h
  | inner x c => exact runSection_step h
  | reply c r => exact reply_step h
  | deleted c r =>
    simp only [step] at h
    split at h
    · rename_i phase
      cases r with
      | ok u => cases h; exact .deletedOk phase
      | error err => cases h; exact .deletedError phase
    · cases h
  | drop c => exact drop_step h
  | spawn c child id => exact spawn_step h
  | collect c child => exact collect_step h

/-! ## What a step does to one of the calls -/

/-- The step `e` from `s` to `t` moves a call from one phase to another. -/
inductive Moves (s t : State) : Event → CallId → Phase → Phase → Prop where
  | begin {c op} (sides : t.side = s.side) : Moves s t (.begin c op) c .idle (start op)
  -- the lookups
  | sampleId {c request} : Moves s t (.advance c) c (.sampling request)
      (.sampledId request (s.side .id).generation)
  | sampleGuid {c request g} : Moves s t (.advance c) c (.sampledId request g)
      (.sampled request ⟨g, (s.side .guid).generation⟩)
  | look {c x key gens} : Moves s t (.advance c) c (.sampled (.byKey x key) gens)
      (.looking x key gens)
  | send {c request gens} (sent : c ∈ t.requests) : Moves s t (.advance c) c
      (.sampled request gens) (.fetching request gens)
  | found {c x key gens k v} (inner : (s.side x).calls c = .returned k (.ok v)) :
      Moves s t (.advance c) c (.looking x key gens) (.indexing (.byKey x key) v [x.other] gens)
  | notFound {c x key gens err} : Moves s t (.advance c) c (.looking x key gens)
      (.returned (.byKey x key) (.error err))
  | index {c request v x todo gens} : Moves s t (.advance c) c
      (.indexing request v (x :: todo) gens) (.inserting request v x todo gens)
  | skip {c request v x todo gens} : Moves s t (.advance c) c
      (.indexing request v (x :: todo) gens) (.indexing request v todo gens)
  | inserted {c request v x todo gens} (inner : (s.side x).calls c = .finished) :
      Moves s t (.advance c) c (.inserting request v x todo gens) (.indexing request v todo gens)
  | indexed {c request v gens} : Moves s t (.advance c) c (.indexing request v [] gens)
      (.returned request (.ok v))
  | replyOk {c request gens schema} : Moves s t (.reply c (.ok schema)) c
      (.fetching request gens) (.indexing request ⟨schema, c⟩ [.id, .guid] gens)
  | replyError {c request gens err} : Moves s t (.reply c (.error err)) c
      (.fetching request gens) (.returned request (.error err))
  -- the invalidations
  | run {c x what todo} (inner : CacheInner.step (s.side x) (.begin c what.op) = some (t.side x))
      (sides : ∀ y, y ≠ x → t.side y = s.side y) (calls : ∀ d, d ≠ c → t.calls d = s.calls d) :
      Moves s t (.advance c) c (.dropping (⟨x, what⟩ :: todo)) (.running x todo)
  | ran {c x todo} (inner : (s.side x).calls c = .finished) (sides : t.side = s.side) :
      Moves s t (.advance c) c (.running x todo) (.dropping todo)
  | dropped {c} (sides : t.side = s.side) : Moves s t (.advance c) c (.dropping []) .finished
  | deletedOk {c subject u} : Moves s t (.deleted c (.ok u)) c (.deleting subject)
      (.dropping (Invalidation.subject subject).drops)
  | deletedError {c subject err} : Moves s t (.deleted c (.error err)) c (.deleting subject)
      (.failed err)
  -- dropped futures
  | dropLooking {c x key gens} : Moves s t (.drop c) c (.looking x key gens) .dropped
  | dropFetching {c request gens} : Moves s t (.drop c) c (.fetching request gens) .dropped
  | dropDeleting {c subject} : Moves s t (.drop c) c (.deleting subject) .dropped
  | dropWarming {c pending running failures} : Moves s t (.drop c) c
      (.warming pending running failures) .dropped
  | dropChild {c parent id} : Moves s t (.drop c) c (.child parent id) .dropped
  -- `warm_cache`, on both sides of a child
  | spawns {c child id pending running failures} : Moves s t (.spawn c child id) c
      (.warming pending running failures)
      (.warming (pending.erase id) ((child, id) :: running) failures)
  | spawned {c child id} : Moves s t (.spawn c child id) child .idle (.child c id)
  | collects {c child id pending running failures result} : Moves s t (.collect c child) c
      (.warming pending running failures)
      (.warming pending (running.erase (child, id)) (addFailure id result failures))
  | collected {c child parent id} : Moves s t (.collect c child) child (.child parent id) .finished
  | warmed {c failures} : Moves s t (.advance c) c (.warming [] [] failures) (.warmed failures)

theorem goto_moves {s u : State} {e : Event} {d : CallId} {p q : Phase} (hcalls : u.calls = s.calls)
    (phase : s.calls d = p) (h : Moves s (u.goto d q) e d p q) (c : CallId) :
    (u.goto d q).calls c = s.calls c ∨
      ∃ p q', s.calls c = p ∧ (u.goto d q).calls c = q' ∧ Moves s (u.goto d q) e c p q' := by
  by_cases hc : c = d
  · subst hc
    exact Or.inr ⟨p, q, phase, by simp, h⟩
  · refine Or.inl ?_
    rw [State.goto_calls, if_neg hc, hcalls]

/-- A step leaves a call where it is, or moves it. -/
theorem step_moves {s t : State} {e : Event} (hs : step s e = some t) (c : CallId) :
    t.calls c = s.calls c ∨ ∃ p q, s.calls c = p ∧ t.calls c = q ∧ Moves s t e c p q := by
  cases step_cases hs with
  | begin phase => exact goto_moves rfl phase (.begin rfl) c
  | sampleId phase => exact goto_moves rfl phase .sampleId c
  | sampleGuid phase => exact goto_moves rfl phase .sampleGuid c
  | look phase inner => exact goto_moves (s.setSide_calls _ _) phase .look c
  | send phase direct => exact goto_moves (s.request_calls _) phase (.send (by simp)) c
  | found phase inner => exact goto_moves rfl phase (.found inner) c
  | notFound phase inner => exact goto_moves rfl phase .notFound c
  | index phase known inner => exact goto_moves (s.setSide_calls _ _) phase .index c
  | skip phase absent => exact goto_moves rfl phase .skip c
  | inserted phase inner => exact goto_moves rfl phase (.inserted inner) c
  | indexed phase => exact goto_moves rfl phase .indexed c
  | @run d x what todo i phase inner =>
    refine goto_moves (s.setSide_calls x i) phase (.run ?_ (fun y hy => ?_) (fun d' hd => ?_)) c
    · simpa using inner
    · exact s.setSide_ne i hy
    · simp [hd]
  | ran phase inner => exact goto_moves rfl phase (.ran inner rfl) c
  | dropped phase => exact goto_moves rfl phase (.dropped rfl) c
  | deletedOk phase => exact goto_moves rfl phase .deletedOk c
  | deletedError phase => exact goto_moves rfl phase .deletedError c
  | inner | sendLeader | replyLooking | replyChild => exact Or.inl rfl
  | replyOk phase => exact goto_moves rfl phase .replyOk c
  | replyError phase => exact goto_moves rfl phase .replyError c
  | dropLooking phase inner => exact goto_moves (s.setSide_calls _ _) phase .dropLooking c
  | dropFetching phase => exact goto_moves rfl phase .dropFetching c
  | dropDeleting phase => exact goto_moves rfl phase .dropDeleting c
  | dropWarming phase => exact goto_moves rfl phase .dropWarming c
  | dropChild phase inner => exact goto_moves (s.setSide_calls _ _) phase .dropChild c
  | @spawn d child id pending running failures i phase idle inner =>
    have hne : child ≠ d := by
      rintro rfl
      rw [idle] at phase
      cases phase
    by_cases hchild : c = child
    · subst hchild
      exact Or.inr ⟨_, _, idle, by simp [hne], .spawned⟩
    · by_cases hd : c = d
      · subst hd
        exact Or.inr ⟨_, _, phase, (State.goto_calls _ _ _ _).trans (if_pos rfl), .spawns⟩
      · exact Or.inl (by simp [hchild, hd])
  | @collect d child id parent pending running failures k result phase isChild inner =>
    have hne : child ≠ d := by
      rintro rfl
      rw [isChild] at phase
      cases phase
    by_cases hchild : c = child
    · subst hchild
      exact Or.inr ⟨_, _, isChild, by simp [hne], .collected⟩
    · by_cases hd : c = d
      · subst hd
        exact Or.inr ⟨_, _, phase, (State.goto_calls _ _ _ _).trans (if_pos rfl), .collects⟩
      · exact Or.inl (by simp [hchild, hd])
  | warmed phase => exact goto_moves rfl phase .warmed c

/-- What holds of the phase of a call still holds, if the moves keep it. -/
theorem phase_kept {s t : State} {e : Event} {c : CallId} {P : Phase → Prop}
    (hs : step s e = some t) (h : P (s.calls c))
    (moved : ∀ p q, s.calls c = p → Moves s t e c p q → P p → P q) : P (t.calls c) := by
  rcases step_moves hs c with heq | ⟨p, q, hp, hq, hmoves⟩
  · rwa [heq]
  · rw [hp] at h
    rw [hq]
    exact moved p q hp hmoves h

/-- What holds of the phase of a call held before, or comes from a move. -/
theorem phase_before {s t : State} {e : Event} {c : CallId} {P : Phase → Prop} {Q : Prop}
    (hs : step s e = some t) (h : P (t.calls c))
    (moved : ∀ p q, s.calls c = p → Moves s t e c p q → P q → P p ∨ Q) : P (s.calls c) ∨ Q := by
  rcases step_moves hs c with heq | ⟨p, q, hp, hq, hmoves⟩
  · rw [heq] at h
    exact Or.inl h
  · rw [hq] at h
    rw [hp]
    exact moved p q hp hmoves h

/-! ## What a step does to one of the caches -/

/-- The inner event that a step of the wrapper issues on the cache `x`. -/
inductive Issued (s : State) : Event → (x : Ident) → CacheInner.Event x.Key Fetched → Prop where
  | look {c x key gens} (phase : s.calls c = .sampled (.byKey x key) gens) :
      Issued s (.advance c) x (.begin c (.getOrFetch key))
  | index {c request v x todo gens key} (phase : s.calls c = .indexing request v (x :: todo) gens)
      (known : reported v.schema x = some key) :
      Issued s (.advance c) x (.begin c (.insertIfCurrent key v (gens.on x)))
  | run {c x what todo} (phase : s.calls c = .dropping (⟨x, what⟩ :: todo)) :
      Issued s (.advance c) x (.begin c what.op)
  | inner {x c} : Issued s (.inner x c) x (.resume c)
  | reply {c x key gens r} (phase : s.calls c = .looking x key gens) :
      Issued s (.reply c r) x (.reply c (fetchedBy c r))
  | replyChild {c parent id r} (phase : s.calls c = .child parent id) :
      Issued s (.reply c r) .id (.reply c (fetchedBy c r))
  | drop {c x key gens} (phase : s.calls c = .looking x key gens) : Issued s (.drop c) x (.drop c)
  | dropChild {c parent id} (phase : s.calls c = .child parent id) : Issued s (.drop c) .id (.drop c)
  | spawn {c child id pending running failures}
      (phase : s.calls c = .warming pending running failures) (idle : s.calls child = .idle) :
      Issued s (.spawn c child id) .id (.begin child (.getOrFetch id))

theorem setSide_cases {s : State} {e : Event} {x : Ident} {ie : CacheInner.Event x.Key Fetched}
    {i : CacheInner.State x.Key Fetched} (inner : CacheInner.step (s.side x) ie = some i)
    (issued : Issued s e x ie) (y : Ident) :
    (s.setSide x i).side y = s.side y ∨
      ∃ ie', CacheInner.step (s.side y) ie' = some ((s.setSide x i).side y) ∧ Issued s e y ie' := by
  by_cases hy : y = x
  · subst hy
    exact Or.inr ⟨ie, by rw [State.setSide_self]; exact inner, issued⟩
  · exact Or.inl (s.setSide_ne i hy)

/-- A step of the wrapper leaves a cache alone, or is one step of it. -/
theorem side_step {s t : State} {e : Event} (h : step s e = some t) (y : Ident) :
    t.side y = s.side y ∨
      ∃ ie, CacheInner.step (s.side y) ie = some (t.side y) ∧ Issued s e y ie := by
  cases step_cases h with
  | look phase inner => exact setSide_cases inner (.look phase) y
  | index phase key inner => exact setSide_cases inner (.index phase key) y
  | run phase inner => exact setSide_cases inner (.run phase) y
  | inner inner sent => exact setSide_cases inner .inner y
  | sendLeader elected inner => exact setSide_cases inner .inner y
  | replyLooking phase inner => exact setSide_cases inner (.reply phase) y
  | replyChild phase inner => exact setSide_cases inner (.replyChild phase) y
  | dropLooking phase inner => exact setSide_cases inner (.drop phase) y
  | dropChild phase inner => exact setSide_cases inner (.dropChild phase) y
  | spawn phase idle inner => exact setSide_cases inner (.spawn phase idle) y
  | _ => exact Or.inl rfl

/-- Each cache of a reachable wrapper state is a reachable state of the inner cache. -/
theorem side_reachable {maxEntries : Nat} {s : State}
    (h : Reachable step (State.withMaxEntries maxEntries) s) (x : Ident) :
    Reachable CacheInner.step
      (CacheInner.State.init (some (max maxEntries 1)) (lookupCancelledError x)) (s.side x) := by
  obtain ⟨es, hrun⟩ := h
  refine Run.invariant
    (I := fun s => Reachable CacheInner.step
      (CacheInner.State.init (some (max maxEntries 1)) (lookupCancelledError x)) (s.side x))
    hrun Reachable.refl fun s e t hx _ hs => ?_
  rcases side_step hs x with heq | ⟨ie, hinner, _⟩
  · rw [heq]
    exact hx
  · exact hx.tail hinner

end Schemreg.Cache
