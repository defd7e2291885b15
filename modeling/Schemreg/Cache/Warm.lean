import Mathlib.Data.List.Dedup
import Schemreg.Cache.Transparency
import Schemreg.CacheInner.Outcomes
import Schemreg.Lib.WorkPool

/-
  `warm_cache`.

  It starts a lookup of its own for each ID, and takes their results as they come. `Warming`
  keeps its accounts: an ID is pending or was started once, a started lookup is running or its
  result has been taken, and at most 16 are running. Other calls of the wrapper go on meanwhile.
  So `warm_cache` attempts all IDs, one lookup for each, and what it reports are the failures of
  these (`warm_cache_attempts_all`).
-/

namespace Schemreg.Cache

open CacheInner (CallId Failing)
open Transition WorkPool

variable {s t : State} {e : Event} {es : List Event} {c d child : CallId} {id : SchemaId}
  {ids pending : List SchemaId} {running : List (CallId × SchemaId)}
  {failures : List (SchemaId × SchemaRegError)}

/-! ## The steps of `warm_cache` -/

theorem spawn_cases (hs : step s (.spawn c child id) = some t) : ∃ pending running failures,
    s.calls c = .warming pending running failures ∧ s.calls child = .idle ∧ id ∈ pending ∧
      running.length < warmCacheConcurrency ∧ t.calls child = .child c id ∧
      t.calls c = .warming (pending.erase id) ((child, id) :: running) failures := by
  change spawn s c child id = some t at hs
  unfold spawn at hs
  split at hs
  · rename_i pending running failures phase idle
    split at hs
    · rename_i guard
      obtain ⟨i, inner, rfl⟩ := innerStep_map_eq_some.mp hs
      have hne : child ≠ c := by
        rintro rfl
        rw [phase] at idle
        cases idle
      refine ⟨pending, running, failures, phase, idle, guard.1, guard.2, ?_, ?_⟩
      · simp [hne]
      · simp
    · cases hs
  · cases hs

theorem collect_cases (hs : step s (.collect c child) = some t) :
    ∃ pending running failures parent id k result,
      s.calls c = .warming pending running failures ∧ s.calls child = .child parent id ∧
        (s.side .id).calls child = .returned k result ∧ (child, id) ∈ running ∧
        t.calls c =
          .warming pending (running.erase (child, id)) (addFailure id result failures) := by
  change collect s c child = some t at hs
  unfold collect at hs
  split at hs
  · rename_i pending running failures parent id k result phase isChild inner
    split at hs
    · rename_i mem
      cases hs
      exact ⟨pending, running, failures, parent, id, k, result, phase, isChild, inner, mem,
        by simp⟩
    · cases hs
  · cases hs

/-- A lookup is dropped with the future of its `warm_cache`. -/
theorem dropped_parent (hs : step s (.drop child) = some t) (h : s.calls child = .child c id) :
    s.calls c = .dropped := by
  change dropFuture s child = some t at hs
  unfold dropFuture at hs
  rw [h] at hs
  dsimp only at hs
  split at hs
  · assumption
  · cases hs

/-- While `warm_cache` goes on, its lookups stay until it takes their results. -/
theorem child_stays (h : s.calls d = .child c id) (alive : s.calls c ≠ .dropped)
    (hs : step s e = some t) (hcollect : ∀ c', e ≠ .collect c' d) :
    t.calls d = .child c id := by
  have hdrop : e ≠ .drop d := by
    rintro rfl
    exact alive (dropped_parent hs h)
  by_cases hd : d ∈ e.movers
  · cases step_cases hs with
    | @spawn c' child' id' _ _ _ i phase idle inner =>
      have hparent : d ≠ c' := by
        rintro rfl
        rw [phase] at h
        cases h
      have hchild : d ≠ child' := by
        rintro rfl
        rw [idle] at h
        cases h
      simp [hparent, hchild, h]
    | @collect c' child' id' parent _ _ _ k result phase isChild inner =>
      have hparent : d ≠ c' := by
        rintro rfl
        rw [phase] at h
        cases h
      have hchild : d ≠ child' := fun heq => hcollect c' (heq ▸ rfl)
      simp [hparent, hchild, h]
    | _ => simp_all [Event.movers, Event.call]
  · rw [calls_other hs hd]
    exact h

/-- What starts or moves a `warm_cache`. -/
theorem warming_cases (hs : step s e = some t)
    (h : t.calls c = .warming pending running failures) :
    (∃ ids, e = .begin c (.warm ids)) ∨ (∃ child id, e = .spawn c child id) ∨
      (∃ child, e = .collect c child) ∨
      (s.calls c = .warming pending running failures ∧ (∀ op, e ≠ .begin c op) ∧
        (∀ child id, e ≠ .spawn c child id) ∧ ∀ child, e ≠ .collect c child) := by
  cases step_cases hs with
  | @begin c' op phase =>
    by_cases hc : c = c'
    · subst hc
      cases op with
      | warm ids => exact Or.inl ⟨ids, rfl⟩
      | lookup | invalidate | delete => simp [start] at h
    · rw [State.goto_calls, if_neg hc] at h
      refine Or.inr (Or.inr (Or.inr ⟨h, ?_, by rintro _ _ ⟨⟩, by rintro _ ⟨⟩⟩))
      intro op heq
      cases heq
      exact hc rfl
  | @spawn c' child' id' _ _ _ i phase idle inner =>
    by_cases hc : c = c'
    · exact Or.inr (Or.inl ⟨child', id', hc ▸ rfl⟩)
    · rw [State.goto_calls, if_neg hc, State.goto_calls] at h
      split at h
      · cases h
      · refine Or.inr (Or.inr (Or.inr ⟨h, by rintro _ ⟨⟩, ?_, by rintro _ ⟨⟩⟩))
        intro child id heq
        cases heq
        exact hc rfl
  | @collect c' child' id' parent _ _ _ k result phase isChild inner =>
    by_cases hc : c = c'
    · exact Or.inr (Or.inr (Or.inl ⟨child', hc ▸ rfl⟩))
    · rw [State.goto_calls, if_neg hc, State.goto_calls] at h
      split at h
      · cases h
      · refine Or.inr (Or.inr (Or.inr ⟨h, by rintro _ ⟨⟩, by rintro _ _ ⟨⟩, ?_⟩))
        intro child heq
        cases heq
        exact hc rfl
  | _ =>
    refine Or.inr (Or.inr (Or.inr ⟨?_, by rintro _ ⟨⟩, by rintro _ _ ⟨⟩, by rintro _ ⟨⟩⟩))
    first
      | exact h
      | rw [State.goto_calls] at h
        split at h
        · cases h
        · exact h

theorem warmed_cases (hs : step s e = some t) (h : t.calls c = .warmed failures) :
    (∀ op, e ≠ .begin c op) ∧ (∀ child id, e ≠ .spawn c child id) ∧
      (s.calls c = .warming [] [] failures ∨ s.calls c = .warmed failures) := by
  cases step_cases hs with
  | @begin c' op phase =>
    rw [State.goto_calls] at h
    split at h
    · cases op <;> cases h
    · rename_i hc
      refine ⟨fun op heq => ?_, nofun, Or.inr h⟩
      cases heq
      exact hc rfl
  | @spawn c' child' id' _ _ _ i phase idle inner =>
    rw [State.goto_calls] at h
    split at h
    · cases h
    · rename_i hc
      rw [State.goto_calls] at h
      split at h
      · cases h
      · refine ⟨nofun, fun child id heq => ?_, Or.inr h⟩
        cases heq
        exact hc rfl
  | @collect c' child' =>
    rw [State.goto_calls] at h
    split at h
    · cases h
    · rw [State.goto_calls] at h
      split at h
      · cases h
      · exact ⟨nofun, nofun, Or.inr h⟩
  | @warmed c' failures' phase =>
    rw [State.goto_calls] at h
    split at h
    · rename_i hc
      cases h
      exact ⟨nofun, nofun, Or.inl (hc ▸ phase)⟩
    · exact ⟨nofun, nofun, Or.inr h⟩
  | _ =>
    refine ⟨nofun, nofun, Or.inr ?_⟩
    first
      | exact h
      | rw [State.goto_calls] at h
        split at h
        · cases h
        · exact h

theorem idle_cases (hs : step s e = some t) (h : t.calls c = .idle) :
    s.calls c = .idle ∧ (∀ op, e ≠ .begin c op) ∧ ∀ child id, e ≠ .spawn c child id := by
  cases step_cases hs with
  | @begin c' op phase =>
    rw [State.goto_calls] at h
    split at h
    · cases op <;> cases h
    · rename_i hc
      refine ⟨h, fun op heq => ?_, nofun⟩
      cases heq
      exact hc rfl
  | @spawn c' child' id' _ _ _ i phase idle inner =>
    rw [State.goto_calls] at h
    split at h
    · cases h
    · rename_i hc
      rw [State.goto_calls] at h
      split at h
      · cases h
      · refine ⟨h, nofun, fun child id heq => ?_⟩
        cases heq
        exact hc rfl
  | @collect c' child' =>
    rw [State.goto_calls] at h
    split at h
    · cases h
    · rw [State.goto_calls] at h
      split at h
      · cases h
      · exact ⟨h, nofun, nofun⟩
  | _ =>
    refine ⟨?_, nofun, nofun⟩
    first
      | exact h
      | rw [State.goto_calls] at h
        split at h
        · cases h
        · exact h

/-! ## The accounts -/

/-- The lookups that call `c` has started. -/
def spawned (c : CallId) (es : List Event) : List (CallId × SchemaId) :=
  es.filterMap fun
    | .spawn d child id => if d = c then some (child, id) else none
    | _ => none

theorem spawned_spawn (c child : CallId) (id : SchemaId) (es : List Event) :
    spawned c (es ++ [.spawn c child id]) = spawned c es ++ [(child, id)] := by
  simp [spawned]

theorem spawned_other (es : List Event) (h : ∀ child id, e ≠ .spawn c child id) :
    spawned c (es ++ [e]) = spawned c es := by
  cases e with
  | spawn d child id =>
    have hdc : d ≠ c := fun heq => h child id (heq ▸ rfl)
    simp [spawned, hdc]
  | _ => simp [spawned]

/-- A lookup, its ID and its result. -/
abbrev Settled : Type := CallId × SchemaId × Result Fetched

def Settled.failure : Settled → Option (SchemaId × SchemaRegError)
  | (_, id, .error err) => some (id, err)
  | (_, _, .ok _) => none

theorem addFailure_eq {settled : List Settled} {result : Result Fetched}
    (h : failures = settled.filterMap Settled.failure) :
    addFailure id result failures =
      (settled ++ [(child, id, result)]).filterMap Settled.failure := by
  rw [h, List.filterMap_append]
  cases result with
  | ok v => exact (List.append_nil _).symm
  | error err => rfl

/-- How far a `warm_cache` of `ids` has come. -/
structure Warming (c : CallId) (ids : List SchemaId) (es : List Event) (s : State)
    (pending : List SchemaId) (running : List (CallId × SchemaId))
    (failures : List (SchemaId × SchemaRegError)) (settled : List Settled) : Prop where
  begun : ∀ op, .begin c op ∈ es ↔ op = .warm ids
  accounts : Accounts ids.dedup pending (spawned c es) running settled
  width : running.length ≤ warmCacheConcurrency
  children : ∀ x ∈ running, s.calls x.1 = .child c x.2
  failures : failures = settled.filterMap Settled.failure
  returned : ∀ x ∈ settled, (s.side .id).calls x.1 = .returned x.2.1 x.2.2

/-- The accounts of all calls. -/
structure Progress (es : List Event) (s : State) : Prop where
  fresh : ∀ c, s.calls c = .idle → (∀ op, .begin c op ∉ es) ∧ spawned c es = []
  warming : ∀ c pending running failures, s.calls c = .warming pending running failures →
    ∃ ids settled, Warming c ids es s pending running failures settled
  warmed : ∀ c failures, s.calls c = .warmed failures →
    ∃ ids settled, Warming c ids es s [] [] failures settled

theorem progress_init (maxEntries : Nat) : Progress [] (State.withMaxEntries maxEntries) where
  fresh _ _ := ⟨fun _ => List.not_mem_nil, rfl⟩
  warming _ _ _ _ h := by cases h
  warmed _ _ h := by cases h

theorem returned_stays (hs : step s e = some t) {x : Settled}
    (h : (s.side .id).calls x.1 = .returned x.2.1 x.2.2) :
    (t.side .id).calls x.1 = .returned x.2.1 x.2.2 := by
  rcases side_step hs .id with heq | ⟨ie, inner, -⟩
  · rw [heq]
    exact h
  · exact CacheInner.returned_stays h inner

theorem begun_other {ids : List SchemaId} (h : ∀ op, .begin c op ∈ es ↔ op = .warm ids)
    (he : ∀ op, e ≠ .begin c op) (op : Op) : .begin c op ∈ es ++ [e] ↔ op = .warm ids := by
  rw [List.mem_append, h op, List.mem_singleton]
  exact or_iff_left fun heq => he op heq.symm

/-- A step that is none of its own. -/
theorem Warming.other {ids : List SchemaId} {settled : List Settled}
    (h : Warming c ids es s pending running failures settled) (hs : step s e = some t)
    (hbegin : ∀ op, e ≠ .begin c op) (hspawn : ∀ child id, e ≠ .spawn c child id)
    (hchildren : ∀ x ∈ running, t.calls x.1 = .child c x.2) :
    Warming c ids (es ++ [e]) t pending running failures settled where
  begun := begun_other h.begun hbegin
  accounts := by
    rw [spawned_other es hspawn]
    exact h.accounts
  width := h.width
  children := hchildren
  failures := h.failures
  returned x hx := returned_stays hs (h.returned x hx)

/-- Nobody else takes the result of a lookup. -/
theorem Progress.collector (h : Progress es s) (hs : step s (.collect d child) = some t)
    (hchild : s.calls child = .child c id) : d = c := by
  obtain ⟨pending, running, failures, parent, id', k, result, phase, -, -, mem, -⟩ :=
    collect_cases hs
  obtain ⟨ids, settled, hwarming⟩ := h.warming d _ _ _ phase
  have hown := hwarming.children _ mem
  rw [hchild] at hown
  cases hown
  rfl

/-- A `warm_cache` begins. -/
theorem Progress.begin (h : Progress es s) (hs : step s (.begin c (.warm ids)) = some t) :
    Warming c ids (es ++ [.begin c (.warm ids)]) t ids.dedup [] [] [] := by
  have hidle : s.calls c = .idle := by
    cases step_cases hs with
    | begin phase => exact phase
  obtain ⟨hnone, hspawned⟩ := h.fresh c hidle
  refine ⟨fun op => ?_, ?_, Nat.zero_le _, nofun, rfl, nofun⟩
  · rw [List.mem_append, List.mem_singleton]
    refine ⟨?_, fun hop => Or.inr (hop ▸ rfl)⟩
    rintro (hold | hnew)
    · exact absurd hold (hnone op)
    · cases hnew
      rfl
  · have hother : ∀ child id, Event.begin c (.warm ids) ≠ .spawn c child id := nofun
    rw [spawned_other es hother, hspawned]
    exact Accounts.init _

/-- It starts a lookup. -/
theorem Warming.spawn {settled : List Settled}
    (h : Warming c ids es s pending running failures settled)
    (phase : s.calls c = .warming pending running failures)
    (hs : step s (.spawn c child id) = some t) (hid : id ∈ pending)
    (hwidth : running.length < warmCacheConcurrency) (hchild : t.calls child = .child c id) :
    Warming c ids (es ++ [.spawn c child id]) t (pending.erase id) ((child, id) :: running)
      failures settled where
  begun := begun_other h.begun nofun
  accounts := by
    rw [spawned_spawn]
    exact h.accounts.start hid
  width := hwidth
  children := by
    intro x hx
    rcases List.mem_cons.mp hx with rfl | hx
    · exact hchild
    · refine child_stays (h.children x hx) ?_ hs nofun
      rw [phase]
      nofun
  failures := h.failures
  returned x hx := returned_stays hs (h.returned x hx)

/-- It takes a result. -/
theorem Warming.collect {settled : List Settled} {result : Result Fetched}
    (h : Warming c ids es s pending running failures settled)
    (phase : s.calls c = .warming pending running failures)
    (hs : step s (.collect c child) = some t) (hchild : (child, id) ∈ running)
    (inner : (s.side .id).calls child = .returned id result) :
    Warming c ids (es ++ [.collect c child]) t pending (running.erase (child, id))
      (addFailure id result failures) (settled ++ [(child, id, result)]) where
  begun := begun_other h.begun nofun
  accounts := by
    have hother : ∀ d id, Event.collect c child ≠ .spawn c d id := nofun
    rw [spawned_other es hother]
    exact h.accounts.settle hchild result
  width := Nat.le_trans (List.erase_sublist.length_le) h.width
  children := by
    intro x hx
    obtain ⟨hne, hmem⟩ := ((h.accounts.running_nodup (List.nodup_dedup ids)).mem_erase_iff).mp hx
    have hparent := h.children x hmem
    refine child_stays hparent (by rw [phase]; nofun) hs ?_
    intro c' heq
    -- the lookup that is collected has one ID
    obtain ⟨rfl, rfl⟩ : c = c' ∧ child = x.1 := by simpa using heq
    have hsame := h.children _ hchild
    rw [hparent] at hsame
    cases hsame
    exact hne rfl
  failures := addFailure_eq h.failures
  returned := by
    intro x hx
    rcases List.mem_append.mp hx with hx | hx
    · exact returned_stays hs (h.returned x hx)
    · rw [List.mem_singleton.mp hx]
      exact returned_stays (x := (child, id, result)) hs inner

theorem progress_step (h : Progress es s) (linked : Linked s) (hs : step s e = some t) :
    Progress (es ++ [e]) t where
  fresh c hc := by
    obtain ⟨hold, hbegin, hspawn⟩ := idle_cases hs hc
    obtain ⟨hnone, hspawned⟩ := h.fresh c hold
    refine ⟨fun op hop => ?_, (spawned_other es hspawn).trans hspawned⟩
    rcases List.mem_append.mp hop with hop | hop
    · exact hnone op hop
    · exact hbegin op (List.mem_singleton.mp hop).symm
  warming c pending running failures hc := by
    rcases warming_cases hs hc with ⟨ids, rfl⟩ | ⟨child, id, rfl⟩ | ⟨child, rfl⟩ |
        ⟨hold, hbegin, hspawn, hcollect⟩
    · have hwarming := h.begin hs
      have hphase : t.calls c = .warming ids.dedup [] [] := by
        cases step_cases hs with
        | begin phase => simp [start]
      rw [hphase] at hc
      cases hc
      exact ⟨ids, [], hwarming⟩
    · obtain ⟨pending', running', failures', phase, -, hid, hwidth, hchild, hphase⟩ :=
        spawn_cases hs
      rw [hphase] at hc
      cases hc
      obtain ⟨ids, settled, hwarming⟩ := h.warming c _ _ _ phase
      exact ⟨ids, settled, hwarming.spawn phase hs hid hwidth hchild⟩
    · obtain ⟨pending', running', failures', parent, id, k, result, phase, hchild, inner, mem,
        hphase⟩ := collect_cases hs
      rw [hphase] at hc
      cases hc
      obtain ⟨ids, settled, hwarming⟩ := h.warming c _ _ _ phase
      -- the cache returns what the lookup has asked for
      have hlink := linked child
      rw [hchild] at hlink
      obtain ⟨-, hgetting, -⟩ := hlink
      rw [State.methods, inner] at hgetting
      obtain rfl : k = id := hgetting
      exact ⟨ids, _, hwarming.collect phase hs mem inner⟩
    · obtain ⟨ids, settled, hwarming⟩ := h.warming c _ _ _ hold
      refine ⟨ids, settled, hwarming.other hs hbegin hspawn fun x hx => ?_⟩
      have hchild := hwarming.children x hx
      refine child_stays hchild (by rw [hold]; rintro ⟨⟩) hs fun c' heq => ?_
      subst heq
      exact hcollect x.1 (by rw [h.collector hs hchild])
  warmed c failures hc := by
    obtain ⟨hbegin, hspawn, hold | hold⟩ := warmed_cases hs hc
    · obtain ⟨ids, settled, hwarming⟩ := h.warming c _ _ _ hold
      exact ⟨ids, settled, hwarming.other hs hbegin hspawn fun _ hx => absurd hx List.not_mem_nil⟩
    · obtain ⟨ids, settled, hwarming⟩ := h.warmed c _ hold
      exact ⟨ids, settled, hwarming.other hs hbegin hspawn fun _ hx => absurd hx List.not_mem_nil⟩

/-! ## Where the failures come from -/

/-- What the inner client answers a request for an ID with, when it fails. -/
def Refuses (refuses : SchemaId → SchemaRegError → Prop) (s : State) (e : Event) : Prop :=
  ∀ c err id, e = .reply c (.error err) → (s.calls c).asks = some ⟨.id, id⟩ → refuses id err

variable {refuses : SchemaId → SchemaRegError → Prop} {holds : Registry}

/-- Every error under an ID is the inner client's, or that of a cancelled fetch. -/
structure Refused (refuses : SchemaId → SchemaRegError → Prop) (s : State) : Prop where
  consistent : Consistent s
  error : (s.side .id).cache.makeCancelledError = schemaLookupCancelledError
  failing : Failing (fun id err => refuses id err ∨ err = schemaLookupCancelledError id)
    (s.side .id)

theorem refused_init (maxEntries : Nat) : Refused refuses (State.withMaxEntries maxEntries) where
  consistent := consistent_init maxEntries
  error := rfl
  failing := CacheInner.failing_init _ _

theorem refused_step (h : Refused refuses s) (guard : Refuses refuses s e)
    (hs : step s e = some t) : Refused refuses t where
  consistent := consistent_step h.consistent hs
  error := by
    rcases side_step hs .id with heq | ⟨ie, inner, -⟩
    · rw [heq]
      exact h.error
    · rw [CacheInner.cancelledError_step inner]
      exact h.error
  failing := by
    rcases side_step hs .id with heq | ⟨ie, inner, issued⟩
    · rw [heq]
      exact h.failing
    · refine CacheInner.failing_step h.failing (h.consistent.addressed .id) ⟨?_, ?_⟩ inner
      · intro c k token err he hfetching
        subst he
        obtain ⟨answer, key, rfl, hr, hasks⟩ := issued_reply issued
        have herr : answer = .error err := by
          cases answer with
          | ok schema => cases hr
          | error err' =>
            cases hr
            rfl
        have hget := (h.consistent.linked.asks hasks).1
        rw [State.methods, hfetching] at hget
        obtain rfl : k = key := hget
        exact Or.inl (guard c err k (herr ▸ rfl) hasks)
      · intro c k w ws _
        rw [h.error]
        exact Or.inr rfl

/-! ## Every run -/

/-- Whatever else the wrapper is called for: a `warm_cache` has at most 16 lookups under way. When
    it returns, it has started one for each ID that it was given, and reports the failed ones. A
    lookup that has not failed has got what the registry holds, and one that has failed has got the
    error of the inner client for its ID, or was cancelled. -/
theorem warm_cache_attempts_all {maxEntries : Nat}
    (hrun : Run step (fun s e => Truthful holds s e ∧ Refuses refuses s e)
      (State.withMaxEntries maxEntries) es s) :
    (∀ c pending running failures, s.calls c = .warming pending running failures →
      running.length ≤ warmCacheConcurrency) ∧
    ∀ c failures, s.calls c = .warmed failures → ∃ (ids : List SchemaId) (settled : List Settled),
      (∀ op, .begin c op ∈ es ↔ op = .warm ids) ∧
      (spawned c es).Perm (settled.map ticket) ∧
      (settled.map fun x => x.2.1).Perm ids.dedup ∧
      failures = settled.filterMap Settled.failure ∧
      ∀ x ∈ settled, (s.side .id).calls x.1 = .returned x.2.1 x.2.2 ∧
        (∀ v, x.2.2 = .ok v → holds .id x.2.1 = some (contentOf v.schema)) ∧
        ∀ err, x.2.2 = .error err →
          refuses x.2.1 err ∨ err = schemaLookupCancelledError x.2.1 := by
  have hboth : Progress es s ∧ Consistent s := by
    refine hrun.relative (I := fun es s => Progress es s ∧ Consistent s)
      ⟨progress_init _, consistent_init _⟩ fun _ _ _ _ h _ hs => ?_
    exact ⟨progress_step h.1 h.2.linked hs, consistent_step h.2 hs⟩
  have htrans : Transparent holds s :=
    hrun.invariant (transparent_init _) fun _ _ _ h guard hs => transparent_step h guard.1 hs
  have hrefused : Refused refuses s :=
    hrun.invariant (refused_init _) fun _ _ _ h guard hs => refused_step h guard.2 hs
  constructor
  · intro c pending running failures hc
    obtain ⟨ids, settled, hwarming⟩ := hboth.1.warming c _ _ _ hc
    exact hwarming.width
  · intro c failures hc
    obtain ⟨ids, settled, hwarmed⟩ := hboth.1.warmed c failures hc
    obtain ⟨hstarted, hall⟩ := hwarmed.accounts.all_settled
    refine ⟨ids, settled, hwarmed.begun, hstarted, hall, hwarmed.failures, fun x hx => ?_⟩
    have hreturned := hwarmed.returned x hx
    refine ⟨hreturned, fun v hv => ?_, fun err herr => ?_⟩
    · rw [hv] at hreturned
      exact ((htrans.cached .id).returned x.1 x.2.1 v hreturned).1
    · rw [herr] at hreturned
      exact hrefused.failing.returned x.1 x.2.1 err hreturned

def noSchema : SchemaRegError := .notSupported "no schema 8"

/-- The ID 7 twice, and the ID 8, whose fetch fails. -/
def warmTwo : List Event :=
  [.begin 0 (warmCache [⟨7⟩, ⟨8⟩, ⟨7⟩]), .spawn 0 1 ⟨7⟩, .spawn 0 2 ⟨8⟩,
    .inner .id 1, .inner .id 1, .inner .id 2, .inner .id 2,
    .reply 2 (.error noSchema), .inner .id 2, .inner .id 2, .collect 0 2,
    .reply 1 (.ok idSchema), .inner .id 1, .inner .id 1, .inner .id 1, .collect 0 1, .advance 0]

/-- Answers are the schema of a string, and only the ID 8 is refused. -/
def answersTwo (s : State) (e : Event) : Bool :=
  answersString s e &&
    match e with
    | .reply c (.error _) =>
      match s.calls c with
      | .child _ id => id = ⟨8⟩
      | .looking _ _ _ => false
      | _ => true
    | _ => true

theorem answers_of_answersTwo (h : answersTwo s e = true) :
    Truthful stringRegistry s e ∧ Refuses (fun id _ => id = ⟨8⟩) s e := by
  obtain ⟨hstring, hrefused⟩ := Bool.and_eq_true_iff.mp h
  refine ⟨truthful_of_answersString hstring, ?_⟩
  rintro c err id rfl hasks
  dsimp only at hrefused
  split at hrefused
  · rename_i parent id' phase
    rw [phase] at hasks
    cases hasks
    exact of_decide_eq_true hrefused
  · cases hrefused
  · rename_i hchild hlooking
    cases hphase : s.calls c with
    | child parent id' => exact absurd hphase (hchild parent id')
    | looking x key gens => exact absurd hphase (hlooking x key gens)
    | _ =>
      rw [hphase] at hasks
      cases hasks

/-- One lookup for each of the two IDs, one failure. -/
theorem warmed_seven_and_eight : ∃ (s : State) (settled : List Settled),
    s.calls 0 = .warmed [(⟨8⟩, noSchema)] ∧
      [(⟨8⟩, noSchema)] = settled.filterMap Settled.failure ∧
      (settled.map fun x => x.2.1).Perm [⟨8⟩, ⟨7⟩] := by
  obtain ⟨s, h, hwarmed⟩ : ∃ s, exec step State.new warmTwo = some s ∧
      s.calls 0 = .warmed [(⟨8⟩, noSchema)] := ⟨_, rfl, rfl⟩
  have hpasses : passes step answersTwo State.new warmTwo = true := by decide +kernel
  have hrun : Run step (fun s e => Truthful stringRegistry s e ∧ Refuses (fun id _ => id = ⟨8⟩) s e)
      State.new warmTwo s :=
    (Run.of_passes h hpasses).mono fun _ _ hp => answers_of_answersTwo hp
  obtain ⟨ids, settled, hbegun, -, hall, hfailures, -⟩ :=
    (warm_cache_attempts_all hrun).2 0 _ hwarmed
  have hids : Op.warm [⟨7⟩, ⟨8⟩, ⟨7⟩] = .warm ids := (hbegun _).mp List.mem_cons_self
  cases hids
  have hdedup : ([⟨7⟩, ⟨8⟩, ⟨7⟩] : List SchemaId).dedup = [⟨8⟩, ⟨7⟩] := by decide +kernel
  rw [hdedup] at hall
  exact ⟨s, settled, hwarmed, hfailures, hall⟩

end Schemreg.Cache
