import Schemreg.CacheInner.Effects

/-
  How far an invalidation has come.

  `invalidate` and `clear` bump the generation, then remove the slots (`cancelling`), then
  the entries (`removing`), then notify the waiters. `invalidate_matching` removes the
  entries first. One lemma for each stage says where a step leads from it, and what the
  section that ends the stage has done to the key.
-/

namespace Schemreg.CacheInner

open Wrapping Transition

variable {K V : Type} [DecidableEq K] {s t : State K V} {e : Event K V} {i : CallId} {k : K}
  {keys : K → Prop} {stale : V → Prop}

/-! ## `invalidate` and `clear` -/

/-- The operation drops everything under `keys`, and cancels the fetches for them. -/
def Op.covers (keys : K → Prop) (op : Op K V) : Prop :=
  (∃ key, op = .invalidate key ∧ ∀ k, keys k → k = key) ∨ op = .clear

/-- The next section of the call removes the slots of `keys`. -/
def Phase.cancelling (keys : K → Prop) : Phase K V → Prop
  | .invalidating key => ∀ k, keys k → k = key
  | .clearing => True
  | _ => False

/-- The next section of the call removes the entries of `keys`. -/
def Phase.removing (keys : K → Prop) : Phase K V → Prop
  | .invalidated key _ => ∀ k, keys k → k = key
  | .drained _ => True
  | _ => False

/-- `invalidate(k)` and `clear()` start with the bump, before the section that removes the
    slot. -/
theorem cancelling_of_begin {op : Op K V} (hop : op.covers keys)
    (hs : step s (.begin i op) = some t) :
    (t.calls i).cancelling keys ∧ t.roles = s.roles ∧ t.cache.nextToken = s.cache.nextToken ∧
      t.generation = s.generation + 1 := by
  rcases hop with ⟨key, rfl, hkey⟩ | rfl
  · cases step_cases hs with
    | beginInvalidate idle =>
      refine ⟨by simpa [Phase.cancelling] using hkey, rfl, ?_, ?_⟩
      · simp [InMemoryCache.bump]
      · simp [InMemoryCache.bump, State.generation]
  · cases step_cases hs with
    | beginClear idle => simp [Phase.cancelling, InMemoryCache.bump, State.generation]

/-- The in-flight section leaves nothing registered under `keys`. -/
theorem cancelling_step (h : (s.calls i).cancelling keys) (hs : step s e = some t) :
    (t.calls i).cancelling keys ∨
      ((t.calls i).removing keys ∧ ∀ k, keys k → t.registered k = none) := by
  by_cases hi : i = e.call
  · subst hi
    cases step_cases hs with
    | @invalidateInFlight c key phase =>
      have hkeys : ∀ k, keys k → k = key := by
        simpa [Event.call, phase, Phase.cancelling] using h
      refine Or.inr ⟨by simpa [Event.call, Phase.removing] using hkeys, ?_⟩
      intro k hk
      rw [hkeys k hk]
      simp [State.registered, State.withInFlight]
    | clearInFlight phase => exact Or.inr ⟨by simp [Event.call, Phase.removing], fun _ _ => rfl⟩
    | _ => simp_all [Event.call, Phase.cancelling]
  · rw [calls_other hs hi]
    exact Or.inl h

/-- The store section leaves nothing stored under `keys`. -/
theorem removing_step (h : (s.calls i).removing keys) (hs : step s e = some t) :
    (t.calls i).removing keys ∨
      ((∃ ws, t.calls i = .notifying ws) ∧ (∀ k, keys k → t.lookup k = none) ∧
        e = .resume i ∧ s.writer = none) := by
  by_cases hi : i = e.call
  · subst hi
    cases step_cases hs with
    | @invalidateStore c key ws phase free =>
      have hkeys : ∀ k, keys k → k = key := by
        simpa [Event.call, phase, Phase.removing] using h
      refine Or.inr ⟨⟨_, by simp [Event.call]; rfl⟩, ?_, rfl, free⟩
      intro k hk
      rw [hkeys k hk]
      simp [Store.lookup_remove]
    | clearStore phase free =>
      exact Or.inr ⟨⟨_, by simp [Event.call]; rfl⟩, fun _ _ => rfl, rfl, free⟩
    | _ => simp_all [Event.call, Phase.removing]
  · rw [calls_other hs hi]
    exact Or.inl h

/-- A call that notifies goes on until it has nobody left, and then it has returned. -/
theorem notifying_step {ws : List (K × CallId)} (h : s.calls i = .notifying ws)
    (hs : step s e = some t) :
    (∃ ws', t.calls i = .notifying ws') ∨
      (t.calls i = .finished ∧ e = .resume i ∧ s.calls i = .notifying []) := by
  by_cases hi : i = e.call
  · subst hi
    cases step_cases hs with
    | @notify c key w ws' phase => exact Or.inl ⟨ws', by simp [Event.call]⟩
    | notified phase => exact Or.inr ⟨by simp [Event.call], rfl, phase⟩
    | _ => simp_all [Event.call]
  · rw [calls_other hs hi]
    exact Or.inl ⟨ws, h⟩

theorem finished_step (h : s.calls i = .finished) (hs : step s e = some t) :
    t.calls i = .finished := by
  by_cases hi : i = e.call
  · subst hi
    cases step_cases hs <;> simp_all [Event.call]
  · rw [calls_other hs hi]
    exact h

/-! ## `invalidate_matching` -/

theorem matching_of_begin {p : V → Bool}
    (hs : step s (.begin i (.invalidateMatching p)) = some t) :
    t.calls i = .matching p ∧ t.roles = s.roles ∧ t.cache.nextToken = s.cache.nextToken := by
  cases step_cases hs with
  | beginMatching idle => simp [InMemoryCache.bump]

/-- The store section of `invalidate_matching` leaves no entry that satisfies the
    predicate. -/
theorem matching_step {p : V → Bool} (h : s.calls i = .matching p) (hs : step s e = some t) :
    t.calls i = .matching p ∨
      ((t.calls i = .finished ∨ ∃ removed, t.calls i = .matched removed) ∧
        (∀ k entry, t.lookup k = some entry → p entry.value = false) ∧
        e = .resume i ∧ s.writer = none) := by
  by_cases hi : i = e.call
  · subst hi
    cases step_cases hs with
    | @matchNothing c p' phase free nothing =>
      have hp : p' = p := by simpa [Event.call, phase] using h
      subst hp
      refine Or.inr ⟨Or.inl (by simp [Event.call]), ?_, rfl, free⟩
      intro k entry hk
      cases hpe : p' entry.value with
      | false => rfl
      | true =>
        have hmem : k ∈ s.cache.store.doomed p' := Store.mem_doomed.mpr ⟨entry, hk, hpe⟩
        rw [nothing] at hmem
        cases hmem
    | @matchStore c p' phase free =>
      have hp : p' = p := by simpa [Event.call, phase] using h
      subst hp
      refine Or.inr ⟨Or.inr ⟨_, by simp [Event.call]; rfl⟩, ?_, rfl, free⟩
      exact fun k entry hk => (Store.lookup_removeMatching.mp hk).2
    | _ => simp_all [Event.call]
  · rw [calls_other hs hi]
    exact Or.inl h

/-! ## All of them -/

/-- The next section of the call removes what is stale under `keys` from the store. -/
def Phase.removes (keys : K → Prop) (stale : V → Prop) (phase : Phase K V) : Prop :=
  phase.removing keys ∨ ∃ p, phase = .matching p ∧ ∀ v, stale v → p v = true

/-- The section that removes what is stale under `keys` is still to come. -/
def Phase.pending (keys : K → Prop) (stale : V → Prop) (phase : Phase K V) : Prop :=
  phase.cancelling keys ∨ phase.removes keys stale

/-- The section that removes what is stale under `keys` has run. -/
def Phase.removed (keys : K → Prop) (stale : V → Prop) (phase : Phase K V) : Prop :=
  phase ≠ .idle ∧ ¬ phase.pending keys stale

/-- The operation drops what is stale under `keys`. -/
def Op.removes (keys : K → Prop) (stale : V → Prop) (op : Op K V) : Prop :=
  op.covers keys ∨ ∃ p, op = .invalidateMatching p ∧ ∀ v, stale v → p v = true

/-- It starts with the bump, before the section that removes. -/
theorem pending_of_begin {op : Op K V} (hop : op.removes keys stale)
    (hs : step s (.begin i op) = some t) :
    (t.calls i).pending keys stale ∧ t.generation = s.generation + 1 := by
  rcases hop with hop | ⟨p, rfl, hp⟩
  · obtain ⟨hc, _, _, hgen⟩ := cancelling_of_begin hop hs
    exact ⟨Or.inl hc, hgen⟩
  · cases step_cases hs with
    | beginMatching idle => exact ⟨Or.inr (Or.inr ⟨p, by simp, hp⟩), rfl⟩

/-- The removing section runs while no call holds the lock, and it leaves nothing stale. -/
theorem pending_step (h : (s.calls i).pending keys stale) (hs : step s e = some t) :
    (t.calls i).pending keys stale ∨
      (s.writer = none ∧ e = .resume i ∧ (s.calls i).removes keys stale ∧
        ∀ k entry, keys k → t.lookup k = some entry → ¬ stale entry.value) := by
  rcases h with h | h | ⟨p, h, hp⟩
  · rcases cancelling_step h hs with h' | ⟨h', _⟩
    · exact Or.inl (Or.inl h')
    · exact Or.inl (Or.inr (Or.inl h'))
  · rcases removing_step h hs with h' | ⟨_, hnone, he, free⟩
    · exact Or.inl (Or.inr (Or.inl h'))
    · refine Or.inr ⟨free, he, Or.inl h, ?_⟩
      intro k entry hk hlook
      rw [hnone k hk] at hlook
      cases hlook
  · rcases matching_step h hs with h' | ⟨_, hrest, he, free⟩
    · exact Or.inl (Or.inr (Or.inr ⟨p, h', hp⟩))
    · refine Or.inr ⟨free, he, Or.inr ⟨p, h, hp⟩, ?_⟩
      intro k entry _ hlook hstale
      have := hrest k entry hlook
      rw [hp _ hstale] at this
      cases this

end Schemreg.CacheInner
