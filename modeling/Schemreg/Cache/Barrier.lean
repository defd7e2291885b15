import Schemreg.Cache.Requests

/-
  One cache of the wrapper under an invalidation.

  Some schemas are `stale`, and `keys` are the identifiers of one kind for which that
  matters. From the bump of an invalidation on, what has been sampled before is out of date
  (`Outgrown`), so nothing stale is inserted on account of it, and the removing section
  cleans the cache (`Barred`). This rests on two conditions on the steps: no leader gets past
  the removal with a stale schema (`NonePasses`), and no lookup by the other identifier
  brings one over under a current generation (`CrossesOutdated`).
-/

namespace Schemreg.Cache

open CacheInner (CallId TokensApart GenerationsApart InsertsOutdated ClaimsClean RemovesClear Sweep
  Drained Fresh)
open Transition

variable {s t : State} {e : Event} {c i : CallId} {x : Ident} {keys : x.Key → Prop}
  {stale : Fetched → Prop} {old : CallId → Prop}

/-- A condition on the steps of the cache `x`. -/
def On (x : Ident) (P : CacheInner.State x.Key Fetched → CacheInner.Event x.Key Fetched → Prop)
    (s : State) (e : Event) : Prop :=
  ∀ ie, Issued s e x ie → P (s.side x) ie

/-- A schema that is stale for the cache `x`, where it would be indexed under `keys`. -/
def StaleUnder (x : Ident) (keys : x.Key → Prop) (stale : Fetched → Prop) (v : Fetched) : Prop :=
  stale v ∧ ∃ key, reported v.schema x = some key ∧ keys key

/-- A lookup that takes a stale schema out of the other cache, to index it in `x`, has
    sampled a generation of `x` that is out of date. -/
def CrossesOutdated (x : Ident) (keys : x.Key → Prop) (stale : Fetched → Prop) (s : State)
    (e : Event) : Prop :=
  ∀ c key gens k v, e = .advance c → s.calls c = .looking x.other key gens →
    (s.side x.other).calls c = .returned k (.ok v) → StaleUnder x keys stale v →
    gens.on x < (s.side x).generation

/-! ## What is still to be indexed -/

/-- The schema that a call is indexing, the caches it has not come to, and its sample. -/
def Phase.toIndex : Phase → Option (Fetched × List Ident × Generations)
  | .indexing _ v todo gens | .inserting _ v _ todo gens => some (v, todo, gens)
  | _ => none

/-- What a call has to index comes from the other cache or from the answer to its own
    request. -/
theorem toIndex_step (hs : step s e = some t) {v : Fetched} {todo : List Ident} {gens : Generations}
    (h : (t.calls c).toIndex = some (v, todo, gens)) (hx : x ∈ todo) :
    (∃ todo', (s.calls c).toIndex = some (v, todo', gens) ∧ x ∈ todo') ∨
    (∃ key k, e = .advance c ∧ s.calls c = .looking x.other key gens ∧
      (s.side x.other).calls c = .returned k (.ok v)) ∨
    (v.origin = c ∧ (s.calls c).gens = some gens) := by
  rcases step_moves hs c with heq | ⟨p, q, hp, hq, hmoves⟩
  · rw [heq] at h
    exact Or.inl ⟨todo, h, hx⟩
  · rw [hq] at h
    rw [hp]
    cases hmoves with
    | @begin _ op => cases op <;> cases h
    | @found _ y key gens' k v' inner =>
      cases h
      have hy : y = x.other := by
        rw [List.mem_singleton.mp hx]
        cases y <;> rfl
      subst hy
      exact Or.inr (Or.inl ⟨key, k, rfl, rfl, inner⟩)
    | replyOk =>
      cases h
      exact Or.inr (Or.inr ⟨rfl, rfl⟩)
    | @index _ request v' y todo' | @skip _ request v' y todo' =>
      cases h
      exact Or.inl ⟨y :: todo, rfl, List.mem_cons_of_mem y hx⟩
    | inserted =>
      cases h
      exact Or.inl ⟨todo, rfl, hx⟩
    | _ => cases h

/-- What the calls `old` have sampled, and the samples under which something stale is going to
    be indexed, are out of date in the cache `x`. -/
structure Outgrown (x : Ident) (old : CallId → Prop) (keys : x.Key → Prop)
    (stale : Fetched → Prop) (s : State) : Prop where
  sampled : ∀ c, old c → ¬ (s.calls c).pre ∧
    ∀ gens, (s.calls c).gens = some gens → gens.on x < (s.side x).generation
  toIndex : ∀ c v todo gens, (s.calls c).toIndex = some (v, todo, gens) → x ∈ todo →
    StaleUnder x keys stale v → gens.on x < (s.side x).generation

theorem old_step (h : ¬ (s.calls c).pre ∧
      ∀ gens, (s.calls c).gens = some gens → gens.on x < (s.side x).generation)
    (hs : step s e = some t) : ¬ (t.calls c).pre ∧
      ∀ gens, (t.calls c).gens = some gens → gens.on x < (t.side x).generation := by
  refine ⟨pre_step h.1 hs, fun gens hgens => ?_⟩
  have hle := generation_mono hs x
  rcases gens_step hs hgens with hold | ⟨request, g, hphase, _⟩
  · have := h.2 gens hold
    omega
  · exact absurd (by rw [hphase]; trivial) h.1

theorem outgrown_step (h : Outgrown x old keys stale s) (origin : ∀ v, stale v → old v.origin)
    (crosses : CrossesOutdated x keys stale s e) (hs : step s e = some t) :
    Outgrown x old keys stale t where
  sampled c hc := old_step (h.sampled c hc) hs
  toIndex c v todo gens htodo hx hv := by
    have hle := generation_mono hs x
    rcases toIndex_step hs htodo hx with ⟨todo', hold, hx'⟩ | ⟨key, k, he, hphase, hret⟩ |
        ⟨horigin, hgens⟩
    · have := h.toIndex c v todo' gens hold hx' hv
      omega
    · have := crosses c key gens k v he hphase hret hv
      omega
    · have hold := origin v hv.1
      rw [horigin] at hold
      have := (h.sampled c hold).2 gens hgens
      omega

/-- So nothing stale is inserted under a current generation. -/
theorem Outgrown.insertsOutdated (h : Outgrown x old keys stale s) :
    On x (InsertsOutdated keys stale) s e := by
  intro ie issued c k v g he hk hv
  subst he
  obtain ⟨request, todo, gens, rfl, hphase, hknown⟩ := issued_insertIfCurrent issued
  exact h.toIndex c v (x :: todo) gens (by rw [hphase]; rfl) List.mem_cons_self ⟨hv, k, hknown, hk⟩

/-! ## The cache under the invalidation -/

/-- The invalidation `i` of the cache `x` is under way, or what is stale is gone from it. -/
structure Barred (x : Ident) (i : CallId) (old : CallId → Prop) (keys : x.Key → Prop)
    (stale : Fetched → Prop) (s : State) : Prop where
  begun : s.methods i x ≠ .idle
  sweep : Sweep i keys stale (s.side x)
  outgrown : Outgrown x old keys stale s

/-- No stale schema gets past the invalidation `i` on the cache `x`: when it removes the
    entries, no leader is between its claim and its write, and later none claims its slot
    with one. -/
structure NonePasses (x : Ident) (i : CallId) (keys : x.Key → Prop) (stale : Fetched → Prop)
    (s : State) (e : Event) : Prop where
  apart : On x GenerationsApart s e
  removes : On x (RemovesClear i keys stale) s e
  claims : (s.methods i x).removed keys stale → On x (ClaimsClean keys stale) s e

theorem methods_begun (h : s.methods c x ≠ .idle) (hs : step s e = some t) :
    t.methods c x ≠ .idle := by
  unfold State.methods at h ⊢
  rcases side_step hs x with heq | ⟨ie, hinner, _⟩
  · rwa [heq]
  · exact CacheInner.begun_step h hinner

theorem barred_step (h : Barred x i old keys stale s) (origin : ∀ v, stale v → old v.origin)
    (guard : NonePasses x i keys stale s e) (crosses : CrossesOutdated x keys stale s e)
    (hs : step s e = some t) : Barred x i old keys stale t where
  begun := methods_begun h.begun hs
  sweep := by
    rcases side_step hs x with heq | ⟨ie, hinner, issued⟩
    · rw [heq]
      exact h.sweep
    · exact CacheInner.sweep_step h.sweep (guard.apart ie issued)
        (h.outgrown.insertsOutdated ie issued) (guard.removes ie issued)
        (fun hpend => guard.claims ⟨h.begun, hpend⟩ ie issued) hinner
  outgrown := outgrown_step h.outgrown origin crosses hs

/-! ## How far the invalidation has come -/

/-- An invalidation drops from one cache after the other. -/
theorem dropping_step {todo : List ((x : Ident) × Drop x)} (h : s.calls i = .dropping todo)
    (hs : step s e = some t) :
    t.calls i = .dropping todo ∨ (todo = [] ∧ t.calls i = .finished ∧ t.side = s.side) ∨
    (∃ x what rest, todo = ⟨x, what⟩ :: rest ∧ t.calls i = .running x rest ∧
      CacheInner.step (s.side x) (.begin i what.op) = some (t.side x) ∧
      (∀ y, y ≠ x → t.side y = s.side y) ∧ ∀ c, c ≠ i → t.calls c = s.calls c) := by
  rcases step_moves hs i with heq | ⟨p, q, hp, hq, hmoves⟩
  · rw [heq]
    exact Or.inl h
  · rw [h] at hp
    rw [hq]
    cases hmoves with
    | @run _ x what rest inner sides calls =>
      cases hp
      exact Or.inr (Or.inr ⟨x, what, rest, rfl, rfl, inner, sides, calls⟩)
    | dropped sides =>
      cases hp
      exact Or.inr (Or.inl ⟨rfl, rfl, sides⟩)
    | _ => cases hp

theorem running_step {todo : List ((x : Ident) × Drop x)} (h : s.calls i = .running x todo)
    (hs : step s e = some t) :
    t.calls i = .running x todo ∨
      (t.calls i = .dropping todo ∧ (s.side x).calls i = .finished ∧ t.side = s.side) := by
  rcases step_moves hs i with heq | ⟨p, q, hp, hq, hmoves⟩
  · rw [heq]
    exact Or.inl h
  · rw [h] at hp
    rw [hq]
    cases hmoves with
    | ran inner sides =>
      cases hp
      exact Or.inr ⟨rfl, inner, sides⟩
    | _ => cases hp

theorem finished_step (h : s.calls i = .finished) (hs : step s e = some t) :
    t.calls i = .finished := by
  refine phase_kept (P := fun p => p = .finished) hs h fun p q _ hmoves hp => ?_
  subst hp
  cases hmoves

/-- What an invalidation drops from the cache `x` includes everything stale under `keys`. -/
def Drop.removes (keys : x.Key → Prop) (stale : Fetched → Prop) : Drop x → Prop
  | .key k => ∀ k', keys k' → k' = k
  | .subject name => ∀ v, stale v → carries name v = true
  | .all => True

theorem Drop.removes_op {what : Drop x} (h : what.removes keys stale) :
    what.op.removes keys stale := by
  cases what with
  | key k => exact Or.inl (Or.inl ⟨k, rfl, h⟩)
  | subject name => exact Or.inr ⟨carries name, rfl, h⟩
  | all => exact Or.inl (Or.inr rfl)

/-- The bump bars the cache: everything that has been sampled is out of date. -/
theorem barred_of_bump {what : Drop x} {todo : List ((x : Ident) × Drop x)} (hc : Consistent s)
    (hold : ∀ c, old c → ¬ (s.calls c).pre) (hwhat : what.removes keys stale)
    (hi : t.calls i = .running x todo)
    (hbump : CacheInner.step (s.side x) (.begin i what.op) = some (t.side x))
    (hcalls : ∀ c, c ≠ i → t.calls c = s.calls c) : Barred x i old keys stale t := by
  obtain ⟨hpend, hgen⟩ := CacheInner.pending_of_begin (Drop.removes_op hwhat) hbump
  have hsampled : ∀ c gens, (t.calls c).gens = some gens → gens.on x < (t.side x).generation := by
    intro c gens hgens
    by_cases hci : c = i
    · rw [hci, hi] at hgens
      cases hgens
    · rw [hcalls c hci] at hgens
      have := hc.sampled.both c gens hgens x
      omega
  refine ⟨?_, ⟨CacheInner.locked_step (hc.locked x) hbump, ?_, Or.inl hpend⟩, ⟨?_, ?_⟩⟩
  · intro hidle
    rw [State.methods] at hidle
    rw [hidle] at hpend
    rcases hpend with hp | hp | ⟨p, hp, _⟩ <;> cases hp
  · intro c k v g hins _ _
    rcases CacheInner.inserting_step hbump hins with hold | ⟨he, _⟩
    · have := hc.sampled.inserting x c k v g hold
      omega
    · cases what <;> cases he
  · intro c hco
    refine ⟨?_, hsampled c⟩
    by_cases hci : c = i
    · rw [hci, hi]
      exact id
    · rw [hcalls c hci]
      exact hold c hco
  · intro c v todo' gens htodo _ _
    refine hsampled c gens ?_
    cases hphase : t.calls c with
    | indexing | inserting =>
      rw [hphase] at htodo
      cases htodo
      rfl
    | _ =>
      rw [hphase] at htodo
      cases htodo

end Schemreg.Cache
