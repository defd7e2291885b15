import Schemreg.Cache.Refetch
import Schemreg.Cache.TwoCaches

/-
  `clear_cache` as a barrier across both caches.

  Both methods of `clear_cache` cancel every fetch in flight, so the leaders of the fetches
  that were sent before it claim nothing (`Clearing`), and with that it sweeps both caches.
  What is left to go wrong is a leader that has claimed its slot when the entries are
  removed, and a lookup by GUID between the two methods.
-/

namespace Schemreg.Cache

open CacheInner (CallId TokensApart GenerationsApart RemovesClear)
open Transition

variable {s t : State} {e : Event} {i : CallId} {old : CallId → Prop}

/-- No schema that was fetched for the calls `old` gets past `clear_cache`: the counters have
    not wrapped around, no leader is between its claim and its write when the entries of a
    cache are removed, and once the cache of the IDs is being cleared, no lookup by GUID
    brings one over to it. -/
structure NonePassesClear (i : CallId) (old : CallId → Prop) (s : State) (e : Event) : Prop where
  tokens : ∀ x, On x TokensApart s e
  generations : ∀ x, On x GenerationsApart s e
  removes : ∀ x, On x (RemovesClear i (fun _ => True) fun v => old v.origin) s e
  crosses : s.methods i .id ≠ .idle →
    CrossesOutdated .id (fun _ => True) (fun v => old v.origin) s e

/-- The call `i` clears the caches, and where it has begun to it cancels the fetches of the
    calls `old`. -/
structure Clearing (i : CallId) (old : CallId → Prop) (s : State) : Prop where
  sweeping : Sweeping i (fun _ => .all) old (fun v => old v.origin) s
  sent : ∀ c, old c → c ∈ s.requests
  cancels : ∀ x, s.methods i x = .idle ∨ ∃ N, Cancels x i old (fun _ => True) N s

theorem Clearing.nonePasses (h : Clearing i old s) (guard : NonePassesClear i old s e) :
    NonePassesBoth i (fun v => old v.origin) s e where
  passes x :=
    { apart := guard.generations x
      removes := guard.removes x
      claims := by
        intro removed
        rcases h.cancels x with hidle | ⟨N, hcancels⟩
        · exact absurd hidle removed.1
        · exact hcancels.claimsClean h.sweeping.consistent (fun _ hv => hv) (guard.tokens x)
            removed }
  crosses := guard.crosses

theorem clearing_step (h : Clearing i old s) (guard : NonePassesClear i old s e)
    (hs : step s e = some t) : Clearing i old t where
  sweeping := sweeping_step h.sweeping (fun _ => trivial) (fun _ hv => hv) (h.nonePasses guard) hs
  sent c hold := requests_mono hs (h.sent c hold)
  cancels := h.sweeping.begun_step h.cancels (fun _ _ hcancels => cancels_step hcancels hs)
    (fun _ hbump => ⟨_, cancels_of_bump h.sweeping.consistent h.sent (Or.inr rfl) hbump hs⟩) hs

/-- `clear_cache` is a barrier across both caches. Let it begin in `s₀`. Whenever it has
    returned, neither cache holds a schema whose fetch was sent before it began, provided
    that no step has let one get past it. -/
theorem clear_cache_barrier {maxEntries : Nat} {s₀ s₁ : State} {es : List Event} {x : Ident}
    {key : x.Key} {entry : CacheInner.Entry Fetched}
    (hreach : Reachable step (State.withMaxEntries maxEntries) s₀)
    (hclear : step s₀ (.begin i clearCache) = some s₁)
    (hrun : Run step (NonePassesClear i (· ∈ s₀.requests)) s₁ es t)
    (hreturned : t.calls i = .finished)
    (hstored : (t.side x).lookup key = some entry) :
    entry.value.origin ∉ s₀.requests := by
  have hc := consistent_reachable hreach
  have hc₁ := consistent_step hc hclear
  have hsent : ∀ c, c ∈ s₀.requests → c ∈ s₁.requests := fun c => requests_mono hclear
  have hphase : s₁.calls i = .dropping Invalidation.all.drops := by
    cases step_cases hclear with
    | begin phase => simp [start, clearCache]
  have hmethods : ∀ x, s₁.methods i x = .idle := by
    cases step_cases hclear with
    | begin phase => exact (hc.linked i).quiet (by rw [phase]; trivial)
  have hclearing : Clearing i (· ∈ s₀.requests) s₁ :=
    ⟨⟨hc₁, fun c hold => (hc₁.sent c (hsent c hold)).1, .waiting hphase⟩, hsent,
      fun x => Or.inl (hmethods x)⟩
  have hend : Clearing i (· ∈ s₀.requests) t :=
    hrun.invariant hclearing fun _ _ _ h guard hs => clearing_step h guard hs
  exact (hend.sweeping.clean hreturned x).stored key entry trivial hstored

/-! ## A lookup between the two methods -/

/-- The steps of `clear_cache` in call `c`. -/
def clearSteps (c : CallId) : List Event :=
  [.advance c, .inner .id c, .inner .id c, .inner .id c, .advance c, .advance c, .inner .guid c,
    .inner .guid c, .inner .guid c, .advance c, .advance c]

/-- None of the calls gets past `clear_cache` in this step. -/
def quietClear (calls : List CallId) (s : State) (e : Event) : Bool :=
  quiet .id calls s e && settled .guid calls s e

theorem nonePassesClear_of_quiet {calls : List CallId} (hc : Consistent s) (hu : Unwrapped s)
    (h : quietClear calls s e = true) : NonePassesClear i (· ∈ calls) s e := by
  obtain ⟨hquiet, hguid⟩ := Bool.and_eq_true_iff.mp h
  obtain ⟨hid, hstay⟩ := Bool.and_eq_true_iff.mp hquiet
  refine ⟨fun _ => hu.tokens hc, fun _ => hu.generations hc, fun x => ?_,
    fun _ => crossesOutdated_of_staysIn hstay⟩
  cases x with
  | id => exact removesClear_of_settled hc hid fun _ hv => hv
  | guid => exact removesClear_of_settled hc hguid fun _ hv => hv

/-- An entry is fetched, cleared and fetched again: what is stored is the later fetch. -/
theorem cleared_id_is_newer :
    ∃ (s₀ t : State) (entry : CacheInner.Entry Fetched), 0 ∈ s₀.requests ∧
      (t.side .id).lookup ⟨7⟩ = some entry ∧ entry.value.origin ∉ s₀.requests := by
  obtain ⟨s₀, h₀, s₁, t, hclear, h₁, hreq, hreturned, hstored, hu, hp⟩ :
      ∃ s₀, exec step State.new (.begin 0 (getSchemaById ⟨7⟩) :: fetchSteps .id 0 idSchema) =
          some s₀ ∧
      ∃ s₁ t, step s₀ (.begin 1 clearCache) = some s₁ ∧
        exec step s₁ (clearSteps 1 ++ .begin 2 (getSchemaById ⟨7⟩) :: fetchSteps .id 2 idSchema) =
          some t ∧
        s₀.requests = [0] ∧ t.calls 1 = .finished ∧
        (t.side .id).lookup (⟨7⟩ : SchemaId) = some ⟨⟨idSchema, 2⟩, 2⟩ ∧ Unwrapped t ∧
        passes step (quietClear s₀.requests) s₁
          (clearSteps 1 ++ .begin 2 (getSchemaById ⟨7⟩) :: fetchSteps .id 2 idSchema) = true :=
    ⟨_, rfl, _, _, rfl, rfl, rfl, rfl, by decide +kernel, fun x => by cases x <;> decide +kernel,
      by decide +kernel⟩
  have hreach := Reachable.of_exec h₀
  have hc₁ := consistent_step (consistent_reachable hreach) hclear
  have hguard := run_unwrapped hc₁ (Run.of_passes h₁ hp) hu fun _ _ hc hu hq =>
    nonePassesClear_of_quiet (i := 1) hc hu hq
  exact ⟨s₀, t, ⟨⟨idSchema, 2⟩, 2⟩, by simp [hreq], hstored,
    clear_cache_barrier hreach hclear hguard hreturned hstored⟩

/-- A lookup by GUID between the two methods samples the generation of the cleared cache of
    the IDs, hits in the cache of the GUIDs, and stores what it found under the ID. -/
theorem cleared_id_is_stored_again :
    ¬ ∀ (x : Ident) (key : x.Key) (i : CallId) (s₀ s₁ t : State) (es : List Event)
        (entry : CacheInner.Entry Fetched),
      Reachable step State.new s₀ →
      step s₀ (.begin i clearCache) = some s₁ →
      Run step (fun _ _ => True) s₁ es t →
      t.calls i = .finished →
      (t.side x).lookup key = some entry →
      entry.value.origin ∉ s₀.requests := by
  intro h
  obtain ⟨s₀, h₀, s₁, t, hclear, h₁, hreq, hreturned, hstored⟩ :
      ∃ s₀, exec step State.new [.begin 0 (getSchemaByGuid zeroGuid), .advance 0, .advance 0,
        .advance 0, .inner .guid 0, .inner .guid 0, .reply 0 (.ok bothSchema), .inner .guid 0,
        .inner .guid 0, .inner .guid 0, .advance 0, .advance 0, .inner .id 0, .inner .id 0,
        .advance 0, .advance 0] = some s₀ ∧
      ∃ s₁ t, step s₀ (.begin 1 clearCache) = some s₁ ∧
        exec step s₁ [.advance 1, .inner .id 1, .inner .id 1, .inner .id 1,
          .begin 2 (getSchemaByGuid zeroGuid), .advance 2, .advance 2, .advance 2, .advance 2,
          .advance 2, .inner .id 2, .inner .id 2, .advance 2, .advance 2, .advance 1, .advance 1,
          .inner .guid 1, .inner .guid 1, .inner .guid 1, .advance 1, .advance 1] = some t ∧
        s₀.requests = [0] ∧ t.calls 1 = .finished ∧
        (t.side .id).lookup (⟨7⟩ : SchemaId) = some ⟨⟨bothSchema, 0⟩, 2⟩ :=
    ⟨_, rfl, _, _, rfl, rfl, rfl, rfl, by decide +kernel⟩
  exact h .id ⟨7⟩ 1 s₀ s₁ t _ ⟨⟨bothSchema, 0⟩, 2⟩ (Reachable.of_exec h₀) hclear
    (Run.of_exec_free h₁) hreturned hstored (by simp [hreq])

end Schemreg.Cache
