import Schemreg.CacheInner.Keyed
import Schemreg.CacheInner.InsertIfCurrent

/-
  A cache that stays clean.

  Some values are `stale`, and `keys` are the keys for which that matters. `Clean` says that
  no stale value is stored under them or can still get there: no leader that has claimed its
  slot carries one, no `insert_if_current` that has passed its check carries one, and those
  which have not checked yet have sampled a generation that is out of date. A cache becomes
  clean when the section of an invalidation that removes the stale entries runs (`Sweep`),
  and it stays clean as long as no leader claims its slot with a stale value and no stale
  value is inserted under a current generation (`clean_step`).

  From a clean cache on, a call of `get_or_fetch` that begins returns nothing stale
  (`Fresh`): neither what it finds stored, nor what the leader it joins comes to.
-/

namespace Schemreg.CacheInner

open Wrapping Transition

variable {K V : Type} [DecidableEq K] {s t : State K V} {e : Event K V} {i : CallId}
  {keys : K → Prop} {stale : V → Prop}

/-- A call of `insert_if_current` that carries a stale value has sampled a generation that is
    out of date. -/
def Outdated (keys : K → Prop) (stale : V → Prop) (s : State K V) : Prop :=
  ∀ c k v g, s.calls c = .inserting k v g → keys k → stale v → g < s.generation

structure Clean (keys : K → Prop) (stale : V → Prop) (s : State K V) : Prop where
  stored : ∀ k entry, keys k → s.lookup k = some entry → ¬ stale entry.value
  claimed : ∀ c k v ws, s.calls c = .claimed k v ws → keys k → ¬ stale v
  checked : ∀ c k v, s.calls c = .checked k v true → keys k → ¬ stale v

/-! ## The conditions on a step -/

/-- A generation that looks like the current one is the current one. -/
def GenerationsApart (s : State K V) (e : Event K V) : Prop :=
  ∀ c k v g, e = .resume c → s.calls c = .inserting k v g → u64 s.generation = u64 g →
    s.generation = g

/-- No stale value is inserted under a current generation. -/
def InsertsOutdated (keys : K → Prop) (stale : V → Prop) (s : State K V) (e : Event K V) : Prop :=
  ∀ c k v g, e = .begin c (.insertIfCurrent k v g) → keys k → stale v → g < s.generation

/-- No leader claims its slot with a stale value. -/
def ClaimsClean (keys : K → Prop) (stale : V → Prop) (s : State K V) (e : Event K V) : Prop :=
  ∀ c k token v entry, e = .resume c → s.calls c = .fetched k token (.ok v) →
    s.registered k = some entry → u64 entry.token = u64 token → keys k → ¬ stale v

/-- When call `i` removes the stale entries, no leader that has claimed its slot is left that
    is going to store a stale value. -/
def RemovesClear (i : CallId) (keys : K → Prop) (stale : V → Prop) (s : State K V)
    (e : Event K V) : Prop :=
  e = .resume i → (s.calls i).removes keys stale →
    ∀ c k v ws, s.calls c = .claimed k v ws → keys k → ¬ stale v

/-! ## Clean stays clean -/

theorem outdated_step (h : Outdated keys stale s) (inserts : InsertsOutdated keys stale s e)
    (hs : step s e = some t) : Outdated keys stale t := by
  intro c k v g hc hk hv
  have hle := generation_step hs
  rcases inserting_step hs hc with hold | ⟨rfl, _⟩
  · have := h c k v g hold hk hv
    omega
  · have := inserts c k v g rfl hk hv
    omega

/-- A check that a stale value passes is impossible while its sample is out of date. -/
theorem unchecked_step (outdated : Outdated keys stale s) (apart : GenerationsApart s e)
    (hs : step s e = some t) {c : CallId} {k : K} {v : V}
    (hc : t.calls c = .checked k v true) (hk : keys k) (hv : stale v) :
    s.calls c = .checked k v true := by
  rcases checked_step hs hc with hold | ⟨g, he, hins, _, _, hb⟩
  · exact hold
  · have hsame : u64 s.generation = u64 g := by simpa using hb.symm
    have hlt := outdated c k v g hins hk hv
    have hgen := apart c k v g he hins hsame
    omega

theorem clean_step (h : Clean keys stale s) (outdated : Outdated keys stale s)
    (apart : GenerationsApart s e) (claims : ClaimsClean keys stale s e)
    (hs : step s e = some t) : Clean keys stale t where
  stored k entry hk hlook := by
    rcases lookup_step hs hlook with hold | ⟨ws, _, hclaimed, _⟩ | ⟨_, hchecked⟩
    · exact h.stored k entry hk hold
    · exact h.claimed _ k entry.value ws hclaimed hk
    · exact h.checked _ k entry.value hchecked hk
  claimed c k v ws hc hk := by
    rcases claimed_step hs hc with hold | ⟨token, entry, he, hfetched, hreg, hu, _⟩
    · exact h.claimed c k v ws hold hk
    · exact claims c k token v entry he hfetched hreg hu hk
  checked c k v hc hk hv :=
    h.checked c k v (unchecked_step outdated apart hs hc hk hv) hk hv

/-! ## Becoming clean -/

/-- Call `i` is on its way to remove what is stale, or it has done so. -/
structure Sweep (i : CallId) (keys : K → Prop) (stale : V → Prop) (s : State K V) : Prop where
  locked : Locked s
  outdated : Outdated keys stale s
  stage : (s.calls i).pending keys stale ∨ Clean keys stale s

theorem sweep_step (h : Sweep i keys stale s) (apart : GenerationsApart s e)
    (inserts : InsertsOutdated keys stale s e) (removes : RemovesClear i keys stale s e)
    (claims : ¬ (s.calls i).pending keys stale → ClaimsClean keys stale s e)
    (hs : step s e = some t) : Sweep i keys stale t := by
  refine ⟨locked_step h.locked hs, outdated_step h.outdated inserts hs, ?_⟩
  by_cases hpend : (s.calls i).pending keys stale
  · rcases pending_step hpend hs with hstill | ⟨free, he, hrem, hrest⟩
    · exact Or.inl hstill
    · -- the section takes the lock, so no insertion is between its check and its write
      have hclaimed := removes he hrem
      refine Or.inr ⟨hrest, ?_, ?_⟩
      · intro c k v ws hc hk
        rcases claimed_step hs hc with hold | ⟨token, entry, he', hfetched, _⟩
        · exact hclaimed c k v ws hold hk
        · have hci : i = c := by rw [he] at he'; exact (by simpa using he')
          subst hci
          rw [hfetched] at hpend
          rcases hpend with hx | hx | ⟨p, hx, _⟩ <;> cases hx
      · intro c k v hc hk hv
        have hold := unchecked_step h.outdated apart hs hc hk hv
        have := h.locked c k v true hold
        rw [free] at this
        cases this
  · rcases h.stage with hp | hclean
    · exact absurd hp hpend
    · exact Or.inr (clean_step hclean h.outdated apart (claims hpend) hs)

/-- A call that has returned has nothing left to remove. -/
theorem Sweep.clean (h : Sweep i keys stale s) (hfin : s.calls i = .finished) :
    Clean keys stale s := by
  rcases h.stage with hp | hclean
  · rw [hfin] at hp
    rcases hp with hx | hx | ⟨p, hx, _⟩ <;> cases hx
  · exact hclean

/-! ## Cancelled leaders claim nothing -/

/-- No fetch that was led under one of the first `N` tokens is registered any more. -/
def Drained (keys : K → Prop) (N : Nat) (s : State K V) : Prop :=
  ∀ k token, keys k → token ≤ N → Lost s k token

theorem drained_step {N : Nat} (h : Drained keys N s) (hle : N ≤ s.cache.nextToken)
    (hs : step s e = some t) : Drained keys N t :=
  fun k token hk htok => lost_step (h k token hk htok) (Nat.le_trans htok hle) hs

/-- The in-flight section drains the map. -/
theorem draining_step {N : Nat} (hle : N ≤ s.cache.nextToken)
    (h : (s.calls i).cancelling keys ∨ Drained keys N s) (hs : step s e = some t) :
    (t.calls i).cancelling keys ∨ Drained keys N t := by
  rcases h with h | h
  · rcases cancelling_step h hs with hstill | ⟨_, hnone⟩
    · exact Or.inl hstill
    · refine Or.inr fun k token hk _ entry hreg => ?_
      rw [hnone k hk] at hreg
      cases hreg
  · exact Or.inr (drained_step h hle hs)

/-- The call has the fetches of the keys `found` still to cancel: it is going to remove what is
    stale, or it has found these keys stored. -/
def Phase.finding (found : K → Prop) (stale : V → Prop) (phase : Phase K V) : Prop :=
  (∃ p, phase = .matching p ∧ ∀ v, stale v → p v = true) ∨
    ∃ removed, phase = .matched removed ∧ ∀ k, found k → k ∈ removed

/-- The keys `found` are stored, with an entry that matches, when call `i` removes the entries. -/
def FindsStored (i : CallId) (found : K → Prop) (s : State K V) (e : Event K V) : Prop :=
  ∀ p, e = .resume i → s.calls i = .matching p → ∀ k, found k → k ∈ s.cache.store.doomed p

/-- `invalidate_matching` removes the slots of the keys it has found. -/
theorem finding_step {found : K → Prop} {N : Nat} (hle : N ≤ s.cache.nextToken)
    (finds : FindsStored i found s e)
    (h : (s.calls i).finding found stale ∨ Drained found N s) (hs : step s e = some t) :
    (t.calls i).finding found stale ∨ Drained found N t := by
  rcases h with h | h
  · by_cases hi : i = e.call
    · subst hi
      rcases h with ⟨p, h, -⟩ | ⟨removed, h, hfound⟩
      · cases step_cases hs with
        | @matchNothing c p' phase free nothing =>
          refine Or.inr fun k token hk _ => ?_
          have hmem := finds p' rfl phase k hk
          rw [nothing] at hmem
          cases hmem
        | @matchStore c p' phase free =>
          exact Or.inl (Or.inr ⟨_, by simp [Event.call], finds p' rfl phase⟩)
        | _ => simp_all [Event.call]
      · cases step_cases hs with
        | @matchInFlight c removed' phase =>
          have hsame : removed' = removed := by simpa [Event.call, phase] using h
          subst hsame
          refine Or.inr fun k token hk _ entry hreg => ?_
          have hnone := lookup_cancelKeys removed' s.cache.inFlight k
          rw [if_pos (hfound k hk)] at hnone
          rw [State.goto_registered] at hreg
          cases hnone.symm.trans hreg
        | _ => simp_all [Event.call]
    · rw [calls_other hs hi]
      exact Or.inl h
  · exact Or.inr (drained_step h hle hs)

/-- If every stale value was fetched under one of the first `N` tokens, a drained cache
    claims nothing stale. -/
theorem claimsClean_of_drained {N : Nat} (h : Drained keys N s) (apart : TokensApart s e)
    (fetched : ∀ c k token v, s.calls c = .fetched k token (.ok v) → keys k → stale v →
      token ≤ N) : ClaimsClean keys stale s e := by
  intro c k token v entry he hfetched hreg hu hk hv
  have htok := fetched c k token v hfetched hk hv
  have hsame := apart k token entry (by simp [he, comparesToken, hfetched]) hreg hu
  exact h k token hk htok entry hreg hsame

/-! ## Fresh calls -/

/-- The calls `F` have got nothing stale, and will not get it from those who answer them. -/
structure Fresh (F : CallId → Prop) (keys : K → Prop) (stale : V → Prop) (s : State K V) :
    Prop where
  fetched : ∀ c k token v, F c → s.calls c = .fetched k token (.ok v) → keys k → ¬ stale v
  answering : ∀ c k v ws, s.calls c = .answering k (.ok v) ws → keys k →
    (F c ∨ ∃ w ∈ ws, F w) → ¬ stale v
  answers : ∀ w k token v, F w → s.roles w = some (.waiter k token) → keys k →
    .ok v ∈ s.answers w → ¬ stale v
  returned : ∀ c k v, F c → s.calls c = .returned k (.ok v) → keys k → ¬ stale v

/-- Calls that have not begun are fresh. -/
theorem fresh_of_idle {F : CallId → Prop} (h : Addressed s) (idle : ∀ c, F c → s.calls c = .idle) :
    Fresh F keys stale s where
  fetched c k token v hF hc := by
    rw [idle c hF] at hc
    cases hc
  answering c k v ws hc hk hF := by
    rcases hF with hF | ⟨w, hw, hF⟩
    · rw [idle c hF] at hc
      cases hc
    · obtain ⟨token, hrole⟩ := h.hands c k w (by simpa [hc, Phase.holds] using hw)
      have hnone : s.roles w = none := h.tokens.role (idle w hF)
      rw [hnone] at hrole
      cases hrole
  answers w k token v hF hrole := by
    have hnone : s.roles w = none := h.tokens.role (idle w hF)
    rw [hnone] at hrole
    cases hrole
  returned c k v hF hc := by
    rw [idle c hF] at hc
    cases hc

/-- The fetches of fresh calls answer with nothing stale. -/
def RepliesFresh (F : CallId → Prop) (keys : K → Prop) (stale : V → Prop) (s : State K V)
    (e : Event K V) : Prop :=
  ∀ c k token v, e = .reply c (.ok v) → s.calls c = .fetching k token → F c → keys k → ¬ stale v

theorem fresh_step {F : CallId → Prop} (h : Fresh F keys stale s) (clean : Clean keys stale s)
    (addressed : Addressed s) (replies : RepliesFresh F keys stale s e) (hs : step s e = some t) :
    Fresh F keys stale t where
  fetched c k token v hF hc hk := by
    rcases fetched_step hs hc with hold | ⟨he, hfetching⟩
    · exact h.fetched c k token v hF hold hk
    · exact replies c k token v he hfetching hF hk
  answering c k v ws hc hk hF := by
    rcases answering_step hs hc with hold | ⟨w, _, hold⟩ | ⟨v', entry, _, _, hlook, hr⟩ |
        ⟨v', _, hclaimed, hr⟩ | ⟨token, err, _, _, hr⟩
    · exact h.answering c k v ws hold hk hF
    · refine h.answering c k v (w :: ws) hold hk ?_
      rcases hF with hF | ⟨w', hw', hF⟩
      · exact Or.inl hF
      · exact Or.inr ⟨w', List.mem_cons_of_mem _ hw', hF⟩
    · cases hr
      exact clean.stored k entry hk hlook
    · cases hr
      exact clean.claimed c k v ws hclaimed hk
    · cases hr
  answers w k token v hF hrole hk hans := by
    rcases addressed.answer_step hs hrole hans with ⟨hrole', hold⟩ | ⟨c, ws, hc⟩
    · exact h.answers w k token v hF hrole' hk hold
    · exact h.answering c k v (w :: ws) hc hk (Or.inr ⟨w, List.mem_cons_self, hF⟩)
  returned c k v hF hc hk := by
    rcases returned_step hs hc with hold | ⟨entry, _, hlook, hr⟩ | ⟨_, hwait, hans⟩ |
        ⟨token, _, hfetched⟩ | ⟨_, hanswering⟩
    · exact h.returned c k v hF hold hk
    · cases hr
      exact clean.stored k entry hk hlook
    · obtain ⟨token, hrole⟩ : ∃ token, s.roles c = some (.waiter k token) := 
        addressed.tokens.role hwait
      exact h.answers c k token v hF hrole hk hans
    · exact h.fetched c k token v hF hfetched hk
    · exact h.answering c k v [] hanswering hk (Or.inl hF)

end Schemreg.CacheInner
