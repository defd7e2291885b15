import Schemreg.Cache.Barrier

/-
  The leaders that an invalidation has cancelled.

  `invalidate` and `clear` empty the slots of the fetches they cancel before they remove the
  entries. The calls `old` had sent their requests before, so they lead under tokens that
  had been handed out by then, and after the in-flight section no slot holds such a token
  (`Cancels`). So none of them claims a slot any more. `invalidate_matching` removes the entries
  first, and cancels the fetches only for the keys that it has found stored (`CancelsFound`).
-/

namespace Schemreg.Cache

open CacheInner (CallId TokensApart GenerationsApart ClaimsClean RemovesClear Drained
  FindsStored)
open Transition

variable {s t : State} {e : Event} {c i : CallId} {x : Ident} {keys : x.Key → Prop}
  {stale : Fetched → Prop} {old : CallId → Prop} {N : Nat}

/-- The fetches of the calls `old` are led under the first `N` tokens of the cache `x`. -/
structure Led (x : Ident) (old : CallId → Prop) (N : Nat) (s : State) : Prop where
  issued : N ≤ (s.side x).cache.nextToken
  sent : ∀ c, old c → ¬ (s.calls c).pre ∧ ¬ unsent (s.methods c x)
  led : ∀ c k token, old c → (s.side x).roles c = some (.leader k token) → token ≤ N

theorem led_step (h : Led x old N s) (hs : step s e = some t) : Led x old N t := by
  have sent : ∀ c, old c → ¬ (t.calls c).pre ∧ ¬ unsent (t.methods c x) := fun c hc =>
    ⟨pre_step (h.sent c hc).1 hs, unsent_step (h.sent c hc).2 (h.sent c hc).1 hs⟩
  rcases side_step hs x with heq | ⟨ie, hinner, _⟩
  · refine ⟨by rw [heq]; exact h.issued, sent, ?_⟩
    rw [heq]
    exact h.led
  · refine ⟨Nat.le_trans h.issued (CacheInner.nextToken_step hinner), sent, ?_⟩
    intro c k token hc hrole
    rcases CacheInner.role_step hinner hrole with hold | ⟨_, key, hmissed⟩
    · exact h.led c k token hc hold
    · exact absurd (by rw [State.methods, hmissed]; trivial) (h.sent c hc).2

/-- A step that elects no leader leaves the fetches that have been sent under the tokens handed out
    so far. -/
theorem led_of_begin (hc : Consistent s) (hold : ∀ c, old c → c ∈ s.requests)
    (hroles : (t.side x).roles = (s.side x).roles)
    (hnext : (t.side x).cache.nextToken = (s.side x).cache.nextToken) (hs : step s e = some t) :
    Led x old (s.side x).cache.nextToken t := by
  refine ⟨Nat.le_of_eq hnext.symm, ?_, ?_⟩
  · intro c hco
    obtain ⟨hpre, hun⟩ := hc.sent c (hold c hco)
    exact ⟨pre_step hpre hs, unsent_step (hun x) hpre hs⟩
  · intro c k token _ hrole
    rw [hroles] at hrole
    exact ((hc.addressed x).tokens.issued c k token hrole).2

theorem Led.fetched (h : Led x old N s) (hc : Consistent s) {d : CallId} {k : x.Key} {token : Nat}
    {v : Fetched} (hfetched : (s.side x).calls d = .fetched k token (.ok v))
    (hold : old v.origin) : token ≤ N := by
  have hrole : (s.side x).roles d = some (.leader k token) :=
    (hc.addressed x).tokens.role hfetched
  have horigin := hc.owned.fetched x d k token v hfetched
  exact h.led d k token (horigin ▸ hold) hrole

/-- The invalidation `i` cancels on the cache `x` the fetches that were led under one of the
    first `N` tokens, those of the calls `old` among them. -/
structure Cancels (x : Ident) (i : CallId) (old : CallId → Prop) (keys : x.Key → Prop) (N : Nat)
    (s : State) : Prop extends Led x old N s where
  stage : (s.methods i x).cancelling keys ∨ Drained keys N (s.side x)

theorem cancels_step (h : Cancels x i old keys N s) (hs : step s e = some t) :
    Cancels x i old keys N t := by
  refine ⟨led_step h.toLed hs, ?_⟩
  rcases side_step hs x with heq | ⟨ie, hinner, _⟩
  · have hstage := h.stage
    unfold State.methods at hstage ⊢
    rwa [heq]
  · exact CacheInner.draining_step h.issued h.stage hinner

/-- The calls that have sent their requests are cancelled by an invalidation that begins now. -/
theorem cancels_of_bump {op : CacheInner.Op x.Key Fetched} (hc : Consistent s)
    (hold : ∀ c, old c → c ∈ s.requests) (hop : op.covers keys)
    (hbump : CacheInner.step (s.side x) (.begin i op) = some (t.side x))
    (hs : step s e = some t) : Cancels x i old keys (s.side x).cache.nextToken t := by
  obtain ⟨hcancel, hroles, hnext, _⟩ := CacheInner.cancelling_of_begin hop hbump
  exact ⟨led_of_begin hc hold hroles hnext hs, Or.inl hcancel⟩

/-- After the in-flight section, nothing stale is claimed. -/
theorem Cancels.claimsClean (h : Cancels x i old keys N s) (hc : Consistent s)
    (origin : ∀ v, stale v → old v.origin) (apart : On x TokensApart s e)
    (removed : (s.methods i x).removed keys stale) : On x (ClaimsClean keys stale) s e := by
  have drained : Drained keys N (s.side x) :=
    h.stage.resolve_left fun hcancel => removed.2 (Or.inl hcancel)
  intro ie issued
  exact CacheInner.claimsClean_of_drained drained (apart ie issued) fun d k token v hfetched _ hv =>
    h.fetched hc hfetched (origin v hv)

/-! ## What `invalidate_matching` has found -/

/-- The invalidation `i` of a subject cancels on the cache `x` the fetches for the keys `found` that
    were led under one of the first `N` tokens. -/
structure CancelsFound (x : Ident) (i : CallId) (old : CallId → Prop) (found : x.Key → Prop)
    (stale : Fetched → Prop) (N : Nat) (s : State) : Prop extends Led x old N s where
  stage : (s.methods i x).finding found stale ∨ Drained found N (s.side x)

theorem cancelsFound_step {found : x.Key → Prop} (h : CancelsFound x i old found stale N s)
    (finds : On x (FindsStored i found) s e) (hs : step s e = some t) :
    CancelsFound x i old found stale N t := by
  refine ⟨led_step h.toLed hs, ?_⟩
  rcases side_step hs x with heq | ⟨ie, hinner, issued⟩
  · have hstage := h.stage
    unfold State.methods at hstage ⊢
    rwa [heq]
  · exact CacheInner.finding_step h.issued (finds ie issued) h.stage hinner

theorem cancelsFound_of_bump {found : x.Key → Prop} {p : Fetched → Bool} (hc : Consistent s)
    (hold : ∀ c, old c → c ∈ s.requests) (hp : ∀ v, stale v → p v = true)
    (hbump : CacheInner.step (s.side x) (.begin i (.invalidateMatching p)) = some (t.side x))
    (hs : step s e = some t) : CancelsFound x i old found stale (s.side x).cache.nextToken t := by
  obtain ⟨hmatching, hroles, hnext⟩ := CacheInner.matching_of_begin hbump
  exact ⟨led_of_begin hc hold hroles hnext hs, Or.inl (Or.inl ⟨p, hmatching, hp⟩)⟩

/-- Once the entries are removed, no leader of a key that was found stored claims its slot with
    anything stale, except before the section that cancels. -/
theorem CancelsFound.claimsClean {found : x.Key → Prop} (h : CancelsFound x i old found stale N s)
    (hc : Consistent s) (origin : ∀ v, stale v → old v.origin)
    (apart : (∃ k, found k) → On x TokensApart s e)
    (removed : (s.methods i x).removed (fun _ => True) stale)
    (claims : On x (ClaimsClean (fun k => found k → ∃ ks, s.methods i x = .matched ks) stale) s e) :
    On x (ClaimsClean (fun _ => True) stale) s e := by
  intro ie issued c k token v entry he hfetched hreg hu _ hv
  by_cases hcancelled : found k ∧ ∀ ks, s.methods i x ≠ .matched ks
  · obtain ⟨hfound, hmatched⟩ := hcancelled
    have drained : Drained found N (s.side x) := by
      refine h.stage.resolve_left ?_
      rintro (hmatching | ⟨ks, hks, -⟩)
      · exact removed.2 (Or.inr (Or.inr hmatching))
      · exact hmatched ks hks
    exact CacheInner.claimsClean_of_drained drained (apart ⟨k, hfound⟩ ie issued)
      (fun d k token v hfetched _ hv => h.fetched hc hfetched (origin v hv)) c k token v entry he
      hfetched hreg hu hfound hv
  · refine claims ie issued c k token v entry he hfetched hreg hu (fun hfound => ?_) hv
    by_contra hnot
    exact hcancelled ⟨hfound, fun ks hks => hnot ⟨ks, hks⟩⟩

/-! ## What may not get past -/

/-- Nothing of what was fetched for the calls `old` gets past the invalidation `i` of the cache
    `x`: the counters have not wrapped around, no leader is between its claim and its write
    when the entries are removed, and no lookup in the other cache brings it over. -/
structure NoneReturns (x : Ident) (i : CallId) (old : CallId → Prop) (keys : x.Key → Prop)
    (s : State) (e : Event) : Prop where
  tokens : On x TokensApart s e
  generations : On x GenerationsApart s e
  removes : On x (RemovesClear i keys fun v => old v.origin) s e
  crosses : s.methods i x ≠ .idle → CrossesOutdated x keys (fun v => old v.origin) s e

theorem Cancels.nonePasses (h : Cancels x i old keys N s) (hc : Consistent s)
    (tokens : On x TokensApart s e) (generations : On x GenerationsApart s e)
    (removes : On x (RemovesClear i keys fun v => old v.origin) s e) :
    NonePasses x i keys (fun v => old v.origin) s e where
  apart := generations
  removes := removes
  claims := h.claimsClean hc (fun _ hv => hv) tokens

theorem methods_finished (h : s.methods i x = .finished) (hs : step s e = some t) :
    t.methods i x = .finished := by
  unfold State.methods at h ⊢
  rcases side_step hs x with heq | ⟨ie, hinner, _⟩
  · rwa [heq]
  · exact CacheInner.finished_step h hinner

/-- The last invalidation of an operation runs, and has run. -/
theorem last_step (h : s.calls i = .running x [] ∨
      (s.methods i x = .finished ∧ (s.calls i = .dropping [] ∨ s.calls i = .finished)))
    (hs : step s e = some t) : t.calls i = .running x [] ∨
      (t.methods i x = .finished ∧ (t.calls i = .dropping [] ∨ t.calls i = .finished)) := by
  rcases h with hrun | ⟨hfin, hd | hf⟩
  · rcases running_step hrun hs with hrun' | ⟨hd, hfin, hside⟩
    · exact Or.inl hrun'
    · refine Or.inr ⟨?_, Or.inl hd⟩
      rw [State.methods, hside]
      exact hfin
  · have hfin' := methods_finished hfin hs
    rcases dropping_step hd hs with hd' | ⟨_, hf, _⟩ | ⟨y, what, rest, heq, _⟩
    · exact Or.inr ⟨hfin', Or.inl hd'⟩
    · exact Or.inr ⟨hfin', Or.inr hf⟩
    · cases heq
  · exact Or.inr ⟨methods_finished hfin hs, Or.inr (finished_step hf hs)⟩

/-! ## Schedules that meet the conditions -/

theorem nextToken_mono (hs : step s e = some t) (x : Ident) :
    (s.side x).cache.nextToken ≤ (t.side x).cache.nextToken := by
  rcases side_step hs x with heq | ⟨ie, hinner, _⟩
  · rw [heq]
  · exact CacheInner.nextToken_step hinner

/-- Neither counter of any cache has wrapped around. -/
def Unwrapped (s : State) : Prop :=
  ∀ x, (s.side x).cache.nextToken < 2 ^ 64 ∧ (s.side x).generation < 2 ^ 64

theorem unwrapped_of_step (h : Unwrapped t) (hs : step s e = some t) : Unwrapped s := by
  intro x
  have := h x
  have := nextToken_mono hs x
  have := generation_mono hs x
  omega

theorem Unwrapped.tokens (h : Unwrapped s) (hc : Consistent s) : On x TokensApart s e :=
  fun _ _ => CacheInner.tokensApart_of_le (hc.addressed x).tokens (Nat.le_of_lt (h x).1)

theorem Unwrapped.generations (h : Unwrapped s) (hc : Consistent s) :
    On x GenerationsApart s e := by
  intro ie _ c k v g _ hins hu
  have hle := hc.sampled.inserting x c k v g hins
  have hlt := (h x).2
  exact (Wrapping.u64_inj hle (by omega) hu.symm).symm

/-- None of the calls has a result that it may still write into the cache `x`. -/
def settled (x : Ident) (calls : List CallId) (s : State) : Event → Bool
  | .inner _ _ =>
      calls.all fun c =>
        match (s.side x).calls c with
        | .fetched _ _ _ | .claimed _ _ _ => false
        | _ => true
  | _ => true

/-- No lookup comes back from the cache other than `x`. -/
def staysIn (x : Ident) (s : State) : Event → Bool
  | .advance c =>
      match s.calls c with
      | .looking y _ _ => y = x
      | _ => true
  | _ => true

theorem removesClear_of_settled {calls : List CallId} (hc : Consistent s)
    (h : settled x calls s e = true) (hstale : ∀ v, stale v → v.origin ∈ calls) :
    On x (RemovesClear i keys stale) s e := by
  intro ie issued he _ c k v ws hclaimed _ hv
  subst he
  cases issued with
  | inner =>
    have hnone := List.all_eq_true.mp h v.origin (hstale v hv)
    rw [hc.owned.claimed x c k v ws hclaimed, hclaimed] at hnone
    cases hnone

theorem claimsClean_of_settled {calls : List CallId} (hc : Consistent s)
    (h : settled x calls s e = true) (hstale : ∀ v, stale v → v.origin ∈ calls) :
    On x (ClaimsClean keys stale) s e := by
  intro ie issued c k token v entry he hfetched _ _ _ hv
  subst he
  cases issued with
  | inner =>
    have hnone := List.all_eq_true.mp h v.origin (hstale v hv)
    rw [hc.owned.fetched x c k token v hfetched, hfetched] at hnone
    cases hnone

theorem crossesOutdated_of_staysIn (h : staysIn x s e = true) :
    CrossesOutdated x keys stale s e := by
  intro c key gens k v he hphase _ _
  subst he
  have hx : x.other = x := by simpa [staysIn, hphase] using h
  exact absurd hx (other_ne x)

def quiet (x : Ident) (calls : List CallId) (s : State) (e : Event) : Bool :=
  settled x calls s e && staysIn x s e

theorem noneReturns_of_quiet {calls : List CallId} (hc : Consistent s) (hu : Unwrapped s)
    (h : quiet x calls s e = true) : NoneReturns x i (· ∈ calls) keys s e := by
  obtain ⟨hclaim, hstay⟩ := Bool.and_eq_true_iff.mp h
  exact ⟨hu.tokens hc, hu.generations hc, removesClear_of_settled hc hclaim fun _ hv => hv,
    fun _ => crossesOutdated_of_staysIn hstay⟩

/-- A guard that holds in consistent states with unwrapped counters holds along a run. -/
theorem run_unwrapped {P Q : State → Event → Prop} {es : List Event} (hc : Consistent s)
    (hrun : Run step P s es t) (hu : Unwrapped t)
    (hQ : ∀ x e, Consistent x → Unwrapped x → P x e → Q x e) : Run step Q s es t := by
  induction hrun with
  | nil => exact Run.nil
  | @snoc es x u e run guard last ih =>
    have hx : Consistent x := run.invariant hc fun _ _ _ h _ hs => consistent_step h hs
    have hux := unwrapped_of_step hu last
    exact Run.snoc (ih hux) (hQ x e hx hux guard) last

theorem run_noneReturns {calls : List CallId} {es : List Event} (hc : Consistent s)
    (hrun : Run step (fun y e => quiet x calls y e = true) s es t) (hu : Unwrapped t) :
    Run step (NoneReturns x i (· ∈ calls) keys) s es t :=
  run_unwrapped hc hrun hu fun _ _ hx hux hq => noneReturns_of_quiet hx hux hq

end Schemreg.Cache
