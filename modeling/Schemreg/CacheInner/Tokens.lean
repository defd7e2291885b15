import Schemreg.CacheInner.Step

/-
  Leaders, tokens and roles.

  `Tokens s` is the bookkeeping invariant: what a call's phase says about its role, that no
  token is handed out twice, and that every registered fetch has a live leader. It holds in
  every reachable state without any assumption (`tokens_run`); the counter's wraparound
  plays no part in it, because tokens are compared here as counts and not as `u64`s.
-/

namespace Schemreg.CacheInner

open Wrapping Transition

variable {K V : Type} [DecidableEq K]

/-- The key and token of a leader that has not claimed its slot yet. -/
def Phase.leads : Phase K V → Option (K × Nat)
  | .elected key token => some (key, token)
  | .fetching key token => some (key, token)
  | .fetched key token _ => some (key, token)
  | _ => none

def Role.key : Role K → K
  | .waiter key _ => key
  | .leader key _ => key

/-- Call `l` leads a fetch for `k`, and its fetch future has been started. -/
def State.fetchStarted (s : State K V) (l : CallId) (k : K) : Prop :=
  ∃ token, s.roles l = some (.leader k token) ∧ s.calls l ≠ .elected k token

/-- What the phase of a call says about its role. -/
def PhaseRole : Phase K V → Option (Role K) → Prop
  | .idle, role | .missed _, role => role = none
  | .waiting key, role => ∃ token, role = some (.waiter key token)
  | .elected key token, role | .fetching key token, role | .fetched key token _, role =>
      role = some (.leader key token)
  | .claimed key _ _, role | .answering key _ _, role => ∃ token, role = some (.leader key token)
  | .returned key _, role => ∀ r, role = some r → r.key = key
  | .invalidating _, role | .invalidated _ _, role | .matching _, role | .matched _, role
  | .clearing, role | .drained _, role | .inserting _ _ _, role | .checked _ _ _, role =>
      role = none
  | .notifying _, _ | .finished, _ => True

/-- The bookkeeping of leaders and tokens. -/
structure Tokens (s : State K V) : Prop where
  phase : ∀ c, PhaseRole (s.calls c) (s.roles c)
  issued : ∀ c key token, s.roles c = some (.leader key token) →
    1 ≤ token ∧ token ≤ s.cache.nextToken
  joined : ∀ c key token, s.roles c = some (.waiter key token) → token ≤ s.cache.nextToken
  once : ∀ c c' key key' token, s.roles c = some (.leader key token) →
    s.roles c' = some (.leader key' token) → c = c'
  live : ∀ key entry, s.registered key = some entry →
    ∃ c, (s.calls c).leads = some (key, entry.token)

omit [DecidableEq K] in
theorem PhaseRole.of_leads {phase : Phase K V} {role : Option (Role K)} {key : K} {token : Nat}
    (h : PhaseRole phase role) (lead : phase.leads = some (key, token)) :
    role = some (.leader key token) := by
  cases phase <;> simp only [Phase.leads, Option.some.injEq, Prod.mk.injEq, reduceCtorEq] at lead
  all_goals
    obtain ⟨rfl, rfl⟩ := lead
    exact h

theorem tokens_init (maxEntries : Option Nat) (err : K → SchemaRegError) :
    Tokens (State.init maxEntries err : State K V) where
  phase _ := rfl
  issued _ _ _ h := by cases h
  joined _ _ _ h := by cases h
  once _ _ _ _ _ h := by cases h
  live key entry h := by
    simp [State.init, State.registered, InMemoryCache.new] at h

/-- Only call `c` moves, no role changes, no fetch is registered: the bookkeeping stays if
    the new phase of `c` fits its role, and if `c` stops leading, its slot is gone. -/
theorem Tokens.frame {s t : State K V} (h : Tokens s) (c : CallId)
    (others : ∀ d, d ≠ c → t.calls d = s.calls d) (roles : t.roles = s.roles)
    (count : t.cache.nextToken = s.cache.nextToken)
    (inFlight : ∀ key entry, t.registered key = some entry →
      ∃ entry₀, s.registered key = some entry₀ ∧ entry₀.token = entry.token)
    (phase : PhaseRole (t.calls c) (s.roles c))
    (lead : ∀ key token, (s.calls c).leads = some (key, token) →
      (t.calls c).leads = some (key, token) ∨
        ∀ entry, t.registered key = some entry → entry.token ≠ token) : Tokens t where
  phase d := by
    rw [roles]
    by_cases hd : d = c
    · rw [hd]; exact phase
    · rw [others d hd]; exact h.phase d
  issued d key token hd := by
    rw [roles] at hd
    rw [count]
    exact h.issued d key token hd
  joined d key token hd := by
    rw [roles] at hd
    rw [count]
    exact h.joined d key token hd
  once d d' key key' token hd hd' := by
    rw [roles] at hd hd'
    exact h.once d d' key key' token hd hd'
  live key entry hreg := by
    obtain ⟨entry₀, hreg₀, htok⟩ := inFlight key entry hreg
    obtain ⟨d, hd⟩ := h.live key entry₀ hreg₀
    rw [htok] at hd
    by_cases hdc : d = c
    · subst hdc
      rcases lead key entry.token hd with hl | hl
      · exact ⟨d, hl⟩
      · exact absurd rfl (hl entry hreg)
    · exact ⟨d, by rw [others d hdc]; exact hd⟩

/-! ## How the in-flight map is read after a section -/

theorem registered_erase {s : State K V} {key k : K} {entry : InFlight}
    (h : (s.withInFlight (s.cache.inFlight.erase key)).registered k = some entry) :
    k ≠ key ∧ s.registered k = some entry := by
  by_cases hk : k = key
  · subst hk
    simp [State.registered, State.withInFlight] at h
  · refine ⟨hk, ?_⟩
    simpa [State.registered, State.withInFlight, AList.lookup_erase_ne hk] using h

theorem registered_insert (s : State K V) (key k : K) (new : InFlight) :
    (s.withInFlight (s.cache.inFlight.insert key new)).registered k =
      if k = key then some new else s.registered k := by
  by_cases hk : k = key
  · subst hk
    simp [State.registered, State.withInFlight]
  · simp [State.registered, State.withInFlight, hk, AList.lookup_insert_ne hk]

theorem lookup_cancelKeys (keys : List K) (inFlight : AList fun _ : K => InFlight) (k : K) :
    (InMemoryCache.cancelKeys keys inFlight).1.lookup k =
      if k ∈ keys then none else inFlight.lookup k := by
  induction keys generalizing inFlight with
  | nil => simp [InMemoryCache.cancelKeys]
  | cons key keys ih =>
    unfold InMemoryCache.cancelKeys
    split
    · rw [ih]
      by_cases hk : k = key
      · subst hk; simp
      · simp [hk, AList.lookup_erase_ne hk]
    · rename_i hnone
      rw [ih]
      by_cases hk : k = key
      · subst hk; simp [hnone]
      · simp [hk]

theorem registered_cancelKeys {s : State K V} {keys : List K} {k : K} {entry : InFlight} :
    (s.withInFlight (InMemoryCache.cancelKeys keys s.cache.inFlight).1).registered k = some entry ↔
      k ∉ keys ∧ s.registered k = some entry := by
  have := lookup_cancelKeys keys s.cache.inFlight k
  unfold State.registered State.withInFlight
  rw [this]
  by_cases hk : k ∈ keys <;> simp [hk]

theorem registered_empty {s : State K V} {k : K} : (s.withInFlight ∅).registered k = none := rfl

/-! ## Preservation -/

/-- `Tokens.frame` for a call that was not leading, when the registered fetches only
    shrink. -/
theorem Tokens.goto {s u : State K V} (h : Tokens s) {c : CallId} (phase : Phase K V)
    (calls : u.calls = s.calls) (roles : u.roles = s.roles)
    (count : u.cache.nextToken = s.cache.nextToken)
    (inFlight : ∀ key entry, u.registered key = some entry → s.registered key = some entry)
    (fits : PhaseRole phase (s.roles c)) (lead : (s.calls c).leads = none) :
    Tokens (u.goto c phase) := by
  refine h.frame c ?_ roles count ?_ ?_ ?_
  · intro d hd
    simp [hd, calls]
  · intro key entry hreg
    exact ⟨entry, inFlight key entry hreg, rfl⟩
  · simpa using fits
  · intro key token hl
    rw [lead] at hl
    cases hl

/-- `Tokens.frame` for a leader that gives up its slot: afterwards nothing is registered
    under its key with its token. -/
theorem Tokens.leave {s u : State K V} (h : Tokens s) {c : CallId} (phase : Phase K V)
    {key : K} {token : Nat} (calls : u.calls = s.calls) (roles : u.roles = s.roles)
    (count : u.cache.nextToken = s.cache.nextToken)
    (inFlight : ∀ key entry, u.registered key = some entry → s.registered key = some entry)
    (fits : PhaseRole phase (s.roles c)) (lead : (s.calls c).leads = some (key, token))
    (gone : ∀ entry, u.registered key = some entry → entry.token ≠ token) :
    Tokens (u.goto c phase) := by
  refine h.frame c ?_ roles count ?_ ?_ ?_
  · intro d hd
    simp [hd, calls]
  · intro key entry hreg
    exact ⟨entry, inFlight key entry hreg, rfl⟩
  · simpa using fits
  · intro key' token' hl
    rw [lead] at hl
    cases hl
    exact Or.inr gone

/-- `Tokens.frame` for a leader that moves on and still leads. -/
theorem Tokens.advance {s : State K V} (h : Tokens s) {c : CallId} (phase : Phase K V)
    (lead : (s.calls c).leads = phase.leads) (fits : PhaseRole phase (s.roles c)) :
    Tokens (s.goto c phase) := by
  refine h.frame c ?_ rfl rfl ?_ ?_ ?_
  · intro d hd
    simp [hd]
  · intro key entry hreg
    exact ⟨entry, hreg, rfl⟩
  · simpa using fits
  · intro key token hl
    rw [lead] at hl
    exact Or.inl (by simpa using hl)

theorem gone_of_erase {s : State K V} {key : K} {token : Nat} (entry : InFlight)
    (h : (s.withInFlight (s.cache.inFlight.erase key)).registered key = some entry) :
    entry.token ≠ token :=
  absurd rfl (registered_erase h).1

theorem tokens_elect {s : State K V} (h : Tokens s) {c : CallId} {key : K}
    (phase : s.calls c = .missed key) :
    Tokens (({ s with cache := { s.cache with
        nextToken := s.cache.nextToken + 1
        inFlight := s.cache.inFlight.insert key ⟨s.cache.nextToken + 1, []⟩ } }.assign c
          (.leader key (s.cache.nextToken + 1))).goto c
            (.elected key (s.cache.nextToken + 1))) := by
  have hrole : s.roles c = none := by
    have := h.phase c
    rwa [phase] at this
  constructor
  · intro d
    by_cases hd : d = c
    · subst hd; simp [PhaseRole]
    · simpa [hd] using h.phase d
  · intro d k token hd
    by_cases hdc : d = c
    · subst hdc
      have : s.cache.nextToken + 1 = token := by simpa using (by simpa using hd : _ ∧ _).2
      simp only [State.goto_cache, State.assign_cache]
      omega
    · have := h.issued d k token (by simpa [hdc] using hd)
      simp only [State.goto_cache, State.assign_cache]
      omega
  · intro d k token hd
    by_cases hdc : d = c
    · subst hdc; simp at hd
    · have := h.joined d k token (by simpa [hdc] using hd)
      simp only [State.goto_cache, State.assign_cache]
      omega
  · -- the new token is larger than every token handed out before
    intro d d' k k' token hd hd'
    by_cases hdc : d = c <;> by_cases hdc' : d' = c
    · rw [hdc, hdc']
    · have htok : s.cache.nextToken + 1 = token := by
        rw [hdc] at hd
        exact (by simpa using hd : _ ∧ _).2
      have := h.issued d' k' token (by simpa [hdc'] using hd')
      omega
    · have htok : s.cache.nextToken + 1 = token := by
        rw [hdc'] at hd'
        exact (by simpa using hd' : _ ∧ _).2
      have := h.issued d k token (by simpa [hdc] using hd)
      omega
    · exact h.once d d' k k' token (by simpa [hdc] using hd) (by simpa [hdc'] using hd')
  · intro k entry hreg
    have hreg' : (if k = key then some ⟨s.cache.nextToken + 1, []⟩ else s.registered k) =
        some entry := by
      rw [← registered_insert]; exact hreg
    split at hreg'
    · rename_i hk
      have := Option.some.inj hreg'
      subst this hk
      exact ⟨c, by simp [Phase.leads]⟩
    · obtain ⟨d, hd⟩ := h.live k entry hreg'
      refine ⟨d, ?_⟩
      have hdc : d ≠ c := by
        intro hdc
        rw [hdc, phase] at hd
        cases hd
      simpa [hdc] using hd

theorem tokens_join {s : State K V} (h : Tokens s) {c : CallId} {key : K} {entry : InFlight}
    (phase : s.calls c = .missed key) (inFlight : s.registered key = some entry) :
    Tokens (((s.withInFlight (s.cache.inFlight.insert key
      { entry with waiters := entry.waiters ++ [c] })).assign c
        (.waiter key entry.token)).goto c (.waiting key)) := by
  obtain ⟨leader, hleader⟩ := h.live key entry inFlight
  have hbound := (h.issued _ _ _ ((h.phase leader).of_leads hleader)).2
  constructor
  · intro d
    by_cases hd : d = c
    · subst hd; simp [PhaseRole]
    · simpa [hd] using h.phase d
  · intro d k token hd
    by_cases hdc : d = c
    · subst hdc; simp at hd
    · exact h.issued d k token (by simpa [hdc] using hd)
  · intro d k token hd
    by_cases hdc : d = c
    · subst hdc
      have htok : entry.token = token := (by simpa using hd : _ ∧ _).2
      exact htok ▸ hbound
    · exact h.joined d k token (by simpa [hdc] using hd)
  · intro d d' k k' token hd hd'
    by_cases hdc : d = c
    · subst hdc; simp at hd
    · by_cases hdc' : d' = c
      · subst hdc'; simp at hd'
      · exact h.once d d' k k' token (by simpa [hdc] using hd) (by simpa [hdc'] using hd')
  · intro k entry' hreg
    have hreg' : (if k = key then some { entry with waiters := entry.waiters ++ [c] }
        else s.registered k) = some entry' := by
      rw [← registered_insert]; exact hreg
    have hlive : ∃ d, (s.calls d).leads = some (k, entry'.token) := by
      split at hreg'
      · rename_i hk
        have := Option.some.inj hreg'
        subst this hk
        exact ⟨leader, hleader⟩
      · exact h.live k entry' hreg'
    obtain ⟨d, hd⟩ := hlive
    refine ⟨d, ?_⟩
    have hdc : d ≠ c := by
      intro hdc
      rw [hdc, phase] at hd
      cases hd
    simpa [hdc] using hd

theorem Tokens.role {s : State K V} (h : Tokens s) {c : CallId} {phase : Phase K V}
    (hc : s.calls c = phase) : PhaseRole phase (s.roles c) :=
  hc ▸ h.phase c

/-- The first leader is the only one until the next token is handed out. -/
theorem Tokens.only {s : State K V} (h : Tokens s) (first : s.cache.nextToken = 1) {l l' : CallId}
    {key key' : K} {token : Nat} (hl : s.roles l = some (.leader key 1))
    (hl' : s.roles l' = some (.leader key' token)) : l' = l := by
  have := h.issued l' key' token hl'
  have htoken : token = 1 := by omega
  rw [htoken] at hl'
  exact h.once l' l key' key 1 hl' hl

omit [DecidableEq K] in
theorem PhaseRole.returned_of_none {role : Option (Role K)} {key : K} {r : Result V}
    (h : role = none) : PhaseRole (.returned key r) role := by
  intro r hr
  rw [h] at hr
  cases hr

omit [DecidableEq K] in
theorem PhaseRole.returned_of_some {role : Option (Role K)} {key : K} {r : Result V} {x : Role K}
    (h : role = some x) (hx : x.key = key) : PhaseRole (.returned key r) role := by
  intro r hr
  rw [h] at hr
  cases hr
  exact hx

/-- Every step keeps the bookkeeping. -/
theorem tokens_step {s t : State K V} {e : Event K V} (h : Tokens s) (hs : step s e = some t) :
    Tokens t := by
  have same : ∀ key entry, s.registered key = some entry → s.registered key = some entry :=
    fun _ _ he => he
  have erased : ∀ key k entry,
      (s.withInFlight (s.cache.inFlight.erase key)).registered k = some entry →
      s.registered k = some entry := fun _ _ _ he => (registered_erase he).2
  cases step_cases hs with
  | hit idle free stored =>
    exact h.goto _ rfl rfl rfl same (.returned_of_none (h.role idle)) (by rw [idle]; rfl)
  | miss idle free absent =>
    have role := h.role idle
    exact h.goto _ rfl rfl rfl same role (by rw [idle]; rfl)
  | recheckHit phase free stored =>
    exact h.goto _ rfl rfl rfl same (.returned_of_none (h.role phase)) (by rw [phase]; rfl)
  | join phase free absent inFlight => exact tokens_join h phase inFlight
  | elect phase free absent inFlight => exact tokens_elect h phase
  | wake phase answer =>
    obtain ⟨token, role⟩ := h.role phase
    exact h.goto _ rfl rfl rfl same (.returned_of_some role rfl) (by rw [phase]; rfl)
  | fetch phase =>
    have role := h.role phase
    exact h.advance _ (by rw [phase]; rfl) role
  | reply phase =>
    have role := h.role phase
    exact h.advance _ (by rw [phase]; rfl) role
  | claimOk phase inFlight sameToken =>
    exact h.leave _ rfl rfl rfl (erased _) ⟨_, h.role phase⟩ (by rw [phase]; rfl) gone_of_erase
  | claimError phase inFlight sameToken =>
    exact h.leave _ rfl rfl rfl (erased _) ⟨_, h.role phase⟩ (by rw [phase]; rfl) gone_of_erase
  | superseded phase other =>
    exact h.leave _ rfl rfl rfl same (.returned_of_some (h.role phase) rfl) (by rw [phase]; rfl)
      (fun entry he htok => other entry he (by rw [htok]))
  | keep phase free stored =>
    have role := h.role phase
    exact h.goto _ rfl rfl rfl same role (by rw [phase]; rfl)
  | store phase free absent =>
    have role := h.role phase
    exact h.goto _ rfl rfl rfl same role (by rw [phase]; rfl)
  | answer phase =>
    have role := h.role phase
    exact h.goto _ rfl rfl rfl same role (by rw [phase]; rfl)
  | answered phase =>
    obtain ⟨token, role⟩ := h.role phase
    exact h.goto _ rfl rfl rfl same (.returned_of_some role rfl) (by rw [phase]; rfl)
  | dropLeader phase inFlight sameToken =>
    exact h.leave _ rfl rfl rfl (erased _) trivial (by rw [phase]; rfl) gone_of_erase
  | dropSuperseded phase other =>
    exact h.leave _ rfl rfl rfl same trivial (by rw [phase]; rfl)
      (fun entry he htok => other entry he (by rw [htok]))
  | dropWaiter phase => exact h.goto _ rfl rfl rfl same trivial (by rw [phase]; rfl)
  | beginInvalidate idle =>
    have role := h.role idle
    exact h.goto _ rfl rfl rfl same role (by rw [idle]; rfl)
  | beginMatching idle =>
    have role := h.role idle
    exact h.goto _ rfl rfl rfl same role (by rw [idle]; rfl)
  | beginClear idle =>
    have role := h.role idle
    exact h.goto _ rfl rfl rfl same role (by rw [idle]; rfl)
  | invalidateInFlight phase =>
    have role := h.role phase
    exact h.goto _ rfl rfl rfl (erased _) role (by rw [phase]; rfl)
  | invalidateStore phase free => exact h.goto _ rfl rfl rfl same trivial (by rw [phase]; rfl)
  | matchNothing phase free nothing =>
    exact h.goto _ rfl rfl rfl same trivial (by rw [phase]; rfl)
  | matchStore phase free =>
    have role := h.role phase
    exact h.goto _ rfl rfl rfl same role (by rw [phase]; rfl)
  | matchInFlight phase =>
    exact h.goto _ rfl rfl rfl (fun _ _ he => (registered_cancelKeys.mp he).2) trivial
      (by rw [phase]; rfl)
  | clearInFlight phase =>
    have role := h.role phase
    exact h.goto _ rfl rfl rfl (fun _ _ he => by cases he) role (by rw [phase]; rfl)
  | clearStore phase free => exact h.goto _ rfl rfl rfl same trivial (by rw [phase]; rfl)
  | notify phase => exact h.goto _ rfl rfl rfl same trivial (by rw [phase]; rfl)
  | notified phase => exact h.goto _ rfl rfl rfl same trivial (by rw [phase]; rfl)
  | beginInsert idle =>
    have role := h.role idle
    exact h.goto _ rfl rfl rfl same role (by rw [idle]; rfl)
  | check phase free =>
    have role := h.role phase
    exact h.goto _ rfl rfl rfl same role (by rw [phase]; rfl)
  | insert phase => exact h.goto _ rfl rfl rfl same trivial (by rw [phase]; rfl)
  | skip phase => exact h.goto _ rfl rfl rfl same trivial (by rw [phase]; rfl)

theorem tokens_run {P : State K V → Event K V → Prop} {s t : State K V} {es : List (Event K V)}
    (h : Tokens s) (hrun : Run step P s es t) : Tokens t :=
  hrun.invariant h fun _ _ _ hx _ hs => tokens_step hx hs

/-- Every reachable state keeps the bookkeeping. -/
theorem tokens_reachable {s : State K V} {maxEntries : Option Nat} {err : K → SchemaRegError}
    (h : Reachable step (State.init maxEntries err) s) : Tokens s := by
  obtain ⟨es, hrun⟩ := h
  exact tokens_run (tokens_init maxEntries err) hrun

end Schemreg.CacheInner
