import Schemreg.CacheInner.Waiters

/-
  The bookkeeping law of leaders and waiters.

  `Bookkeeping` adds to the exclusive ownership of `place` whose waiter each one is: a
  waiter in a slot waits for the leader that holds the slot's token, and a call that answers
  with the outcome of a fetch answers the waiters of its own slot. So the one answer a
  waiter gets is its own leader's outcome or the cancellation error.

  A leader whose slot was removed while it was fetching is an orphan: it returns its result
  to its caller and touches nothing else.
-/

namespace Schemreg.CacheInner

open Wrapping Transition Ownership

variable {K V : Type} [DecidableEq K] {s t : State K V} {e : Event K V}

/-! ## Whose waiter it is -/

/-- The call answers its waiters with the outcome of its own fetch. -/
def Phase.delivers : Phase K V → Prop
  | .claimed _ _ _ | .answering _ _ _ => True
  | _ => False

/-- The leader that holds `token` has come to this outcome. -/
def OwnOutcome (s : State K V) (key : K) (token : Nat) (r : Result V) : Prop :=
  ∃ l, s.roles l = some (.leader key token) ∧
    ((∃ ws, s.calls l = .answering key r ws) ∨ s.calls l = .returned key r)

theorem ownOutcome_step {key : K} {token : Nat} {r : Result V} (hk : Tokens s)
    (h : OwnOutcome s key token r) (hs : step s e = some t) : OwnOutcome t key token r := by
  obtain ⟨l, role, hl⟩ := h
  refine ⟨l, roles_step hk hs role, ?_⟩
  by_cases hc : l = e.call
  · subst hc
    rcases hl with ⟨ws, hl⟩ | hl
    · cases step_cases hs with
      | @answer c key' r' w ws' phase =>
        simp only [Event.call, phase, Phase.answering.injEq] at hl
        obtain ⟨rfl, rfl, _⟩ := hl
        exact Or.inl ⟨ws', by simp [Event.call]⟩
      | @answered c key' r' phase =>
        simp only [Event.call, phase, Phase.answering.injEq] at hl
        obtain ⟨rfl, rfl, _⟩ := hl
        exact Or.inr (by simp [Event.call])
      | _ => simp_all [Event.call]
    · cases step_cases hs <;> simp_all [Event.call]
  · rw [calls_other hs hc]
    exact hl

theorem cancelledError_step (hs : step s e = some t) :
    t.cache.makeCancelledError = s.cache.makeCancelledError := by
  cases step_cases hs <;> rfl

/-- A waiter in a slot was there before, or has just joined. -/
theorem waiters_step (hs : step s e = some t) {key : K} {entry : InFlight} {w : CallId}
    (h : t.registered key = some entry) (hw : w ∈ entry.waiters) :
    (∃ entry₀, s.registered key = some entry₀ ∧ entry₀.token = entry.token ∧
      w ∈ entry₀.waiters) ∨ t.roles w = some (.waiter key entry.token) := by
  have erased : ∀ k, (s.withInFlight (s.cache.inFlight.erase k)).registered key = some entry →
      ∃ entry₀, s.registered key = some entry₀ ∧ entry₀.token = entry.token ∧
        w ∈ entry₀.waiters :=
    fun k hk => ⟨entry, (registered_erase hk).2, rfl, hw⟩
  cases step_cases hs with
  | @join c k entry₀ phase free absent inFlight =>
    have h' : (if key = k then some { entry₀ with waiters := entry₀.waiters ++ [c] }
        else s.registered key) = some entry := by
      rw [← registered_insert]; exact h
    split at h'
    · rename_i hk
      have hen := Option.some.inj h'
      subst hen hk
      rcases List.mem_append.mp hw with hw | hw
      · exact Or.inl ⟨entry₀, inFlight, rfl, hw⟩
      · have hwc : w = c := by simpa using hw
        subst hwc
        exact Or.inr (by simp)
    · exact Or.inl ⟨entry, h', rfl, hw⟩
  | @elect c k phase free absent inFlight =>
    have h' : (if key = k then some ⟨s.cache.nextToken + 1, []⟩ else s.registered key) =
        some entry := by
      rw [← registered_insert]; exact h
    split at h'
    · have hen := Option.some.inj h'
      subst hen
      cases hw
    · exact Or.inl ⟨entry, h', rfl, hw⟩
  | claimOk => exact Or.inl (erased _ (by simpa using h))
  | claimError => exact Or.inl (erased _ (by simpa using h))
  | dropLeader => exact Or.inl (erased _ (by simpa using h))
  | invalidateInFlight => exact Or.inl (erased _ (by simpa using h))
  | matchInFlight => exact Or.inl ⟨entry, (registered_cancelKeys.mp h).2, rfl, hw⟩
  | clearInFlight => cases h
  | _ => exact Or.inl ⟨entry, h, rfl, hw⟩

/-- A call has become a waiter by joining a slot. -/
theorem waiter_step (hs : step s e = some t) {key : K} {token : Nat} {w : CallId}
    (h : t.roles w = some (.waiter key token)) :
    s.roles w = some (.waiter key token) ∨ w ∈ place t (.slot key) := by
  cases step_cases hs with
  | @join c k entry phase free absent inFlight =>
    by_cases hw : w = c
    · subst hw
      have hkey : k = key := by
        have : k = key ∧ entry.token = token := by simpa using h
        exact this.1
      subst hkey
      refine Or.inr (mem_slot.mpr ⟨{ entry with waiters := entry.waiters ++ [w] }, ?_, by simp⟩)
      simp [State.registered, State.withInFlight]
    · exact Or.inl (by simpa [hw] using h)
  | @elect c k phase free absent inFlight =>
    have hw : w ≠ c := by
      rintro rfl
      simp at h
    exact Or.inl (by simpa [hw] using h)
  | _ => exact Or.inl h

/-- A waiter in the hands of a call was there before, or has just been taken out of its
    slot: by a leader whose token looks like the slot's, if the call answers with the outcome
    of a fetch. -/
theorem holds_step (hk : Tokens s) (hs : step s e = some t)
    {c w : CallId} {key : K} (h : (key, w) ∈ (t.calls c).holds) :
    ((key, w) ∈ (s.calls c).holds ∧ ((t.calls c).delivers → (s.calls c).delivers)) ∨
    (∃ entry, s.registered key = some entry ∧ w ∈ entry.waiters ∧
      ((t.calls c).delivers → ∃ token, s.roles c = some (.leader key token) ∧
        comparesToken s e = some (key, token) ∧ u64 entry.token = u64 token)) := by
  by_cases hc : c = e.call
  · subst hc
    cases step_cases hs with
    | @claimOk c k token v entry phase inFlight same =>
      have hrole : s.roles c = some (.leader k token) := hk.role phase
      have hmem : k = key ∧ w ∈ entry.waiters := by
        simpa [Event.call, Phase.holds, and_comm] using h
      obtain ⟨rfl, hw⟩ := hmem
      exact Or.inr ⟨entry, inFlight, hw, fun _ =>
        ⟨token, hrole, by simp [comparesToken, phase], same⟩⟩
    | @claimError c k token err entry phase inFlight same =>
      have hrole : s.roles c = some (.leader k token) := hk.role phase
      have hmem : k = key ∧ w ∈ entry.waiters := by
        simpa [Event.call, Phase.holds, and_comm] using h
      obtain ⟨rfl, hw⟩ := hmem
      exact Or.inr ⟨entry, inFlight, hw, fun _ =>
        ⟨token, hrole, by simp [comparesToken, phase], same⟩⟩
    | @keep c k v ws entry phase free stored =>
      refine Or.inl ⟨?_, fun _ => ?_⟩
      · simpa [Event.call, Phase.holds, phase] using h
      · simp [Event.call, phase, Phase.delivers]
    | @store c k v ws phase free absent =>
      refine Or.inl ⟨?_, fun _ => ?_⟩
      · simpa [Event.call, Phase.holds, phase] using h
      · simp [Event.call, phase, Phase.delivers]
    | @answer c k r w' ws phase =>
      have hmem : k = key ∧ w ∈ ws := by simpa [Event.call, Phase.holds, and_comm] using h
      refine Or.inl ⟨?_, fun _ => ?_⟩
      · simp [Event.call, Phase.holds, phase, hmem]
      · simp [Event.call, phase, Phase.delivers]
    | @dropLeader c k token entry phase inFlight same =>
      have hmem : k = key ∧ w ∈ entry.waiters := by
        simpa [Event.call, Phase.holds, and_comm] using h
      obtain ⟨rfl, hw⟩ := hmem
      refine Or.inr ⟨entry, inFlight, hw, fun hd => ?_⟩
      simp [Event.call, Phase.delivers] at hd
    | @invalidateInFlight c k phase =>
      have hmem : k = key ∧ w ∈ ((s.registered k).map InFlight.waiters).getD [] := by
        simpa [Event.call, Phase.holds, and_comm] using h
      obtain ⟨rfl, hw⟩ := hmem
      obtain ⟨entry, hreg, hw⟩ := mem_slot.mp hw
      refine Or.inr ⟨entry, hreg, hw, fun hd => ?_⟩
      simp [Event.call, Phase.delivers] at hd
    | @invalidateStore c k ws phase free =>
      refine Or.inl ⟨?_, fun hd => ?_⟩
      · simpa [Event.call, Phase.holds, phase] using h
      · simp [Event.call, Phase.delivers] at hd
    | @matchInFlight c removed phase =>
      have hmem : (key, w) ∈ (InMemoryCache.cancelKeys removed s.cache.inFlight).2 := by
        simpa [Event.call, Phase.holds] using h
      obtain ⟨_, entry, hreg, hw⟩ := mem_cancelKeys.mp hmem
      refine Or.inr ⟨entry, hreg, hw, fun hd => ?_⟩
      simp [Event.call, Phase.delivers] at hd
    | @clearInFlight c phase =>
      have hmem : (key, w) ∈ s.cache.drainInFlight.2 := by
        simpa [Event.call, Phase.holds] using h
      obtain ⟨entry, hreg, hw⟩ := mem_drainInFlight.mp hmem
      refine Or.inr ⟨entry, hreg, hw, fun hd => ?_⟩
      simp [Event.call, Phase.delivers] at hd
    | @clearStore c ws phase free =>
      refine Or.inl ⟨?_, fun hd => ?_⟩
      · simpa [Event.call, Phase.holds, phase] using h
      · simp [Event.call, Phase.delivers] at hd
    | @notify c k w' ws phase =>
      refine Or.inl ⟨?_, fun hd => ?_⟩
      · have hmem : (key, w) ∈ ws := by simpa [Event.call, Phase.holds] using h
        simp [Event.call, Phase.holds, phase, hmem]
      · simp [Event.call, Phase.delivers] at hd
    | _ => simp [Event.call, Phase.holds] at h
  · rw [calls_other hs hc] at h ⊢
    exact Or.inl ⟨h, fun hd => hd⟩

/-- The bookkeeping of leaders and waiters. -/
structure Bookkeeping (s : State K V) : Prop where
  tokens : Tokens s
  exclusive : Exclusive (place s)
  owned : ∀ w key token, s.roles w = some (.waiter key token) → ∃ o, w ∈ place s o
  slots : ∀ key entry w, s.registered key = some entry → w ∈ entry.waiters →
    s.roles w = some (.waiter key entry.token)
  hands : ∀ c key w, (key, w) ∈ (s.calls c).holds → ∃ token, s.roles w = some (.waiter key token) ∧
    ((s.calls c).delivers → s.roles c = some (.leader key token))
  channels : ∀ w r, r ∈ s.answers w → ∃ key token, s.roles w = some (.waiter key token) ∧
    (r = .error (s.cache.makeCancelledError key) ∨ OwnOutcome s key token r)

theorem bookkeeping_init (maxEntries : Option Nat) (err : K → SchemaRegError) :
    Bookkeeping (State.init maxEntries err : State K V) where
  tokens := tokens_init maxEntries err
  exclusive := by
    have hempty : place (State.init maxEntries err : State K V) = fun _ => [] := by
      funext o
      cases o <;> rfl
    rw [hempty]
    exact Exclusive.empty
  owned _ _ _ h := by cases h
  slots key entry w h := by
    simp [State.init, State.registered, InMemoryCache.new] at h
  hands _ _ _ h := by cases h
  channels _ _ h := by cases h

/-- Only waiters are held. -/
theorem Bookkeeping.role (h : Bookkeeping s) {o : Owner K} {w : CallId} (hw : w ∈ place s o) :
    ∃ key token, s.roles w = some (.waiter key token) := by
  cases o with
  | slot key =>
    obtain ⟨entry, hreg, hmem⟩ := mem_slot.mp hw
    exact ⟨key, entry.token, h.slots key entry w hreg hmem⟩
  | call c =>
    obtain ⟨⟨key, w'⟩, hmem, rfl⟩ := List.mem_map.mp hw
    obtain ⟨token, hrole, _⟩ := h.hands c key w' hmem
    exact ⟨key, token, hrole⟩
  | channel w' =>
    obtain ⟨r, hr, rfl⟩ := List.mem_map.mp hw
    obtain ⟨key, token, hrole, _⟩ := h.channels w' r hr
    exact ⟨key, token, hrole⟩

theorem bookkeeping_step (h : Bookkeeping s) (apart : TokensApart s e) (hs : step s e = some t) :
    Bookkeeping t where
  tokens := tokens_step h.tokens hs
  exclusive := by
    refine exclusive_step h.exclusive (moved_step hs) ?_
    intro c key hc o ho
    have hnone : s.roles c = none := h.tokens.role hc
    obtain ⟨k, token, hrole⟩ := h.role ho
    rw [hnone] at hrole
    cases hrole
  owned w key token hw := by
    rcases waiter_step hs hw with hold | hjoined
    · obtain ⟨o, ho⟩ := h.owned w key token hold
      exact held_step (moved_step hs) ho
    · exact ⟨.slot key, hjoined⟩
  slots key entry w hreg hw := by
    rcases waiters_step hs hreg hw with ⟨entry₀, hreg₀, htok, hw₀⟩ | hrole
    · rw [← htok]
      exact roles_step h.tokens hs (h.slots key entry₀ w hreg₀ hw₀)
    · exact hrole
  hands c key w hw := by
    rcases holds_step h.tokens hs hw with ⟨hold, hd⟩ | ⟨entry, hreg, hmem, hdelivers⟩
    · obtain ⟨token, hwaiter, hleader⟩ := h.hands c key w hold
      exact ⟨token, roles_step h.tokens hs hwaiter,
        fun hdel => roles_step h.tokens hs (hleader (hd hdel))⟩
    · refine ⟨entry.token, roles_step h.tokens hs (h.slots key entry w hreg hmem), fun hdel => ?_⟩
      obtain ⟨token, hrole, hcmp, hu⟩ := hdelivers hdel
      rw [apart key token entry hcmp hreg hu]
      exact roles_step h.tokens hs hrole
  channels w r hr := by
    rw [cancelledError_step hs]
    rcases answers_step hs hr with hold | ⟨c, key, ws, rfl, phase⟩ | ⟨c, key, ws, rfl, phase, rfl⟩
    · obtain ⟨key, token, hrole, hout⟩ := h.channels w r hold
      refine ⟨key, token, roles_step h.tokens hs hrole, ?_⟩
      rcases hout with hcancel | hown
      · exact Or.inl hcancel
      · exact Or.inr (ownOutcome_step h.tokens hown hs)
    · obtain ⟨token, hrole, hleader⟩ := h.hands c key w (by simp [phase, Phase.holds])
      refine ⟨key, token, roles_step h.tokens hs hrole, Or.inr ?_⟩
      refine ownOutcome_step h.tokens ⟨c, hleader ?_, Or.inl ⟨w :: ws, phase⟩⟩ hs
      simp [phase, Phase.delivers]
    · obtain ⟨token, hrole, _⟩ := h.hands c key w (by simp [phase, Phase.holds])
      exact ⟨key, token, roles_step h.tokens hs hrole, Or.inl rfl⟩

theorem bookkeeping_run {maxEntries : Option Nat} {err : K → SchemaRegError}
    (hreach : Reachable step (State.init maxEntries err) s) (hle : s.cache.nextToken ≤ 2 ^ 64) :
    Bookkeeping s := by
  obtain ⟨es, hrun⟩ := hreach
  refine (run_tokensApart (tokens_init maxEntries err) hrun hle).invariant
    (bookkeeping_init maxEntries err) ?_
  exact fun _ _ _ hx guard hs => bookkeeping_step hx guard.1 hs

/-! ## A leader without a slot -/

/-- Leader `l` has lost its slot before it claimed it, and may have returned since. -/
def Orphan (l : CallId) (key : K) (token : Nat) (s : State K V) : Prop :=
  ((s.calls l).leads = some (key, token) ∧ token ≤ s.cache.nextToken ∧ Lost s key token) ∨
    (∃ r, s.calls l = .returned key r) ∨ s.calls l = .finished

/-- An orphan stays one, and its own steps leave the cache and the channels alone. -/
theorem orphan_step {l : CallId} {key : K} {token : Nat} (h : Orphan l key token s)
    (apart : TokensApart s e) (hs : step s e = some t) :
    Orphan l key token t ∧ (e.call = l → t.cache = s.cache ∧ t.answers = s.answers) := by
  by_cases hc : e.call = l
  · subst hc
    rcases h with ⟨hl, hle, lost⟩ | ⟨r, hr⟩ | hf
    · cases step_cases hs with
      | @fetch c k tok phase =>
        have heq : k = key ∧ tok = token := by simpa [Event.call, phase, Phase.leads] using hl
        obtain ⟨rfl, rfl⟩ := heq
        exact ⟨Or.inl ⟨by simp [Event.call, Phase.leads], hle, lost⟩, fun _ => ⟨rfl, rfl⟩⟩
      | @reply c k tok r phase =>
        have heq : k = key ∧ tok = token := by simpa [Event.call, phase, Phase.leads] using hl
        obtain ⟨rfl, rfl⟩ := heq
        exact ⟨Or.inl ⟨by simp [Event.call, Phase.leads], hle, lost⟩, fun _ => ⟨rfl, rfl⟩⟩
      | @claimOk c k tok v entry phase inFlight same =>
        have heq : k = key ∧ tok = token := by simpa [Event.call, phase, Phase.leads] using hl
        obtain ⟨rfl, rfl⟩ := heq
        exact absurd (apart k tok entry (by simp [comparesToken, phase]) inFlight same)
          (lost entry inFlight)
      | @claimError c k tok err entry phase inFlight same =>
        have heq : k = key ∧ tok = token := by simpa [Event.call, phase, Phase.leads] using hl
        obtain ⟨rfl, rfl⟩ := heq
        exact absurd (apart k tok entry (by simp [comparesToken, phase]) inFlight same)
          (lost entry inFlight)
      | @dropLeader c k tok entry phase inFlight same =>
        have heq : k = key ∧ tok = token := by simpa [Event.call, phase, Phase.leads] using hl
        obtain ⟨rfl, rfl⟩ := heq
        exact absurd (apart k tok entry (by simp [comparesToken, phase]) inFlight same)
          (lost entry inFlight)
      | @superseded c k tok r phase other =>
        have heq : k = key ∧ tok = token := by simpa [Event.call, phase, Phase.leads] using hl
        obtain ⟨rfl, rfl⟩ := heq
        exact ⟨Or.inr (Or.inl ⟨r, by simp [Event.call]⟩), fun _ => ⟨rfl, rfl⟩⟩
      | dropSuperseded phase =>
        exact ⟨Or.inr (Or.inr (by simp [Event.call])), fun _ => ⟨rfl, rfl⟩⟩
      | _ => simp_all [Event.call, Phase.leads]
    · cases step_cases hs <;> simp_all [Event.call]
    · cases step_cases hs <;> simp_all [Event.call]
  · refine ⟨?_, fun h' => absurd h' hc⟩
    have hcalls := calls_other hs (Ne.symm hc)
    rcases h with ⟨hl, hle, lost⟩ | h
    · exact Or.inl ⟨by rw [hcalls]; exact hl, Nat.le_trans hle (nextToken_step hs),
        lost_step lost hle hs⟩
    · rw [Orphan, hcalls]
      exact Or.inr h

/-! ## The bookkeeping law -/

/-- Waiter `w` is in exactly one slot, that of its own leader; or in the hands of exactly
    one call; or answered exactly once, with its own leader's outcome or the cancellation
    error. -/
def Accounted (s : State K V) (w : CallId) (key : K) (token : Nat) : Prop :=
  (∃ entry, s.registered key = some entry ∧ entry.token = token ∧ entry.waiters.count w = 1 ∧
    ∀ o, w ∈ place s o → o = .slot key) ∨
  (∃ c, (s.calls c).hands.count w = 1 ∧ ∀ o, w ∈ place s o → o = .call c) ∨
  (∃ r, s.answers w = [r] ∧
    (r = .error (s.cache.makeCancelledError key) ∨ OwnOutcome s key token r) ∧
    ∀ o, w ∈ place s o → o = .channel w)

theorem Bookkeeping.accounted (h : Bookkeeping s) {w : CallId} {key : K} {token : Nat}
    (role : s.roles w = some (.waiter key token)) : Accounted s w key token := by
  obtain ⟨o, ho⟩ := h.owned w key token role
  have hall : ∀ o', w ∈ place s o' → o' = o := fun o' ho' => h.exclusive.unique o' o w ho' ho
  have honce := h.exclusive.once o
  cases o with
  | slot k =>
    obtain ⟨entry, hreg, hmem⟩ := mem_slot.mp ho
    have hrole := h.slots k entry w hreg hmem
    rw [role] at hrole
    have heq : key = k ∧ token = entry.token := by simpa using hrole
    obtain ⟨rfl, rfl⟩ := heq
    have hnodup : entry.waiters.Nodup := by simpa [place, hreg] using honce
    exact Or.inl ⟨entry, hreg, rfl, List.count_eq_one_of_mem hnodup hmem, hall⟩
  | call c => exact Or.inr (Or.inl ⟨c, List.count_eq_one_of_mem honce ho, hall⟩)
  | channel w' =>
    have hw := mem_channel ho
    subst hw
    have hone : ∃ r, s.answers w = [r] := by
      cases hans : s.answers w with
      | nil => simp [place, hans] at ho
      | cons r rs =>
        cases rs with
        | nil => exact ⟨r, rfl⟩
        | cons r' rs => simp [place, hans] at honce
    obtain ⟨r, hr⟩ := hone
    obtain ⟨k, tok, hrole, hout⟩ := h.channels w r (by simp [hr])
    rw [role] at hrole
    have heq : key = k ∧ token = tok := by simpa using hrole
    obtain ⟨rfl, rfl⟩ := heq
    exact Or.inr (Or.inr ⟨r, hr, hout, hall⟩)

/-- Leader and waiter bookkeeping, in every reachable state with at most `2^64` leaders so
    far. Every slot belongs to exactly one live leader, and no token is handed out twice;
    every waiter is accounted for; and a leader whose slot is gone before it claimed it
    never changes the cache or answers anyone afterwards. -/
theorem leader_waiter_bookkeeping {maxEntries : Option Nat} {err : K → SchemaRegError}
    (hreach : Reachable step (State.init maxEntries err) s) (hle : s.cache.nextToken ≤ 2 ^ 64) :
    (∀ key entry, s.registered key = some entry →
      ∃! l, ∃ token, (s.calls l).leads = some (key, token) ∧ u64 token = u64 entry.token) ∧
    (∀ l l' key key' token token', s.roles l = some (.leader key token) →
      s.roles l' = some (.leader key' token') → u64 token = u64 token' → l = l') ∧
    (∀ w key token, s.roles w = some (.waiter key token) → Accounted s w key token) ∧
    (∀ l key token, (s.calls l).leads = some (key, token) → Lost s key token →
      ∀ s' e t, Reachable step s s' → s'.cache.nextToken ≤ 2 ^ 64 → step s' e = some t →
        e.call = l → t.cache = s'.cache ∧ t.answers = s'.answers) := by
  have hbook := bookkeeping_run hreach hle
  have hk := hbook.tokens
  have apart : ∀ l l' key key' token token', s.roles l = some (.leader key token) →
      s.roles l' = some (.leader key' token') → u64 token = u64 token' → l = l' := by
    intro l l' key key' token token' hl hl' hu
    have := hk.issued l key token hl
    have := hk.issued l' key' token' hl'
    have htok : token = token' := by
      rw [u64_eq_iff] at hu
      omega
    exact hk.once l l' key key' token hl (htok ▸ hl')
  refine ⟨?_, apart, fun w key token hw => hbook.accounted hw, ?_⟩
  · intro key entry hreg
    obtain ⟨l, hl⟩ := hk.live key entry hreg
    refine ⟨l, ⟨entry.token, hl, rfl⟩, ?_⟩
    rintro l' ⟨token', hl', hu⟩
    exact apart l' l key key token' entry.token ((hk.phase l').of_leads hl')
      ((hk.phase l).of_leads hl) hu
  · intro l key token hl lost s' e t hreach' hle' hs hcall
    obtain ⟨es, hrun⟩ := hreach'
    have hbound := (hk.issued l key token ((hk.phase l).of_leads hl)).2
    have horphan : Orphan l key token s' :=
      (run_tokensApart hk hrun hle').invariant (Or.inl ⟨hl, hbound, lost⟩)
        fun _ _ _ hx guard hs => (orphan_step hx guard.1 hs).1
    exact (orphan_step horphan (tokensApart_of_le (tokens_run hk hrun) hle') hs).2 hcall

/-- A leader and a caller that joined it: the waiter is in the slot of its leader. -/
theorem one_waiter_accounted :
    ∃ s : State Nat Nat, s.roles 1 = some (.waiter 7 1) ∧ Accounted s 1 7 1 := by
  obtain ⟨s, hexec, hrole, htok⟩ : ∃ s : State Nat Nat,
      exec step (State.init (some 1000) fun _ => .invalidState "cancelled")
        [.begin 0 (.getOrFetch 7), .resume 0, .resume 0, .begin 1 (.getOrFetch 7), .resume 1] =
          some s ∧
      s.roles 1 = some (.waiter 7 1) ∧ s.cache.nextToken = 1 :=
    ⟨_, rfl, by decide, rfl⟩
  have hbook := leader_waiter_bookkeeping (Reachable.of_exec hexec) (by rw [htok]; decide)
  exact ⟨s, hrole, hbook.2.2.1 1 7 1 hrole⟩

/-- `n` callers with different keys lead one fetch each. -/
theorem leaders_elect (n : Nat) : ∃ s : State Nat Nat,
    Reachable step (State.init (some 1000) fun _ => .invalidState "cancelled") s ∧
    s.cache.nextToken = n ∧ s.writer = none ∧ (∀ k, s.lookup k = none) ∧
    (∀ k, n ≤ k → s.registered k = none) ∧ (∀ j, n ≤ j → s.calls j = .idle) ∧
    ∀ j, j < n → s.roles j = some (.leader j (j + 1)) := by
  induction n with
  | zero =>
    refine ⟨_, Reachable.refl, rfl, rfl, fun _ => rfl, fun _ _ => ?_, fun _ _ => rfl, ?_⟩
    · simp [State.init, State.registered, InMemoryCache.new]
    · intro j hj
      omega
  | succ n ih =>
    obtain ⟨s, hreach, htok, hfree, habsent, hreg, hidle, hroles⟩ := ih
    have hmiss : step s (.begin n (.getOrFetch n)) = some (s.goto n (.missed n)) := by
      simp [step, start, whenUnlocked, hidle n (Nat.le_refl n), hfree,
        get_eq_none_iff.mpr (habsent n)]
    have helect : ∃ t, step (s.goto n (.missed n)) (.resume n) = some t ∧
        t.cache.nextToken = n + 1 ∧ t.writer = none ∧ t.cache.store = s.cache.store ∧
        (∀ k, k ≠ n → t.registered k = s.registered k) ∧ (∀ j, j ≠ n → t.calls j = s.calls j) ∧
        t.roles n = some (.leader n (n + 1)) ∧ ∀ j, j ≠ n → t.roles j = s.roles j := by
      have hget : s.cache.get n = none := get_eq_none_iff.mpr (habsent n)
      have hnone : s.cache.inFlight.lookup n = none := hreg n (Nat.le_refl n)
      refine ⟨_, by simp [step, resume, whenUnlocked, hfree, select,
        InMemoryCache.selectRole, hget, hnone]; rfl, ?_, ?_, ?_, ?_, ?_, ?_, ?_⟩
      · simp [htok]
      · simp
      · simp
      · intro k hk
        simp [State.registered, AList.lookup_insert_ne hk]
      · intro j hj
        simp [hj]
      · simp [htok]
      · intro j hj
        simp [hj]
    obtain ⟨t, hstep, htok', hfree', hstore, hreg', hcalls, hrole, hroles'⟩ := helect
    refine ⟨t, (hreach.tail hmiss).tail hstep, htok', hfree', ?_, ?_, ?_, ?_⟩
    · intro k
      have : t.lookup k = s.lookup k := by rw [State.lookup, hstore]; rfl
      rw [this]
      exact habsent k
    · intro k hk
      rw [hreg' k (by omega)]
      exact hreg k (by omega)
    · intro j hj
      rw [hcalls j (by omega)]
      exact hidle j (by omega)
    · intro j hj
      by_cases hjn : j = n
      · subst hjn; exact hrole
      · rw [hroles' j hjn]
        exact hroles j (by omega)

/-- Tokens are handed out again: leader number `2^64` gets the token of the first one, and
    both fetches are in flight. -/
theorem tokens_wrap :
    ¬ ∀ s : State Nat Nat,
      Reachable step (State.init (some 1000) fun _ => .invalidState "cancelled") s →
      ∀ l l' key key' token token', s.roles l = some (.leader key token) →
        s.roles l' = some (.leader key' token') → u64 token = u64 token' → l = l' := by
  intro h
  obtain ⟨s, hreach, _, _, _, _, _, hroles⟩ := leaders_elect (2 ^ 64 + 1)
  have hsame : u64 (0 + 1) = u64 (2 ^ 64 + 1) := by
    rw [Nat.add_comm (2 ^ 64) 1]
    exact (u64_period 1).symm
  have := h s hreach 0 (2 ^ 64) 0 (2 ^ 64) (0 + 1) (2 ^ 64 + 1) (hroles 0 (by omega))
    (hroles (2 ^ 64) (by omega)) hsame
  exact absurd this (by decide)

end Schemreg.CacheInner
