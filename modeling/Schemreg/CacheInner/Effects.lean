import Schemreg.CacheInner.Tokens

/-
  Where things come from.

  One lemma for each component of the state that the invariants speak about: if the
  component has some value after a step, then it had it before, or the step is one of the
  few that put it there. The invariants are stated about components, and each of their
  proofs uses these lemmas instead of a case analysis over all the steps.
-/

namespace Schemreg.CacheInner

open Wrapping Transition

variable {K V : Type} [DecidableEq K] {s t : State K V} {e : Event K V}

/-- The call that takes a step. -/
def Event.call : Event K V → CallId
  | .begin c _ | .resume c | .reply c _ | .drop c => c

/-- A step moves one call. -/
theorem calls_other (hs : step s e = some t) {d : CallId} (hd : d ≠ e.call) :
    t.calls d = s.calls d := by
  cases step_cases hs <;> simp only [Event.call] at hd <;> simp [hd]

/-- A run moves only the calls of its events. -/
theorem calls_run {P : State K V → Event K V → Prop} {es : List (Event K V)}
    (hrun : Run step P s es t) {d : CallId} (hd : ∀ e ∈ es, e.call ≠ d) :
    t.calls d = s.calls d := by
  induction hrun with
  | nil => rfl
  | snoc _ _ last ih =>
    rw [calls_other last (Ne.symm (hd _ (by simp)))]
    exact ih fun e he => hd e (by simp [he])

/-- What a step says about the call that takes it: `Step` without the rest of the state. -/
theorem calls_caller (hs : step s e = some t) {c : CallId} {phase : Phase K V}
    (hc : t.calls c = phase) (moved : s.calls c ≠ phase) : e.call = c := by
  by_contra hd
  exact moved ((calls_other hs (Ne.symm hd)).symm.trans hc)

/-! ## The store -/

/-- An entry is put into the store by a leader that claimed its slot, or by an
    `insert_if_current` whose check passed. -/
theorem lookup_step (hs : step s e = some t) {k : K} {en : Entry V}
    (h : t.lookup k = some en) :
    s.lookup k = some en ∨
    (∃ ws, e = .resume en.writer ∧ s.calls en.writer = .claimed k en.value ws ∧
      s.lookup k = none ∧ s.writer = none) ∨
    (e = .resume en.writer ∧ s.calls en.writer = .checked k en.value true) := by
  cases step_cases hs with
  | store phase free absent =>
    rcases Store.lookup_insertLocked (by simpa using h) with ⟨rfl, rfl⟩ | ⟨_, h'⟩
    · exact Or.inr (Or.inl ⟨_, rfl, phase, absent, free⟩)
    · exact Or.inl h'
  | insert phase =>
    rcases Store.lookup_insertLocked h with ⟨rfl, rfl⟩ | ⟨_, h'⟩
    · exact Or.inr (Or.inr ⟨rfl, phase⟩)
    · exact Or.inl h'
  | @invalidateStore c key ws phase free =>
    have hrem : (s.cache.store.remove key).lookup k = some en := by simpa using h
    rw [Store.lookup_remove] at hrem
    split at hrem
    · cases hrem
    · exact Or.inl hrem
  | matchStore phase free =>
    exact Or.inl (Store.lookup_removeMatching.mp (by simpa using h)).1
  | clearStore phase free => simp at h
  | _ => exact Or.inl h

/-! ## The registered fetches -/

/-- A fetch is registered by the role section of its leader; waiters join it without
    touching its token. -/
theorem registered_step (hs : step s e = some t) {k : K} {en : InFlight}
    (h : t.registered k = some en) :
    (∃ en₀, s.registered k = some en₀ ∧ en₀.token = en.token) ∨
    (∃ c, e = .resume c ∧ s.calls c = .missed k ∧ s.registered k = none ∧ s.lookup k = none ∧
      s.writer = none ∧ en.token = s.cache.nextToken + 1 ∧
      t.calls c = .elected k en.token) := by
  have erased : ∀ key, (s.withInFlight (s.cache.inFlight.erase key)).registered k = some en →
      ∃ en₀, s.registered k = some en₀ ∧ en₀.token = en.token :=
    fun key hk => ⟨en, (registered_erase hk).2, rfl⟩
  cases step_cases hs with
  | @join c key entry phase free absent inFlight =>
    have h' : (if k = key then some { entry with waiters := entry.waiters ++ [c] }
        else s.registered k) = some en := by
      rw [← registered_insert]; exact h
    split at h'
    · rename_i hk
      have hen := Option.some.inj h'
      subst hen hk
      exact Or.inl ⟨entry, inFlight, rfl⟩
    · exact Or.inl ⟨en, h', rfl⟩
  | @elect c key phase free absent inFlight =>
    have h' : (if k = key then some ⟨s.cache.nextToken + 1, []⟩ else s.registered k) =
        some en := by
      rw [← registered_insert]; exact h
    split at h'
    · rename_i hk
      have hen := Option.some.inj h'
      subst hen hk
      exact Or.inr ⟨c, rfl, phase, inFlight, absent, free, rfl, by simp⟩
    · exact Or.inl ⟨en, h', rfl⟩
  | claimOk => exact Or.inl (erased _ (by simpa using h))
  | claimError => exact Or.inl (erased _ (by simpa using h))
  | dropLeader => exact Or.inl (erased _ (by simpa using h))
  | invalidateInFlight => exact Or.inl (erased _ (by simpa using h))
  | matchInFlight => exact Or.inl ⟨en, (registered_cancelKeys.mp h).2, rfl⟩
  | clearInFlight => cases h
  | _ => exact Or.inl ⟨en, h, rfl⟩

/-! ## The counters and the roles -/

theorem nextToken_step (hs : step s e = some t) : s.cache.nextToken ≤ t.cache.nextToken := by
  cases step_cases hs with
  | elect => simp
  | _ => exact Nat.le_refl _

theorem generation_step (hs : step s e = some t) : s.generation ≤ t.generation := by
  cases step_cases hs with
  | beginInvalidate => exact Nat.le_succ _
  | beginMatching => exact Nat.le_succ _
  | beginClear => exact Nat.le_succ _
  | _ => exact Nat.le_refl _

/-- A role is decided once. -/
theorem roles_step (hk : Tokens s) (hs : step s e = some t) {c : CallId} {role : Role K}
    (h : s.roles c = some role) : t.roles c = some role := by
  have undecided : ∀ {d key}, s.calls d = .missed key → c ≠ d := by
    intro d key hd hcd
    have : s.roles d = none := hk.role hd
    rw [← hcd, h] at this
    cases this
  cases step_cases hs with
  | join phase => simpa [undecided phase] using h
  | elect phase => simpa [undecided phase] using h
  | _ => exact h

/-- The role of a call is decided by its role section. -/
theorem role_step (hs : step s e = some t) {c : CallId} {role : Role K}
    (h : t.roles c = some role) :
    s.roles c = some role ∨ (e = .resume c ∧ ∃ key, s.calls c = .missed key) := by
  cases step_cases hs with
  | @join d key entry phase =>
    by_cases hc : c = d
    · exact Or.inr ⟨by rw [hc], key, by rw [hc]; exact phase⟩
    · exact Or.inl (by simpa [hc] using h)
  | @elect d key phase =>
    by_cases hc : c = d
    · exact Or.inr ⟨by rw [hc], key, by rw [hc]; exact phase⟩
    · exact Or.inl (by simpa [hc] using h)
  | _ => exact Or.inl h

/-! ## The phases -/

theorem missed_step (hs : step s e = some t) {c : CallId} {k : K} (h : t.calls c = .missed k) :
    s.calls c = .missed k ∨ e = .begin c (.getOrFetch k) := by
  by_cases hstay : s.calls c = .missed k
  · exact Or.inl hstay
  · have hcall := calls_caller hs h hstay
    cases step_cases hs <;> simp only [Event.call] at hcall <;> subst hcall <;> simp at h
    case miss key idle free absent =>
      subst h
      exact Or.inr rfl

theorem elected_step (hs : step s e = some t) {c : CallId} {k : K} {token : Nat}
    (h : t.calls c = .elected k token) :
    s.calls c = .elected k token ∨ s.calls c = .missed k := by
  by_cases hstay : s.calls c = .elected k token
  · exact Or.inl hstay
  · have hcall := calls_caller hs h hstay
    cases step_cases hs <;> simp only [Event.call] at hcall <;> subst hcall <;> simp at h
    case elect key phase free absent inFlight =>
      obtain ⟨rfl, rfl⟩ := h
      exact Or.inr phase

/-- A leader starts its fetch when it is polled. -/
theorem polled_step {c : CallId} {k : K} {token : Nat} (h : s.calls c = .elected k token)
    (hs : step s (.resume c) = some t) : t.calls c = .fetching k token := by
  cases step_cases hs with
  | @fetch _ k' token' phase =>
    rw [h] at phase
    cases phase
    simp
  | _ => simp_all

theorem fetching_step (hs : step s e = some t) {c : CallId} {k : K} {token : Nat}
    (h : t.calls c = .fetching k token) :
    s.calls c = .fetching k token ∨ (e = .resume c ∧ s.calls c = .elected k token) := by
  by_cases hstay : s.calls c = .fetching k token
  · exact Or.inl hstay
  · have hcall := calls_caller hs h hstay
    cases step_cases hs <;> simp only [Event.call] at hcall <;> subst hcall <;> simp at h
    case fetch key token' phase =>
      obtain ⟨rfl, rfl⟩ := h
      exact Or.inr ⟨rfl, phase⟩

/-- A leader claims its slot when its fetch is complete and the slot holds its token. -/
theorem claimed_step (hs : step s e = some t) {c : CallId} {k : K} {v : V} {ws : List CallId}
    (h : t.calls c = .claimed k v ws) :
    s.calls c = .claimed k v ws ∨
    (∃ token en, e = .resume c ∧ s.calls c = .fetched k token (.ok v) ∧
      s.registered k = some en ∧ u64 en.token = u64 token ∧ en.waiters = ws) := by
  by_cases hstay : s.calls c = .claimed k v ws
  · exact Or.inl hstay
  · have hcall := calls_caller hs h hstay
    cases step_cases hs <;> simp only [Event.call] at hcall <;> subst hcall <;> simp at h
    case claimOk key token v' en phase inFlight same =>
      obtain ⟨rfl, rfl, rfl⟩ := h
      exact Or.inr ⟨token, en, rfl, phase, inFlight, same, rfl⟩

/-- The result of a fetch is the reply of its future. -/
theorem fetched_step (hs : step s e = some t) {c : CallId} {k : K} {token : Nat} {r : Result V}
    (h : t.calls c = .fetched k token r) :
    s.calls c = .fetched k token r ∨ (e = .reply c r ∧ s.calls c = .fetching k token) := by
  by_cases hstay : s.calls c = .fetched k token r
  · exact Or.inl hstay
  · have hcall := calls_caller hs h hstay
    cases step_cases hs <;> simp only [Event.call] at hcall <;> subst hcall <;> simp at h
    case reply key tok r' phase =>
      obtain ⟨rfl, rfl, rfl⟩ := h
      exact Or.inr ⟨rfl, phase⟩

theorem inserting_step (hs : step s e = some t) {c : CallId} {k : K} {v : V} {g : Nat}
    (h : t.calls c = .inserting k v g) :
    s.calls c = .inserting k v g ∨ (e = .begin c (.insertIfCurrent k v g) ∧ s.calls c = .idle) := by
  by_cases hstay : s.calls c = .inserting k v g
  · exact Or.inl hstay
  · have hcall := calls_caller hs h hstay
    cases step_cases hs <;> simp only [Event.call] at hcall <;> subst hcall <;> simp at h
    case beginInsert key v' g' idle =>
      obtain ⟨rfl, rfl, rfl⟩ := h
      exact Or.inr ⟨rfl, idle⟩

/-- The check of `insert_if_current` compares the generation of the moment with the one
    that was sampled, and takes the store's lock. -/
theorem checked_step (hs : step s e = some t) {c : CallId} {k : K} {v : V} {b : Bool}
    (h : t.calls c = .checked k v b) :
    s.calls c = .checked k v b ∨
    (∃ g, e = .resume c ∧ s.calls c = .inserting k v g ∧ s.writer = none ∧ t.writer = some c ∧
      b = decide (u64 s.generation = u64 g)) := by
  by_cases hstay : s.calls c = .checked k v b
  · exact Or.inl hstay
  · have hcall := calls_caller hs h hstay
    cases step_cases hs <;> simp only [Event.call] at hcall <;> subst hcall <;> simp at h
    case check key v' g phase free =>
      obtain ⟨rfl, rfl, rfl⟩ := h
      exact Or.inr ⟨g, rfl, phase, free, rfl, rfl⟩

/-- What a leader answers its waiters with: what it stored, what it found stored, or the
    error of its fetch. -/
theorem answering_step (hs : step s e = some t) {c : CallId} {k : K} {r : Result V}
    {ws : List CallId} (h : t.calls c = .answering k r ws) :
    s.calls c = .answering k r ws ∨ (∃ w, e = .resume c ∧ s.calls c = .answering k r (w :: ws)) ∨
    (∃ v en, e = .resume c ∧ s.calls c = .claimed k v ws ∧ s.lookup k = some en ∧
      r = .ok en.value) ∨
    (∃ v, e = .resume c ∧ s.calls c = .claimed k v ws ∧ r = .ok v) ∨
    (∃ token err, e = .resume c ∧ s.calls c = .fetched k token (.error err) ∧ r = .error err) := by
  by_cases hstay : s.calls c = .answering k r ws
  · exact Or.inl hstay
  · refine Or.inr ?_
    have hcall := calls_caller hs h hstay
    cases step_cases hs <;> simp only [Event.call] at hcall <;> subst hcall <;> simp at h
    case claimError key token err en phase inFlight same =>
      obtain ⟨rfl, rfl, rfl⟩ := h
      exact Or.inr (Or.inr (Or.inr ⟨token, err, rfl, phase, rfl⟩))
    case keep key v ws' en phase free stored =>
      obtain ⟨rfl, rfl, rfl⟩ := h
      exact Or.inr (Or.inl ⟨v, en, rfl, phase, stored, rfl⟩)
    case store key v ws' phase free absent =>
      obtain ⟨rfl, rfl, rfl⟩ := h
      exact Or.inr (Or.inr (Or.inl ⟨v, rfl, phase, rfl⟩))
    case answer key r' w ws' phase =>
      obtain ⟨rfl, rfl, rfl⟩ := h
      exact Or.inl ⟨w, rfl, phase⟩

/-- What a call returns: a stored value, the answer on its channel, or what its fetch
    gave. -/
theorem returned_step (hs : step s e = some t) {c : CallId} {k : K} {r : Result V}
    (h : t.calls c = .returned k r) :
    s.calls c = .returned k r ∨
    (∃ en, (e = .begin c (.getOrFetch k) ∨ (e = .resume c ∧ s.calls c = .missed k)) ∧
      s.lookup k = some en ∧ r = .ok en.value) ∨
    (e = .resume c ∧ s.calls c = .waiting k ∧ r ∈ s.answers c) ∨
    (∃ token, e = .resume c ∧ s.calls c = .fetched k token r) ∨
    (e = .resume c ∧ s.calls c = .answering k r []) := by
  by_cases hstay : s.calls c = .returned k r
  · exact Or.inl hstay
  · refine Or.inr ?_
    have hcall := calls_caller hs h hstay
    cases step_cases hs <;> simp only [Event.call] at hcall <;> subst hcall <;> simp at h
    case hit key en idle free stored =>
      obtain ⟨rfl, rfl⟩ := h
      exact Or.inl ⟨en, Or.inl rfl, stored, rfl⟩
    case recheckHit key en phase free stored =>
      obtain ⟨rfl, rfl⟩ := h
      exact Or.inl ⟨en, Or.inr ⟨rfl, phase⟩, stored, rfl⟩
    case wake key r' rs phase answer =>
      obtain ⟨rfl, rfl⟩ := h
      exact Or.inr (Or.inl ⟨rfl, phase, by simp [answer]⟩)
    case superseded key token r' phase other =>
      obtain ⟨rfl, rfl⟩ := h
      exact Or.inr (Or.inr (Or.inl ⟨token, rfl, phase⟩))
    case answered key r' phase =>
      obtain ⟨rfl, rfl⟩ := h
      exact Or.inr (Or.inr (Or.inr ⟨rfl, phase⟩))

/-- What is sent on a waiter's channel: its leader's outcome, or the cancellation error. -/
theorem answers_step (hs : step s e = some t) {w : CallId} {r : Result V}
    (h : r ∈ t.answers w) :
    r ∈ s.answers w ∨
    (∃ c k ws, e = .resume c ∧ s.calls c = .answering k r (w :: ws)) ∨
    (∃ c k ws, e = .resume c ∧ s.calls c = .notifying ((k, w) :: ws) ∧
      r = .error (s.cache.makeCancelledError k)) := by
  cases step_cases hs with
  | @answer c key r' w' ws phase =>
    by_cases hw : w = w'
    · subst hw
      have h' : r ∈ s.answers w ∨ r = r' := by simpa using h
      rcases h' with h' | rfl
      · exact Or.inl h'
      · exact Or.inr (Or.inl ⟨c, key, ws, rfl, phase⟩)
    · exact Or.inl (by simpa [hw] using h)
  | @notify c key w' ws phase =>
    by_cases hw : w = w'
    · subst hw
      have h' : r ∈ s.answers w ∨ r = .error (s.cache.makeCancelledError key) := by simpa using h
      rcases h' with h' | rfl
      · exact Or.inl h'
      · exact Or.inr (Or.inr ⟨c, key, ws, rfl, phase, rfl⟩)
    · exact Or.inl (by simpa [hw] using h)
  | _ => exact Or.inl h

/-! ## The store's lock -/

/-- The lock is held by a call between the check and the insertion of
    `insert_if_current`, and by no other. -/
def Locked (s : State K V) : Prop :=
  ∀ c k v b, s.calls c = .checked k v b → s.writer = some c

omit [DecidableEq K] in
theorem locked_init (maxEntries : Option Nat) (err : K → SchemaRegError) :
    Locked (State.init maxEntries err : State K V) := by
  intro c k v b h
  cases h

theorem locked_step (h : Locked s) (hs : step s e = some t) : Locked t := by
  intro c k v b hc
  rcases checked_step hs hc with hc' | ⟨g, _, _, _, hlock, _⟩
  · have hlock := h c k v b hc'
    have hne : ∀ {d k' v' b'}, s.calls d = .checked k' v' b' → d = c := by
      intro d k' v' b' hd
      have := h d k' v' b' hd
      rw [hlock] at this
      exact (Option.some.inj this).symm
    cases step_cases hs with
    | check phase free => rw [hlock] at free; cases free
    | insert phase =>
      have := hne phase
      subst this
      simp at hc
    | skip phase =>
      have := hne phase
      subst this
      simp at hc
    | _ => exact hlock
  · exact hlock

/-! ## How far a call of `get_or_fetch` has come -/

/-- The call is `get_or_fetch(key)`. -/
def Phase.getting (key : K) : Phase K V → Prop
  | .missed k | .waiting k | .elected k _ | .fetching k _ | .fetched k _ _ | .claimed k _ _
  | .answering k _ _ | .returned k _ => k = key
  | _ => False

/-- The call may still start a fetch, or the fetch may still be answered. -/
def Phase.sending : Phase K V → Prop
  | .missed _ | .elected _ _ | .fetching _ _ => True
  | _ => False

/-- A call that has begun does not become idle again. -/
theorem begun_step {c : CallId} (h : s.calls c ≠ .idle) (hs : step s e = some t) :
    t.calls c ≠ .idle := by
  by_cases hc : c = e.call
  · subst hc
    cases step_cases hs <;> simp [Event.call]
  · rwa [calls_other hs hc]

/-- A call begins with its own event. -/
theorem idle_step {c : CallId} (h : s.calls c = .idle) (hs : step s e = some t)
    (hbegin : ∀ op, e ≠ .begin c op) : t.calls c = .idle := by
  by_cases hc : c = e.call
  · subst hc
    cases step_cases hs <;> simp_all [Event.call]
  · rwa [calls_other hs hc]

theorem getting_step {c : CallId} {key : K} (h : (s.calls c).getting key)
    (hs : step s e = some t) (hdrop : e ≠ .drop c) : (t.calls c).getting key := by
  by_cases hc : c = e.call
  · subst hc
    cases step_cases hs <;> simp_all [Event.call, Phase.getting]
  · rwa [calls_other hs hc]

/-- A lookup begins with its own event. -/
theorem getting_back {c : CallId} {key : K} (hs : step s e = some t)
    (h : (t.calls c).getting key) : (s.calls c).getting key ∨ e = .begin c (.getOrFetch key) := by
  by_cases hc : c = e.call
  · subst hc
    cases step_cases hs <;> simp_all [Event.call, Phase.getting]
  · rw [calls_other hs hc] at h
    exact Or.inl h

/-- A lookup that has returned stays returned. -/
theorem returned_stays {c : CallId} {k : K} {r : Result V} (h : s.calls c = .returned k r)
    (hs : step s e = some t) : t.calls c = .returned k r := by
  by_cases hc : c = e.call
  · subst hc
    cases step_cases hs <;> simp_all [Event.call]
  · rwa [calls_other hs hc]

theorem getting_of_begin {c : CallId} {key : K}
    (hs : step s (.begin c (.getOrFetch key)) = some t) : (t.calls c).getting key := by
  cases step_cases hs <;> simp [Phase.getting]

theorem sending_step {c : CallId} (h : ¬ (s.calls c).sending) (hs : step s e = some t)
    (hbegin : ∀ key, e ≠ .begin c (.getOrFetch key)) : ¬ (t.calls c).sending := by
  by_cases hc : c = e.call
  · subst hc
    cases step_cases hs <;> simp_all [Event.call, Phase.sending]
  · rwa [calls_other hs hc]

theorem not_sending_of_drop {c : CallId} (hs : step s (.drop c) = some t) :
    ¬ (t.calls c).sending := by
  cases step_cases hs <;> simp [Phase.sending]

end Schemreg.CacheInner
