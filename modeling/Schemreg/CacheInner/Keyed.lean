import Schemreg.CacheInner.Bookkeeping

/-
  What the cache holds and hands out under a key.

  A waiter is registered, held and answered under the key it asked for (`Addressed`); this
  needs nothing of the tokens, because a slot is found by its key. So if every fetch and
  every `insert_if_current` is `right` for its key, then so is everything that is stored,
  in flight or already on a channel (`Keyed`), whatever the calls in between are.
-/

namespace Schemreg.CacheInner

open Wrapping Transition

variable {K V : Type} [DecidableEq K] {s t : State K V} {e : Event K V}

/-! ## Whose waiter, by key -/

/-- Waiters wait under their own key. -/
structure Addressed (s : State K V) : Prop where
  tokens : Tokens s
  slots : ∀ key entry w, s.registered key = some entry → w ∈ entry.waiters →
    ∃ token, s.roles w = some (.waiter key token)
  hands : ∀ c key w, (key, w) ∈ (s.calls c).holds → ∃ token, s.roles w = some (.waiter key token)
  channels : ∀ w r, r ∈ s.answers w → ∃ key token, s.roles w = some (.waiter key token)

theorem addressed_init (maxEntries : Option Nat) (err : K → SchemaRegError) :
    Addressed (State.init maxEntries err : State K V) where
  tokens := tokens_init maxEntries err
  slots key entry w h := by
    simp [State.init, State.registered, InMemoryCache.new] at h
  hands _ _ _ h := by cases h
  channels _ _ h := by cases h

theorem addressed_step (h : Addressed s) (hs : step s e = some t) : Addressed t where
  tokens := tokens_step h.tokens hs
  slots key entry w hreg hw := by
    rcases waiters_step hs hreg hw with ⟨entry₀, hreg₀, _, hw₀⟩ | hrole
    · obtain ⟨token, hrole⟩ := h.slots key entry₀ w hreg₀ hw₀
      exact ⟨token, roles_step h.tokens hs hrole⟩
    · exact ⟨entry.token, hrole⟩
  hands c key w hw := by
    rcases holds_step h.tokens hs hw with ⟨hold, _⟩ | ⟨entry, hreg, hmem, _⟩
    · obtain ⟨token, hrole⟩ := h.hands c key w hold
      exact ⟨token, roles_step h.tokens hs hrole⟩
    · obtain ⟨token, hrole⟩ := h.slots key entry w hreg hmem
      exact ⟨token, roles_step h.tokens hs hrole⟩
  channels w r hr := by
    rcases answers_step hs hr with hold | ⟨c, key, ws, _, phase⟩ | ⟨c, key, ws, _, phase, _⟩
    · obtain ⟨key, token, hrole⟩ := h.channels w r hold
      exact ⟨key, token, roles_step h.tokens hs hrole⟩
    · obtain ⟨token, hrole⟩ := h.hands c key w (by simp [phase, Phase.holds])
      exact ⟨key, token, roles_step h.tokens hs hrole⟩
    · obtain ⟨token, hrole⟩ := h.hands c key w (by simp [phase, Phase.holds])
      exact ⟨key, token, roles_step h.tokens hs hrole⟩

/-- The answer that a step puts on a channel comes from a call that holds the waiter under
    its key. -/
theorem Addressed.answer_step (h : Addressed s) (hs : step s e = some t) {w : CallId} {k : K}
    {token : Nat} {v : V} (hrole : t.roles w = some (.waiter k token))
    (hans : .ok v ∈ t.answers w) :
    (s.roles w = some (.waiter k token) ∧ .ok v ∈ s.answers w) ∨
      ∃ c ws, s.calls c = .answering k (.ok v) (w :: ws) := by
  rcases answers_step hs hans with hold | ⟨c, k', ws, _, hc⟩ | ⟨c, k', ws, _, _, hr⟩
  · obtain ⟨k', token', hrole'⟩ := h.channels w _ hold
    have hlater := roles_step h.tokens hs hrole'
    rw [hrole] at hlater
    have heq : k = k' ∧ token = token' := by simpa using hlater
    obtain ⟨rfl, rfl⟩ := heq
    exact Or.inl ⟨hrole', hold⟩
  · obtain ⟨token', hrole'⟩ := h.hands c k' w (by simp [hc, Phase.holds])
    have hlater := roles_step h.tokens hs hrole'
    rw [hrole] at hlater
    have hkey : k = k' := (by simpa using hlater : k = k' ∧ token = token').1
    subst hkey
    exact Or.inr ⟨c, ws, hc⟩
  · cases hr

/-! ## The right value for a key -/

/-- Everything that is stored or on its way to the store or to a caller is right for its
    key. -/
structure Keyed (right : K → V → Prop) (s : State K V) : Prop where
  stored : ∀ k entry, s.lookup k = some entry → right k entry.value
  inserting : ∀ c k v g, s.calls c = .inserting k v g → right k v
  checked : ∀ c k v b, s.calls c = .checked k v b → right k v
  fetched : ∀ c k token v, s.calls c = .fetched k token (.ok v) → right k v
  claimed : ∀ c k v ws, s.calls c = .claimed k v ws → right k v
  answering : ∀ c k v ws, s.calls c = .answering k (.ok v) ws → right k v
  answers : ∀ w k token v, s.roles w = some (.waiter k token) → .ok v ∈ s.answers w → right k v
  returned : ∀ c k v, s.calls c = .returned k (.ok v) → right k v

/-- What enters the cache in a step is right for its key. -/
structure EntersRight (right : K → V → Prop) (s : State K V) (e : Event K V) : Prop where
  replies : ∀ c k token v, e = .reply c (.ok v) → s.calls c = .fetching k token → right k v
  inserts : ∀ c k v g, e = .begin c (.insertIfCurrent k v g) → right k v

variable {right : K → V → Prop}

theorem keyed_init (maxEntries : Option Nat) (err : K → SchemaRegError) :
    Keyed right (State.init maxEntries err) where
  stored k entry h := by cases h
  inserting _ _ _ _ h := by cases h
  checked _ _ _ _ h := by cases h
  fetched _ _ _ _ h := by cases h
  claimed _ _ _ _ h := by cases h
  answering _ _ _ _ h := by cases h
  answers _ _ _ _ h := by cases h
  returned _ _ _ h := by cases h

theorem Keyed.mono {right' : K → V → Prop} (h : Keyed right s)
    (weaker : ∀ k v, right k v → right' k v) : Keyed right' s where
  stored k entry hk := weaker _ _ (h.stored k entry hk)
  inserting c k v g hc := weaker _ _ (h.inserting c k v g hc)
  checked c k v b hc := weaker _ _ (h.checked c k v b hc)
  fetched c k token v hc := weaker _ _ (h.fetched c k token v hc)
  claimed c k v ws hc := weaker _ _ (h.claimed c k v ws hc)
  answering c k v ws hc := weaker _ _ (h.answering c k v ws hc)
  answers w k token v hrole hans := weaker _ _ (h.answers w k token v hrole hans)
  returned c k v hc := weaker _ _ (h.returned c k v hc)

theorem keyed_step (h : Keyed right s) (addressed : Addressed s) (enters : EntersRight right s e)
    (hs : step s e = some t) : Keyed right t where
  stored k entry hlook := by
    rcases lookup_step hs hlook with hold | ⟨ws, _, hclaimed, _⟩ | ⟨_, hchecked⟩
    · exact h.stored k entry hold
    · exact h.claimed _ k entry.value ws hclaimed
    · exact h.checked _ k entry.value true hchecked
  inserting c k v g hc := by
    rcases inserting_step hs hc with hold | ⟨he, _⟩
    · exact h.inserting c k v g hold
    · exact enters.inserts c k v g he
  checked c k v b hc := by
    rcases checked_step hs hc with hold | ⟨g, _, hins, _⟩
    · exact h.checked c k v b hold
    · exact h.inserting c k v g hins
  fetched c k token v hc := by
    rcases fetched_step hs hc with hold | ⟨he, hfetching⟩
    · exact h.fetched c k token v hold
    · exact enters.replies c k token v he hfetching
  claimed c k v ws hc := by
    rcases claimed_step hs hc with hold | ⟨token, entry, _, hfetched, _⟩
    · exact h.claimed c k v ws hold
    · exact h.fetched c k token v hfetched
  answering c k v ws hc := by
    rcases answering_step hs hc with hold | ⟨w, _, hold⟩ | ⟨v', entry, _, _, hlook, hr⟩ |
        ⟨v', _, hclaimed, hr⟩ | ⟨token, err, _, _, hr⟩
    · exact h.answering c k v ws hold
    · exact h.answering c k v (w :: ws) hold
    · cases hr
      exact h.stored k entry hlook
    · cases hr
      exact h.claimed c k v ws hclaimed
    · cases hr
  answers w k token v hrole hans := by
    rcases addressed.answer_step hs hrole hans with ⟨hrole', hold⟩ | ⟨c, ws, hc⟩
    · exact h.answers w k token v hrole' hold
    · exact h.answering c k v (w :: ws) hc
  returned c k v hc := by
    rcases returned_step hs hc with hold | ⟨entry, _, hlook, hr⟩ | ⟨_, hwait, hans⟩ |
        ⟨token, _, hfetched⟩ | ⟨_, hanswering⟩
    · exact h.returned c k v hold
    · cases hr
      exact h.stored k entry hlook
    · obtain ⟨token, hrole⟩ : ∃ token, s.roles c = some (.waiter k token) :=
        addressed.tokens.role hwait
      exact h.answers c k token v hrole hans
    · exact h.fetched c k token v hfetched
    · exact h.answering c k v [] hanswering

/-! ## Fetches that failed -/

/-- The call may have written an entry, and writes no other. -/
def Phase.wrote : Phase K V → Prop
  | .answering _ _ _ | .returned _ _ | .finished => True
  | _ => False

/-- The call has got an error from its own fetch. -/
def Phase.failed : Phase K V → Prop
  | .fetched _ _ (.error _) | .answering _ (.error _) _ | .returned _ (.error _) => True
  | _ => False

theorem wrote_stays {c : CallId} (h : (s.calls c).wrote) (hs : step s e = some t) :
    (t.calls c).wrote := by
  by_cases hc : c = e.call
  · subst hc
    cases step_cases hs <;> simp_all [Event.call, Phase.wrote]
  · rwa [calls_other hs hc]

theorem failed_stays {c : CallId} (h : (s.calls c).failed) (hs : step s e = some t) :
    (t.calls c).failed := by
  by_cases hc : c = e.call
  · subst hc
    cases step_cases hs with
    | @superseded c k token r phase other =>
      cases r with
      | ok v => simp [Event.call, phase, Phase.failed] at h
      | error err => simp [Event.call, Phase.failed]
    | @answer c k r w ws phase =>
      cases r with
      | ok v => simp [Event.call, phase, Phase.failed] at h
      | error err => simp [Event.call, Phase.failed]
    | @answered c k r phase =>
      cases r with
      | ok v => simp [Event.call, phase, Phase.failed] at h
      | error err => simp [Event.call, Phase.failed]
    | _ => simp_all [Event.call, Phase.failed]
  · rwa [calls_other hs hc]

/-- A fetch that is answered with an error has failed. -/
theorem failed_of_reply {c : CallId} {err : SchemaRegError}
    (hs : step s (.reply c (.error err)) = some t) : (t.calls c).failed := by
  cases step_cases hs
  simp [Phase.failed]

/-- Entries are written by the calls that say so. -/
def Wrote (s : State K V) : Prop := ∀ k entry, s.lookup k = some entry → (s.calls entry.writer).wrote

theorem wrote_init (maxEntries : Option Nat) (err : K → SchemaRegError) :
    Wrote (State.init maxEntries err : State K V) := by
  intro k entry h
  cases h

theorem wrote_step (h : Wrote s) (hs : step s e = some t) : Wrote t := by
  intro k entry hlook
  rcases lookup_step hs hlook with hold | ⟨ws, rfl, hclaimed, _⟩ | ⟨rfl, hchecked⟩
  · exact wrote_stays (h k entry hold) hs
  · cases step_cases hs <;> simp_all [Phase.wrote]
  · cases step_cases hs <;> simp_all [Phase.wrote]

/-- A call whose fetch has failed writes nothing any more. -/
theorem not_writer_of_failed {c : CallId} (h : s.calls c = .idle ∨ (s.calls c).failed)
    (hs : step s e = some t) {k : K} {entry : Entry V} (hlook : t.lookup k = some entry)
    (hwriter : entry.writer = c) : s.lookup k = some entry := by
  subst hwriter
  rcases lookup_step hs hlook with hold | ⟨ws, _, hclaimed, _⟩ | ⟨_, hchecked⟩
  · exact hold
  · rw [hclaimed] at h
    rcases h with h | h <;> cases h
  · rw [hchecked] at h
    rcases h with h | h <;> cases h

end Schemreg.CacheInner
