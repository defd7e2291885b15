import Schemreg.CacheInner.Keyed

/-
  Where the errors come from that the cache hands out under a key.

  `Keyed` is about values; here is the same for errors. An error that a call gets under a key
  was the reply to a fetch for that key, or it is the error of a cancelled fetch (`Failing`).
  Cancelled errors need somebody who cancels: while no future is dropped and nothing is
  invalidated, there are none (`Uncancelled`).
-/

namespace Schemreg.CacheInner

open Transition

variable {K V : Type} [DecidableEq K] {s t : State K V} {e : Event K V}
  {reason : K → SchemaRegError → Prop}

/-- Each error on a channel comes from a call that holds the waiter under its key: the error of
    its own fetch, or the one of a cancelled fetch. -/
theorem Addressed.error_step (h : Addressed s) (hs : step s e = some t) {w : CallId} {k : K}
    {token : Nat} {err : SchemaRegError} (hrole : t.roles w = some (.waiter k token))
    (hans : .error err ∈ t.answers w) :
    (s.roles w = some (.waiter k token) ∧ .error err ∈ s.answers w) ∨
      (∃ c ws, s.calls c = .answering k (.error err) (w :: ws)) ∨
      ∃ c ws, s.calls c = .notifying ((k, w) :: ws) ∧ err = s.cache.makeCancelledError k := by
  have same : ∀ {k'}, (∃ token', s.roles w = some (.waiter k' token')) →
      k' = k ∧ s.roles w = some (.waiter k token) := by
    rintro k' ⟨token', hrole'⟩
    have hlater := roles_step h.tokens hs hrole'
    rw [hrole] at hlater
    obtain ⟨rfl, rfl⟩ : k = k' ∧ token = token' := by simpa using hlater
    exact ⟨rfl, hrole'⟩
  rcases answers_step hs hans with hold | ⟨c, k', ws, _, hc⟩ | ⟨c, k', ws, _, hc, herr⟩
  · obtain ⟨k', token', hrole'⟩ := h.channels w _ hold
    exact Or.inl ⟨(same ⟨token', hrole'⟩).2, hold⟩
  · obtain ⟨rfl, -⟩ := same (h.hands c k' w (by simp [hc, Phase.holds]))
    exact Or.inr (Or.inl ⟨c, ws, hc⟩)
  · obtain ⟨rfl, -⟩ := same (h.hands c k' w (by simp [hc, Phase.holds]))
    cases herr
    exact Or.inr (Or.inr ⟨c, ws, hc, rfl⟩)

/-- Every error that is on its way to a caller, or has come to one, has a reason. -/
structure Failing (reason : K → SchemaRegError → Prop) (s : State K V) : Prop where
  fetched : ∀ c k token err, s.calls c = .fetched k token (.error err) → reason k err
  answering : ∀ c k err ws, s.calls c = .answering k (.error err) ws → reason k err
  answers : ∀ w k token err, s.roles w = some (.waiter k token) → .error err ∈ s.answers w →
    reason k err
  returned : ∀ c k err, s.calls c = .returned k (.error err) → reason k err

/-- What makes a step fail has a reason. -/
structure FailsFor (reason : K → SchemaRegError → Prop) (s : State K V) (e : Event K V) : Prop where
  replies : ∀ c k token err, e = .reply c (.error err) → s.calls c = .fetching k token →
    reason k err
  cancels : ∀ c k w ws, s.calls c = .notifying ((k, w) :: ws) →
    reason k (s.cache.makeCancelledError k)

omit [DecidableEq K] in
theorem failing_init (maxEntries : Option Nat) (err : K → SchemaRegError) :
    Failing reason (State.init maxEntries err : State K V) where
  fetched _ _ _ _ h := by cases h
  answering _ _ _ _ h := by cases h
  answers _ _ _ _ h := by cases h
  returned _ _ _ h := by cases h

theorem failing_step (h : Failing reason s) (addressed : Addressed s)
    (fails : FailsFor reason s e) (hs : step s e = some t) : Failing reason t where
  fetched c k token err hc := by
    rcases fetched_step hs hc with hold | ⟨he, hfetching⟩
    · exact h.fetched c k token err hold
    · exact fails.replies c k token err he hfetching
  answering c k err ws hc := by
    rcases answering_step hs hc with hold | ⟨w, _, hold⟩ | ⟨v, entry, _, _, _, hr⟩ |
        ⟨v, _, _, hr⟩ | ⟨token, err', _, hfetched, hr⟩
    · exact h.answering c k err ws hold
    · exact h.answering c k err (w :: ws) hold
    · cases hr
    · cases hr
    · cases hr
      exact h.fetched c k token err hfetched
  answers w k token err hrole hans := by
    rcases addressed.error_step hs hrole hans with ⟨hrole', hold⟩ | ⟨c, ws, hc⟩ | ⟨c, ws, hc, rfl⟩
    · exact h.answers w k token err hrole' hold
    · exact h.answering c k err (w :: ws) hc
    · exact fails.cancels c k w ws hc
  returned c k err hc := by
    rcases returned_step hs hc with hold | ⟨entry, _, _, hr⟩ | ⟨_, hwait, hans⟩ |
        ⟨token, _, hfetched⟩ | ⟨_, hanswering⟩
    · exact h.returned c k err hold
    · cases hr
    · obtain ⟨token, hrole⟩ : ∃ token, s.roles c = some (.waiter k token) :=
        addressed.tokens.role hwait
      exact h.answers c k token err hrole hans
    · exact h.fetched c k token err hfetched
    · exact h.answering c k err [] hanswering

/-- A fetch ends with its answer or with its drop. -/
theorem fetching_stays {c : CallId} {k : K} {token : Nat} (h : s.calls c = .fetching k token)
    (hs : step s e = some t) (hreply : ∀ r, e ≠ .reply c r) (hdrop : e ≠ .drop c) :
    t.calls c = .fetching k token := by
  by_cases hc : c = e.call
  · subst hc
    cases step_cases hs <;> simp_all [Event.call]
  · rw [calls_other hs hc, h]

/-! ## Nobody cancels -/

/-- The call is `get_or_fetch`, if it has begun, and is not cleaning up. -/
def Phase.plain : Phase K V → Prop
  | .idle | .missed _ | .waiting _ | .elected _ _ | .fetching _ _ | .fetched _ _ _
  | .claimed _ _ _ | .answering _ _ _ | .returned _ _ => True
  | _ => False

/-- The step neither drops a future nor begins anything but a lookup. -/
def Event.plain : Event K V → Prop
  | .begin _ (.getOrFetch _) | .resume _ | .reply _ _ => True
  | _ => False

/-- Only lookups are in progress. -/
def Uncancelled (s : State K V) : Prop := ∀ c, (s.calls c).plain

omit [DecidableEq K] in
theorem uncancelled_init (maxEntries : Option Nat) (err : K → SchemaRegError) :
    Uncancelled (State.init maxEntries err : State K V) := fun _ => trivial

theorem uncancelled_step (h : Uncancelled s) (hplain : e.plain) (hs : step s e = some t) :
    Uncancelled t := by
  intro c
  by_cases hc : c = e.call
  · subst hc
    have hold := h e.call
    cases step_cases hs <;> simp_all [Event.call, Event.plain, Phase.plain]
  · rw [calls_other hs hc]
    exact h c

omit [DecidableEq K] in
/-- There is nobody to send the error of a cancelled fetch. -/
theorem Uncancelled.not_notifying (h : Uncancelled s) {c : CallId} {ws : List (K × CallId)} :
    s.calls c ≠ .notifying ws := by
  intro hc
  have hplain := h c
  rw [hc] at hplain
  exact hplain

end Schemreg.CacheInner
