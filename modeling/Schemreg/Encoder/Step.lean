import Schemreg.Encoder.Model
import Schemreg.CacheInner.Keyed

/-
  What one step of an encoder can do.

  `Step e s ev t` lists the steps of `step`. To the cache a step is one step of its own, or
  nothing (`cache_step`), and the only values that enter the cache are the entries of completed
  resolutions.
-/

namespace Schemreg.Encoder

open CacheInner (CallId)
open Dialogue Resolver

variable {Value Parsed : Type}

namespace State

variable (s : State Value Parsed) (c d : CallId)

@[simp] theorem goto_cache (phase : Phase Value) : (s.goto c phase).cache = s.cache := rfl
@[simp] theorem goto_pending (phase : Phase Value) : (s.goto c phase).pending = s.pending := rfl
@[simp] theorem goto_sent (phase : Phase Value) : (s.goto c phase).sent = s.sent := rfl
@[simp] theorem goto_exchanges (phase : Phase Value) :
    (s.goto c phase).exchanges = s.exchanges := rfl
@[simp] theorem goto_calls (phase : Phase Value) :
    (s.goto c phase).calls d = if d = c then phase else s.calls d := by
  simp [goto, Function.update_apply]

variable (cache : CacheInner.State String (EncoderEntry Parsed))

@[simp] theorem withCache_cache : (s.withCache cache).cache = cache := rfl
@[simp] theorem withCache_calls : (s.withCache cache).calls = s.calls := rfl
@[simp] theorem withCache_pending : (s.withCache cache).pending = s.pending := rfl
@[simp] theorem withCache_sent : (s.withCache cache).sent = s.sent := rfl
@[simp] theorem withCache_exchanges : (s.withCache cache).exchanges = s.exchanges := rfl

variable (resolution : Resolution)

@[simp] theorem wait_cache : (s.wait c resolution).cache = s.cache := rfl
@[simp] theorem wait_calls : (s.wait c resolution).calls = s.calls := rfl
@[simp] theorem wait_exchanges : (s.wait c resolution).exchanges = s.exchanges := rfl
@[simp] theorem wait_pending :
    (s.wait c resolution).pending d = if d = c then some resolution else s.pending d := by
  simp [wait, Function.update_apply]

@[simp] theorem settle_cache : (s.settle c).cache = s.cache := rfl
@[simp] theorem settle_calls : (s.settle c).calls = s.calls := rfl
@[simp] theorem settle_sent : (s.settle c).sent = s.sent := rfl
@[simp] theorem settle_exchanges : (s.settle c).exchanges = s.exchanges := rfl
@[simp] theorem settle_pending :
    (s.settle c).pending d = if d = c then none else s.pending d := by
  simp [settle, Function.update_apply]

variable (x : Exchange)

@[simp] theorem record_cache : (s.record c x).cache = s.cache := rfl
@[simp] theorem record_calls : (s.record c x).calls = s.calls := rfl
@[simp] theorem record_pending : (s.record c x).pending = s.pending := rfl
@[simp] theorem record_sent : (s.record c x).sent = s.sent := rfl
@[simp] theorem record_exchanges : (s.record c x).exchanges = s.exchanges ++ [(c, x)] := rfl

/-- The dialogue of call `c` with the registry so far. -/
def dialogue : List Exchange := s.exchanges.filterMap fun y => if y.1 = c then some y.2 else none

theorem mem_dialogue {c : CallId} {x : Exchange} : x ∈ s.dialogue c ↔ (c, x) ∈ s.exchanges := by
  simp [dialogue]

/-- An answer belongs to the dialogue of its own call. -/
theorem dialogue_append {t : State Value Parsed} (h : t.exchanges = s.exchanges ++ [(c, x)]) :
    t.dialogue d = if d = c then s.dialogue d ++ [x] else s.dialogue d := by
  by_cases hd : d = c
  · simp [dialogue, h, hd]
  · simp [dialogue, h, hd, Ne.symm hd]

theorem dialogue_congr {t : State Value Parsed} (h : t.exchanges = s.exchanges) :
    t.dialogue d = s.dialogue d := by
  rw [dialogue, h, dialogue]

end State

/-- The steps of the encoder. -/
inductive Step (e : SchemaEncoder Value Parsed) (s : State Value Parsed) :
    Event Value → State Value Parsed → Prop where
  | encode {c call subject i} (idle : s.calls c = .idle) (names : e.subjectFor call = .ok subject)
      (inner : CacheInner.step s.cache (.begin c (.getOrFetch subject)) = some i) :
      Step e s (.encode c call) ((s.withCache i).goto c (.resolving call))
  | refuse {c call err} (idle : s.calls c = .idle) (names : e.subjectFor call = .error err) :
      Step e s (.encode c call) (s.goto c (.encoded call (.error err)))
  | invalidate {c subject i} (idle : s.calls c = .idle)
      (inner : CacheInner.step s.cache (.begin c (.invalidate subject)) = some i) :
      Step e s (.invalidateSubject c subject) ((s.withCache i).goto c .invalidating)
  | fetch {c subject token i} (phase : s.cache.calls c = .elected subject token)
      (inner : CacheInner.step s.cache (.resume c) = some i) :
      Step e s (.resume c) ((s.withCache i).wait c (e.resolveSubject subject))
  | resume {c i} (other : ∀ subject token, s.cache.calls c ≠ .elected subject token)
      (inner : CacheInner.step s.cache (.resume c) = some i) :
      Step e s (.resume c) (s.withCache i)
  | resolved {c x resolution result i} (pending : s.pending c = some resolution)
      (last : resolution.resume x = some (.done result))
      (inner : CacheInner.step s.cache (.reply c (result.map e.entry)) = some i) :
      Step e s (.answer c x) (((s.withCache i).record c x).settle c)
  | ask {c x resolution next} (pending : s.pending c = some resolution)
      (more : resolution.resume x = some next) :
      Step e s (.answer c x) ((s.record c x).wait c next)
  | drop {c i} (inner : CacheInner.step s.cache (.drop c) = some i) :
      Step e s (.drop c) (((s.withCache i).settle c).goto c .dropped)
  | finish {c call subject result} (phase : s.calls c = .resolving call)
      (returned : s.cache.calls c = .returned subject result) :
      Step e s (.finish c) (s.goto c (.encoded call (result.bind (e.finish call))))

variable {e : SchemaEncoder Value Parsed} {s t : State Value Parsed} {ev : Event Value}

theorem cacheStep_eq_some {ie : CacheInner.Event String (EncoderEntry Parsed)} :
    s.cacheStep ie = some t ↔ ∃ i, CacheInner.step s.cache ie = some i ∧ s.withCache i = t := by
  simp [State.cacheStep, Option.map_eq_some_iff]

theorem answer_step {c : CallId} {x : Exchange} (h : answer e s c x = some t) :
    Step e s (.answer c x) t := by
  unfold answer at h
  split at h
  · rename_i result hresume
    obtain ⟨resolution, pending, last⟩ := Option.bind_eq_some_iff.mp hresume
    obtain ⟨u, hu, rfl⟩ := Option.map_eq_some_iff.mp h
    obtain ⟨i, inner, rfl⟩ := cacheStep_eq_some.mp hu
    exact .resolved pending last inner
  · rename_i call next hresume
    obtain ⟨resolution, pending, more⟩ := Option.bind_eq_some_iff.mp hresume
    cases h
    exact .ask pending more
  · cases h

/-- The inversion of `step`. -/
theorem step_cases (h : step e s ev = some t) : Step e s ev t := by
  cases ev with
  | encode c call =>
    simp only [step, beginEncode] at h
    split at h
    · rename_i idle
      split at h
      · rename_i subject names
        obtain ⟨u, hu, rfl⟩ := Option.map_eq_some_iff.mp h
        obtain ⟨i, inner, rfl⟩ := cacheStep_eq_some.mp hu
        exact .encode idle names inner
      · rename_i err names
        cases h
        exact .refuse idle names
    · cases h
  | invalidateSubject c subject =>
    simp only [step] at h
    split at h
    · rename_i idle
      obtain ⟨u, hu, rfl⟩ := Option.map_eq_some_iff.mp h
      obtain ⟨i, inner, rfl⟩ := cacheStep_eq_some.mp hu
      exact .invalidate idle inner
    · cases h
  | resume c =>
    simp only [step, runSection] at h
    split at h
    · rename_i subject token phase
      obtain ⟨u, hu, rfl⟩ := Option.map_eq_some_iff.mp h
      obtain ⟨i, inner, rfl⟩ := cacheStep_eq_some.mp hu
      exact .fetch phase inner
    · rename_i other
      obtain ⟨i, inner, rfl⟩ := cacheStep_eq_some.mp h
      exact .resume other inner
  | answer c x => exact answer_step h
  | drop c =>
    obtain ⟨u, hu, rfl⟩ := Option.map_eq_some_iff.mp h
    obtain ⟨i, inner, rfl⟩ := cacheStep_eq_some.mp hu
    exact .drop inner
  | finish c =>
    simp only [step] at h
    split at h
    · rename_i call subject result phase returned
      cases h
      exact .finish phase returned
    · cases h

/-- What a step is to the cache. -/
inductive Issued (e : SchemaEncoder Value Parsed) (s : State Value Parsed) :
    Event Value → CacheInner.Event String (EncoderEntry Parsed) → Prop where
  | lookup {c call subject} (names : e.subjectFor call = .ok subject) :
      Issued e s (.encode c call) (.begin c (.getOrFetch subject))
  | invalidate {c subject} :
      Issued e s (.invalidateSubject c subject) (.begin c (.invalidate subject))
  | resume {c} : Issued e s (.resume c) (.resume c)
  | reply {c x resolution result} (pending : s.pending c = some resolution)
      (last : resolution.resume x = some (.done result)) :
      Issued e s (.answer c x) (.reply c (result.map e.entry))
  | drop {c} : Issued e s (.drop c) (.drop c)

theorem cache_step (hs : step e s ev = some t) :
    t.cache = s.cache ∨ ∃ ie, CacheInner.step s.cache ie = some t.cache ∧ Issued e s ev ie := by
  cases step_cases hs with
  | encode idle names inner => exact Or.inr ⟨_, inner, .lookup names⟩
  | invalidate idle inner => exact Or.inr ⟨_, inner, .invalidate⟩
  | fetch phase inner => exact Or.inr ⟨_, inner, .resume⟩
  | resume other inner => exact Or.inr ⟨_, inner, .resume⟩
  | resolved pending last inner => exact Or.inr ⟨_, inner, .reply pending last⟩
  | drop inner => exact Or.inr ⟨_, inner, .drop⟩
  | refuse | ask | finish => exact Or.inl rfl

/-- The registry is heard through answers only. -/
theorem exchanges_step (hs : step e s ev = some t) {c : CallId} {x : Exchange}
    (hmem : (c, x) ∈ t.exchanges) : (c, x) ∈ s.exchanges ∨ ev = .answer c x := by
  cases step_cases hs with
  | resolved | ask =>
    rcases List.mem_append.mp hmem with hold | hnew
    · exact Or.inl hold
    · obtain ⟨rfl, rfl⟩ := Prod.mk.inj (List.mem_singleton.mp hnew)
      exact Or.inr rfl
  | _ => exact Or.inl hmem

theorem dialogue_step (hs : step e s ev = some t) (d : CallId) : t.dialogue d = s.dialogue d ∨
    ∃ x resolution, ev = .answer d x ∧ s.pending d = some resolution ∧
      (resolution.resume x).isSome = true ∧ t.dialogue d = s.dialogue d ++ [x] := by
  cases step_cases hs with
  | @resolved c x resolution result i pending last inner =>
    rw [s.dialogue_append c d x rfl]
    by_cases hd : d = c
    · subst hd
      exact Or.inr ⟨x, resolution, rfl, pending, by rw [last]; rfl, if_pos rfl⟩
    · exact Or.inl (if_neg hd)
  | @ask c x resolution next pending more =>
    rw [s.dialogue_append c d x rfl]
    by_cases hd : d = c
    · subst hd
      exact Or.inr ⟨x, resolution, rfl, pending, by rw [more]; rfl, if_pos rfl⟩
    · exact Or.inl (if_neg hd)
  | _ => exact Or.inl (s.dialogue_congr d rfl)

end Schemreg.Encoder
