import Schemreg.CacheInner.Outcomes
import Schemreg.Lib.DialogueOracle

/-
  What `AvroSchemaDecoder`, `JsonSchemaDecoder` and `CachedGlueSchemaRegistry` have in common:
  calls that look a value up through an `InMemoryCache`, and fetch it with a dialogue.

  A `Component` says what a call looks up, how a value is fetched and what the call makes of it.
  The fetch of a leader is interrupted at each of its requests, and other calls run in between.
  `direct` is what a call would return if it fetched the value by itself, from an environment
  that answers as an oracle says.
-/

namespace Schemreg.Lookup

open CacheInner (CallId)
open Dialogue Program

/-- What a call does first: it returns, or it looks a key up. `finish` is what it makes of the
    value. -/
inductive Route (K V Out : Type) where
  | done (result : Result Out)
  | lookup (key : K) (finish : V → Result Out)

/-- A dialogue that fetches a value. Each request can fail. -/
abbrev Fetch (Req : Type) (R : Req → Type) (V : Type) : Type :=
  Program Req (fun req => Result (R req)) (Result V)

abbrev Exchange (Req : Type) (R : Req → Type) : Type :=
  Dialogue.Exchange Req fun req => Result (R req)

structure Component (Arg K V Out Req : Type) (R : Req → Type) where
  route : Arg → Route K V Out
  fetch : K → Fetch Req R V
  cancelled : K → SchemaRegError

/-- Where a call stands between two of its steps. -/
inductive Phase (Arg Out : Type) where
  | idle
  | looking (arg : Arg)
  | returned (arg : Arg) (result : Result Out)
  | invalidating
  | dropped

/-- The argument and the value of a call that has succeeded. -/
def Phase.succeeded {Arg Out : Type} : Phase Arg Out → Option (Arg × Out)
  | .returned arg (.ok out) => some (arg, out)
  | _ => none

theorem Phase.succeeded_eq_some {Arg Out : Type} {phase : Phase Arg Out} {arg : Arg} {out : Out} :
    phase.succeeded = some (arg, out) ↔ phase = .returned arg (.ok out) := by
  unfold Phase.succeeded
  split
  · simp
  · rename_i other
    simp only [reduceCtorEq, false_iff]
    exact other arg out

/-- The cache and the calls in progress. -/
structure State (Arg K V Out Req : Type) (R : Req → Type) where
  cache : CacheInner.State K V
  calls : CallId → Phase Arg Out
  pending : CallId → Option (Fetch Req R V)

inductive Event (Arg K Req : Type) (R : Req → Type) where
  | call (c : CallId) (arg : Arg)
  | invalidate (c : CallId) (key : K)
  | clear (c : CallId)
  | resume (c : CallId)
  | answer (c : CallId) (x : Exchange Req R)
  | drop (c : CallId)
  | finish (c : CallId)

variable {Arg K V Out Req : Type} {R : Req → Type}

/-- What a call returns that fetches for itself. -/
def Component.direct (comp : Component Arg K V Out Req R) (oracle : ∀ req, Result (R req))
    (arg : Arg) : Result Out :=
  match comp.route arg with
  | .done result => result
  | .lookup key finish => ((comp.fetch key).eval oracle).bind finish

namespace State

/-- `InMemoryCache::new`, with a bound of at least 1. -/
def init (comp : Component Arg K V Out Req R) (maxEntries : Nat) : State Arg K V Out Req R :=
  ⟨CacheInner.State.init (some (max maxEntries 1)) comp.cancelled, fun _ => .idle, fun _ => none⟩

variable (s : State Arg K V Out Req R)

/-- Move call `c` to a phase. -/
def goto (c : CallId) (phase : Phase Arg Out) : State Arg K V Out Req R :=
  { s with calls := Function.update s.calls c phase }

def withCache (cache : CacheInner.State K V) : State Arg K V Out Req R := { s with cache := cache }

/-- Where the fetch of call `c` has come to. -/
def wait (c : CallId) (fetch : Option (Fetch Req R V)) : State Arg K V Out Req R :=
  { s with pending := Function.update s.pending c fetch }

@[simp] theorem goto_cache (c : CallId) (phase : Phase Arg Out) :
    (s.goto c phase).cache = s.cache := rfl
@[simp] theorem goto_pending (c : CallId) (phase : Phase Arg Out) :
    (s.goto c phase).pending = s.pending := rfl
@[simp] theorem goto_calls (c d : CallId) (phase : Phase Arg Out) :
    (s.goto c phase).calls d = if d = c then phase else s.calls d := by
  simp [goto, Function.update_apply]

@[simp] theorem withCache_cache (cache : CacheInner.State K V) :
    (s.withCache cache).cache = cache := rfl
@[simp] theorem withCache_calls (cache : CacheInner.State K V) :
    (s.withCache cache).calls = s.calls := rfl
@[simp] theorem withCache_pending (cache : CacheInner.State K V) :
    (s.withCache cache).pending = s.pending := rfl

@[simp] theorem wait_cache (c : CallId) (fetch : Option (Fetch Req R V)) :
    (s.wait c fetch).cache = s.cache := rfl
@[simp] theorem wait_calls (c : CallId) (fetch : Option (Fetch Req R V)) :
    (s.wait c fetch).calls = s.calls := rfl
@[simp] theorem wait_pending (c d : CallId) (fetch : Option (Fetch Req R V)) :
    (s.wait c fetch).pending d = if d = c then fetch else s.pending d := by
  simp [wait, Function.update_apply]

end State

section Definitions

variable [DecidableEq K] [DecidableEq Req] (comp : Component Arg K V Out Req R)
  (s : State Arg K V Out Req R)

/-- One step of the cache. -/
def cacheStep (e : CacheInner.Event K V) : Option (State Arg K V Out Req R) :=
  (CacheInner.step s.cache e).map s.withCache

def begin (c : CallId) (arg : Arg) : Option (State Arg K V Out Req R) :=
  match comp.route arg with
  | .done result => some (s.goto c (.returned arg result))
  | .lookup key _ => (cacheStep s (.begin c (.getOrFetch key))).map (·.goto c (.looking arg))

/-- The next section of call `c` in the cache. A leader's fetch starts when it is polled for the
    first time. -/
def runSection (c : CallId) : Option (State Arg K V Out Req R) :=
  match s.cache.calls c with
  | .elected key _ => (cacheStep s (.resume c)).map (·.wait c (some (comp.fetch key)))
  | _ => cacheStep s (.resume c)

/-- What call `c` waits for is answered. -/
def answer (c : CallId) (x : Exchange Req R) : Option (State Arg K V Out Req R) :=
  match (s.pending c).bind (·.resume x) with
  | some (.done result) => (cacheStep s (.reply c result)).map (·.wait c none)
  | some next => some (s.wait c (some next))
  | none => none

/-- What call `c` returns. -/
def finish (c : CallId) : Option (State Arg K V Out Req R) :=
  match s.calls c, s.cache.calls c with
  | .looking arg, .returned _ result =>
      match comp.route arg with
      | .lookup _ finish => some (s.goto c (.returned arg (result.bind finish)))
      | .done _ => none
  | _, _ => none

/-- One step of the component. -/
def step : Event Arg K Req R → Option (State Arg K V Out Req R)
  | .call c arg =>
      match s.calls c with
      | .idle => begin comp s c arg
      | _ => none
  | .invalidate c key =>
      match s.calls c with
      | .idle => (cacheStep s (.begin c (.invalidate key))).map (·.goto c .invalidating)
      | _ => none
  | .clear c =>
      match s.calls c with
      | .idle => (cacheStep s (.begin c .clear)).map (·.goto c .invalidating)
      | _ => none
  | .resume c => runSection comp s c
  | .answer c x => answer s c x
  | .drop c => (cacheStep s (.drop c)).map fun t => (t.wait c none).goto c .dropped
  | .finish c => finish comp s c

end Definitions

/-! ## What one step can do -/

section Steps

variable [DecidableEq K] [DecidableEq Req]

inductive Step (comp : Component Arg K V Out Req R) (s : State Arg K V Out Req R) :
    Event Arg K Req R → State Arg K V Out Req R → Prop where
  | answerNow {c arg result} (idle : s.calls c = .idle) (route : comp.route arg = .done result) :
      Step comp s (.call c arg) (s.goto c (.returned arg result))
  | look {c arg key finish i} (idle : s.calls c = .idle)
      (route : comp.route arg = .lookup key finish)
      (inner : CacheInner.step s.cache (.begin c (.getOrFetch key)) = some i) :
      Step comp s (.call c arg) ((s.withCache i).goto c (.looking arg))
  | invalidate {c key i} (idle : s.calls c = .idle)
      (inner : CacheInner.step s.cache (.begin c (.invalidate key)) = some i) :
      Step comp s (.invalidate c key) ((s.withCache i).goto c .invalidating)
  | clear {c i} (idle : s.calls c = .idle)
      (inner : CacheInner.step s.cache (.begin c .clear) = some i) :
      Step comp s (.clear c) ((s.withCache i).goto c .invalidating)
  | fetch {c key token i} (phase : s.cache.calls c = .elected key token)
      (inner : CacheInner.step s.cache (.resume c) = some i) :
      Step comp s (.resume c) ((s.withCache i).wait c (some (comp.fetch key)))
  | resume {c i} (other : ∀ key token, s.cache.calls c ≠ .elected key token)
      (inner : CacheInner.step s.cache (.resume c) = some i) :
      Step comp s (.resume c) (s.withCache i)
  | fetched {c x fetch result i} (pending : s.pending c = some fetch)
      (last : fetch.resume x = some (.done result))
      (inner : CacheInner.step s.cache (.reply c result) = some i) :
      Step comp s (.answer c x) ((s.withCache i).wait c none)
  | ask {c x fetch next} (pending : s.pending c = some fetch)
      (more : fetch.resume x = some next) :
      Step comp s (.answer c x) (s.wait c (some next))
  | drop {c i} (inner : CacheInner.step s.cache (.drop c) = some i) :
      Step comp s (.drop c) (((s.withCache i).wait c none).goto c .dropped)
  | finish {c arg key finish k result} (phase : s.calls c = .looking arg)
      (route : comp.route arg = .lookup key finish)
      (returned : s.cache.calls c = .returned k result) :
      Step comp s (.finish c) (s.goto c (.returned arg (result.bind finish)))

variable {comp : Component Arg K V Out Req R} {s t : State Arg K V Out Req R}
  {e : Event Arg K Req R}

omit [DecidableEq Req] in
theorem cacheStep_eq_some {ie : CacheInner.Event K V} :
    cacheStep s ie = some t ↔ ∃ i, CacheInner.step s.cache ie = some i ∧ s.withCache i = t := by
  simp [cacheStep, Option.map_eq_some_iff]

theorem answer_step {c : CallId} {x : Exchange Req R} (h : answer s c x = some t) :
    Step comp s (.answer c x) t := by
  unfold answer at h
  split at h
  · rename_i result hresume
    obtain ⟨fetch, pending, last⟩ := Option.bind_eq_some_iff.mp hresume
    obtain ⟨u, hu, rfl⟩ := Option.map_eq_some_iff.mp h
    obtain ⟨i, inner, rfl⟩ := cacheStep_eq_some.mp hu
    exact .fetched pending last inner
  · rename_i next hresume
    obtain ⟨fetch, pending, more⟩ := Option.bind_eq_some_iff.mp hresume
    cases h
    exact .ask pending more
  · cases h

/-- The inversion of `step`. -/
theorem step_cases (h : step comp s e = some t) : Step comp s e t := by
  cases e with
  | call c arg =>
    simp only [step, begin] at h
    split at h
    · rename_i idle
      split at h
      · rename_i result route
        cases h
        exact .answerNow idle route
      · rename_i key finish route
        obtain ⟨u, hu, rfl⟩ := Option.map_eq_some_iff.mp h
        obtain ⟨i, inner, rfl⟩ := cacheStep_eq_some.mp hu
        exact .look idle route inner
    · cases h
  | invalidate c key =>
    simp only [step] at h
    split at h
    · rename_i idle
      obtain ⟨u, hu, rfl⟩ := Option.map_eq_some_iff.mp h
      obtain ⟨i, inner, rfl⟩ := cacheStep_eq_some.mp hu
      exact .invalidate idle inner
    · cases h
  | clear c =>
    simp only [step] at h
    split at h
    · rename_i idle
      obtain ⟨u, hu, rfl⟩ := Option.map_eq_some_iff.mp h
      obtain ⟨i, inner, rfl⟩ := cacheStep_eq_some.mp hu
      exact .clear idle inner
    · cases h
  | resume c =>
    simp only [step, runSection] at h
    split at h
    · rename_i key token phase
      obtain ⟨u, hu, rfl⟩ := Option.map_eq_some_iff.mp h
      obtain ⟨i, inner, rfl⟩ := cacheStep_eq_some.mp hu
      exact .fetch phase inner
    · rename_i other
      obtain ⟨i, inner, rfl⟩ := cacheStep_eq_some.mp h
      exact .resume other inner
  | answer c x => exact answer_step h
  | drop c =>
    obtain ⟨u, hu, rfl⟩ := Option.map_eq_some_iff.mp h
    obtain ⟨i, inner, rfl⟩ := cacheStep_eq_some.mp hu
    exact .drop inner
  | finish c =>
    simp only [step, finish] at h
    split at h
    · rename_i arg k result phase returned
      split at h
      · rename_i key finish route
        cases h
        exact .finish phase route returned
      · cases h
    · cases h

/-- What a step is to the cache. -/
inductive Issued (comp : Component Arg K V Out Req R) (s : State Arg K V Out Req R) :
    Event Arg K Req R → CacheInner.Event K V → Prop where
  | look {c arg key} : Issued comp s (.call c arg) (.begin c (.getOrFetch key))
  | invalidate {c key} : Issued comp s (.invalidate c key) (.begin c (.invalidate key))
  | clear {c} : Issued comp s (.clear c) (.begin c .clear)
  | resume {c} : Issued comp s (.resume c) (.resume c)
  | reply {c x fetch result} (pending : s.pending c = some fetch)
      (last : fetch.resume x = some (.done result)) :
      Issued comp s (.answer c x) (.reply c result)
  | drop {c} : Issued comp s (.drop c) (.drop c)

theorem cache_step (hs : step comp s e = some t) :
    t.cache = s.cache ∨ ∃ ie, CacheInner.step s.cache ie = some t.cache ∧ Issued comp s e ie := by
  cases step_cases hs with
  | look _ _ inner => exact Or.inr ⟨_, inner, .look⟩
  | invalidate _ inner => exact Or.inr ⟨_, inner, .invalidate⟩
  | clear _ inner => exact Or.inr ⟨_, inner, .clear⟩
  | fetch _ inner | resume _ inner => exact Or.inr ⟨_, inner, .resume⟩
  | fetched pending last inner => exact Or.inr ⟨_, inner, .reply pending last⟩
  | drop inner => exact Or.inr ⟨_, inner, .drop⟩
  | answerNow | ask | finish => exact Or.inl rfl

end Steps

end Schemreg.Lookup
