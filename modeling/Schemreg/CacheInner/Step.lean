import Schemreg.CacheInner.Model
import Schemreg.Lib.Run

/-
  What one step of the cache can do.

  `Step s e s'` lists the steps of `step` one by one, each with the condition under which
  it is taken and the state it leaves (`step_cases`). Every invariant of this development is
  a case analysis on `Step`; no proof unfolds the sections again. The frame lemmas say
  which components a step leaves alone.
-/

namespace Schemreg.CacheInner

open Wrapping Transition

variable {K V : Type}

namespace State

variable (s : State K V)

@[simp] theorem goto_cache (c : CallId) (phase : Phase K V) : (s.goto c phase).cache = s.cache := rfl
@[simp] theorem goto_writer (c : CallId) (phase : Phase K V) : (s.goto c phase).writer = s.writer := rfl
@[simp] theorem goto_roles (c : CallId) (phase : Phase K V) : (s.goto c phase).roles = s.roles := rfl
@[simp] theorem goto_answers (c : CallId) (phase : Phase K V) :
    (s.goto c phase).answers = s.answers := rfl
@[simp] theorem goto_calls (c d : CallId) (phase : Phase K V) :
    (s.goto c phase).calls d = if d = c then phase else s.calls d := by
  simp [goto, Function.update_apply]

@[simp] theorem assign_cache (c : CallId) (role : Role K) : (s.assign c role).cache = s.cache := rfl
@[simp] theorem assign_writer (c : CallId) (role : Role K) : (s.assign c role).writer = s.writer := rfl
@[simp] theorem assign_calls (c : CallId) (role : Role K) : (s.assign c role).calls = s.calls := rfl
@[simp] theorem assign_answers (c : CallId) (role : Role K) :
    (s.assign c role).answers = s.answers := rfl
@[simp] theorem assign_roles (c d : CallId) (role : Role K) :
    (s.assign c role).roles d = if d = c then some role else s.roles d := by
  simp [assign, Function.update_apply]

@[simp] theorem send_cache (w : CallId) (r : Result V) : (s.send w r).cache = s.cache := rfl
@[simp] theorem send_writer (w : CallId) (r : Result V) : (s.send w r).writer = s.writer := rfl
@[simp] theorem send_calls (w : CallId) (r : Result V) : (s.send w r).calls = s.calls := rfl
@[simp] theorem send_roles (w : CallId) (r : Result V) : (s.send w r).roles = s.roles := rfl
@[simp] theorem send_answers (w d : CallId) (r : Result V) :
    (s.send w r).answers d = if d = w then s.answers w ++ [r] else s.answers d := by
  simp [send, Function.update_apply]

/-- Replace the stored entries. -/
def withStore (store : Store K V) : State K V :=
  { s with cache := { s.cache with store := store } }

/-- Replace the in-flight map. -/
def withInFlight (inFlight : AList fun _ : K => InFlight) : State K V :=
  { s with cache := { s.cache with inFlight := inFlight } }

section Frames

variable (store : Store K V) (inFlight : AList fun _ : K => InFlight)

@[simp] theorem withStore_writer : (s.withStore store).writer = s.writer := rfl
@[simp] theorem withStore_calls : (s.withStore store).calls = s.calls := rfl
@[simp] theorem withStore_roles : (s.withStore store).roles = s.roles := rfl
@[simp] theorem withStore_answers : (s.withStore store).answers = s.answers := rfl

@[simp] theorem withInFlight_writer : (s.withInFlight inFlight).writer = s.writer := rfl
@[simp] theorem withInFlight_calls : (s.withInFlight inFlight).calls = s.calls := rfl
@[simp] theorem withInFlight_roles : (s.withInFlight inFlight).roles = s.roles := rfl
@[simp] theorem withInFlight_answers : (s.withInFlight inFlight).answers = s.answers := rfl

variable [DecidableEq K]

/-- The fetch registered under `key`. -/
def registered (key : K) : Option InFlight := s.cache.inFlight.lookup key

@[simp] theorem withStore_lookup (key : K) : (s.withStore store).lookup key = store.lookup key := rfl
@[simp] theorem withStore_registered (key : K) :
    (s.withStore store).registered key = s.registered key := rfl
@[simp] theorem withInFlight_lookup (key : K) :
    (s.withInFlight inFlight).lookup key = s.lookup key := rfl

@[simp] theorem goto_lookup (c : CallId) (phase : Phase K V) (key : K) :
    (s.goto c phase).lookup key = s.lookup key := rfl
@[simp] theorem goto_registered (c : CallId) (phase : Phase K V) (key : K) :
    (s.goto c phase).registered key = s.registered key := rfl
@[simp] theorem assign_lookup (c : CallId) (role : Role K) (key : K) :
    (s.assign c role).lookup key = s.lookup key := rfl
@[simp] theorem assign_registered (c : CallId) (role : Role K) (key : K) :
    (s.assign c role).registered key = s.registered key := rfl
@[simp] theorem send_lookup (w : CallId) (r : Result V) (key : K) :
    (s.send w r).lookup key = s.lookup key := rfl
@[simp] theorem send_registered (w : CallId) (r : Result V) (key : K) :
    (s.send w r).registered key = s.registered key := rfl

end Frames

end State

variable [DecidableEq K]

/-- The steps of the cache. -/
inductive Step (s : State K V) : Event K V → State K V → Prop where
  -- `get_or_fetch`: the fast path and the role section
  | hit {c key e} (idle : s.calls c = .idle) (free : s.writer = none)
      (stored : s.lookup key = some e) :
      Step s (.begin c (.getOrFetch key)) (s.goto c (.returned key (.ok e.value)))
  | miss {c key} (idle : s.calls c = .idle) (free : s.writer = none)
      (absent : s.lookup key = none) :
      Step s (.begin c (.getOrFetch key)) (s.goto c (.missed key))
  | recheckHit {c key e} (phase : s.calls c = .missed key) (free : s.writer = none)
      (stored : s.lookup key = some e) :
      Step s (.resume c) (s.goto c (.returned key (.ok e.value)))
  | join {c key entry} (phase : s.calls c = .missed key) (free : s.writer = none)
      (absent : s.lookup key = none) (inFlight : s.registered key = some entry) :
      Step s (.resume c)
        (((s.withInFlight (s.cache.inFlight.insert key
          { entry with waiters := entry.waiters ++ [c] })).assign c
            (.waiter key entry.token)).goto c (.waiting key))
  | elect {c key} (phase : s.calls c = .missed key) (free : s.writer = none)
      (absent : s.lookup key = none) (inFlight : s.registered key = none) :
      Step s (.resume c)
        (({ s with cache := { s.cache with
            nextToken := s.cache.nextToken + 1
            inFlight := s.cache.inFlight.insert key ⟨s.cache.nextToken + 1, []⟩ } }.assign c
              (.leader key (s.cache.nextToken + 1))).goto c
                (.elected key (s.cache.nextToken + 1)))
  | wake {c key r rs} (phase : s.calls c = .waiting key) (answer : s.answers c = r :: rs) :
      Step s (.resume c) (s.goto c (.returned key r))
  -- the leader
  | fetch {c key token} (phase : s.calls c = .elected key token) :
      Step s (.resume c) (s.goto c (.fetching key token))
  | reply {c key token r} (phase : s.calls c = .fetching key token) :
      Step s (.reply c r) (s.goto c (.fetched key token r))
  | claimOk {c key token v entry} (phase : s.calls c = .fetched key token (.ok v))
      (inFlight : s.registered key = some entry) (same : u64 entry.token = u64 token) :
      Step s (.resume c)
        ((s.withInFlight (s.cache.inFlight.erase key)).goto c (.claimed key v entry.waiters))
  | claimError {c key token err entry} (phase : s.calls c = .fetched key token (.error err))
      (inFlight : s.registered key = some entry) (same : u64 entry.token = u64 token) :
      Step s (.resume c)
        ((s.withInFlight (s.cache.inFlight.erase key)).goto c
          (.answering key (.error err) entry.waiters))
  | superseded {c key token r} (phase : s.calls c = .fetched key token r)
      (other : ∀ entry, s.registered key = some entry → u64 entry.token ≠ u64 token) :
      Step s (.resume c) (s.goto c (.returned key r))
  | keep {c key v ws e} (phase : s.calls c = .claimed key v ws) (free : s.writer = none)
      (stored : s.lookup key = some e) :
      Step s (.resume c) (s.goto c (.answering key (.ok e.value) ws))
  | store {c key v ws} (phase : s.calls c = .claimed key v ws) (free : s.writer = none)
      (absent : s.lookup key = none) :
      Step s (.resume c)
        ((s.withStore (s.cache.store.insertLocked s.cache.maxEntries key v c)).goto c
          (.answering key (.ok v) ws))
  | answer {c key r w ws} (phase : s.calls c = .answering key r (w :: ws)) :
      Step s (.resume c) ((s.send w r).goto c (.answering key r ws))
  | answered {c key r} (phase : s.calls c = .answering key r []) :
      Step s (.resume c) (s.goto c (.returned key r))
  -- dropped futures
  | dropLeader {c key token entry} (phase : s.calls c = .fetching key token)
      (inFlight : s.registered key = some entry) (same : u64 entry.token = u64 token) :
      Step s (.drop c)
        ((s.withInFlight (s.cache.inFlight.erase key)).goto c
          (.notifying (entry.waiters.map fun w => (key, w))))
  | dropSuperseded {c key token} (phase : s.calls c = .fetching key token)
      (other : ∀ entry, s.registered key = some entry → u64 entry.token ≠ u64 token) :
      Step s (.drop c) (s.goto c .finished)
  | dropWaiter {c key} (phase : s.calls c = .waiting key) :
      Step s (.drop c) (s.goto c .finished)
  -- the invalidations
  | beginInvalidate {c key} (idle : s.calls c = .idle) :
      Step s (.begin c (.invalidate key))
        ({ s with cache := s.cache.bump }.goto c (.invalidating key))
  | beginMatching {c p} (idle : s.calls c = .idle) :
      Step s (.begin c (.invalidateMatching p))
        ({ s with cache := s.cache.bump }.goto c (.matching p))
  | beginClear {c} (idle : s.calls c = .idle) :
      Step s (.begin c .clear) ({ s with cache := s.cache.bump }.goto c .clearing)
  | invalidateInFlight {c key} (phase : s.calls c = .invalidating key) :
      Step s (.resume c)
        ((s.withInFlight (s.cache.inFlight.erase key)).goto c
          (.invalidated key (((s.registered key).map InFlight.waiters).getD [])))
  | invalidateStore {c key ws} (phase : s.calls c = .invalidated key ws) (free : s.writer = none) :
      Step s (.resume c)
        ((s.withStore (s.cache.store.remove key)).goto c
          (.notifying (ws.map fun w => (key, w))))
  | matchNothing {c p} (phase : s.calls c = .matching p) (free : s.writer = none)
      (nothing : s.cache.store.doomed p = []) :
      Step s (.resume c) (s.goto c .finished)
  | matchStore {c p} (phase : s.calls c = .matching p) (free : s.writer = none) :
      Step s (.resume c)
        ((s.withStore (s.cache.store.removeMatching p)).goto c
          (.matched (s.cache.store.doomed p)))
  | matchInFlight {c removed} (phase : s.calls c = .matched removed) :
      Step s (.resume c)
        ((s.withInFlight (InMemoryCache.cancelKeys removed s.cache.inFlight).1).goto c
          (.notifying (InMemoryCache.cancelKeys removed s.cache.inFlight).2))
  | clearInFlight {c} (phase : s.calls c = .clearing) :
      Step s (.resume c) ((s.withInFlight ∅).goto c (.drained s.cache.drainInFlight.2))
  | clearStore {c ws} (phase : s.calls c = .drained ws) (free : s.writer = none) :
      Step s (.resume c) ((s.withStore Store.new).goto c (.notifying ws))
  | notify {c key w ws} (phase : s.calls c = .notifying ((key, w) :: ws)) :
      Step s (.resume c)
        ((s.send w (.error (s.cache.makeCancelledError key))).goto c (.notifying ws))
  | notified {c} (phase : s.calls c = .notifying []) : Step s (.resume c) (s.goto c .finished)
  -- `insert_if_current`
  | beginInsert {c key v g} (idle : s.calls c = .idle) :
      Step s (.begin c (.insertIfCurrent key v g)) (s.goto c (.inserting key v g))
  | check {c key v g} (phase : s.calls c = .inserting key v g) (free : s.writer = none) :
      Step s (.resume c)
        ({ s with writer := some c }.goto c (.checked key v (u64 s.generation = u64 g)))
  | insert {c key v} (phase : s.calls c = .checked key v true) :
      Step s (.resume c)
        ({ s.withStore (s.cache.store.insertLocked s.cache.maxEntries key v c) with
            writer := none }.goto c .finished)
  | skip {c key v} (phase : s.calls c = .checked key v false) :
      Step s (.resume c) ({ s with writer := none }.goto c .finished)

/-! ## `Step` is `step` -/

omit [DecidableEq K] in
theorem whenUnlocked_eq_some {s next t : State K V} :
    whenUnlocked s next = some t ↔ s.writer = none ∧ next = t := by
  unfold whenUnlocked
  split <;> simp [*]

theorem get_eq_some_iff {s : State K V} {key : K} {v : V} :
    s.cache.get key = some v ↔ ∃ e, s.lookup key = some e ∧ e.value = v :=
  Store.get_eq_some

theorem get_eq_none_iff {s : State K V} {key : K} :
    s.cache.get key = none ↔ s.lookup key = none :=
  Store.get_eq_none

theorem takeInFlight_some (cache : InMemoryCache K V) {key : K} {token : Nat} {entry : InFlight}
    (h : cache.inFlight.lookup key = some entry) (same : u64 entry.token = u64 token) :
    cache.takeInFlight key token =
      ({ cache with inFlight := cache.inFlight.erase key }, some entry.waiters) := by
  simp [InMemoryCache.takeInFlight, h, same]

theorem takeInFlight_none (cache : InMemoryCache K V) {key : K} {token : Nat}
    (h : ∀ entry, cache.inFlight.lookup key = some entry → u64 entry.token ≠ u64 token) :
    cache.takeInFlight key token = (cache, none) := by
  unfold InMemoryCache.takeInFlight
  split
  · rename_i entry he
    rw [if_neg (h entry he)]
  · rfl

/-- A leader's slot is its own, or it is not. -/
theorem slot_cases (s : State K V) (key : K) (token : Nat) :
    (∃ entry, s.registered key = some entry ∧ u64 entry.token = u64 token) ∨
      (∀ entry, s.registered key = some entry → u64 entry.token ≠ u64 token) := by
  cases h : s.registered key with
  | none => exact Or.inr (fun _ h' => by cases h')
  | some entry =>
    by_cases same : u64 entry.token = u64 token
    · exact Or.inl ⟨entry, rfl, same⟩
    · exact Or.inr (fun _ h' => by cases h'; exact same)

theorem start_step {s t : State K V} {c : CallId} {op : Op K V} (idle : s.calls c = .idle)
    (h : start s c op = some t) : Step s (.begin c op) t := by
  cases op with
  | getOrFetch key =>
    obtain ⟨free, rfl⟩ := whenUnlocked_eq_some.mp h
    split
    · rename_i v hv
      obtain ⟨e, he, rfl⟩ := get_eq_some_iff.mp hv
      exact Step.hit idle free he
    · rename_i hnone
      exact Step.miss idle free (get_eq_none_iff.mp hnone)
  | invalidate key => cases h; exact Step.beginInvalidate idle
  | invalidateMatching p => cases h; exact Step.beginMatching idle
  | clear => cases h; exact Step.beginClear idle
  | insertIfCurrent key v g => cases h; exact Step.beginInsert idle

theorem select_step {s : State K V} {c : CallId} {key : K} (phase : s.calls c = .missed key)
    (free : s.writer = none) : Step s (.resume c) (select s c key) := by
  cases hget : s.cache.get key with
  | some v =>
    obtain ⟨e, he, rfl⟩ := get_eq_some_iff.mp hget
    have heq : select s c key = s.goto c (.returned key (.ok e.value)) := by
      simp [select, InMemoryCache.selectRole, hget]
    rw [heq]
    exact Step.recheckHit phase free he
  | none =>
    have absent := get_eq_none_iff.mp hget
    cases hreg : s.cache.inFlight.lookup key with
    | some entry =>
      have := Step.join phase free absent hreg
      simpa [select, InMemoryCache.selectRole, hget, hreg, State.withInFlight] using this
    | none =>
      have := Step.elect phase free absent hreg
      simpa [select, InMemoryCache.selectRole, hget, hreg] using this

theorem claim_step {s : State K V} {c : CallId} {key : K} {token : Nat} {r : Result V}
    (phase : s.calls c = .fetched key token r) :
    Step s (.resume c) (claim s c key token r) := by
  rcases slot_cases s key token with ⟨entry, hreg, same⟩ | other
  · have htake := takeInFlight_some s.cache hreg same
    cases r with
    | ok v => simpa [claim, htake, State.withInFlight] using Step.claimOk phase hreg same
    | error err => simpa [claim, htake, State.withInFlight] using Step.claimError phase hreg same
  · have htake := takeInFlight_none s.cache other
    simpa [claim, htake] using Step.superseded phase other

theorem resume_step {s t : State K V} {c : CallId} (h : resume s c = some t) :
    Step s (.resume c) t := by
  unfold resume at h
  split at h
  · rename_i key phase
    obtain ⟨free, rfl⟩ := whenUnlocked_eq_some.mp h
    exact select_step phase free
  · rename_i key phase
    split at h
    · rename_i r rs answer
      cases h
      exact Step.wake phase answer
    · cases h
  · rename_i key token phase
    cases h
    exact Step.fetch phase
  · rename_i key token r phase
    cases h
    exact claim_step phase
  · rename_i key v ws phase
    obtain ⟨free, rfl⟩ := whenUnlocked_eq_some.mp h
    cases hget : s.cache.get key with
    | some v =>
      obtain ⟨e, he, rfl⟩ := get_eq_some_iff.mp hget
      simpa [InMemoryCache.storeFetched, hget] using Step.keep phase free he
    | none =>
      simpa [InMemoryCache.storeFetched, hget, State.withStore] using
        Step.store phase free (get_eq_none_iff.mp hget)
  · rename_i key r w ws phase
    cases h
    exact Step.answer phase
  · rename_i key r phase
    cases h
    exact Step.answered phase
  · rename_i key phase
    cases h
    exact Step.invalidateInFlight phase
  · rename_i key ws phase
    obtain ⟨free, rfl⟩ := whenUnlocked_eq_some.mp h
    exact Step.invalidateStore phase free
  · rename_i p phase
    obtain ⟨free, rfl⟩ := whenUnlocked_eq_some.mp h
    split
    · rename_i nothing
      exact Step.matchNothing phase free nothing
    · exact Step.matchStore phase free
  · rename_i removed phase
    cases h
    exact Step.matchInFlight phase
  · rename_i phase
    cases h
    exact Step.clearInFlight phase
  · rename_i ws phase
    obtain ⟨free, rfl⟩ := whenUnlocked_eq_some.mp h
    exact Step.clearStore phase free
  · rename_i key w ws phase
    cases h
    exact Step.notify phase
  · rename_i phase
    cases h
    exact Step.notified phase
  · rename_i key v g phase
    obtain ⟨free, rfl⟩ := whenUnlocked_eq_some.mp h
    exact Step.check phase free
  · rename_i key v current phase
    cases h
    cases current with
    | true => exact Step.insert phase
    | false => exact Step.skip phase
  all_goals cases h

theorem drop_step {s t : State K V} {c : CallId} (h : dropFuture s c = some t) :
    Step s (.drop c) t := by
  unfold dropFuture at h
  split at h
  · rename_i key token phase
    rcases slot_cases s key token with ⟨entry, hreg, same⟩ | other
    · rw [takeInFlight_some s.cache hreg same] at h
      cases h
      exact Step.dropLeader phase hreg same
    · rw [takeInFlight_none s.cache other] at h
      cases h
      exact Step.dropSuperseded phase other
  · rename_i key phase
    cases h
    exact Step.dropWaiter phase
  · cases h

/-- The inversion of `step`. -/
theorem step_cases {s t : State K V} {e : Event K V} (h : step s e = some t) : Step s e t := by
  cases e with
  | begin c op =>
    simp only [step] at h
    split at h
    · rename_i idle
      exact start_step idle h
    · cases h
  | resume c => exact resume_step h
  | reply c r =>
    simp only [step] at h
    split at h
    · rename_i key token phase
      cases h
      exact Step.reply phase
    · cases h
  | drop c => exact drop_step h

end Schemreg.CacheInner
