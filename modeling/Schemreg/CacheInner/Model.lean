import Schemreg.Error
import Schemreg.Lib.Wrapping
import Schemreg.CacheInner.Store
import Mathlib.Logic.Function.Basic

/-
  `src/cache_inner.rs`: `InMemoryCache` and its methods as interleaved calls.

  Every lock-protected critical section, every atomic operation and every `send` on a
  waiter's channel is one step. A call is named by a `CallId`; its `Phase` is where it
  stands between two of its steps, together with the local variables that are live there.
  `step` is the step function: `begin` starts a call (and runs its first section),
  `resume` runs the next section of a call, `reply` is the answer of the fetch future, and
  `drop` drops the future of a call that is awaiting.

  * `insert_if_current` compares the generation and inserts under the store's write lock.
    The counter is not protected by that lock, so the comparison and the insertion are two
    steps, between which the call holds the lock (`State.writer`); every section that takes
    the store's lock, to read or to write, waits until it is free.
  * `next_token` and `invalidation_generation` are `u64` counters that only grow by one.
    They are kept as the number of their increments; a token or a generation is compared
    through `u64`, as the machine does.
  * A waiter's `oneshot` channel is named by the call that waits on it. `answers` records
    what has been sent on each channel.
  * `roles` records what `get_or_fetch` decided for a call. It is a ghost: no step reads it.
-/

namespace Schemreg.CacheInner

open Wrapping

variable {K V : Type} [DecidableEq K]

/-- `InFlight<V>`: a fetch in progress, and everyone waiting on it. -/
structure InFlight where
  token : Nat
  waiters : List CallId
  deriving DecidableEq

/-- `InMemoryCache<K, V>`. -/
structure InMemoryCache (K V : Type) where
  store : Store K V
  maxEntries : Option Nat
  nextToken : Nat
  invalidationGeneration : Nat
  inFlight : AList fun _ : K => InFlight
  makeCancelledError : K → SchemaRegError

namespace InMemoryCache

/-- `InMemoryCache::new`. -/
def new (maxEntries : Option Nat) (makeCancelledError : K → SchemaRegError) :
    InMemoryCache K V :=
  ⟨Store.new, maxEntries, 0, 0, ∅, makeCancelledError⟩

/-- `get`, and the store reads of `get_or_fetch`. -/
def get (cache : InMemoryCache K V) (key : K) : Option V := cache.store.get key

/-- `invalidation_generation.fetch_add(1)`. -/
def bump (cache : InMemoryCache K V) : InMemoryCache K V :=
  { cache with invalidationGeneration := cache.invalidationGeneration + 1 }

/-- What the role section of `get_or_fetch` decides. -/
inductive Selected (V : Type) where
  | hit (value : V)
  | waiter (token : Nat)
  | leader (token : Nat)

/-- The role section of `get_or_fetch`, under the `in_flight` lock: re-check the store,
    join the registered fetch, or register a new one and lead it. -/
def selectRole (cache : InMemoryCache K V) (key : K) (caller : CallId) :
    InMemoryCache K V × Selected V :=
  match cache.get key with
  | some value => (cache, .hit value)
  | none =>
    match cache.inFlight.lookup key with
    | some entry =>
        ({ cache with
            inFlight := cache.inFlight.insert key
              { entry with waiters := entry.waiters ++ [caller] } },
          .waiter entry.token)
    | none =>
        let token := cache.nextToken + 1
        ({ cache with
            nextToken := token
            inFlight := cache.inFlight.insert key ⟨token, []⟩ },
          .leader token)

/-- `take_in_flight`: remove and return this leader's waiters, or `none` if the slot was
    taken over. -/
def takeInFlight (cache : InMemoryCache K V) (key : K) (token : Nat) :
    InMemoryCache K V × Option (List CallId) :=
  match cache.inFlight.lookup key with
  | some entry =>
      if u64 entry.token = u64 token then
        ({ cache with inFlight := cache.inFlight.erase key }, some entry.waiters)
      else (cache, none)
  | none => (cache, none)

/-- The store section of a leader that claimed its slot: keep an existing entry, or insert
    the fetched value. -/
def storeFetched (cache : InMemoryCache K V) (key : K) (value : V) (caller : CallId) :
    InMemoryCache K V × V :=
  match cache.get key with
  | some existing => (cache, existing)
  | none =>
      ({ cache with store := cache.store.insertLocked cache.maxEntries key value caller }, value)

/-- The `in_flight` section of `invalidate`. -/
def removeInFlight (cache : InMemoryCache K V) (key : K) :
    InMemoryCache K V × List CallId :=
  ({ cache with inFlight := cache.inFlight.erase key },
    ((cache.inFlight.lookup key).map InFlight.waiters).getD [])

/-- The `in_flight` section of `invalidate_matching`: the waiters of every removed key. -/
def cancelKeys : List K → (AList fun _ : K => InFlight) →
    (AList fun _ : K => InFlight) × List (K × CallId)
  | [], inFlight => (inFlight, [])
  | key :: keys, inFlight =>
    match inFlight.lookup key with
    | some entry =>
        let rest := cancelKeys keys (inFlight.erase key)
        (rest.1, entry.waiters.map (fun w => (key, w)) ++ rest.2)
    | none => cancelKeys keys inFlight

/-- The `in_flight` section of `clear`: `drain` the map. -/
def drainInFlight (cache : InMemoryCache K V) : InMemoryCache K V × List (K × CallId) :=
  ({ cache with inFlight := ∅ },
    cache.inFlight.entries.flatMap fun e => e.2.waiters.map fun w => (e.1, w))

/-- The store section of `insert_if_current`. -/
def insert (cache : InMemoryCache K V) (key : K) (value : V) (caller : CallId) :
    InMemoryCache K V :=
  { cache with store := cache.store.insertLocked cache.maxEntries key value caller }

end InMemoryCache

/-! ## Calls -/

/-- The methods of the cache that change it, with their arguments. -/
inductive Op (K V : Type) where
  | getOrFetch (key : K)
  | invalidate (key : K)
  | invalidateMatching (predicate : V → Bool)
  | clear
  | insertIfCurrent (key : K) (value : V) (observedGeneration : Nat)

/-- Where a call stands between two of its steps. -/
inductive Phase (K V : Type) where
  | idle
  -- `get_or_fetch`
  | missed (key : K)
  | waiting (key : K)
  | elected (key : K) (token : Nat)
  | fetching (key : K) (token : Nat)
  | fetched (key : K) (token : Nat) (result : Result V)
  | claimed (key : K) (value : V) (waiters : List CallId)
  | answering (key : K) (outcome : Result V) (waiters : List CallId)
  | returned (key : K) (outcome : Result V)
  -- `invalidate`
  | invalidating (key : K)
  | invalidated (key : K) (waiters : List CallId)
  -- `invalidate_matching`
  | matching (predicate : V → Bool)
  | matched (removed : List K)
  -- `clear`
  | clearing
  | drained (cancelled : List (K × CallId))
  -- `notify_cancelled`, for the invalidations and for `LeaderGuard::drop`
  | notifying (cancelled : List (K × CallId))
  -- `insert_if_current`
  | inserting (key : K) (value : V) (observedGeneration : Nat)
  | checked (key : K) (value : V) (current : Bool)
  | finished

/-- What `get_or_fetch` decided for a call: `Role::Waiter` on the fetch that holds `token`,
    or `Role::Leader(token)`. -/
inductive Role (K : Type) where
  | waiter (key : K) (token : Nat)
  | leader (key : K) (token : Nat)
  deriving DecidableEq

/-- The cache and the calls in progress. -/
structure State (K V : Type) where
  cache : InMemoryCache K V
  writer : Option CallId
  calls : CallId → Phase K V
  roles : CallId → Option (Role K)
  answers : CallId → List (Result V)

inductive Event (K V : Type) where
  | begin (c : CallId) (op : Op K V)
  | resume (c : CallId)
  | reply (c : CallId) (result : Result V)
  | drop (c : CallId)

namespace State

def init (maxEntries : Option Nat) (makeCancelledError : K → SchemaRegError) : State K V :=
  ⟨InMemoryCache.new maxEntries makeCancelledError, none, fun _ => .idle, fun _ => none,
    fun _ => []⟩

/-- Move call `c` to a phase. -/
def goto (s : State K V) (c : CallId) (phase : Phase K V) : State K V :=
  { s with calls := Function.update s.calls c phase }

/-- Record the role of call `c`. -/
def assign (s : State K V) (c : CallId) (role : Role K) : State K V :=
  { s with roles := Function.update s.roles c (some role) }

/-- `waiter.send(result)`. -/
def send (s : State K V) (w : CallId) (result : Result V) : State K V :=
  { s with answers := Function.update s.answers w (s.answers w ++ [result]) }

/-- The entry stored under `key`. -/
def lookup (s : State K V) (key : K) : Option (Entry V) := s.cache.store.lookup key

/-- `generation()`. -/
def generation (s : State K V) : Nat := s.cache.invalidationGeneration

end State

/-- A section that takes the store's lock runs only while no call holds it. -/
def whenUnlocked (s : State K V) (next : State K V) : Option (State K V) :=
  if s.writer = none then some next else none

/-- Start a call. `get_or_fetch` runs its fast path, the invalidations their bump. -/
def start (s : State K V) (c : CallId) : Op K V → Option (State K V)
  | .getOrFetch key =>
      whenUnlocked s <| match s.cache.get key with
        | some value => s.goto c (.returned key (.ok value))
        | none => s.goto c (.missed key)
  | .invalidate key => some ({ s with cache := s.cache.bump }.goto c (.invalidating key))
  | .invalidateMatching predicate =>
      some ({ s with cache := s.cache.bump }.goto c (.matching predicate))
  | .clear => some ({ s with cache := s.cache.bump }.goto c .clearing)
  | .insertIfCurrent key value observed => some (s.goto c (.inserting key value observed))

/-- The role section of `get_or_fetch`. -/
def select (s : State K V) (c : CallId) (key : K) : State K V :=
  match s.cache.selectRole key c with
  | (cache, .hit value) => { s with cache := cache }.goto c (.returned key (.ok value))
  | (cache, .waiter token) =>
      ({ s with cache := cache }.assign c (.waiter key token)).goto c (.waiting key)
  | (cache, .leader token) =>
      ({ s with cache := cache }.assign c (.leader key token)).goto c (.elected key token)

/-- The claim of a leader whose fetch is complete. -/
def claim (s : State K V) (c : CallId) (key : K) (token : Nat) (result : Result V) : State K V :=
  match s.cache.takeInFlight key token with
  | (cache, some waiters) =>
      { s with cache := cache }.goto c <| match result with
        | .ok value => .claimed key value waiters
        | .error err => .answering key (.error err) waiters
  | (cache, none) => { s with cache := cache }.goto c (.returned key result)

/-- Run the next section of call `c`. -/
def resume (s : State K V) (c : CallId) : Option (State K V) :=
  match s.calls c with
  | .missed key => whenUnlocked s (select s c key)
  | .waiting key =>
      match s.answers c with
      | result :: _ => some (s.goto c (.returned key result))
      | [] => none
  | .elected key token => some (s.goto c (.fetching key token))
  | .fetched key token result => some (claim s c key token result)
  | .claimed key value waiters =>
      let (cache, stored) := s.cache.storeFetched key value c
      whenUnlocked s ({ s with cache := cache }.goto c (.answering key (.ok stored) waiters))
  | .answering key outcome (w :: waiters) =>
      some ((s.send w outcome).goto c (.answering key outcome waiters))
  | .answering key outcome [] => some (s.goto c (.returned key outcome))
  | .invalidating key =>
      let (cache, waiters) := s.cache.removeInFlight key
      some ({ s with cache := cache }.goto c (.invalidated key waiters))
  | .invalidated key waiters =>
      whenUnlocked s ({ s with cache := { s.cache with store := s.cache.store.remove key } }.goto c
        (.notifying (waiters.map fun w => (key, w))))
  | .matching predicate =>
      whenUnlocked s <| match s.cache.store.doomed predicate with
        | [] => s.goto c .finished
        | removed => { s with cache := { s.cache with
            store := s.cache.store.removeMatching predicate } }.goto c (.matched removed)
  | .matched removed =>
      let (inFlight, cancelled) := InMemoryCache.cancelKeys removed s.cache.inFlight
      some ({ s with cache := { s.cache with inFlight := inFlight } }.goto c (.notifying cancelled))
  | .clearing =>
      let (cache, cancelled) := s.cache.drainInFlight
      some ({ s with cache := cache }.goto c (.drained cancelled))
  | .drained cancelled =>
      whenUnlocked s ({ s with cache := { s.cache with store := Store.new } }.goto c
        (.notifying cancelled))
  | .notifying ((key, w) :: cancelled) =>
      some ((s.send w (.error (s.cache.makeCancelledError key))).goto c (.notifying cancelled))
  | .notifying [] => some (s.goto c .finished)
  | .inserting key value observed =>
      whenUnlocked s ({ s with writer := some c }.goto c
        (.checked key value (u64 s.generation = u64 observed)))
  | .checked key value current =>
      some ({ s with
        writer := none
        cache := if current then s.cache.insert key value c else s.cache }.goto c .finished)
  | .idle | .fetching _ _ | .returned _ _ | .finished => none

/-- Drop the future of an awaiting call. `LeaderGuard::drop` takes the leader's slot and
    wakes its waiters; the future of a waiter just goes away. -/
def dropFuture (s : State K V) (c : CallId) : Option (State K V) :=
  match s.calls c with
  | .fetching key token =>
      match s.cache.takeInFlight key token with
      | (cache, some waiters) =>
          some ({ s with cache := cache }.goto c (.notifying (waiters.map fun w => (key, w))))
      | (cache, none) => some ({ s with cache := cache }.goto c .finished)
  | .waiting _ => some (s.goto c .finished)
  | _ => none

/-- One step of the cache's calls. -/
def step (s : State K V) : Event K V → Option (State K V)
  | .begin c op =>
      match s.calls c with
      | .idle => start s c op
      | _ => none
  | .resume c => resume s c
  | .reply c result =>
      match s.calls c with
      | .fetching key token => some (s.goto c (.fetched key token result))
      | _ => none
  | .drop c => dropFuture s c

end Schemreg.CacheInner
