import Schemreg.CacheInner.Step

/-
  The bounded store is a queue: entries leave it in the order in which they came.

  `Queued` is the invariant of the store: the order queue enumerates the stored keys, and
  there are at most `max` of them. Each of the sections that write the store keeps it, and
  the eviction loop of an insertion pops at most one key under it (`insertLocked_of_full`).

  When a key came is not part of the state. `Timed` carries it as a ghost beside the state:
  a clock that counts the steps, and for each key the time of the step that last stored the
  key while it was absent. `Fifo` adds to `Queued` that the queue is sorted by that time.

  Proved:
  * `fifo_store`: over every run of a bounded cache, with all its calls interleaved, the
    queue enumerates the entries and respects the bound; storing a stored key changes its
    value and nothing else, storing a new key below the bound removes nothing, and at the
    bound it removes the one key that came first.
-/

namespace Schemreg.CacheInner

open Transition

variable {K V : Type} [DecidableEq K]

namespace Store

/-- The order queue enumerates the stored keys without repetition, and there are at most
    `max` of them. -/
structure Queued (max : Nat) (store : Store K V) : Prop where
  nodup : store.order.Nodup
  enumerates : ∀ k, k ∈ store.order ↔ (store.lookup k).isSome
  bounded : store.len ≤ max

variable {max : Nat} {store store' : Store K V} {key : K} {value : V} {writer : CallId}

theorem mem_keys_iff {k : K} : k ∈ store.entries.keys ↔ (store.lookup k).isSome := by
  show k ∈ store.entries.keys ↔ (store.entries.lookup k).isSome
  rw [AList.lookup_isSome, AList.mem_keys]

/-- The queue is as long as the map. -/
theorem Queued.length_order (h : store.Queued max) : store.order.length = store.len := by
  have hperm : store.order.Perm store.entries.keys := by
    rw [List.perm_ext_iff_of_nodup h.nodup store.entries.keys_nodup]
    intro k
    rw [h.enumerates, mem_keys_iff]
  exact hperm.length_eq

/-- A store with fewer keys is smaller. -/
theorem len_le_of_lookup (h : ∀ k, (store'.lookup k).isSome → (store.lookup k).isSome) :
    store'.len ≤ store.len := by
  have hsub : store'.entries.keys ⊆ store.entries.keys := by
    intro k hk
    exact mem_keys_iff.mpr (h k (mem_keys_iff.mp hk))
  exact (List.subperm_of_subset store'.entries.keys_nodup hsub).length_le

/-! ## Insertion -/

theorem len_insert (absent : store.lookup key = none) (e : Entry V) :
    (store.entries.insert key e).keys.length = store.len + 1 := by
  have hfresh : key ∉ store.entries.keys := by
    rw [mem_keys_iff, absent]
    simp
  rw [AList.keys_insert, List.erase_of_not_mem hfresh]
  rfl

theorem insertLocked_of_stored {maxEntries : Option Nat} (stored : (store.lookup key).isSome) :
    store.insertLocked maxEntries key value writer =
      ⟨store.entries.insert key ⟨value, writer⟩, store.order⟩ := by
  unfold insertLocked
  rw [if_pos stored]

theorem insertLocked_of_absent (absent : store.lookup key = none) :
    store.insertLocked (some max) key value writer =
      evict max (store.entries.insert key ⟨value, writer⟩) (store.order ++ [key]) := by
  unfold insertLocked
  rw [if_neg (by rw [absent]; simp)]

/-- Below the bound, a new key joins the queue. -/
theorem insertLocked_of_room (absent : store.lookup key = none) (room : store.len < max) :
    store.insertLocked (some max) key value writer =
      ⟨store.entries.insert key ⟨value, writer⟩, store.order ++ [key]⟩ := by
  rw [insertLocked_of_absent absent, evict_of_le]
  rw [len_insert absent]
  omega

/-- At the bound, a new key joins the queue and the oldest key leaves it. -/
theorem Queued.insertLocked_of_full (h : store.Queued max) (pos : 1 ≤ max)
    (absent : store.lookup key = none) (full : store.len = max) (value : V) (writer : CallId) :
    ∃ oldest rest, store.order = oldest :: rest ∧
      store.insertLocked (some max) key value writer =
        ⟨(store.entries.insert key ⟨value, writer⟩).erase oldest, rest ++ [key]⟩ ∧
      ((store.entries.insert key ⟨value, writer⟩).erase oldest).keys.length = max := by
  cases horder : store.order with
  | nil =>
    have hlen := h.length_order
    rw [horder, full] at hlen
    simp at hlen
    omega
  | cons oldest rest =>
    have hlen := len_insert absent ⟨value, writer⟩
    have hstored : oldest ∈ store.entries.keys := by
      rw [mem_keys_iff, ← h.enumerates, horder]
      exact List.mem_cons_self
    have hmem : oldest ∈ (store.entries.insert key ⟨value, writer⟩).keys := by
      rw [← AList.mem_keys, AList.mem_insert, AList.mem_keys]
      exact Or.inr hstored
    have hleft : ((store.entries.insert key ⟨value, writer⟩).erase oldest).keys.length = max := by
      rw [AList.keys_erase, List.length_erase_of_mem hmem]
      omega
    refine ⟨oldest, rest, rfl, ?_, hleft⟩
    -- one key over the bound: the loop pops once and stops
    rw [insertLocked_of_absent absent, horder, List.cons_append, evict, if_pos (by omega),
      evict_of_le (Nat.le_of_eq hleft)]

/-! ## Each section keeps the queue -/

theorem queued_new : (new : Store K V).Queued max :=
  ⟨List.nodup_nil, fun k => by simp [new, lookup], Nat.zero_le _⟩

theorem lookup_insert_eq (e : Entry V) (k : K) :
    (store.entries.insert key e).lookup k = if k = key then some e else store.lookup k := by
  split
  · rename_i hk
    rw [hk, AList.lookup_insert]
  · rename_i hk
    rw [AList.lookup_insert_ne hk]
    rfl

theorem Queued.insert_stored (h : store.Queued max) (stored : (store.lookup key).isSome) :
    (store.insertLocked (some max) key value writer).Queued max := by
  rw [insertLocked_of_stored stored]
  have hlook : ∀ k, ((store.entries.insert key ⟨value, writer⟩).lookup k).isSome ↔
      (store.lookup k).isSome := by
    intro k
    rw [lookup_insert_eq]
    split
    · rename_i hk
      simp [hk, stored]
    · rfl
  refine ⟨h.nodup, fun k => ?_, ?_⟩
  · exact (h.enumerates k).trans (hlook k).symm
  · exact Nat.le_trans (len_le_of_lookup fun k => (hlook k).mp) h.bounded

theorem Queued.not_mem_order (h : store.Queued max) (absent : store.lookup key = none) :
    key ∉ store.order := by
  rw [h.enumerates, absent]
  simp

omit [DecidableEq K] in
theorem nodup_join {order : List K} (h : order.Nodup) (hnew : key ∉ order) :
    (order ++ [key]).Nodup := by
  rw [← List.concat_eq_append]
  exact h.concat hnew

theorem Queued.insert_room (h : store.Queued max) (absent : store.lookup key = none)
    (room : store.len < max) : (store.insertLocked (some max) key value writer).Queued max := by
  rw [insertLocked_of_room absent room]
  refine ⟨nodup_join h.nodup (h.not_mem_order absent), fun k => ?_, ?_⟩
  · show k ∈ store.order ++ [key] ↔ ((store.entries.insert key ⟨value, writer⟩).lookup k).isSome
    rw [List.mem_append, List.mem_singleton, h.enumerates, lookup_insert_eq]
    split <;> simp [*]
  · show (store.entries.insert key ⟨value, writer⟩).keys.length ≤ max
    rw [len_insert absent]
    omega

theorem Queued.insert_full (h : store.Queued max) (pos : 1 ≤ max)
    (absent : store.lookup key = none) (full : store.len = max) :
    (store.insertLocked (some max) key value writer).Queued max := by
  obtain ⟨oldest, rest, horder, hstore, hlen⟩ :=
    h.insertLocked_of_full pos absent full value writer
  rw [hstore]
  have hnodup := h.nodup
  have hnew := h.not_mem_order absent
  rw [horder] at hnodup hnew
  obtain ⟨hout, hrest⟩ := List.nodup_cons.mp hnodup
  have hne : oldest ≠ key := fun heq => hnew (heq ▸ List.mem_cons_self)
  refine ⟨nodup_join hrest fun hk => hnew (List.mem_cons_of_mem _ hk), fun k => ?_,
    Nat.le_of_eq hlen⟩
  show k ∈ rest ++ [key] ↔
    (((store.entries.insert key ⟨value, writer⟩).erase oldest).lookup k).isSome
  have hk := h.enumerates k
  rw [horder, List.mem_cons] at hk
  rw [List.mem_append, List.mem_singleton]
  by_cases hold : k = oldest
  · subst hold
    rw [AList.lookup_erase]
    simp [hout, hne]
  · rw [AList.lookup_erase_ne hold, lookup_insert_eq]
    split
    · simp [*]
    · rw [← hk]
      simp [*]

theorem Queued.insertLocked (h : store.Queued max) (pos : 1 ≤ max) :
    (store.insertLocked (some max) key value writer).Queued max := by
  cases hkey : store.lookup key with
  | some e => exact h.insert_stored (by rw [hkey]; rfl)
  | none =>
    rcases Nat.lt_or_ge store.len max with room | full
    · exact h.insert_room hkey room
    · exact h.insert_full pos hkey (Nat.le_antisymm h.bounded full)

/-- A section that filters the queue by the keys it leaves in the map. -/
theorem Queued.filter (h : store.Queued max) {p : K → Bool}
    (horder : store'.order = store.order.filter p)
    (hlook : ∀ k, (store'.lookup k).isSome ↔ (store.lookup k).isSome ∧ p k = true) :
    store'.Queued max := by
  refine ⟨?_, fun k => ?_, ?_⟩
  · rw [horder]
    exact h.nodup.filter p
  · rw [horder, List.mem_filter, hlook, h.enumerates]
  · exact Nat.le_trans (len_le_of_lookup fun k hk => ((hlook k).mp hk).1) h.bounded

theorem order_remove (h : store.Queued max) (key : K) :
    (store.remove key).order = store.order.filter fun cached => cached ≠ key := by
  unfold remove
  split
  · rfl
  · rename_i absent
    have hout : key ∉ store.order := by rwa [h.enumerates]
    symm
    rw [List.filter_eq_self]
    intro k hk
    exact decide_eq_true fun heq => hout (heq ▸ hk)

theorem Queued.remove (h : store.Queued max) (key : K) : (store.remove key).Queued max := by
  apply h.filter (order_remove h key)
  intro k
  rw [lookup_remove]
  split <;> simp [*]

theorem isSome_removeMatching {predicate : V → Bool} {k : K}
    (hk : ((store.removeMatching predicate).lookup k).isSome) : (store.lookup k).isSome := by
  obtain ⟨e, he⟩ := Option.isSome_iff_exists.mp hk
  exact Option.isSome_iff_exists.mpr ⟨e, (lookup_removeMatching.mp he).1⟩

theorem Queued.removeMatching (h : store.Queued max) (predicate : V → Bool) :
    (store.removeMatching predicate).Queued max := by
  apply h.filter (p := fun k => ((store.removeMatching predicate).lookup k).isSome) rfl
  intro k
  constructor
  · exact fun hk => ⟨isSome_removeMatching hk, hk⟩
  · exact fun hk => hk.2

end Store

/-! ## One step of the cache -/

variable {s t : State K V} {e : Event K V}

/-- Event `e` is the section of call `c` that inserts `value` under `key`: the store section
    of `insert_if_current` after a check that passed, or that of a leader of `get_or_fetch`
    that finds nothing stored. -/
def Inserts (s : State K V) (e : Event K V) (c : CallId) (key : K) (value : V) : Prop :=
  e = .resume c ∧ (s.calls c = .checked key value true ∨
    ((∃ waiters, s.calls c = .claimed key value waiters) ∧ s.lookup key = none))

/-- What a step can leave in the store. -/
inductive Stores (s : State K V) (e : Event K V) : Store K V → Prop where
  | unchanged : Stores s e s.cache.store
  | insert {c key value} (inserts : Inserts s e c key value) :
      Stores s e (s.cache.store.insertLocked s.cache.maxEntries key value c)
  | remove (key : K) : Stores s e (s.cache.store.remove key)
  | removeMatching (predicate : V → Bool) : Stores s e (s.cache.store.removeMatching predicate)
  | clear : Stores s e Store.new

theorem store_step (hs : step s e = some t) : Stores s e t.cache.store := by
  cases step_cases hs with
  | store phase free absent => exact Stores.insert ⟨rfl, Or.inr ⟨⟨_, phase⟩, absent⟩⟩
  | insert phase => exact Stores.insert ⟨rfl, Or.inl phase⟩
  | invalidateStore => exact Stores.remove _
  | matchStore => exact Stores.removeMatching _
  | clearStore => exact Stores.clear
  | _ => exact Stores.unchanged

theorem maxEntries_step (hs : step s e = some t) : t.cache.maxEntries = s.cache.maxEntries := by
  cases step_cases hs <;> rfl

/-- An insertion stores the value. -/
theorem Inserts.stores (hs : step s e = some t) {c : CallId} {key : K} {value : V}
    (h : Inserts s e c key value) :
    t.cache.store = s.cache.store.insertLocked s.cache.maxEntries key value c := by
  obtain ⟨rfl, phase | ⟨⟨ws, phase⟩, absent⟩⟩ := h
  · cases step_cases hs with
    | insert phase' =>
      rw [phase] at phase'
      cases phase'
      rfl
    | _ => simp_all
  · cases step_cases hs with
    | store phase' =>
      rw [phase] at phase'
      cases phase'
      rfl
    | _ => simp_all

/-- A leader that finds its key stored leaves the store alone. -/
theorem leader_keeps_stored {c : CallId} (hs : step s (.resume c) = some t) {key : K}
    {value : V} {ws : List CallId} (phase : s.calls c = .claimed key value ws)
    (stored : (s.lookup key).isSome) : t.cache.store = s.cache.store := by
  cases step_cases hs <;> simp_all

/-! ## When the keys came -/

/-- The cache, a clock that counts its steps, and for each key the time of the step that
    last stored it while it was absent. -/
structure Timed (K V : Type) where
  state : State K V
  clock : Nat
  born : K → Nat

namespace Timed

/-- The stored entries. -/
def store (x : Timed K V) : Store K V := x.state.cache.store

def init (maxEntries : Option Nat) (makeCancelledError : K → SchemaRegError) : Timed K V :=
  ⟨State.init maxEntries makeCancelledError, 0, fun _ => 0⟩

/-- The clock after a step that leaves `state`. -/
def tick (x : Timed K V) (state : State K V) : Timed K V :=
  ⟨state, x.clock + 1, fun k =>
    if (x.state.lookup k).isNone && (state.lookup k).isSome then x.clock else x.born k⟩

def step (x : Timed K V) (e : Event K V) : Option (Timed K V) :=
  (CacheInner.step x.state e).map x.tick

theorem step_eq_some {x y : Timed K V} {e : Event K V} :
    Timed.step x e = some y ↔ ∃ t, CacheInner.step x.state e = some t ∧ x.tick t = y := by
  unfold Timed.step
  exact Option.map_eq_some_iff

/-- The clock watches the runs of the cache and does not restrict them. -/
theorem run_of_run {maxEntries : Option Nat} {makeCancelledError : K → SchemaRegError}
    {es : List (Event K V)} {s : State K V}
    (hrun : Run CacheInner.step (fun _ _ => True) (State.init maxEntries makeCancelledError) es s) :
    ∃ x, Run Timed.step (fun _ _ => True) (init maxEntries makeCancelledError) es x ∧
      x.state = s := by
  induction hrun with
  | nil => exact ⟨_, Run.nil, rfl⟩
  | snoc _ _ last ih =>
    obtain ⟨x, hx, rfl⟩ := ih
    exact ⟨_, Run.snoc hx trivial (step_eq_some.mpr ⟨_, last, rfl⟩), rfl⟩

end Timed

variable {max : Nat} {x y : Timed K V}

/-- The queue is sorted by the time at which its keys came. -/
structure Fifo (max : Nat) (x : Timed K V) : Prop where
  bound : x.state.cache.maxEntries = some max
  queued : x.store.Queued max
  ordered : x.store.order.Pairwise fun a b => x.born a < x.born b
  past : ∀ k ∈ x.store.order, x.born k < x.clock

theorem fifo_init (max : Nat) (makeCancelledError : K → SchemaRegError) :
    Fifo max (Timed.init (V := V) (some max) makeCancelledError) :=
  ⟨rfl, Store.queued_new, List.Pairwise.nil, fun _ hk => by cases hk⟩

theorem born_stored {t : State K V} {k : K} (stored : (x.state.lookup k).isSome) :
    (x.tick t).born k = x.born k := by
  show (if (x.state.lookup k).isNone && (t.lookup k).isSome then x.clock else x.born k) = x.born k
  rw [if_neg]
  simp [Option.isSome_iff_ne_none.mp stored]

theorem born_new {t : State K V} {k : K} (absent : x.state.lookup k = none)
    (stored : (t.lookup k).isSome) : (x.tick t).born k = x.clock := by
  show (if (x.state.lookup k).isNone && (t.lookup k).isSome then x.clock else x.born k) = x.clock
  rw [if_pos]
  simp [absent, stored]

/-- A step that only takes keys out of the queue. -/
theorem Fifo.shrink (h : Fifo max x) (hs : step x.state e = some t)
    (queued : t.cache.store.Queued max) (horder : t.cache.store.order.Sublist x.store.order) :
    Fifo max (x.tick t) := by
  have hborn : ∀ k ∈ t.cache.store.order, (x.tick t).born k = x.born k := by
    intro k hk
    exact born_stored ((h.queued.enumerates k).mp (horder.subset hk))
  refine ⟨(maxEntries_step hs).trans h.bound, queued, ?_, fun k hk => ?_⟩
  · refine (h.ordered.sublist horder).imp_of_mem ?_
    intro a b ha hb hab
    rw [hborn a ha, hborn b hb]
    exact hab
  · rw [hborn k hk]
    exact Nat.lt_succ_of_lt (h.past k (horder.subset hk))

/-- A step that puts a new key at the end of the queue. -/
theorem Fifo.join (h : Fifo max x) (hs : step x.state e = some t)
    (queued : t.cache.store.Queued max) {kept : List K} {key : K}
    (absent : x.state.lookup key = none) (hkept : kept.Sublist x.store.order)
    (horder : t.cache.store.order = kept ++ [key]) : Fifo max (x.tick t) := by
  have hborn : ∀ k ∈ kept, (x.tick t).born k = x.born k := by
    intro k hk
    exact born_stored ((h.queued.enumerates k).mp (hkept.subset hk))
  have hkey : (x.tick t).born key = x.clock := by
    apply born_new absent
    show (t.cache.store.lookup key).isSome
    rw [← queued.enumerates, horder]
    simp
  have hpast : ∀ k ∈ kept, (x.tick t).born k < x.clock := by
    intro k hk
    rw [hborn k hk]
    exact h.past k (hkept.subset hk)
  refine ⟨(maxEntries_step hs).trans h.bound, queued, ?_, fun k hk => ?_⟩
  · show t.cache.store.order.Pairwise fun a b => (x.tick t).born a < (x.tick t).born b
    rw [horder, List.pairwise_append]
    refine ⟨?_, List.pairwise_singleton _ _, ?_⟩
    · refine (h.ordered.sublist hkept).imp_of_mem ?_
      intro a b ha hb hab
      rw [hborn a ha, hborn b hb]
      exact hab
    · intro a ha b hb
      rw [List.mem_singleton.mp hb, hkey]
      exact hpast a ha
  · show (x.tick t).born k < x.clock + 1
    have hk' : k ∈ kept ++ [key] := horder ▸ hk
    rcases List.mem_append.mp hk' with hk' | hk'
    · exact Nat.lt_succ_of_lt (hpast k hk')
    · rw [List.mem_singleton.mp hk', hkey]
      exact Nat.lt_succ_self _

theorem Fifo.insert (h : Fifo max x) (pos : 1 ≤ max) (hs : step x.state e = some t) {c : CallId}
    {key : K} {value : V}
    (hstore : t.cache.store = x.store.insertLocked (some max) key value c) :
    Fifo max (x.tick t) := by
  have hqueued : t.cache.store.Queued max := by
    rw [hstore]
    exact h.queued.insertLocked pos
  cases hkey : x.store.lookup key with
  | some entry =>
    apply h.shrink hs hqueued
    rw [hstore, Store.insertLocked_of_stored (by rw [hkey]; rfl)]
  | none =>
    rcases Nat.lt_or_ge x.store.len max with room | full
    · apply h.join hs hqueued hkey (List.Sublist.refl _)
      rw [hstore, Store.insertLocked_of_room hkey room]
    · obtain ⟨oldest, rest, horder, hfull, -⟩ := h.queued.insertLocked_of_full pos hkey
        (Nat.le_antisymm h.queued.bounded full) value c
      have hkept : rest.Sublist x.store.order := by
        rw [horder]
        exact List.sublist_cons_self oldest rest
      apply h.join hs hqueued hkey hkept
      rw [hstore, hfull]

theorem fifo_step (pos : 1 ≤ max) (h : Fifo max x) (hs : Timed.step x e = some y) :
    Fifo max y := by
  obtain ⟨t, hstep, rfl⟩ := Timed.step_eq_some.mp hs
  have hstores := store_step hstep
  generalize hstore : t.cache.store = store at hstores
  cases hstores with
  | unchanged =>
    apply h.shrink hstep
    · rw [hstore]
      exact h.queued
    · rw [hstore]
      exact List.Sublist.refl _
  | insert =>
    apply h.insert pos hstep
    rw [hstore, h.bound]
    rfl
  | remove key =>
    apply h.shrink hstep
    · rw [hstore]
      exact h.queued.remove key
    · rw [hstore]
      show (x.store.remove key).order.Sublist x.store.order
      rw [Store.order_remove h.queued]
      exact List.filter_sublist
  | removeMatching predicate =>
    apply h.shrink hstep
    · rw [hstore]
      exact h.queued.removeMatching predicate
    · rw [hstore]
      exact List.filter_sublist
  | clear =>
    apply h.shrink hstep
    · rw [hstore]
      exact Store.queued_new
    · rw [hstore]
      exact List.nil_sublist _

/-! ## The insertions -/

/-- What an insertion does to the store `x` to leave the store `y`, when the keys of `x`
    came at the times `born`. -/
structure InsertedFifo (max : Nat) (born : K → Nat) (x : Store K V) (key : K) (value : V)
    (y : Store K V) : Prop where
  /-- The value is stored. -/
  stored : y.get key = some value
  /-- A stored key keeps its place in the queue, and only its value changes. -/
  again : (x.get key).isSome → y.order = x.order ∧ ∀ k ≠ key, y.get k = x.get k
  /-- Below the bound, a new key removes nothing. -/
  room : x.get key = none → x.len < max →
    y.order = x.order ++ [key] ∧ ∀ k ≠ key, y.get k = x.get k
  /-- At the bound, a new key removes the key that came first, and no other. -/
  evicts : x.get key = none → x.len = max → ∃ oldest,
    (x.get oldest).isSome ∧ (∀ k, (x.get k).isSome → k ≠ oldest → born oldest < born k) ∧
    y.get oldest = none ∧ ∀ k, k ≠ key → k ≠ oldest → y.get k = x.get k

theorem get_insert_eq {store : Store K V} {key k : K} {value : V} (writer : CallId)
    (order : List K) :
    (⟨store.entries.insert key ⟨value, writer⟩, order⟩ : Store K V).get k =
      if k = key then some value else store.get k := by
  have hlook : (⟨store.entries.insert key ⟨value, writer⟩, order⟩ : Store K V).lookup k =
      if k = key then some ⟨value, writer⟩ else store.lookup k :=
    Store.lookup_insert_eq _ k
  unfold Store.get
  rw [hlook]
  split <;> rfl

theorem isSome_get {store : Store K V} {k : K} :
    (store.get k).isSome ↔ (store.lookup k).isSome := by
  unfold Store.get
  rw [Option.isSome_map]

/-- The head of a sorted queue came before every other key. -/
theorem Fifo.head_oldest (h : Fifo max x) {oldest : K} {rest : List K}
    (horder : x.store.order = oldest :: rest) {k : K} (hk : (x.store.get k).isSome)
    (hne : k ≠ oldest) : x.born oldest < x.born k := by
  have hmem : k ∈ oldest :: rest := by
    rw [← horder, h.queued.enumerates, ← isSome_get]
    exact hk
  have hsorted := h.ordered
  rw [horder] at hsorted
  exact List.rel_of_pairwise_cons hsorted ((List.mem_cons.mp hmem).resolve_left hne)

theorem Fifo.inserted (h : Fifo max x) (pos : 1 ≤ max) (key : K) (value : V) (c : CallId) :
    InsertedFifo max x.born x.store key value
      (x.store.insertLocked (some max) key value c) := by
  cases hkey : x.store.lookup key with
  | some entry =>
    have hget : (x.store.get key).isSome := isSome_get.mpr (by rw [hkey]; rfl)
    have hnone : x.store.get key ≠ none := Option.isSome_iff_ne_none.mp hget
    rw [Store.insertLocked_of_stored (isSome_get.mp hget)]
    refine ⟨?_, fun _ => ⟨rfl, fun k hk => ?_⟩, fun hn => absurd hn hnone,
      fun hn => absurd hn hnone⟩
    · rw [get_insert_eq, if_pos rfl]
    · rw [get_insert_eq, if_neg hk]
  | none =>
    have hnone : x.store.get key = none := Store.get_eq_none.mpr hkey
    have hsome : ¬ (x.store.get key).isSome := by simp [hnone]
    rcases Nat.lt_or_ge x.store.len max with room | full
    · rw [Store.insertLocked_of_room hkey room]
      refine ⟨?_, fun hs => absurd hs hsome, fun _ _ => ⟨rfl, fun k hk => ?_⟩, fun _ hfull => ?_⟩
      · rw [get_insert_eq, if_pos rfl]
      · rw [get_insert_eq, if_neg hk]
      · omega
    · have hfull : x.store.len = max := Nat.le_antisymm h.queued.bounded full
      obtain ⟨oldest, rest, horder, hstore, -⟩ :=
        h.queued.insertLocked_of_full pos hkey hfull value c
      have hold : (x.store.get oldest).isSome := by
        rw [isSome_get, ← h.queued.enumerates, horder]
        exact List.mem_cons_self
      have hne : key ≠ oldest := fun heq => hsome (heq ▸ hold)
      have hget : ∀ k ≠ oldest, (x.store.insertLocked (some max) key value c).get k =
          if k = key then some value else x.store.get k := by
        intro k hk
        rw [hstore, ← get_insert_eq c rest]
        unfold Store.get Store.lookup
        rw [AList.lookup_erase_ne hk]
      refine ⟨?_, fun hs => absurd hs hsome, fun _ hroom => ?_,
        fun _ _ => ⟨oldest, hold, ?_, ?_, ?_⟩⟩
      · rw [hget key hne, if_pos rfl]
      · omega
      · intro k hk hko
        exact h.head_oldest horder hk hko
      · rw [Store.get_eq_none, hstore]
        exact AList.lookup_erase _ _
      · intro k hk hko
        rw [hget k hko, if_neg hk]

/-! ## Main result -/

/-- Over every run of a bounded cache: the queue enumerates the stored keys without
    repetition and there are at most `max` of them; and the next insertion, whatever it is,
    treats the store as a queue. -/
theorem fifo_store {max : Nat} (pos : 1 ≤ max) {makeCancelledError : K → SchemaRegError}
    {es : List (Event K V)} {x : Timed K V}
    (hrun : Run Timed.step (fun _ _ => True) (Timed.init (some max) makeCancelledError) es x) :
    (x.store.order.Nodup ∧ (∀ k, k ∈ x.store.order ↔ k ∈ x.store.entries) ∧
      x.store.len ≤ max) ∧
    (∀ e c key value y, Timed.step x e = some y → Inserts x.state e c key value →
      InsertedFifo max x.born x.store key value y.store) ∧
    (∀ c key value waiters y, Timed.step x (.resume c) = some y →
      x.state.calls c = .claimed key value waiters → (x.store.get key).isSome →
      y.store = x.store) := by
  have hfifo : Fifo max x :=
    hrun.invariant (fifo_init max makeCancelledError) fun _ _ _ h _ hs => fifo_step pos h hs
  refine ⟨⟨hfifo.queued.nodup, fun k => ?_, hfifo.queued.bounded⟩, ?_, ?_⟩
  · rw [hfifo.queued.enumerates, ← Store.mem_keys_iff, AList.mem_keys]
  · intro e c key value y hs hins
    obtain ⟨t, hstep, rfl⟩ := Timed.step_eq_some.mp hs
    have hstore : (x.tick t).store = x.store.insertLocked (some max) key value c := by
      rw [← hfifo.bound]
      exact hins.stores hstep
    rw [hstore]
    exact hfifo.inserted pos key value c
  · intro c key value waiters y hs phase stored
    obtain ⟨t, hstep, rfl⟩ := Timed.step_eq_some.mp hs
    exact leader_keeps_stored hstep phase (isSome_get.mp stored)

/-- Two keys are stored, the first is replaced, and a third key is about to be stored. -/
def replacedThenFull : List (Event Nat Nat) :=
  [.begin 0 (.insertIfCurrent 7 1 0), .resume 0, .resume 0,
    .begin 1 (.insertIfCurrent 8 2 0), .resume 1, .resume 1,
    .begin 2 (.insertIfCurrent 7 3 0), .resume 2, .resume 2,
    .begin 3 (.insertIfCurrent 9 4 0), .resume 3]

/-- The third key evicts the first one, which the replacement did not make any younger. -/
theorem third_key_evicts_first :
    ∃ x y : Timed Nat Nat, Run Timed.step (fun _ _ => True)
        (Timed.init (some 2) fun _ => .invalidState "cancelled") replacedThenFull x ∧
      Timed.step x (.resume 3) = some y ∧ x.store.get 7 = some 3 ∧ y.store.get 7 = none ∧
      y.store.get 8 = some 2 ∧ y.store.get 9 = some 4 := by
  obtain ⟨x, y, h, hy, h₇, h₈, h₉, horder, hlen, hborn, hphase⟩ : ∃ x y : Timed Nat Nat,
      exec Timed.step (Timed.init (some 2) fun _ => .invalidState "cancelled")
        replacedThenFull = some x ∧
      Timed.step x (.resume 3) = some y ∧ x.store.get 7 = some 3 ∧ x.store.get 8 = some 2 ∧
      x.store.get 9 = none ∧ x.store.order = [7, 8] ∧ x.store.len = 2 ∧ x.born 7 < x.born 8 ∧
      x.state.calls 3 = .checked 9 4 true :=
    ⟨_, _, rfl, rfl, rfl, rfl, rfl, rfl, rfl, by decide, rfl⟩
  have hrun := Run.of_exec_free h
  obtain ⟨⟨-, hkeys, -⟩, hinserts, -⟩ := fifo_store (by decide : 1 ≤ 2) hrun
  have hins := hinserts _ 3 9 4 y hy ⟨rfl, Or.inl hphase⟩
  obtain ⟨oldest, hold, hfirst, hgone, hkept⟩ := hins.evicts h₉ hlen
  have hmem : oldest = 7 ∨ oldest = 8 := by
    have hin := (hkeys oldest).mpr (AList.mem_keys.mpr (Store.mem_keys_iff.mpr (isSome_get.mp hold)))
    rw [horder] at hin
    simpa using hin
  have hseven : oldest = 7 := by
    rcases hmem with heq | heq
    · exact heq
    · have := hfirst 7 (by rw [h₇]; rfl) (by omega)
      rw [heq] at this
      omega
  subst hseven
  refine ⟨x, y, hrun, hy, h₇, hgone, ?_, hins.stored⟩
  rw [hkept 8 (by decide) (by decide), h₈]

end Schemreg.CacheInner
