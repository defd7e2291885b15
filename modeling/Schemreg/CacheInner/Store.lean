import Mathlib.Data.List.AList

/-
  `src/cache_inner.rs`: the stored entries and their insertion order (`Store`), and the
  critical sections that write them.

  `HashMap<K, Arc<V>>` is an association list without duplicate keys (`AList`): lookups,
  insertion, removal and the number of entries are those of the map, and nothing in the
  code depends on the iteration order. Every entry also names its `writer`, the call that
  stored it. This is a ghost component: no section reads it, and the invalidation results
  are stated with it.
-/

namespace Schemreg.CacheInner

/-- A call of one of the cache's methods. -/
abbrev CallId := Nat

/-- A stored value and, as a ghost, the call that stored it. -/
structure Entry (V : Type) where
  value : V
  writer : CallId
  deriving DecidableEq

/-- `Store<K, V>`: the entries and the keys in insertion order, oldest first. -/
structure Store (K V : Type) where
  entries : AList fun _ : K => Entry V
  order : List K

variable {K V : Type} [DecidableEq K]

namespace Store

def new : Store K V := ⟨∅, []⟩

/-- The entry under `key`, ghost writer included. -/
def lookup (store : Store K V) (key : K) : Option (Entry V) := store.entries.lookup key

/-- `entries.get(key)`. -/
def get (store : Store K V) (key : K) : Option V := (store.lookup key).map Entry.value

/-- `entries.len()`. -/
def len (store : Store K V) : Nat := store.entries.keys.length

/-- The eviction loop of `insert_locked`: pop the oldest key while over capacity. -/
def evict (max : Nat) (entries : AList fun _ : K => Entry V) : List K → Store K V
  | [] => ⟨entries, []⟩
  | evicted :: order =>
      if entries.keys.length > max then evict max (entries.erase evicted) order
      else ⟨entries, evicted :: order⟩

/-- `insert_locked`: insert into a locked store, evicting the oldest entries when over
    capacity. Replacing an existing entry keeps its queue position. -/
def insertLocked (store : Store K V) (maxEntries : Option Nat) (key : K) (value : V)
    (writer : CallId) : Store K V :=
  let entries := store.entries.insert key ⟨value, writer⟩
  if (store.lookup key).isSome then { store with entries := entries }
  else match maxEntries with
    | none => { store with entries := entries }
    | some max => evict max entries (store.order ++ [key])

/-- The store section of `invalidate`: `entries.remove(key)`, and if it was there,
    `order.retain(|cached| cached != key)`. -/
def remove (store : Store K V) (key : K) : Store K V :=
  if (store.lookup key).isSome then
    ⟨store.entries.erase key, store.order.filter fun cached => cached ≠ key⟩
  else store

/-- The keys of the entries whose value satisfies `predicate`. -/
def doomed (store : Store K V) (predicate : V → Bool) : List K :=
  (store.entries.entries.filter fun e => predicate e.2.value).map Sigma.fst

/-- Remove every key of a list. -/
def removeKeys (entries : AList fun _ : K => Entry V) (keys : List K) :
    AList fun _ : K => Entry V :=
  keys.foldl (fun entries key => entries.erase key) entries

/-- The store section of `invalidate_matching`: the store without its doomed entries. -/
def removeMatching (store : Store K V) (predicate : V → Bool) : Store K V :=
  let entries := removeKeys store.entries (store.doomed predicate)
  ⟨entries, store.order.filter fun k => (entries.lookup k).isSome⟩

/-- Inserting `key` evicts nothing: it is stored already, or there is room for it. -/
def hasRoom (store : Store K V) (maxEntries : Option Nat) (key : K) : Bool :=
  (store.lookup key).isSome || match maxEntries with
    | none => true
    | some max => store.len + 1 ≤ max

/-! ## What the sections leave in the store -/

@[simp] theorem lookup_new (key : K) : (new : Store K V).lookup key = none := rfl

theorem get_eq_some {store : Store K V} {key : K} {v : V} :
    store.get key = some v ↔ ∃ e, store.lookup key = some e ∧ e.value = v := by
  simp [get]

theorem get_eq_none {store : Store K V} {key : K} :
    store.get key = none ↔ store.lookup key = none := by
  simp [get]

/-- Eviction only removes. -/
theorem lookup_evict {max : Nat} {key : K} {e : Entry V} : ∀ {order : List K}
    {entries : AList fun _ : K => Entry V},
    (evict max entries order).lookup key = some e → entries.lookup key = some e
  | [], _, h => h
  | evicted :: order, entries, h => by
      unfold evict at h
      split at h
      · have h' := lookup_evict h
        by_cases hk : key = evicted
        · subst hk
          rw [AList.lookup_erase] at h'
          cases h'
        · rwa [AList.lookup_erase_ne hk] at h'
      · exact h

/-- What is stored after an insertion is the new entry, or was stored before under
    another key. -/
theorem lookup_insertLocked {store : Store K V} {maxEntries : Option Nat} {key k : K} {value : V}
    {writer : CallId} {e : Entry V}
    (h : (store.insertLocked maxEntries key value writer).lookup k = some e) :
    (k = key ∧ e = ⟨value, writer⟩) ∨ (k ≠ key ∧ store.lookup k = some e) := by
  have h' : (store.entries.insert key ⟨value, writer⟩).lookup k = some e := by
    unfold insertLocked at h
    dsimp only at h
    split at h
    · exact h
    · split at h
      · exact h
      · exact lookup_evict h
  by_cases hk : k = key
  · subst hk
    rw [AList.lookup_insert] at h'
    exact Or.inl ⟨rfl, (Option.some.inj h').symm⟩
  · rw [AList.lookup_insert_ne hk] at h'
    exact Or.inr ⟨hk, h'⟩

theorem evict_of_le {max : Nat} {entries : AList fun _ : K => Entry V} {order : List K}
    (h : entries.keys.length ≤ max) : evict max entries order = ⟨entries, order⟩ := by
  cases order with
  | nil => rfl
  | cons evicted order => rw [evict, if_neg (Nat.not_lt.mpr h)]

/-- An insertion that finds room stores the entry and keeps every other one. -/
theorem lookup_insertLocked_of_room {store : Store K V} {maxEntries : Option Nat} {key : K}
    {value : V} {writer : CallId} (room : store.hasRoom maxEntries key = true) (k : K) :
    (store.insertLocked maxEntries key value writer).lookup k =
      if k = key then some ⟨value, writer⟩ else store.lookup k := by
  have hins : (store.entries.insert key ⟨value, writer⟩).lookup k =
      if k = key then some ⟨value, writer⟩ else store.lookup k := by
    by_cases hk : k = key
    · subst hk
      simp
    · rw [if_neg hk, AList.lookup_insert_ne hk]
      rfl
  unfold insertLocked
  dsimp only
  split
  · exact hins
  · rename_i hnew
    split
    · exact hins
    · rename_i max
      have hfresh : key ∉ store.entries := by
        rw [← AList.lookup_eq_none]
        exact Option.not_isSome_iff_eq_none.mp hnew
      have hle : (store.entries.insert key ⟨value, writer⟩).keys.length ≤ max := by
        have hroom : store.len + 1 ≤ max := by
          simpa [hasRoom, Option.not_isSome_iff_eq_none.mp hnew] using room
        rw [AList.keys_insert, List.erase_of_not_mem (by rwa [← AList.mem_keys])]
        simpa [len] using hroom
      rw [evict_of_le hle]
      exact hins

theorem lookup_remove (store : Store K V) (key k : K) :
    (store.remove key).lookup k = if k = key then none else store.lookup k := by
  unfold remove
  split
  · by_cases hk : k = key
    · subst hk
      simp [lookup]
    · rw [if_neg hk]
      exact AList.lookup_erase_ne hk
  · rename_i hnone
    by_cases hk : k = key
    · subst hk
      simpa using hnone
    · rw [if_neg hk]

theorem mem_doomed {store : Store K V} {predicate : V → Bool} {k : K} :
    k ∈ store.doomed predicate ↔ ∃ e, store.lookup k = some e ∧ predicate e.value = true := by
  unfold doomed lookup
  simp only [List.mem_map, List.mem_filter, Sigma.exists]
  constructor
  · rintro ⟨a, e, ⟨hmem, hp⟩, rfl⟩
    exact ⟨e, AList.mem_lookup_iff.mpr hmem, hp⟩
  · rintro ⟨e, hmem, hp⟩
    exact ⟨k, e, ⟨AList.mem_lookup_iff.mp hmem, hp⟩, rfl⟩

theorem lookup_removeKeys (keys : List K) (entries : AList fun _ : K => Entry V) (k : K) :
    (removeKeys entries keys).lookup k = if k ∈ keys then none else entries.lookup k := by
  induction keys generalizing entries with
  | nil => simp [removeKeys]
  | cons key keys ih =>
    have hcons : removeKeys entries (key :: keys) = removeKeys (entries.erase key) keys := rfl
    rw [hcons, ih]
    by_cases hk : k = key
    · subst hk
      simp
    · simp [hk, AList.lookup_erase_ne hk]

/-- After the store section of `invalidate_matching`: exactly the entries that do not
    satisfy the predicate are left. -/
theorem lookup_removeMatching {store : Store K V} {predicate : V → Bool} {k : K} {e : Entry V} :
    (store.removeMatching predicate).lookup k = some e ↔
      store.lookup k = some e ∧ predicate e.value = false := by
  have hlook : (store.removeMatching predicate).lookup k =
      if k ∈ store.doomed predicate then none else store.lookup k :=
    lookup_removeKeys _ _ _
  rw [hlook]
  by_cases hk : k ∈ store.doomed predicate
  · obtain ⟨e', he', hp⟩ := mem_doomed.mp hk
    rw [if_pos hk, he']
    constructor
    · intro h
      cases h
    · rintro ⟨h, hf⟩
      rw [← Option.some.inj h, hp] at hf
      cases hf
  · rw [if_neg hk]
    constructor
    · intro h
      refine ⟨h, ?_⟩
      cases hp : predicate e.value with
      | false => rfl
      | true => exact absurd (mem_doomed.mpr ⟨e, h, hp⟩) hk
    · exact fun h => h.1

end Store

end Schemreg.CacheInner
