import Mathlib.Data.List.Dedup
import Mathlib.Data.List.Perm.Basic

/-
  Lists of items with several keys each, read as an index in which the first item wins.

  An item `x` can be found under every key of `keys x`; `first keys items k` is the first
  item of the list under `k`. The index is a function of the order of the list. Reordering
  the list cannot be seen under a key `k` exactly when all the items under `k` agree on
  what is read of them (`map_first_perm`).
-/

namespace Index

variable {α κ β : Type} [DecidableEq κ] {keys : α → List κ} {items items' : List α} {x : α} {k : κ}

/-- The first item under `k`. -/
def first (keys : α → List κ) (items : List α) (k : κ) : Option α :=
  items.find? fun x => k ∈ keys x

/-- The number of keys under which something can be found. -/
def size (keys : α → List κ) (items : List α) : Nat := (items.flatMap keys).dedup.length

theorem first_append (k : κ) :
    first keys (items ++ items') k = (first keys items k).or (first keys items' k) :=
  List.find?_append

theorem first_singleton (x : α) (k : κ) :
    first keys [x] k = if k ∈ keys x then some x else none := by
  by_cases hk : k ∈ keys x <;> simp [first, hk]

theorem first_eq_some (h : first keys items k = some x) : x ∈ items ∧ k ∈ keys x :=
  ⟨List.mem_of_find?_eq_some h, by simpa using List.find?_some h⟩

theorem first_eq_none_iff : first keys items k = none ↔ ∀ x ∈ items, k ∉ keys x := by
  simp [first]

theorem exists_first (hx : x ∈ items) (hk : k ∈ keys x) :
    ∃ y, first keys items k = some y ∧ y ∈ items ∧ k ∈ keys y := by
  cases hfirst : first keys items k with
  | none => exact absurd hk (first_eq_none_iff.mp hfirst x hx)
  | some y => exact ⟨y, rfl, first_eq_some hfirst⟩

/-- An item that is there already wins over everything behind it. -/
theorem first_append_of_mem (hx : x ∈ items) (hk : k ∈ keys x) :
    first keys (items ++ items') k = first keys items k := by
  obtain ⟨y, hy, -⟩ := exists_first hx hk
  rw [first_append, hy]
  rfl

/-- Where the items under a key agree, any of them says what is read under it. -/
theorem map_first_of_agree {f : α → β} (agree : ∀ y ∈ items, k ∈ keys y → f y = f x)
    (hx : x ∈ items) (hk : k ∈ keys x) : (first keys items k).map f = some (f x) := by
  obtain ⟨y, hy, hmem, hky⟩ := exists_first hx hk
  rw [hy, Option.map_some, agree y hmem hky]

/-- Where the items under a key agree, their order does not matter under it. -/
theorem map_first_perm {f : α → β} (hperm : items.Perm items')
    (agree : ∀ x ∈ items, ∀ y ∈ items, k ∈ keys x → k ∈ keys y → f x = f y) :
    (first keys items k).map f = (first keys items' k).map f := by
  cases hfirst : first keys items k with
  | none =>
    have hnone : first keys items' k = none := by
      rw [first_eq_none_iff] at hfirst ⊢
      intro x hx
      exact hfirst x (hperm.mem_iff.mpr hx)
    rw [hnone]
  | some x =>
    obtain ⟨hx, hk⟩ := first_eq_some hfirst
    rw [map_first_of_agree (x := x) _ (hperm.mem_iff.mp hx) hk]
    · rfl
    · intro y hy hky
      exact agree y (hperm.mem_iff.mpr hy) x hx hky hk

theorem size_perm (hperm : items.Perm items') : size keys items = size keys items' :=
  (hperm.flatMap_right keys).dedup.length_eq

theorem size_append_left (items' : List α) : size keys items ≤ size keys (items ++ items') := by
  have hsub : (items.flatMap keys).dedup ⊆ ((items ++ items').flatMap keys).dedup := by
    intro k hk
    rw [List.mem_dedup, List.mem_flatMap] at hk ⊢
    obtain ⟨x, hx, hkx⟩ := hk
    exact ⟨x, List.mem_append_left _ hx, hkx⟩
  exact (List.subperm_of_subset (List.nodup_dedup _) hsub).length_le

/-- A duplicate-free list of the keys is as long as the index is large. -/
theorem length_eq_size {ks : List κ} (hnodup : ks.Nodup)
    (hmem : ∀ k, k ∈ ks ↔ ∃ x ∈ items, k ∈ keys x) : ks.length = size keys items := by
  have hperm : ks.Perm (items.flatMap keys).dedup := by
    rw [List.perm_ext_iff_of_nodup hnodup (List.nodup_dedup _)]
    intro k
    rw [hmem, List.mem_dedup, List.mem_flatMap]
  exact hperm.length_eq

end Index
