import Schemreg.Json.Model
import Schemreg.Lib.Index
import Mathlib.Data.List.Induction

/-
  What a `ReferenceSet` holds after a list of insertions.

  Every insertion site of the source parses one item after the other and inserts it under its
  name; `load` is that loop for any items. A document can be found under its name and under
  the final segment of its name (`keysOf`), and of the documents under one key the set holds
  the first (`Indexes`).

  Proved:
  * `load_ok_iff`: the loop succeeds exactly when every item parses, the items before the
    last fill fewer than 512 keys, and under each name the first document is the item's own.
  * `Indexes.lookup`: a lookup answers with the first document under the URI, or else with
    the first one under the URI's final segment.
-/

namespace Schemreg.Json

open Index

variable {Value : Type} {α : Type} {name : α → String} {parse : α → Result Value}
  {items : List α} {x : α} {set set' : ReferenceSet Value} {schema : Value}

/-! ## The keys of a name -/

/-- The keys under which a document is inserted: the final segment of its name, and the name. -/
def keysOf (name : String) : List String := (lastSegment name).toList ++ [name]

theorem mem_keysOf {k n : String} : k ∈ keysOf n ↔ lastSegment n = some k ∨ k = n := by
  unfold keysOf
  rw [List.mem_append, Option.mem_toList, List.mem_singleton]

theorem name_mem_keysOf (n : String) : n ∈ keysOf n := mem_keysOf.mpr (Or.inr rfl)

theorem slash_not_mem_tail {n tail : String} (h : lastSegment n = some tail) :
    '/' ∉ tail.toList := by
  rcases split_last n with ⟨-, hnone⟩ | ⟨before, tail', hfree, -, hsome⟩
  · rw [hnone] at h
    cases h
  · rw [hsome] at h
    cases h
    exact hfree

theorem slash_mem_of_lastSegment {n tail : String} (h : lastSegment n = some tail) :
    '/' ∈ n.toList := by
  rcases split_last n with ⟨-, hnone⟩ | ⟨before, tail', -, rfl, -⟩
  · rw [hnone] at h
    cases h
  · simp [String.toList_append]

/-- A final segment is never the whole name. -/
theorem tail_ne_name {n tail : String} (h : lastSegment n = some tail) : tail ≠ n := by
  intro heq
  exact slash_not_mem_tail h (heq ▸ slash_mem_of_lastSegment h)

/-- Under a key with a slash stands only the document of that name. -/
theorem mem_keysOf_of_slash {k n : String} (hslash : '/' ∈ k.toList) :
    k ∈ keysOf n ↔ k = n := by
  rw [mem_keysOf]
  constructor
  · rintro (htail | rfl)
    · exact absurd hslash (slash_not_mem_tail htail)
    · rfl
  · exact Or.inr

/-! ## One insertion -/

theorem lookup_orInsert (byKey : AList fun _ : String => Value) (key k : String) (schema : Value) :
    (ReferenceSet.orInsert byKey key schema).lookup k =
      (byKey.lookup k).or (if k = key then some schema else none) := by
  unfold ReferenceSet.orInsert
  cases hkey : byKey.lookup key with
  | some existing =>
    by_cases hk : k = key
    · rw [hk, hkey]
      rfl
    · simp [hk]
  | none =>
    by_cases hk : k = key
    · rw [hk, AList.lookup_insert, hkey]
      simp
    · show (byKey.insert key schema).lookup k = _
      rw [AList.lookup_insert_ne hk, if_neg hk, Option.or_none]

theorem lookup_indexTail (byKey : AList fun _ : String => Value) (n k : String) (schema : Value) :
    (ReferenceSet.indexTail byKey n schema).lookup k =
      (byKey.lookup k).or (if lastSegment n = some k then some schema else none) := by
  unfold ReferenceSet.indexTail
  cases htail : lastSegment n with
  | none => simp
  | some tail =>
    simp only [tail_ne_name htail, ne_eq, not_false_eq_true, if_true, Option.some.injEq]
    rw [lookup_orInsert]
    by_cases hk : k = tail
    · simp [hk]
    · rw [if_neg hk, if_neg (Ne.symm hk)]

/-- Indexing the final segment does not touch the name itself. -/
theorem lookup_indexTail_self (byKey : AList fun _ : String => Value) (n : String)
    (schema : Value) : (ReferenceSet.indexTail byKey n schema).lookup n = byKey.lookup n := by
  rw [lookup_indexTail, if_neg fun hself => tail_ne_name hself rfl, Option.or_none]

variable [DecidableEq Value]

/-- An insertion is accepted when there is room and the name is not taken by another
    document. -/
theorem insert_accepted (n : String) :
    (∃ set', set.insert n schema = .ok set') ↔
      set.len < maxReferences * 2 ∧ ∀ existing, set.byKey.lookup n = some existing →
        existing = schema := by
  unfold ReferenceSet.insert
  by_cases hroom : set.len ≥ maxReferences * 2
  · rw [if_pos hroom]
    constructor
    · rintro ⟨set', h⟩
      cases h
    · rintro ⟨hlt, -⟩
      omega
  · rw [if_neg hroom]
    dsimp only
    rw [lookup_indexTail_self]
    cases hold : set.byKey.lookup n with
    | none => simpa using hroom
    | some existing =>
      by_cases heq : existing = schema
      · simpa [heq] using hroom
      · simp [heq]

/-- What an insertion leaves under a key: what was there, or else the new document. -/
theorem lookup_insert {n : String} (h : set.insert n schema = .ok set') (k : String) :
    set'.byKey.lookup k =
      (set.byKey.lookup k).or (if k ∈ keysOf n then some schema else none) := by
  have hkeys : ∀ k ≠ n, (if lastSegment n = some k then some schema else none) =
      if k ∈ keysOf n then some schema else none := by
    intro k hk
    simp [mem_keysOf, hk]
  unfold ReferenceSet.insert at h
  split at h
  · cases h
  · dsimp only at h
    split at h
    · rename_i existing hexisting
      split at h
      · cases h
      · rename_i hsame
        rw [ne_eq, not_not] at hsame
        cases h
        by_cases hk : k = n
        · rw [hk, hexisting]
          rw [lookup_indexTail_self] at hexisting
          rw [hexisting]
          rfl
        · rw [lookup_indexTail, hkeys k hk]
    · rename_i hnew
      cases h
      by_cases hk : k = n
      · rw [lookup_indexTail_self] at hnew
        rw [hk, AList.lookup_insert, hnew, if_pos (name_mem_keysOf n)]
        rfl
      · rw [AList.lookup_insert_ne hk, lookup_indexTail, hkeys k hk]

/-! ## A list of insertions -/

/-- Parse the items of a list one after the other and insert them under their names. -/
def load (name : α → String) (parse : α → Result Value) (items : List α) :
    Result (ReferenceSet Value) :=
  items.foldlM (fun set x => do
    let value ← parse x
    set.insert (name x) value) ReferenceSet.empty

/-- The keys of an item. -/
def keys (name : α → String) (x : α) : List String := keysOf (name x)

/-- The set holds the items, and under each key the first one's document. -/
structure Indexes (name : α → String) (parse : α → Result Value) (items : List α)
    (set : ReferenceSet Value) : Prop where
  parsed : ∀ x ∈ items, ∃ v, parse x = .ok v
  get : ∀ k, (set.byKey.lookup k).map .ok = (first (keys name) items k).map parse

theorem load_snoc (x : α) :
    load name parse (items ++ [x]) = (load name parse items >>= fun set =>
      parse x >>= fun value => set.insert (name x) value) := by
  unfold load
  rw [List.foldlM_append]
  simp

omit [DecidableEq Value] in
theorem indexes_empty : Indexes name parse [] (ReferenceSet.empty : ReferenceSet Value) :=
  ⟨fun _ hx => (by cases hx), fun _ => rfl⟩

theorem Indexes.insert (h : Indexes name parse items set) (hparse : parse x = .ok schema)
    (hins : set.insert (name x) schema = .ok set') : Indexes name parse (items ++ [x]) set' := by
  refine ⟨fun y hy => ?_, fun k => ?_⟩
  · rcases List.mem_append.mp hy with hy | hy
    · exact h.parsed y hy
    · rw [List.mem_singleton.mp hy]
      exact ⟨schema, hparse⟩
  · have hnew : Option.map Except.ok (if k ∈ keysOf (name x) then some schema else none) =
        (first (keys name) [x] k).map parse := by
      rw [first_singleton]
      unfold keys
      split
      · rw [Option.map_some, Option.map_some, hparse]
      · rfl
    rw [lookup_insert hins, first_append, Option.map_or, Option.map_or, h.get, hnew]

omit [DecidableEq Value] in
/-- The set holds exactly the keys of the items. -/
theorem Indexes.mem_keys (h : Indexes name parse items set) (k : String) :
    k ∈ set.byKey.keys ↔ ∃ x ∈ items, k ∈ keys name x := by
  rw [← AList.mem_keys, ← AList.lookup_isSome, ← Option.isSome_map (f := Except.ok), h.get,
    Option.isSome_map]
  constructor
  · intro hsome
    obtain ⟨x, hx⟩ := Option.isSome_iff_exists.mp hsome
    exact ⟨x, first_eq_some hx⟩
  · rintro ⟨x, hx, hk⟩
    obtain ⟨y, hy, -⟩ := exists_first hx hk
    rw [hy]
    rfl

omit [DecidableEq Value] in
theorem Indexes.len_eq (h : Indexes name parse items set) :
    set.len = size (keys name) items :=
  length_eq_size set.byKey.keys_nodup h.mem_keys

theorem load_indexes (h : load name parse items = .ok set) : Indexes name parse items set := by
  induction items using List.reverseRecOn generalizing set with
  | nil =>
    cases h
    exact indexes_empty
  | append_singleton items x ih =>
    rw [load_snoc] at h
    obtain ⟨before, hbefore, hrest⟩ := Result.bind_eq_ok.mp h
    obtain ⟨schema, hparse, hins⟩ := Result.bind_eq_ok.mp hrest
    exact (ih hbefore).insert hparse hins

/-- Under the name of each item, the first document is the item's own. -/
def Agreed (name : α → String) (parse : α → Result Value) (items : List α) : Prop :=
  ∀ x ∈ items, (first (keys name) items (name x)).map parse = some (parse x)

theorem Indexes.insert_accepted (h : Indexes name parse items set) (hparse : parse x = .ok schema) :
    (∃ set', set.insert (name x) schema = .ok set') ↔
      size (keys name) items < maxReferences * 2 ∧
        (first (keys name) (items ++ [x]) (name x)).map parse = some (parse x) := by
  have hown : first (keys name) [x] (name x) = some x := by
    rw [first_singleton]
    exact if_pos (name_mem_keysOf (name x))
  rw [Json.insert_accepted, h.len_eq, first_append, hown, Option.map_or, ← h.get]
  apply and_congr_right
  intro _
  cases hold : set.byKey.lookup (name x) with
  | none => simp
  | some existing => simp [hparse]

omit [DecidableEq Value] in
theorem agreed_snoc : Agreed name parse (items ++ [x]) ↔ Agreed name parse items ∧
    (first (keys name) (items ++ [x]) (name x)).map parse = some (parse x) := by
  have hold : ∀ y ∈ items, first (keys name) (items ++ [x]) (name y) =
      first (keys name) items (name y) :=
    fun y hy => first_append_of_mem hy (name_mem_keysOf (name y))
  constructor
  · intro h
    refine ⟨fun y hy => ?_, h x (by simp)⟩
    rw [← hold y hy]
    exact h y (List.mem_append_left _ hy)
  · rintro ⟨h, hx⟩ y hy
    rcases List.mem_append.mp hy with hy | hy
    · rw [hold y hy]
      exact h y hy
    · rw [List.mem_singleton.mp hy]
      exact hx

/-- When the loop succeeds. -/
theorem load_ok_iff : (∃ set, load name parse items = .ok set) ↔
    (∀ x ∈ items, ∃ v, parse x = .ok v) ∧
    size (keys name) items.dropLast < maxReferences * 2 ∧ Agreed name parse items := by
  induction items using List.reverseRecOn with
  | nil =>
    constructor
    · intro _
      exact ⟨fun x hx => (by cases hx), by simp [size, maxReferences], fun x hx => by cases hx⟩
    · intro _
      exact ⟨ReferenceSet.empty, rfl⟩
  | append_singleton items x ih =>
    rw [List.dropLast_concat, agreed_snoc]
    constructor
    · rintro ⟨set', h⟩
      have hafter := load_indexes h
      rw [load_snoc] at h
      obtain ⟨set, hset, hrest⟩ := Result.bind_eq_ok.mp h
      obtain ⟨schema, hparse, hins⟩ := Result.bind_eq_ok.mp hrest
      obtain ⟨-, -, hagreed⟩ := ih.mp ⟨set, hset⟩
      obtain ⟨hroom, hname⟩ := ((load_indexes hset).insert_accepted hparse).mp ⟨set', hins⟩
      exact ⟨hafter.parsed, hroom, hagreed, hname⟩
    · rintro ⟨hparsed, hroom, hagreed, hname⟩
      have hsmaller : size (keys name) items.dropLast ≤ size (keys name) items := by
        rcases List.eq_nil_or_concat' items with rfl | ⟨front, last, rfl⟩
        · exact Nat.le_refl _
        · rw [List.dropLast_concat]
          exact size_append_left [last]
      obtain ⟨set, hset⟩ := ih.mpr ⟨fun y hy => hparsed y (List.mem_append_left _ hy),
        Nat.lt_of_le_of_lt hsmaller hroom, hagreed⟩
      obtain ⟨schema, hparse⟩ := hparsed x (by simp)
      obtain ⟨set', hins⟩ := ((load_indexes hset).insert_accepted hparse).mpr ⟨hroom, hname⟩
      refine ⟨set', ?_⟩
      rw [load_snoc, hset]
      show (parse x >>= fun value => set.insert (name x) value) = .ok set'
      rw [hparse]
      exact hins

omit [DecidableEq Value] in
/-- Of two items with one name, both have the same document. -/
theorem Agreed.same_name (h : Agreed name parse items) {y : α} (hx : x ∈ items) (hy : y ∈ items)
    (hname : name x = name y) : parse x = parse y := by
  have hpx := h x hx
  rw [hname, h y hy] at hpx
  exact (Option.some.inj hpx).symm

/-! ## Lookups -/

/-- The document that a list of items has for a URI: that of the first item under the URI,
    or else that of the first item under the URI's final segment. -/
def resolution (name : α → String) (parse : α → Result Value) (items : List α) (uri : String) :
    Option (Result Value) :=
  ((first (keys name) items uri).orElse fun _ =>
    (lastSegment uri).bind fun tail => first (keys name) items tail).map parse

omit [DecidableEq Value] in
/-- An item's own name resolves to its document. -/
theorem Agreed.resolution (h : Agreed name parse items) (hx : x ∈ items) :
    resolution name parse items (name x) = some (parse x) := by
  have hown := h x hx
  unfold Json.resolution
  cases hfirst : first (keys name) items (name x) with
  | none =>
    rw [hfirst] at hown
    cases hown
  | some y =>
    rw [hfirst] at hown
    exact hown

omit [DecidableEq Value] in
theorem Indexes.lookup (h : Indexes name parse items set) (uri : String) :
    (set.lookup uri).map .ok = resolution name parse items uri := by
  unfold ReferenceSet.lookup resolution
  cases huri : set.byKey.lookup uri with
  | some v =>
    have hfirst := h.get uri
    rw [huri] at hfirst
    cases hf : first (keys name) items uri with
    | none => rw [hf] at hfirst; cases hfirst
    | some y => rw [hf] at hfirst; exact hfirst
  | none =>
    have hfirst := h.get uri
    rw [huri] at hfirst
    rw [Option.map_eq_none_iff.mp hfirst.symm]
    cases htail : lastSegment uri with
    | none => rfl
    | some tail => exact h.get tail

end Schemreg.Json
