import Schemreg.Json.ReferenceSet

/-
  What the two key rules of `ReferenceSet::insert` mean for a list of dependencies.

  The final-segment key is first-wins and the name key must agree, and both are keys of one
  map. Two things follow.

  * A relative `$ref` with several segments is looked up by its final segment, so it is
    answered with the first document under that segment, whoever declared it
    (`relative_lookup_iff`, `shadowed_by_another_directory`).
  * The order of the list matters when two documents stand under one key, or when the keys
    come near the size limit (`order_irrelevant_iff`, `tail_before_name_is_rejected`).
-/

namespace Schemreg.Json

open Index

variable {Value : Type} {α : Type} [DecidableEq Value] {name : α → String}
  {parse : α → Result Value} {items items' : List α} {x y : α}

/-! ## Relative names -/

/-- The URI under which a relative `$ref` reaches the retriever. -/
def retrieverUri (n : String) : String := "json-schema:///" ++ n

/-- The file name of a relative name: its final segment, or all of it. -/
def fileName (n : String) : String := (lastSegment n).getD n

/-- The name starts with a URI scheme: a letter, then letters, digits, `+`, `-` and `.`, and
    a colon. A relative name does not. -/
def hasScheme (n : String) : Bool :=
  match n.toList with
  | c :: rest =>
      c.isAlpha && (rest.dropWhile fun c => c.isAlphanum || c ∈ ['+', '-', '.']).head? == some ':'
  | [] => false

theorem lastSegment_append {before tail : String} (h : '/' ∉ tail.toList) :
    lastSegment (before ++ "/" ++ tail) = some tail := by
  have hs : before ++ "/" ++ tail = String.ofList (before.toList ++ '/' :: tail.toList) := by
    rw [← String.toList_inj]
    simp [String.toList_append]
  unfold lastSegment
  rw [hs, rsplitOnce_append h]
  simp

theorem lastSegment_retrieverUri (n : String) :
    lastSegment (retrieverUri n) = some (fileName n) := by
  unfold fileName retrieverUri
  rcases split_last n with ⟨hfree, hnone⟩ | ⟨before, tail, hfree, hsplit, hsome⟩
  · have hs : "json-schema:///" ++ n = "json-schema://" ++ "/" ++ n := rfl
    rw [hnone, hs, lastSegment_append hfree]
    rfl
  · rw [hsome, hsplit, ← String.append_assoc, ← String.append_assoc, lastSegment_append hfree]
    rfl

theorem slash_mem_retrieverUri (n : String) : '/' ∈ (retrieverUri n).toList :=
  slash_mem_of_lastSegment (lastSegment_retrieverUri n)

/-- A name can be found under its file name. -/
theorem fileName_mem_keysOf (n : String) : fileName n ∈ keysOf n := by
  unfold fileName
  rw [mem_keysOf]
  cases lastSegment n with
  | none => exact Or.inr rfl
  | some tail => exact Or.inl rfl

/-- No declaration puts another document in the way of the relative name `n`: where the URI
    itself is declared, with the document `schema`; where it is not, the first declaration
    whose name is, or ends in, the file name of `n` has the document `schema`. -/
structure Unshadowed (deps : List (String × Value)) (n : String) (schema : Value) : Prop where
  uri : ∀ dep ∈ deps, dep.1 = retrieverUri n → dep.2 = schema
  fileName : (∀ dep ∈ deps, dep.1 ≠ retrieverUri n) →
    ∀ dep, first (fun dep => keysOf dep.1) deps (fileName n) = some dep → dep.2 = schema

/-- When a relative name is answered with the document declared under it. -/
theorem relative_lookup_iff {deps : List (String × Value)} {set : ReferenceSet Value}
    (accepted : insertAll deps = .ok set) {n : String} {schema : Value}
    (declared : (n, schema) ∈ deps) :
    set.lookup (retrieverUri n) = some schema ↔ Unshadowed deps n schema := by
  have hload : load Prod.fst (fun dep => .ok dep.2) deps = .ok set := accepted
  have hset := load_indexes hload
  obtain ⟨-, -, hagreed⟩ := load_ok_iff.mp ⟨set, hload⟩
  have hlook : set.lookup (retrieverUri n) = some schema ↔
      resolution Prod.fst (fun dep => .ok dep.2) deps (retrieverUri n) = some (.ok schema) := by
    rw [← hset.lookup]
    simp
  rw [hlook]
  unfold resolution
  rw [lastSegment_retrieverUri]
  cases huri : first (keys Prod.fst) deps (retrieverUri n) with
  | some dep =>
    obtain ⟨hdep, hkey⟩ := first_eq_some huri
    have hname : dep.1 = retrieverUri n :=
      ((mem_keysOf_of_slash (slash_mem_retrieverUri n)).mp hkey).symm
    constructor
    · intro h
      have hdoc : dep.2 = schema := by simpa using h
      refine ⟨fun other hother hsame => ?_, fun hnone => absurd hname (hnone dep hdep)⟩
      have := hagreed.same_name hother hdep (hsame.trans hname.symm)
      simpa [hdoc] using this
    · intro h
      simp [h.uri dep hdep hname]
  | none =>
    have hnone : ∀ dep ∈ deps, dep.1 ≠ retrieverUri n := by
      intro dep hdep heq
      exact first_eq_none_iff.mp huri dep hdep (mem_keysOf.mpr (Or.inr heq.symm))
    obtain ⟨dep, hfirst, -⟩ : ∃ dep, first (keys Prod.fst) deps (fileName n) = some dep ∧ _ :=
      exists_first declared (fileName_mem_keysOf n)
    show ((first (keys Prod.fst) deps (fileName n)).map _ = some (Except.ok schema)) ↔ _
    rw [hfirst]
    constructor
    · intro h
      refine ⟨fun dep hdep heq => absurd heq (hnone dep hdep), fun _ other hother => ?_⟩
      have hsame : dep = other := Option.some.inj (hfirst.symm.trans hother)
      rw [← hsame]
      simpa using h
    · intro h
      simp [h.fileName hnone dep hfirst]

/-- A relative name in a list where no other name ends in its file name. -/
theorem lone_relative_name : ∃ set, insertAll [("common/address.json", 1), ("city.json", 2)] =
    .ok set ∧ set.lookup (retrieverUri "common/address.json") = some 1 := by
  obtain ⟨set, hset⟩ : ∃ set, insertAll [("common/address.json", 1), ("city.json", 2)] =
    .ok set := ⟨_, rfl⟩
  refine ⟨set, hset, (relative_lookup_iff hset (by simp)).mpr ⟨?_, fun _ dep hdep => ?_⟩⟩
  · decide +kernel
  · have hfirst : first (fun dep : String × Nat => keysOf dep.1)
        [("common/address.json", 1), ("city.json", 2)] (fileName "common/address.json") =
        some ("common/address.json", 1) := by decide +kernel
    rw [hfirst] at hdep
    cases hdep
    rfl

/-- Two relative names that end in one file name: the second is answered with the document
    declared under the first. -/
theorem shadowed_by_another_directory :
    ¬ ∀ (deps : List (String × Nat)) (set : ReferenceSet Nat) (n : String) (schema : Nat),
      insertAll deps = .ok set → (n, schema) ∈ deps → hasScheme n = false →
      set.lookup (retrieverUri n) = some schema := by
  intro h
  obtain ⟨set, hset, hlook⟩ : ∃ set,
      insertAll [("billing/address.json", 1), ("common/address.json", 2)] = .ok set ∧
      set.lookup (retrieverUri "common/address.json") = some 1 := ⟨_, rfl, by decide +kernel⟩
  have hsame := h _ set "common/address.json" 2 hset (by simp) (by decide +kernel)
  rw [hlook] at hsame
  cases hsame

/-! ## The order of the list -/

/-- No key stands for two documents, and whichever item comes last finds room. -/
structure OrderFree [DecidableEq α] (name : α → String) (parse : α → Result Value)
    (items : List α) : Prop where
  agree : ∀ x ∈ items, ∀ y ∈ items, ∀ k, k ∈ keysOf (name x) → k ∈ keysOf (name y) →
    parse x = parse y
  room : ∀ x ∈ items, size (keys name) (items.erase x) < maxReferences * 2

/-- An item may come after all of `rest`: nothing stands under its name, or its own document
    stands there and may come first. -/
def MayBeLast (name : α → String) (parse : α → Result Value) (rest : List α) (x : α) : Prop :=
  (∀ y ∈ rest, name x ∉ keysOf (name y)) ∨
    ∃ y ∈ rest, name x ∈ keysOf (name y) ∧ parse y = parse x

/-- The items are rejected in every order: one of them does not parse, one name is declared
    with two documents, or whichever item may come last, the others leave it no room. -/
inductive Rejected [DecidableEq α] (name : α → String) (parse : α → Result Value)
    (items : List α) : Prop where
  | unparsed {x : α} (mem : x ∈ items) (fails : ∀ v, parse x ≠ .ok v)
  | twoDocuments {x y : α} (left : x ∈ items) (right : y ∈ items) (same : name x = name y)
      (differ : parse x ≠ parse y)
  | noRoom (some : items ≠ []) (full : ∀ x ∈ items, MayBeLast name parse (items.erase x) x →
      maxReferences * 2 ≤ size (keys name) (items.erase x))

/-- Both results are accepted or neither is, and accepted sets answer alike. -/
def SameAnswers (r r' : Result (ReferenceSet Value)) : Prop :=
  ((∃ set, r = .ok set) ↔ ∃ set, r' = .ok set) ∧
    ∀ set set', r = .ok set → r' = .ok set' → ∀ uri, set.lookup uri = set'.lookup uri

variable [DecidableEq α]

theorem Rejected.not_ok (h : Rejected name parse items) (hperm : items.Perm items') :
    ¬ ∃ set, load name parse items' = .ok set := by
  intro hok
  obtain ⟨hparsed, hroom, hagreed⟩ := load_ok_iff.mp hok
  cases h with
  | unparsed mem fails =>
    obtain ⟨v, hv⟩ := hparsed _ (hperm.mem_iff.mp mem)
    exact fails v hv
  | twoDocuments left right same differ =>
    exact differ (hagreed.same_name (hperm.mem_iff.mp left) (hperm.mem_iff.mp right) same)
  | noRoom some full =>
    rcases List.eq_nil_or_concat' items' with rfl | ⟨front, x, rfl⟩
    · exact some (List.perm_nil.mp hperm)
    · have hmem : x ∈ items := hperm.mem_iff.mpr (by simp)
      have hrest : (items.erase x).Perm front := by
        have hcons : items.Perm (x :: front) := hperm.trans (List.perm_append_singleton x front)
        simpa using hcons.erase x
      have hlast : MayBeLast name parse (items.erase x) x := by
        have hown := hagreed x (by simp)
        rw [first_append] at hown
        cases hfirst : first (keys name) front (name x) with
        | none =>
          refine Or.inl fun y hy => ?_
          exact first_eq_none_iff.mp hfirst y (hrest.mem_iff.mp hy)
        | some y =>
          obtain ⟨hy, hkey⟩ := first_eq_some hfirst
          rw [hfirst] at hown
          exact Or.inr ⟨y, hrest.mem_iff.mpr hy, hkey, Option.some.inj hown⟩
      have hfull := full x hmem hlast
      rw [List.dropLast_concat] at hroom
      rw [size_perm hrest] at hfull
      omega

/-- The items that can come first without taking another item's name: those without a
    slash in their name, and those that put the last item's own document under its name. -/
def Leading (name : α → String) (parse : α → Result Value) (x y : α) : Prop :=
  '/' ∉ (name y).toList ∨ (lastSegment (name y) = some (name x) ∧ parse y = parse x)

omit [DecidableEq Value] [DecidableEq α] in
/-- Where each name has one document, the leading items do not get in each other's way. -/
theorem parse_eq_of_leading {z : α} (same : ∀ x ∈ items, ∀ y ∈ items, name x = name y →
    parse x = parse y) (hx : x ∈ items) (hy : y ∈ items) (hz : z ∈ items)
    (hlead : Leading name parse x z) (hkey : name y ∈ keysOf (name z)) : parse z = parse y := by
  rcases mem_keysOf.mp hkey with htail | heq
  · rcases hlead with hfree | ⟨htail', hdoc⟩
    · exact absurd (slash_mem_of_lastSegment htail) hfree
    · have hname : name y = name x := Option.some.inj (htail.symm.trans htail')
      rw [hdoc, same y hy x hx hname]
  · exact same z hz y hy heq.symm

/-- Unless every order is rejected, some order is accepted. -/
theorem exists_accepted_order (hsome : items ≠ []) (h : ¬ Rejected name parse items) :
    ∃ items', items.Perm items' ∧ ∃ set, load name parse items' = .ok set := by
  classical
  have hparsed : ∀ x ∈ items, ∃ v, parse x = .ok v := by
    intro x hx
    by_contra hnone
    exact h (Rejected.unparsed hx fun v hv => hnone ⟨v, hv⟩)
  have hsame : ∀ x ∈ items, ∀ y ∈ items, name x = name y → parse x = parse y := by
    intro x hx y hy hname
    by_contra hdiffer
    exact h (Rejected.twoDocuments hx hy hname hdiffer)
  obtain ⟨x, hx, hlast, hroom⟩ : ∃ x ∈ items, MayBeLast name parse (items.erase x) x ∧
      size (keys name) (items.erase x) < maxReferences * 2 := by
    by_contra hnone
    refine h (Rejected.noRoom hsome fun x hx hlast => ?_)
    by_contra hlt
    exact hnone ⟨x, hx, hlast, Nat.lt_of_not_le hlt⟩
  -- the leading items first, then the others, then `x`
  let front := (items.erase x).filter fun y => Leading name parse x y
  let back := (items.erase x).filter fun y => !decide (Leading name parse x y)
  have hrest : (items.erase x).Perm (front ++ back) := (List.filter_append_perm _ _).symm
  have hperm : items.Perm (front ++ back ++ [x]) :=
    (List.perm_cons_erase hx).trans
      ((hrest.cons x).trans (List.perm_append_singleton x (front ++ back)).symm)
  have hmem : ∀ y, y ∈ front ++ back ++ [x] → y ∈ items := fun y hy => hperm.mem_iff.mpr hy
  have hfront : ∀ y ∈ front, y ∈ items ∧ Leading name parse x y := by
    intro y hy
    obtain ⟨hmem, hlead⟩ := List.mem_filter.mp hy
    exact ⟨List.mem_of_mem_erase hmem, of_decide_eq_true hlead⟩
  refine ⟨_, hperm, load_ok_iff.mpr ⟨fun y hy => hparsed y (hmem y hy), ?_, fun y hy => ?_⟩⟩
  · rw [List.dropLast_concat, ← size_perm hrest]
    exact hroom
  · -- a leading item under the name of `y` settles it
    have hlead : ∀ z ∈ front, name y ∈ keysOf (name z) →
        (first (keys name) (front ++ back ++ [x]) (name y)).map parse = some (parse y) := by
      intro z hz hkey
      rw [List.append_assoc, first_append_of_mem hz hkey]
      have hzy := parse_eq_of_leading hsame hx (hmem y hy) (hfront z hz).1 (hfront z hz).2 hkey
      rw [← hzy]
      refine map_first_of_agree (fun other hother hkey' => ?_) hz hkey
      rw [parse_eq_of_leading hsame hx (hmem y hy) (hfront other hother).1
        (hfront other hother).2 hkey', hzy]
    by_cases hslash : '/' ∈ (name y).toList
    · refine map_first_of_agree (fun z hz hkey => ?_) hy (name_mem_keysOf (name y))
      exact hsame z (hmem z hz) y (hmem y hy) ((mem_keysOf_of_slash hslash).mp hkey).symm
    · rcases List.mem_append.mp hy with hin | hin
      · rcases List.mem_append.mp hin with hin | hin
        · exact hlead y hin (name_mem_keysOf (name y))
        · obtain ⟨-, hnot⟩ := List.mem_filter.mp hin
          have hnotLeading : ¬ Leading name parse x y := by simpa using hnot
          exact absurd (Or.inl hslash) hnotLeading
      · rw [List.mem_singleton.mp hin] at hlead hslash ⊢
        rcases hlast with hfree | ⟨z, hz, hkey, hdoc⟩
        · have hnone : first (keys name) (front ++ back) (name x) = none := by
            rw [first_eq_none_iff]
            intro z hz
            exact hfree z (hrest.mem_iff.mpr hz)
          have hown : name x ∈ keys name x := name_mem_keysOf (name x)
          rw [first_append, hnone, first_singleton, if_pos hown]
          rfl
        · have hleading : Leading name parse x z := by
            rcases mem_keysOf.mp hkey with htail | heq
            · exact Or.inr ⟨htail, hdoc⟩
            · exact Or.inl (heq ▸ hslash)
          exact hlead z (List.mem_filter.mpr ⟨hz, decide_eq_true hleading⟩) hkey

omit [DecidableEq Value] in
theorem OrderFree.perm (h : OrderFree name parse items) (hperm : items.Perm items') :
    OrderFree name parse items' := by
  refine ⟨fun x hx y hy => h.agree x (hperm.mem_iff.mpr hx) y (hperm.mem_iff.mpr hy), ?_⟩
  intro x hx
  rw [← size_perm (hperm.erase x)]
  exact h.room x (hperm.mem_iff.mpr hx)

theorem OrderFree.ok_iff (h : OrderFree name parse items) :
    (∃ set, load name parse items = .ok set) ↔ ∀ x ∈ items, ∃ v, parse x = .ok v := by
  rw [load_ok_iff]
  constructor
  · exact fun hok => hok.1
  · refine fun hparsed => ⟨hparsed, ?_, fun x hx => ?_⟩
    · rcases List.eq_nil_or_concat' items with rfl | ⟨front, x, rfl⟩
      · simp [size, maxReferences]
      · have hrest : ((front ++ [x]).erase x).Perm front := by
          simpa using (List.perm_append_singleton x front).erase x
        rw [List.dropLast_concat, ← size_perm hrest]
        exact h.room x (by simp)
    · refine map_first_of_agree (fun y hy hkey => ?_) hx (name_mem_keysOf (name x))
      exact h.agree y hy x hx (name x) hkey (name_mem_keysOf (name x))

omit [DecidableEq α] in
theorem lookup_eq_of_resolution {set set' : ReferenceSet Value}
    (h : load name parse items = .ok set) (h' : load name parse items' = .ok set') {uri : String}
    (hsame : resolution name parse items uri = resolution name parse items' uri) :
    set.lookup uri = set'.lookup uri := by
  rw [← (load_indexes h).lookup, ← (load_indexes h').lookup] at hsame
  exact Option.map_injective (fun _ _ heq => Except.ok.inj heq) hsame

omit [DecidableEq Value] in
theorem OrderFree.resolution_perm (h : OrderFree name parse items) (hperm : items.Perm items')
    (uri : String) : resolution name parse items uri = resolution name parse items' uri := by
  have hmap : ∀ k, (first (keys name) items k).map parse = (first (keys name) items' k).map parse :=
    fun k => map_first_perm hperm fun x hx y hy => h.agree x hx y hy k
  have hnone : first (keys name) items uri = none ↔ first (keys name) items' uri = none := by
    rw [← Option.map_eq_none_iff (f := parse), hmap, Option.map_eq_none_iff]
  unfold resolution
  cases hfirst : first (keys name) items uri with
  | some x =>
    cases hfirst' : first (keys name) items' uri with
    | none => exact absurd (hnone.mpr hfirst') (by rw [hfirst]; exact Option.some_ne_none x)
    | some y =>
      have := hmap uri
      rwa [hfirst, hfirst'] at this
  | none =>
    rw [hnone.mp hfirst]
    cases lastSegment uri with
    | none => rfl
    | some tail => exact hmap tail

omit [DecidableEq α] in
/-- What a set says under a key of one of its items: the document of the first item there. -/
theorem lookup_key {set : ReferenceSet Value} (h : load name parse items = .ok set) {k : String}
    (hfirst : first (keys name) items k = some x) : (set.lookup k).map .ok = some (parse x) := by
  rw [(load_indexes h).lookup]
  unfold resolution
  rw [hfirst]
  rfl

theorem orderFree_of_sameAnswers (hok : ∃ set, load name parse items = .ok set)
    (hsame : ∀ items', items.Perm items' →
      SameAnswers (load name parse items) (load name parse items')) :
    OrderFree name parse items := by
  obtain ⟨set, hset⟩ := hok
  -- the item that is put first answers under each of its keys
  have hfirst : ∀ x ∈ items, ∀ k ∈ keysOf (name x), (set.lookup k).map .ok = some (parse x) := by
    intro x hx k hk
    obtain ⟨hiff, hlook⟩ := hsame _ (List.perm_cons_erase hx)
    obtain ⟨set', hset'⟩ := hiff.mp ⟨set, hset⟩
    rw [hlook set set' hset hset' k]
    apply lookup_key hset'
    unfold first
    rw [List.find?_cons_of_pos]
    exact decide_eq_true hk
  refine ⟨fun x hx y hy k hkx hky => ?_, fun x hx => ?_⟩
  · have heq := hfirst x hx k hkx
    rw [hfirst y hy k hky] at heq
    exact (Option.some.inj heq).symm
  · have hperm : items.Perm (items.erase x ++ [x]) :=
      (List.perm_cons_erase hx).trans (List.perm_append_singleton x _).symm
    obtain ⟨-, hroom, -⟩ := load_ok_iff.mp ((hsame _ hperm).1.mp ⟨set, hset⟩)
    rwa [List.dropLast_concat] at hroom

/-- The order of the items does not matter exactly when no key stands for two documents and
    there is room in every order, or when every order is rejected. -/
theorem sameAnswers_iff : (∀ items', items.Perm items' →
      SameAnswers (load name parse items) (load name parse items')) ↔
    OrderFree name parse items ∨ Rejected name parse items := by
  constructor
  · intro hsame
    by_cases hrej : Rejected name parse items
    · exact Or.inr hrej
    · refine Or.inl (orderFree_of_sameAnswers ?_ hsame)
      by_cases hnil : items = []
      · subst hnil
        exact ⟨ReferenceSet.empty, rfl⟩
      · obtain ⟨items', hperm, hok⟩ := exists_accepted_order hnil hrej
        exact (hsame items' hperm).1.mpr hok
  · rintro (hfree | hrej) items' hperm
    · constructor
      · rw [hfree.ok_iff, (hfree.perm hperm).ok_iff]
        constructor
        · exact fun h x hx => h x (hperm.mem_iff.mpr hx)
        · exact fun h x hx => h x (hperm.mem_iff.mp hx)
      · intro set set' hset hset' uri
        exact lookup_eq_of_resolution hset hset' (hfree.resolution_perm hperm uri)
    · refine ⟨iff_of_false (hrej.not_ok (List.Perm.refl _)) (hrej.not_ok hperm), ?_⟩
      intro set set' hset
      exact absurd ⟨set, hset⟩ (hrej.not_ok (List.Perm.refl _))

/-- When the order of a dependency list does not matter to `reference_set_from_pairs`. -/
theorem order_irrelevant_iff (fromStr : String → Except String Value)
    (deps : List (String × String)) :
    (∀ deps', deps.Perm deps' →
      SameAnswers (referenceSetFromPairs fromStr deps) (referenceSetFromPairs fromStr deps')) ↔
    OrderFree Prod.fst (parseDependency fromStr) deps ∨
      Rejected Prod.fst (parseDependency fromStr) deps :=
  sameAnswers_iff

/-- A name that is also another name's final segment: with the longer name first, the shorter
    one finds its place taken and the list is rejected; the other way round it is accepted. -/
theorem tail_before_name_is_rejected :
    ¬ ∀ (fromStr : String → Except String String) (deps deps' : List (String × String)),
      deps.Perm deps' →
      SameAnswers (referenceSetFromPairs fromStr deps) (referenceSetFromPairs fromStr deps') := by
  intro h
  obtain ⟨hiff, -⟩ := h .ok [("address.json", "true"), ("common/address.json", "false")]
    [("common/address.json", "false"), ("address.json", "true")] (List.Perm.swap _ _ _)
  obtain ⟨set, hset⟩ := hiff.mp ⟨_, rfl⟩
  have herr : referenceSetFromPairs Except.ok
      [("common/address.json", "false"), ("address.json", "true")] =
      .error (ReferenceSet.twoDocuments "address.json") := rfl
  rw [herr] at hset
  cases hset

end Schemreg.Json
