import Schemreg.Avro.References
import Schemreg.Lib.TopologicalOrder

/-
  The order of a list of Avro schemas.

  Kahn's loop does the lowest ready schema in each turn: its heap holds the ready ones, and its
  counters what each schema still waits for (`Counts`). So the order is the greedy one, and a
  loop that ends early has met a cycle.

  Proved (`orderSchemata_sorts`): which lists can be ordered, and that the order is the smallest
  topological one.
-/

namespace Schemreg.Avro

open TopologicalOrder

variable {Rest Json : Type} {api : Api Rest Json} {role : SchemaRole} {index count : Nat}
  {parsed : List (AvroSchema Rest)} {graph : Graph} {kahn : Kahn}

/-! ## Kahn's loop -/

namespace Kahn

/-- The schemas that a schema still waits for. -/
def waitsFor (graph : Graph) (order : List Nat) (x : Nat) : List Nat :=
  (graph.prerequisites x).filter fun d => d ∉ order

abbrev Uses (graph : Graph) (x d : Nat) : Prop := d ∈ graph.prerequisites x

/-- The heap holds what is ready, and the counters say how much is missing. -/
structure Counts (graph : Graph) (count : Nat) (kahn : Kahn) : Prop where
  greedy : Greedy (List.range count) (Uses graph) kahn.order
  mem_ready : ∀ x, x ∈ kahn.ready ↔ Ready (List.range count) (Uses graph) kahn.order x
  nodup_ready : kahn.ready.Nodup
  remaining : ∀ x, kahn.remaining x = (waitsFor graph kahn.order x).length

theorem waitsFor_eq_nil {order : List Nat} {x : Nat} :
    waitsFor graph order x = [] ↔ ∀ d, Uses graph x d → d ∈ order := by
  unfold waitsFor
  rw [List.filter_eq_nil_iff]
  simp

theorem counts_start : Counts graph count (start graph count) where
  greedy := .nil
  mem_ready x := by
    show x ∈ (List.range count).filter _ ↔ _
    rw [List.mem_filter, List.isEmpty_iff]
    constructor
    · rintro ⟨hx, hnone⟩
      refine ⟨hx, List.not_mem_nil, fun d hd => ?_⟩
      have hd : d ∈ graph.prerequisites x := hd
      rw [hnone] at hd
      exact hd
    · intro h
      refine ⟨h.mem, List.eq_nil_iff_forall_not_mem.mpr fun d hd => ?_⟩
      exact List.not_mem_nil (h.uses_done d hd)
  nodup_ready := List.nodup_range.filter _
  remaining x := by
    have hall : waitsFor graph [] x = graph.prerequisites x :=
      List.filter_eq_self.mpr fun d _ => by simp
    show (graph.prerequisites x).length = (waitsFor graph [] x).length
    rw [hall]

theorem order_foldl_release (dependents : List Nat) (kahn : Kahn) :
    (dependents.foldl release kahn).order = kahn.order := by
  induction dependents generalizing kahn with
  | nil => rfl
  | cons d dependents ih =>
    rw [List.foldl_cons, ih]
    unfold release
    dsimp only
    split <;> rfl

theorem order_visit : (kahn.visit graph index).order = kahn.order ++ [index] :=
  order_foldl_release _ _

/-- What the release of some dependents does. -/
structure Releases (kahn : Kahn) (dependents : List Nat) (kahn' : Kahn) : Prop where
  remaining : ∀ x, kahn'.remaining x =
    if x ∈ dependents then kahn.remaining x - 1 else kahn.remaining x
  mem_ready : ∀ x, x ∈ kahn'.ready ↔
    x ∈ kahn.ready ∨ (x ∈ dependents ∧ kahn.remaining x - 1 = 0)
  nodup_ready : kahn'.ready.Nodup

theorem releases_foldl {dependents : List Nat} (hnodup : dependents.Nodup)
    (hready : kahn.ready.Nodup) (hnew : ∀ x ∈ dependents, x ∉ kahn.ready) :
    Releases kahn dependents (dependents.foldl release kahn) := by
  induction dependents generalizing kahn with
  | nil => exact ⟨by simp, by simp, hready⟩
  | cons d dependents ih =>
    obtain ⟨hd, hnodup⟩ := List.nodup_cons.mp hnodup
    have hremaining : (kahn.release d).remaining =
        Function.update kahn.remaining d (kahn.remaining d - 1) := by
      unfold release
      dsimp only
      split <;> rfl
    have hreleased : ∀ x, x ∈ (kahn.release d).ready ↔
        x ∈ kahn.ready ∨ (x = d ∧ kahn.remaining d - 1 = 0) := by
      intro x
      unfold release
      dsimp only
      rw [Function.update_self]
      split
      · rename_i hzero
        simp [hzero, or_comm]
      · rename_i hpositive
        simp [hpositive]
    have hdistinct : (kahn.release d).ready.Nodup := by
      unfold release
      dsimp only
      split
      · exact List.nodup_cons.mpr ⟨hnew d List.mem_cons_self, hready⟩
      · exact hready
    have hrest : Releases (kahn.release d) dependents _ := ih hnodup hdistinct fun x hx hmem => by
      rcases (hreleased x).mp hmem with hmem | ⟨rfl, -⟩
      · exact hnew x (List.mem_cons_of_mem _ hx) hmem
      · exact hd hx
    refine ⟨fun x => ?_, fun x => ?_, hrest.nodup_ready⟩
    · show (dependents.foldl release (kahn.release d)).remaining x = _
      rw [hrest.remaining, hremaining]
      by_cases hx : x = d
      · subst hx
        simp [hd]
      · rw [Function.update_of_ne hx]
        simp [hx]
    · show x ∈ (dependents.foldl release (kahn.release d)).ready ↔ _
      rw [hrest.mem_ready, hreleased, hremaining, or_assoc, List.mem_cons, or_and_right]
      refine or_congr_right ?_
      by_cases hx : x = d
      · subst hx
        simp [hd]
      · rw [Function.update_of_ne hx]
        simp [hx]

theorem waitsFor_snoc {order : List Nat} {x : Nat} (hlinked : graph.Linked)
    (hindex : index ∉ order) :
    (waitsFor graph (order ++ [index]) x).length =
      if x ∈ graph.dependents index then (waitsFor graph order x).length - 1
      else (waitsFor graph order x).length := by
  have hnodup : (waitsFor graph order x).Nodup := (hlinked.nodup_prerequisites x).filter _
  have herase : waitsFor graph (order ++ [index]) x = (waitsFor graph order x).erase index := by
    rw [hnodup.erase_eq_filter]
    unfold waitsFor
    rw [List.filter_filter]
    refine List.filter_congr fun d _ => ?_
    by_cases hd : d = index <;> simp [hd]
  rw [herase, List.length_erase]
  have hmem : index ∈ waitsFor graph order x ↔ x ∈ graph.dependents index := by
    rw [hlinked.mem_dependents]
    unfold waitsFor
    rw [List.mem_filter]
    simp [hindex]
  simp only [hmem]

/-- One turn of the loop does the lowest ready schema. -/
theorem Counts.visit (h : Counts graph count kahn) (hlinked : graph.Linked)
    (hrange : ∀ x d, Uses graph x d → x ∈ List.range count)
    (hmin : kahn.ready.min? = some index) : Counts graph count (kahn.visit graph index) := by
  obtain ⟨hindex, hle⟩ := List.min?_eq_some_iff.mp hmin
  have hready := (h.mem_ready index).mp hindex
  have hgreedy : Greedy (List.range count) (Uses graph) (kahn.order ++ [index]) :=
    .next h.greedy ⟨hready, fun x hx => hle x ((h.mem_ready x).mpr hx)⟩
  have hwaiting : ∀ x ∈ graph.dependents index, x ∉ kahn.ready ∧ x ∉ kahn.order ++ [index] := by
    intro x hx
    have huses : Uses graph x index := (hlinked.mem_dependents x index).mp hx
    refine ⟨fun hmem => ?_, fun hmem => ?_⟩
    · exact hready.not_done (((h.mem_ready x).mp hmem).uses_done index huses)
    · rcases List.mem_append.mp hmem with hmem | hmem
      · obtain ⟨before, after, hsplit⟩ := List.append_of_mem hmem
        have hbefore := h.greedy.topological before x after hsplit index huses
        exact hready.not_done (hsplit ▸ List.mem_append_left _ hbefore)
      · obtain rfl := List.mem_singleton.mp hmem
        exact hready.not_done (hready.uses_done x huses)
  have hreleases : Releases { kahn with
      ready := kahn.ready.erase index, order := kahn.order ++ [index] }
      (graph.dependents index) (kahn.visit graph index) :=
    releases_foldl (hlinked.nodup_dependents index) (h.nodup_ready.erase index)
      fun x hx hmem => (hwaiting x hx).1 (List.mem_of_mem_erase hmem)
  have hremaining : ∀ x, (kahn.visit graph index).remaining x =
      (waitsFor graph (kahn.order ++ [index]) x).length := by
    intro x
    rw [hreleases.remaining, waitsFor_snoc hlinked hready.not_done, ← h.remaining]
  refine ⟨?_, fun x => ?_, hreleases.nodup_ready, fun x => ?_⟩
  · rw [order_visit]
    exact hgreedy
  · rw [hreleases.mem_ready, order_visit, h.nodup_ready.mem_erase_iff]
    have hcount : x ∈ graph.dependents index →
        (kahn.remaining x - 1 = 0 ↔ ∀ d, Uses graph x d → d ∈ kahn.order ++ [index]) := by
      intro hx
      have hrest := hremaining x
      rw [hreleases.remaining, if_pos hx] at hrest
      rw [← waitsFor_eq_nil, ← List.length_eq_zero_iff, ← hrest]
    constructor
    · rintro (⟨hne, hmem⟩ | ⟨hx, hzero⟩)
      · have hx := (h.mem_ready x).mp hmem
        refine ⟨hx.mem, ?_, fun d hd => List.mem_append_left _ (hx.uses_done d hd)⟩
        simp [hx.not_done, hne]
      · have huses : Uses graph x index := (hlinked.mem_dependents x index).mp hx
        exact ⟨hrange x index huses, (hwaiting x hx).2, (hcount hx).mp hzero⟩
    · intro hx
      by_cases hdepends : x ∈ graph.dependents index
      · exact .inr ⟨hdepends, (hcount hdepends).mpr hx.uses_done⟩
      · have hne : x ≠ index := fun heq => hx.not_done (by simp [heq])
        refine .inl ⟨hne, (h.mem_ready x).mpr ⟨hx.mem, ?_, fun d hd => ?_⟩⟩
        · exact fun hmem => hx.not_done (List.mem_append_left _ hmem)
        · rcases List.mem_append.mp (hx.uses_done d hd) with hmem | hmem
          · exact hmem
          · obtain rfl := List.mem_singleton.mp hmem
            exact absurd ((hlinked.mem_dependents x d).mpr hd) hdepends
  · rw [hremaining, order_visit]

/-- After some turns either nothing is ready, or as many schemas have been done. -/
theorem Counts.loop (h : Counts graph count kahn) (hlinked : graph.Linked)
    (hrange : ∀ x d, Uses graph x d → x ∈ List.range count) (turns : Nat) :
    Counts graph count (Kahn.loop graph turns kahn) ∧
      ((Kahn.loop graph turns kahn).ready = [] ∨
        (Kahn.loop graph turns kahn).order.length = kahn.order.length + turns) := by
  induction turns generalizing kahn with
  | zero => exact ⟨h, .inr rfl⟩
  | succ turns ih =>
    rw [Kahn.loop]
    split
    · rename_i hmin
      exact ⟨h, .inl (List.min?_eq_none_iff.mp hmin)⟩
    · rename_i index hmin
      obtain ⟨hcounts, hdone⟩ := ih (h.visit hlinked hrange hmin)
      refine ⟨hcounts, hdone.imp_right fun hlength => ?_⟩
      rw [hlength, order_visit, List.length_append, List.length_singleton]
      omega

/-- The loop runs until nothing is ready. -/
theorem counts_loop (hlinked : graph.Linked)
    (hrange : ∀ x d, Uses graph x d → x ∈ List.range count) :
    Counts graph count (loop graph count (start graph count)) ∧
      ∀ x, ¬ Ready (List.range count) (Uses graph)
        (loop graph count (start graph count)).order x := by
  obtain ⟨hcounts, hdone⟩ := counts_start.loop hlinked hrange count
  refine ⟨hcounts, fun x hx => ?_⟩
  rcases hdone with hempty | hlength
  · have hmem := (hcounts.mem_ready x).mpr hx
    rw [hempty] at hmem
    cases hmem
  · have hall := (hcounts.greedy.nodup.subperm hcounts.greedy.subset).perm_of_length_le
      (by rw [hlength, List.length_range]; exact Nat.le_add_left ..)
    exact hx.not_done (hall.mem_iff.mpr hx.mem)

end Kahn

/-! ## Slots -/

theorem takeSlots_eq {α : Type} {items : List α} : ∀ {order : List Nat} {slots : List (Option α)},
    order.Nodup → (∀ index ∈ order, slots[index]?.join = items[index]?) →
    takeSlots order slots = order.filterMap fun index => items[index]?
  | [], _, _, _ => rfl
  | index :: order, slots, hnodup, hslots => by
      obtain ⟨hindex, hnodup⟩ := List.nodup_cons.mp hnodup
      have hrest : ∀ slots' : List (Option α),
          (∀ other ∈ order, slots'[other]? = slots[other]?) →
          takeSlots order slots' = order.filterMap fun index => items[index]? := by
        intro slots' hsame
        refine takeSlots_eq hnodup fun other hother => ?_
        rw [hsame other hother]
        exact hslots other (List.mem_cons_of_mem _ hother)
      rw [takeSlots, List.filterMap_cons, ← hslots index List.mem_cons_self]
      cases hitem : slots[index]?.join with
      | none => exact hrest slots fun _ _ => rfl
      | some x =>
        refine congrArg (x :: ·) (hrest _ fun other hother => ?_)
        have hne : index ≠ other := fun heq => hindex (heq ▸ hother)
        exact List.getElem?_set_ne hne

theorem filterMap_range {α : Type} (items : List α) :
    ((List.range items.length).filterMap fun index => items[index]?) = items := by
  induction items using List.reverseRecOn with
  | nil => rfl
  | append_singleton items x ih =>
    rw [List.length_append, List.length_singleton, List.range_succ, List.filterMap_append]
    have hinit : (List.range items.length).filterMap (fun index => (items ++ [x])[index]?) =
        (List.range items.length).filterMap fun index => items[index]? :=
      List.filterMap_congr fun index hindex =>
        List.getElem?_append_left (List.mem_range.mp hindex)
    rw [hinit, ih]
    simp

/-! ## Which lists can be ordered -/

/-- No fullname is defined by two schemas. -/
def DefinedOnce (api : Api Rest Json) (parsed : List (AvroSchema Rest)) : Prop :=
  ∀ (i j : Nat) (a b : AvroSchema Rest) name, parsed[i]? = some a → parsed[j]? = some b →
    Defines api a name → Defines api b name → i = j

/-- Every name that a schema refers to and does not define is the top-level name of another
    schema. -/
def AllResolved (api : Api Rest Json) (parsed : List (AvroSchema Rest)) : Prop :=
  ∀ (i : Nat) (a : AvroSchema Rest) name, parsed[i]? = some a → Refers api a name →
    ¬ Defines api a name →
    ∃ (j : Nat) (b : AvroSchema Rest), j ≠ i ∧ parsed[j]? = some b ∧ nameOf api b = some name

/-- The schema at `i` refers to the top-level name of the one at `j`. -/
def CrossReference (api : Api Rest Json) (parsed : List (AvroSchema Rest)) (i j : Nat) : Prop :=
  ∃ a b name, parsed[i]? = some a ∧ parsed[j]? = some b ∧ Refers api a name ∧
    ¬ Defines api a name ∧ nameOf api b = some name

/-- The order of `out` is the smallest one in which what a schema refers to comes before it. -/
structure Sorted (api : Api Rest Json) (parsed out : List (AvroSchema Rest)) : Prop where
  perm : out.Perm parsed
  smallest : ∃ order, out = order.filterMap (fun index => parsed[index]?) ∧
    IsOrder (List.range parsed.length) (CrossReference api parsed) order ∧
    ∀ other, IsOrder (List.range parsed.length) (CrossReference api parsed) other → order ≤ other
  unchanged : IsOrder (List.range parsed.length) (CrossReference api parsed)
    (List.range parsed.length) → out = parsed

section Success

variable {definer : List (String × Nat)}

theorem getElem?_infos {i : Nat} {info : NameSets} :
    (parsed.map (namesOf api))[i]? = some info ↔
      ∃ a, parsed[i]? = some a ∧ namesOf api a = info := by
  rw [List.getElem?_map, Option.map_eq_some_iff]

theorem definers_iff : (∃ definer, definers role 0 (parsed.map (namesOf api)) [] = .ok definer) ↔
    DefinedOnce api parsed := by
  constructor
  · rintro ⟨definer, h⟩ i j a b name hi hj ha hb
    have hfinds : ∀ (k : Nat) (c : AvroSchema Rest), parsed[k]? = some c → Defines api c name →
        definer.lookup name = some k := fun k c hk hc =>
      (definers_ok h name k).mpr (.inr ⟨k, _, getElem?_infos.mpr ⟨c, hk, rfl⟩, mem_defines.mpr hc,
        (Nat.zero_add k).symm⟩)
    exact Option.some.inj ((hfinds i a hi ha).symm.trans (hfinds j b hj hb))
  · intro honce
    refine definers_of_unique ?_ (fun _ _ _ _ => rfl) ?_
    · intro info hinfo
      obtain ⟨a, -, rfl⟩ := List.mem_map.mp hinfo
      exact nodup_defines
    · intro i j a b name hi hj ha hb
      obtain ⟨a, hia, rfl⟩ := getElem?_infos.mp hi
      obtain ⟨b, hjb, rfl⟩ := getElem?_infos.mp hj
      exact honce i j a b name hia hjb (mem_defines.mp ha) (mem_defines.mp hb)

variable (hdefiner : definers role 0 (parsed.map (namesOf api)) [] = .ok definer)
include hdefiner

theorem definer_iff {name : String} {i : Nat} :
    definer.lookup name = some i ↔ ∃ a, parsed[i]? = some a ∧ Defines api a name := by
  rw [definers_ok hdefiner]
  constructor
  · rintro (h | ⟨j, info, hj, hname, rfl⟩)
    · cases h
    · obtain ⟨a, hj, rfl⟩ := getElem?_infos.mp hj
      exact ⟨a, by rwa [Nat.zero_add], mem_defines.mp hname⟩
  · rintro ⟨a, hi, ha⟩
    exact .inr ⟨i, _, getElem?_infos.mpr ⟨a, hi, rfl⟩, mem_defines.mpr ha, (Nat.zero_add i).symm⟩

omit hdefiner in
theorem topName_eq_some {i : Nat} {name : String} :
    topName api parsed i = some name ↔ ∃ a, parsed[i]? = some a ∧ nameOf api a = some name :=
  Option.bind_eq_some_iff

theorem resolves_iff (htop : QualifiesTopLevel api) {name : String} :
    Resolves api parsed definer name ↔ ∃ j, topName api parsed j = some name := by
  constructor
  · rintro ⟨j, -, hj⟩
    exact ⟨j, hj⟩
  · rintro ⟨j, hj⟩
    obtain ⟨b, hb, hname⟩ := topName_eq_some.mp hj
    exact ⟨j, (definer_iff hdefiner).mpr ⟨b, hb, defines_nameOf htop hname⟩, hj⟩

theorem addAllRefs_iff (htop : QualifiesTopLevel api) :
    (∃ graph, addAllRefs api parsed role definer 0 (parsed.map (namesOf api)) Graph.empty =
      .ok graph) ↔ AllResolved api parsed := by
  constructor
  · rintro ⟨graph, h⟩ i a name hi hrefers hnot
    obtain ⟨-, hresolves, -⟩ := addAllRefs_ok h Graph.linked_empty
    obtain ⟨j, hj, htopj⟩ := hresolves _ (List.mem_map.mpr ⟨a, List.mem_of_getElem? hi, rfl⟩) name
      (mem_refs.mpr hrefers) fun hmem => hnot (mem_defines.mp hmem)
    obtain ⟨b, hb, hname⟩ := topName_eq_some.mp htopj
    refine ⟨j, b, ?_, hb, hname⟩
    rintro rfl
    rw [hi] at hb
    cases hb
    exact hnot (defines_nameOf htop hname)
  · intro hresolved
    refine addAllRefs_of_resolves fun info hinfo name hname hnot => ?_
    obtain ⟨a, ha, rfl⟩ := List.mem_map.mp hinfo
    obtain ⟨i, hi⟩ := List.mem_iff_getElem?.mp ha
    obtain ⟨j, b, -, hj, hb⟩ := hresolved i a name hi (mem_refs.mp hname)
      fun hdefines => hnot (mem_defines.mpr hdefines)
    exact (resolves_iff hdefiner htop).mpr ⟨j, topName_eq_some.mpr ⟨b, hj, hb⟩⟩

/-- The graph holds the references across the schemas. -/
theorem uses_eq (htop : QualifiesTopLevel api) (hgraph : addAllRefs api parsed role definer 0
    (parsed.map (namesOf api)) Graph.empty = .ok graph) :
    Kahn.Uses graph = CrossReference api parsed := by
  obtain ⟨-, hresolves, hmem⟩ := addAllRefs_ok hgraph Graph.linked_empty
  funext i d
  refine propext ((hmem i d).trans ?_)
  constructor
  · rintro (h | ⟨j, info, hj, rfl, name, hname, hnot, hd⟩)
    · cases h
    · obtain ⟨a, hja, rfl⟩ := getElem?_infos.mp hj
      have hmem : namesOf api a ∈ parsed.map (namesOf api) :=
        List.mem_map.mpr ⟨a, List.mem_of_getElem? hja, rfl⟩
      obtain ⟨e, he, htope⟩ := hresolves _ hmem name hname hnot
      obtain rfl := Option.some.inj (hd.symm.trans he)
      obtain ⟨b, hb, hnameb⟩ := topName_eq_some.mp htope
      refine ⟨a, b, name, by rwa [Nat.zero_add], hb, mem_refs.mp hname, ?_, hnameb⟩
      exact fun hdefines => hnot (mem_defines.mpr hdefines)
  · rintro ⟨a, b, name, hi, hd, hrefers, hnot, hname⟩
    refine .inr ⟨i, _, getElem?_infos.mpr ⟨a, hi, rfl⟩, (Nat.zero_add i).symm, name,
      mem_refs.mpr hrefers, fun hmem => hnot (mem_defines.mp hmem), ?_⟩
    exact (definer_iff hdefiner).mpr ⟨b, hd, defines_nameOf htop hname⟩

end Success

theorem crossReference_range {x d : Nat} (h : CrossReference api parsed x d) :
    x ∈ List.range parsed.length ∧ d ∈ List.range parsed.length := by
  obtain ⟨a, b, -, hx, hd, -⟩ := h
  exact ⟨List.mem_range.mpr (List.getElem?_eq_some_iff.mp hx).1,
    List.mem_range.mpr (List.getElem?_eq_some_iff.mp hd).1⟩

/-- An order that the loop has completed. -/
theorem sorted_of_greedy {order : List Nat}
    (h : Greedy (List.range parsed.length) (CrossReference api parsed) order)
    (hperm : order.Perm (List.range parsed.length)) :
    Sorted api parsed (takeSlots order (parsed.map some)) := by
  have hslots : takeSlots order (parsed.map some) =
      order.filterMap fun index => parsed[index]? := by
    refine takeSlots_eq h.nodup fun index _ => ?_
    rw [List.getElem?_map]
    cases parsed[index]? <;> rfl
  rw [hslots]
  refine ⟨?_, ⟨order, rfl, ⟨hperm, h.topological⟩, fun other hother => ?_⟩, fun hsorted => ?_⟩
  · have hfiltered := hperm.filterMap fun index => parsed[index]?
    rwa [filterMap_range] at hfiltered
  · exact h.le_of_isOrder List.nodup_range hperm hother
  · rw [h.eq_of_isOrder List.pairwise_lt_range hperm hsorted, filterMap_range]

/-- The loop over the references: it does all the schemas exactly if there is no cycle. -/
theorem loop_sorts {definer : List (String × Nat)} (htop : QualifiesTopLevel api)
    (hdefiner : definers role 0 (parsed.map (namesOf api)) [] = .ok definer)
    (hgraph : addAllRefs api parsed role definer 0 (parsed.map (namesOf api)) Graph.empty =
      .ok graph) :
    let order := (Kahn.loop graph parsed.length (Kahn.start graph parsed.length)).order
    Greedy (List.range parsed.length) (CrossReference api parsed) order ∧
      (order.length = parsed.length ↔ order.Perm (List.range parsed.length)) ∧
      (order.Perm (List.range parsed.length) ↔
        ∀ i, ¬ Relation.TransGen (CrossReference api parsed) i i) := by
  have huses := uses_eq hdefiner htop hgraph
  have hlinked := (addAllRefs_ok hgraph Graph.linked_empty).1
  have hrange : ∀ x d, Kahn.Uses graph x d → x ∈ List.range parsed.length := fun x d hxd =>
    (crossReference_range (huses ▸ hxd : CrossReference api parsed x d)).1
  obtain ⟨hcounts, hstuck⟩ := Kahn.counts_loop hlinked hrange
  have hgreedy := hcounts.greedy
  rw [huses] at hgreedy hstuck
  refine ⟨hgreedy, ⟨fun hlength => ?_, fun hperm => ?_⟩,
    hgreedy.perm_iff_acyclic List.nodup_range (fun _ _ => crossReference_range) hstuck⟩
  · exact (hgreedy.nodup.subperm hgreedy.subset).perm_of_length_le
      (by rw [hlength, List.length_range])
  · rw [hperm.length_eq, List.length_range]

theorem orderable_of_ok (htop : QualifiesTopLevel api) {out : List (AvroSchema Rest)}
    (h : orderSchemata api parsed role = .ok out) :
    (DefinedOnce api parsed ∧ AllResolved api parsed ∧
      ∀ i, ¬ Relation.TransGen (CrossReference api parsed) i i) ∧ Sorted api parsed out := by
  obtain ⟨definer, hdefiner, h⟩ := Result.bind_eq_ok.mp h
  obtain ⟨graph, hgraph, h⟩ := Result.bind_eq_ok.mp h
  obtain ⟨hgreedy, hlength, hacyclic⟩ := loop_sorts htop hdefiner hgraph
  dsimp only at h
  split at h
  · cases h
  · rename_i hall
    have hperm := hlength.mp (not_not.mp hall)
    cases h
    exact ⟨⟨definers_iff.mp ⟨definer, hdefiner⟩, (addAllRefs_iff hdefiner htop).mp ⟨graph, hgraph⟩,
      hacyclic.mp hperm⟩, sorted_of_greedy hgreedy hperm⟩

theorem ok_of_orderable (htop : QualifiesTopLevel api) (role : SchemaRole)
    (honce : DefinedOnce api parsed) (hresolved : AllResolved api parsed)
    (hacyclic : ∀ i, ¬ Relation.TransGen (CrossReference api parsed) i i) :
    ∃ out, orderSchemata api parsed role = .ok out := by
  obtain ⟨definer, hdefiner⟩ : ∃ definer, definers role 0 (parsed.map (namesOf api)) [] =
    .ok definer := definers_iff.mpr honce
  obtain ⟨graph, hgraph⟩ := (addAllRefs_iff hdefiner htop).mpr hresolved
  obtain ⟨-, hlength, hperm⟩ := loop_sorts htop hdefiner hgraph
  exact ⟨_, Result.bind_eq_ok.mpr ⟨definer, hdefiner, Result.bind_eq_ok.mpr ⟨graph, hgraph,
    if_neg (not_not.mpr (hlength.mpr (hperm.mpr hacyclic)))⟩⟩⟩

/-- `order_schemata` succeeds exactly where there is an order, and gives the smallest. -/
theorem orderSchemata_sorts (htop : QualifiesTopLevel api) (parsed : List (AvroSchema Rest))
    (role : SchemaRole) :
    ((∃ out, orderSchemata api parsed role = .ok out) ↔
      DefinedOnce api parsed ∧ AllResolved api parsed ∧
        ∀ i, ¬ Relation.TransGen (CrossReference api parsed) i i) ∧
    ∀ out, orderSchemata api parsed role = .ok out → Sorted api parsed out := by
  refine ⟨⟨fun ⟨out, h⟩ => (orderable_of_ok htop h).1, ?_⟩,
    fun out h => (orderable_of_ok htop h).2⟩
  rintro ⟨honce, hresolved, hacyclic⟩
  exact ok_of_orderable htop role honce hresolved hacyclic

/-- Names as `apache_avro` qualifies and writes them. -/
def qualifying : Api Unit Unit where
  fullyQualifiedName name enclosing := ⟨name.name, name.space.or (enclosing.filter (· ≠ ""))⟩
  fullname name space :=
    if name.name.toList.contains '.' then name.name
    else
      match name.space.or space with
      | some space => if space.isEmpty then name.name else space ++ "." ++ name.name
      | none => name.name
  parseStr _ := .error "invalid JSON"
  parseList _ := .error "invalid JSON"
  fromStr _ := .error "invalid JSON"
  get _ _ := none
  asStr _ := none

theorem qualifiesTopLevel_qualifying : QualifiesTopLevel qualifying := by
  intro name
  unfold qualifying
  simp

/-- A record whose field refers to `Address` in the namespace of the record. -/
def customer : AvroSchema Unit :=
  .record ⟨"Customer", some "com.example"⟩ [.union [.other (), .ref ⟨"Address", none⟩] ()] ()

def address : AvroSchema Unit := .record ⟨"Address", some "com.example"⟩ [.other ()] ()

/-- The definition goes before its user. -/
theorem address_before_customer : Sorted qualifying [customer, address] [address, customer] :=
  (orderSchemata_sorts qualifiesTopLevel_qualifying [customer, address] .writerLocal).2 _ rfl

end Schemreg.Avro
