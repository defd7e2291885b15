import Schemreg.Avro.Names

/-
  The references between the schemas of a list.

  `definer` finds each name in the schema that defines it, if no two schemas define one name
  (`definers_ok`, `definers_of_unique`). The graph then holds each reference of a schema to
  another one's top-level name once, in both directions (`Linked`, `addAllRefs_ok`).
-/

namespace Schemreg.Avro

variable {Rest Json : Type} {api : Api Rest Json} {role : SchemaRole} {index : Nat}
  {name : String} {names defines : List String} {info : NameSets} {infos : List NameSets}
  {definer definer' : List (String × Nat)} {parsed : List (AvroSchema Rest)}
  {graph graph' : Graph}

/-! ## Definitions -/

theorem lookup_cons_iff {other : String} {i : Nat} (hfresh : definer.lookup other = none) :
    ((other, index) :: definer).lookup name = some i ↔
      definer.lookup name = some i ∨ (i = index ∧ name = other) := by
  by_cases heq : name = other
  · subst heq
    rw [List.lookup_cons_self, hfresh]
    simp [eq_comm]
  · rw [List.lookup_cons, beq_false_of_ne heq]
    simp [heq]

theorem insertDefines_ok (h : insertDefines role index names definer = .ok definer') (name : String)
    (i : Nat) : definer'.lookup name = some i ↔
      definer.lookup name = some i ∨ (i = index ∧ name ∈ names) := by
  induction names generalizing definer with
  | nil =>
    cases h
    simp
  | cons other names ih =>
    rw [insertDefines] at h
    split at h
    · cases h
    · rename_i hfresh
      rw [ih h, lookup_cons_iff (Option.not_isSome_iff_eq_none.mp hfresh), or_assoc, ← and_or_left,
        List.mem_cons]

theorem insertDefines_of_fresh (role : SchemaRole) (index : Nat) (hnodup : names.Nodup)
    (hfresh : ∀ name ∈ names, definer.lookup name = none) :
    ∃ definer', insertDefines role index names definer = .ok definer' := by
  induction names generalizing definer with
  | nil => exact ⟨definer, rfl⟩
  | cons other names ih =>
    obtain ⟨hother, hnames⟩ := List.nodup_cons.mp hnodup
    have hnone := hfresh other List.mem_cons_self
    rw [insertDefines, hnone]
    refine ih hnames fun name hname => ?_
    have hne : name ≠ other := fun heq => hother (heq ▸ hname)
    rw [List.lookup_cons, beq_false_of_ne hne]
    exact hfresh name (List.mem_cons_of_mem _ hname)

/-- A name is found in the schema that defines it. -/
theorem definers_ok (h : definers role index infos definer = .ok definer') (name : String)
    (i : Nat) : definer'.lookup name = some i ↔
      definer.lookup name = some i ∨
        ∃ j info, infos[j]? = some info ∧ name ∈ info.defines ∧ i = index + j := by
  induction infos generalizing index definer with
  | nil =>
    cases h
    simp
  | cons info infos ih =>
    obtain ⟨next, hnext, h⟩ := Result.bind_eq_ok.mp h
    rw [ih h, insertDefines_ok hnext, or_assoc]
    refine or_congr_right ⟨?_, ?_⟩
    · rintro (⟨rfl, hname⟩ | ⟨j, other, hj, hname, rfl⟩)
      · exact ⟨0, info, rfl, hname, rfl⟩
      · exact ⟨j + 1, other, hj, hname, by omega⟩
    · rintro ⟨j, other, hj, hname, rfl⟩
      cases j with
      | zero =>
        obtain rfl := Option.some.inj hj
        exact .inl ⟨rfl, hname⟩
      | succ j => exact .inr ⟨j, other, hj, hname, by omega⟩

theorem definers_of_unique (hnodup : ∀ info ∈ infos, info.defines.Nodup)
    (hfresh : ∀ info ∈ infos, ∀ name ∈ info.defines, definer.lookup name = none)
    (honce : ∀ (i j : Nat) (a b : NameSets) name, infos[i]? = some a → infos[j]? = some b →
      name ∈ a.defines → name ∈ b.defines → i = j) :
    ∃ definer', definers role index infos definer = .ok definer' := by
  induction infos generalizing index definer with
  | nil => exact ⟨definer, rfl⟩
  | cons info infos ih =>
    obtain ⟨next, hnext⟩ := insertDefines_of_fresh role index
      (hnodup info List.mem_cons_self) (hfresh info List.mem_cons_self)
    rw [definers, hnext]
    refine ih (fun other hmem => hnodup other (List.mem_cons_of_mem _ hmem)) ?_ ?_
    · intro other hmem name hname
      cases hlookup : next.lookup name with
      | none => rfl
      | some i =>
        rcases (insertDefines_ok hnext name i).mp hlookup with hold | ⟨-, hdefined⟩
        · rw [hfresh other (List.mem_cons_of_mem _ hmem) name hname] at hold
          cases hold
        · obtain ⟨j, hj⟩ := List.mem_iff_getElem?.mp hmem
          cases honce 0 (j + 1) info other name rfl hj hdefined hname
    · intro i j a b name hi hj ha hb
      exact Nat.succ.inj (honce (i + 1) (j + 1) a b name hi hj ha hb)

/-! ## The graph -/

namespace Graph

/-- Each reference is there once, in both directions. -/
structure Linked (graph : Graph) : Prop where
  nodup_prerequisites : ∀ i, (graph.prerequisites i).Nodup
  nodup_dependents : ∀ d, (graph.dependents d).Nodup
  mem_dependents : ∀ i d, i ∈ graph.dependents d ↔ d ∈ graph.prerequisites i

theorem linked_empty : empty.Linked :=
  ⟨fun _ => List.nodup_nil, fun _ => List.nodup_nil, fun _ _ => by simp [empty]⟩

theorem mem_add {i d e : Nat} : e ∈ (graph.add index d).prerequisites i ↔
    e ∈ graph.prerequisites i ∨ (i = index ∧ e = d) := by
  unfold add
  split
  · rename_i hmem
    constructor
    · exact .inl
    · rintro (he | ⟨rfl, rfl⟩)
      · exact he
      · exact hmem
  · dsimp only
    by_cases hi : i = index
    · subst hi
      rw [Function.update_self, mem_insertSorted, or_comm]
      simp
    · rw [Function.update_of_ne hi]
      simp [hi]

theorem Linked.add {d : Nat} (h : graph.Linked) : (graph.add index d).Linked := by
  refine ⟨fun i => ?_, fun e => ?_, fun i e => ?_⟩
  · unfold Graph.add
    split
    · exact h.nodup_prerequisites i
    · dsimp only
      by_cases hi : i = index
      · subst hi
        rw [Function.update_self]
        exact nodup_insertSorted (h.nodup_prerequisites i)
      · rw [Function.update_of_ne hi]
        exact h.nodup_prerequisites i
  · unfold Graph.add
    split
    · exact h.nodup_dependents e
    · rename_i hnew
      dsimp only
      by_cases he : e = d
      · subst he
        rw [Function.update_self]
        refine List.nodup_append.mpr ⟨h.nodup_dependents e, List.nodup_singleton _, ?_⟩
        rintro a ha b hb rfl
        obtain rfl := List.mem_singleton.mp hb
        exact hnew ((h.mem_dependents a e).mp ha)
      · rw [Function.update_of_ne he]
        exact h.nodup_dependents e
  · rw [mem_add, ← h.mem_dependents]
    unfold Graph.add
    split
    · rename_i hmem
      constructor
      · exact .inl
      · rintro (hi | ⟨rfl, rfl⟩)
        · exact hi
        · exact (h.mem_dependents i e).mpr hmem
    · dsimp only
      by_cases he : e = d
      · subst he
        rw [Function.update_self, List.mem_append, List.mem_singleton]
        simp
      · rw [Function.update_of_ne he]
        simp [he]

end Graph

open Avro.Graph

/-- The name is found, as the top-level name of a schema. -/
def Resolves (api : Api Rest Json) (parsed : List (AvroSchema Rest))
    (definer : List (String × Nat)) (name : String) : Prop :=
  ∃ d, definer.lookup name = some d ∧ topName api parsed d = some name

/-- What one schema's references add. -/
theorem addRefs_ok (h : addRefs api parsed role definer index defines names graph = .ok graph')
    (hlinked : graph.Linked) :
    graph'.Linked ∧ (∀ name ∈ names, name ∉ defines → Resolves api parsed definer name) ∧
      ∀ i e, e ∈ graph'.prerequisites i ↔ e ∈ graph.prerequisites i ∨
        (i = index ∧ ∃ name ∈ names, name ∉ defines ∧ definer.lookup name = some e) := by
  induction names generalizing graph with
  | nil =>
    cases h
    exact ⟨hlinked, by simp, by simp⟩
  | cons name names ih =>
    rw [addRefs] at h
    split at h
    · rename_i hdefines
      obtain ⟨hlinked', hresolves, hmem⟩ := ih h hlinked
      refine ⟨hlinked', ?_, fun i e => ?_⟩
      · intro other hother hnot
        rcases List.mem_cons.mp hother with rfl | hother
        · exact absurd hdefines hnot
        · exact hresolves other hother hnot
      · rw [hmem]
        simp [hdefines]
    · rename_i hdefines
      split at h
      · cases h
      · rename_i d hlookup
        split at h
        · cases h
        · rename_i htop
          obtain ⟨hlinked', hresolves, hmem⟩ := ih h hlinked.add
          refine ⟨hlinked', ?_, fun i e => ?_⟩
          · intro other hother hnot
            rcases List.mem_cons.mp hother with rfl | hother
            · exact ⟨d, hlookup, not_not.mp htop⟩
            · exact hresolves other hother hnot
          · rw [hmem, mem_add]
            simp [hdefines, hlookup, eq_comm (a := e), or_assoc, and_or_left]

theorem addRefs_of_resolves (role : SchemaRole) (index : Nat) (graph : Graph)
    (h : ∀ name ∈ names, name ∉ defines → Resolves api parsed definer name) :
    ∃ graph', addRefs api parsed role definer index defines names graph = .ok graph' := by
  induction names generalizing graph with
  | nil => exact ⟨graph, rfl⟩
  | cons name names ih =>
    have hrest := fun other hother => h other (List.mem_cons_of_mem _ hother)
    rw [addRefs]
    split
    · exact ih _ hrest
    · rename_i hdefines
      obtain ⟨d, hlookup, htop⟩ := h name List.mem_cons_self hdefines
      rw [hlookup]
      dsimp only
      rw [if_neg (not_not.mpr htop)]
      exact ih _ hrest

/-- What the references of all the schemas add. -/
theorem addAllRefs_ok (h : addAllRefs api parsed role definer index infos graph = .ok graph')
    (hlinked : graph.Linked) :
    graph'.Linked ∧
      (∀ info ∈ infos, ∀ name ∈ info.refs, name ∉ info.defines →
        Resolves api parsed definer name) ∧
      ∀ i e, e ∈ graph'.prerequisites i ↔ e ∈ graph.prerequisites i ∨
        ∃ j info, infos[j]? = some info ∧ i = index + j ∧
          ∃ name ∈ info.refs, name ∉ info.defines ∧ definer.lookup name = some e := by
  induction infos generalizing index graph with
  | nil =>
    cases h
    exact ⟨hlinked, by simp, by simp⟩
  | cons info infos ih =>
    obtain ⟨next, hnext, h⟩ := Result.bind_eq_ok.mp h
    obtain ⟨hlinked', hresolves, hmem⟩ := addRefs_ok hnext hlinked
    obtain ⟨hlinked'', hresolves', hmem'⟩ := ih h hlinked'
    refine ⟨hlinked'', ?_, fun i e => ?_⟩
    · intro other hother
      rcases List.mem_cons.mp hother with rfl | hother
      · exact hresolves
      · exact hresolves' other hother
    · rw [hmem', hmem, or_assoc]
      refine or_congr_right ⟨?_, ?_⟩
      · rintro (⟨rfl, hname⟩ | ⟨j, other, hj, rfl, hname⟩)
        · exact ⟨0, info, rfl, rfl, hname⟩
        · exact ⟨j + 1, other, hj, by omega, hname⟩
      · rintro ⟨j, other, hj, rfl, hname⟩
        cases j with
        | zero =>
          obtain rfl := Option.some.inj hj
          exact .inl ⟨rfl, hname⟩
        | succ j => exact .inr ⟨j, other, hj, by omega, hname⟩

theorem addAllRefs_of_resolves
    (h : ∀ info ∈ infos, ∀ name ∈ info.refs, name ∉ info.defines →
      Resolves api parsed definer name) :
    ∃ graph', addAllRefs api parsed role definer index infos graph = .ok graph' := by
  induction infos generalizing index graph with
  | nil => exact ⟨graph, rfl⟩
  | cons info infos ih =>
    obtain ⟨next, hnext⟩ := addRefs_of_resolves role index graph
      (h info List.mem_cons_self)
    rw [addAllRefs, hnext]
    exact ih fun other hother => h other (List.mem_cons_of_mem _ hother)

end Schemreg.Avro
