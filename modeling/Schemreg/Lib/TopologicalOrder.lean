import Mathlib.Data.List.Basic
import Mathlib.Data.List.Lex
import Mathlib.Data.List.Nodup
import Mathlib.Data.Set.Finite.Basic
import Mathlib.Logic.Relation
import Mathlib.Order.Bounds.Basic
import Mathlib.Order.WellFounded

/-
  Topological orders of a finite graph, and the smallest of them.

  `uses x d` says that `x` needs `d` before it. A node is ready when all that it uses is done.
  To do the smallest node that is ready, again and again, is `Greedy`.

  * `Greedy.topological`: what it has done is in order.
  * `Greedy.perm_iff_acyclic`: where it gets stuck, it has done all the nodes exactly if the
    graph has no cycle.
  * `Greedy.le_of_isOrder`: its order is the smallest, lexicographically.
-/

namespace TopologicalOrder

variable {α : Type} {nodes : List α} {uses : α → α → Prop} {done order : List α} {x d : α}

/-- Each node comes after the nodes that it uses. -/
def Topological (uses : α → α → Prop) (order : List α) : Prop :=
  ∀ before x after, order = before ++ x :: after → ∀ d, uses x d → d ∈ before

/-- A topological order of all the nodes. -/
structure IsOrder (nodes : List α) (uses : α → α → Prop) (order : List α) : Prop where
  perm : order.Perm nodes
  topological : Topological uses order

/-- The node is the next one that may be done. -/
structure Ready (nodes : List α) (uses : α → α → Prop) (done : List α) (x : α) : Prop where
  mem : x ∈ nodes
  not_done : x ∉ done
  uses_done : ∀ d, uses x d → d ∈ done

theorem topological_nil : Topological uses [] := by
  intro before x after heq
  simp at heq

theorem Topological.snoc (h : Topological uses done) (hx : ∀ d, uses x d → d ∈ done) :
    Topological uses (done ++ [x]) := by
  intro before y after heq d huses
  rcases List.eq_nil_or_concat after with rfl | ⟨rest, z, rfl⟩
  · obtain ⟨rfl, hxy⟩ := List.append_inj' heq rfl
    obtain rfl : x = y := by simpa using hxy
    exact hx d huses
  · have heq : done ++ [x] = (before ++ y :: rest) ++ [z] := by simpa using heq
    obtain ⟨rfl, -⟩ := List.append_inj' heq rfl
    exact h before y rest rfl d huses

/-- In a topological order, what follows some nodes is ready when they are done. -/
theorem IsOrder.ready {rest : List α} (h : IsOrder nodes uses (done ++ x :: rest))
    (hnodup : nodes.Nodup) : Ready nodes uses done x where
  mem := h.perm.mem_iff.mp (by simp)
  not_done hmem := by
    have hdistinct := h.perm.nodup_iff.mpr hnodup
    exact (List.nodup_append.mp hdistinct).2.2 x hmem x List.mem_cons_self rfl
  uses_done d huses := h.topological done x rest rfl d huses

/-! ## Cycles -/

/-- What an order has before a node, it has before that which uses the node. -/
theorem IsOrder.acyclic (h : IsOrder nodes uses order) (huses : ∀ x d, uses x d → x ∈ nodes)
    (hnodup : nodes.Nodup) : ∀ x, ¬ Relation.TransGen uses x x := by
  classical
  have hdistinct := h.perm.nodup_iff.mpr hnodup
  have hbefore : ∀ {x d}, uses x d → order.idxOf d < order.idxOf x := by
    intro x d hxd
    obtain ⟨before, after, hsplit⟩ :=
      List.append_of_mem (h.perm.mem_iff.mpr (huses x d hxd))
    have hd : d ∈ before := h.topological before x after hsplit d hxd
    have hx : x ∉ before := by
      intro hx
      rw [hsplit] at hdistinct
      exact (List.nodup_append.mp hdistinct).2.2 x hx x List.mem_cons_self rfl
    rw [hsplit, List.idxOf_append_of_mem hd, List.idxOf_append_of_notMem hx, List.idxOf_cons_self]
    exact List.idxOf_lt_length_of_mem hd
  have hchain : ∀ {x d}, Relation.TransGen uses x d → order.idxOf d < order.idxOf x := by
    intro x d hxd
    induction hxd with
    | single hxd => exact hbefore hxd
    | tail _ hstep ih => exact lt_trans (hbefore hstep) ih
  exact fun x hx => lt_irrefl _ (hchain hx)

/-- Without cycles, some node is ready until all are done. -/
theorem exists_ready (hacyclic : ∀ x, ¬ Relation.TransGen uses x x)
    (huses : ∀ x d, uses x d → d ∈ nodes) (hleft : ∃ x ∈ nodes, x ∉ done) :
    ∃ x, Ready nodes uses done x := by
  let below (d x : {x // x ∈ nodes}) : Prop := Relation.TransGen uses x.1 d.1
  have : Finite {x // x ∈ nodes} := List.finite_toSet nodes
  have : IsTrans {x // x ∈ nodes} below := ⟨fun _ _ _ hab hbc => hbc.trans hab⟩
  have : Std.Irrefl below := ⟨fun x => hacyclic x.1⟩
  obtain ⟨x, hx, hnot⟩ := hleft
  obtain ⟨first, hfirst, hmin⟩ := (Finite.wellFounded_of_trans_of_irrefl below).has_min
    {x | x.1 ∉ done} ⟨⟨x, hx⟩, hnot⟩
  refine ⟨first.1, first.2, hfirst, fun d hd => ?_⟩
  by_contra hd'
  exact hmin ⟨d, huses _ d hd⟩ hd' (.single hd)

/-! ## The greedy order -/

section Greedy

variable [LinearOrder α]

/-- What has been done after some turns, at each of which the smallest ready node was done. -/
inductive Greedy (nodes : List α) (uses : α → α → Prop) : List α → Prop where
  | nil : Greedy nodes uses []
  | next {done : List α} {x : α} (h : Greedy nodes uses done)
      (least : IsLeast {x | Ready nodes uses done x} x) : Greedy nodes uses (done ++ [x])

namespace Greedy

theorem nodup (h : Greedy nodes uses done) : done.Nodup := by
  induction h with
  | nil => exact List.nodup_nil
  | next _ least ih =>
    refine List.nodup_append.mpr ⟨ih, List.nodup_singleton _, ?_⟩
    rintro a ha b hb rfl
    obtain rfl := List.mem_singleton.mp hb
    exact least.1.not_done ha

theorem subset (h : Greedy nodes uses done) : ∀ x ∈ done, x ∈ nodes := by
  induction h with
  | nil => exact fun _ hx => nomatch hx
  | next _ least ih =>
    intro x hx
    rcases List.mem_append.mp hx with hx | hx
    · exact ih x hx
    · obtain rfl := List.mem_singleton.mp hx
      exact least.1.mem

theorem topological (h : Greedy nodes uses done) : Topological uses done := by
  induction h with
  | nil => exact topological_nil
  | next _ least ih => exact ih.snoc least.1.uses_done

theorem isOrder (h : Greedy nodes uses done) (hnodup : nodes.Nodup)
    (hall : ∀ x ∈ nodes, x ∈ done) : IsOrder nodes uses done :=
  ⟨(List.perm_ext_iff_of_nodup h.nodup hnodup).mpr fun x => ⟨h.subset x, hall x⟩, h.topological⟩

/-- Where no node is ready, all nodes are done exactly if there is no cycle. -/
theorem perm_iff_acyclic (h : Greedy nodes uses done) (hnodup : nodes.Nodup)
    (huses : ∀ x d, uses x d → x ∈ nodes ∧ d ∈ nodes)
    (hstuck : ∀ x, ¬ Ready nodes uses done x) :
    done.Perm nodes ↔ ∀ x, ¬ Relation.TransGen uses x x := by
  constructor
  · intro hperm
    exact IsOrder.acyclic ⟨hperm, h.topological⟩ (fun x d hxd => (huses x d hxd).1) hnodup
  · intro hacyclic
    refine (h.isOrder hnodup fun x hx => ?_).perm
    by_contra hleft
    obtain ⟨y, hy⟩ := exists_ready hacyclic (fun x d hxd => (huses x d hxd).2) ⟨x, hx, hleft⟩
    exact hstuck y hy

/-- A topological order either goes on from what is done, or is larger from some turn on. -/
theorem prefix_or_lt (h : Greedy nodes uses done) (hnodup : nodes.Nodup)
    (horder : IsOrder nodes uses order) :
    done <+: order ∨ ∀ rest, done ++ rest < order := by
  induction h with
  | nil => exact .inl (List.nil_prefix)
  | @next done x _ least ih =>
    rcases ih with ⟨rest, rfl⟩ | hlt
    · cases rest with
      | nil =>
        have hx : x ∈ done ++ [] := horder.perm.mem_iff.mpr least.1.mem
        rw [List.append_nil] at hx
        exact absurd hx least.1.not_done
      | cons y rest =>
        rcases (least.2 (horder.ready hnodup)).lt_or_eq with hlt | rfl
        · refine .inr fun more => ?_
          rw [List.append_assoc]
          exact List.append_left_lt (.rel hlt)
        · exact .inl ⟨rest, by simp⟩
    · refine .inr fun rest => ?_
      rw [List.append_assoc]
      exact hlt _

/-- The greedy order is the smallest topological order. -/
theorem le_of_isOrder (h : Greedy nodes uses done) (hnodup : nodes.Nodup)
    (hperm : done.Perm nodes) (horder : IsOrder nodes uses order) : done ≤ order := by
  rcases h.prefix_or_lt hnodup horder with hinitial | hlt
  · exact le_of_eq (hinitial.eq_of_length (hperm.length_eq.trans horder.perm.length_eq.symm))
  · have := hlt []
    rw [List.append_nil] at this
    exact le_of_lt this

end Greedy

/-- A sorted list is the smallest of its permutations. -/
theorem le_of_perm_sorted : ∀ {nodes order : List α}, nodes.Pairwise (· < ·) →
    order.Perm nodes → nodes ≤ order
  | [], order, _, hperm => by
      rw [List.perm_nil.mp hperm]
  | x :: nodes, [], _, hperm => by
      cases hperm.length_eq
  | x :: nodes, y :: order, hsorted, hperm => by
      obtain ⟨hx, hnodes⟩ := List.pairwise_cons.mp hsorted
      have hy : y ∈ x :: nodes := hperm.mem_iff.mp List.mem_cons_self
      rcases List.mem_cons.mp hy with rfl | hy
      · exact List.cons_le_cons _ (le_of_perm_sorted hnodes (List.perm_cons _ |>.mp hperm))
      · exact le_of_lt (.rel (hx y hy))

/-- Nodes that are in order are left as they are. -/
theorem Greedy.eq_of_isOrder (h : Greedy nodes uses done) (hsorted : nodes.Pairwise (· < ·))
    (hperm : done.Perm nodes) (horder : IsOrder nodes uses nodes) : done = nodes :=
  le_antisymm (h.le_of_isOrder (hsorted.imp fun hlt => ne_of_lt hlt) hperm horder)
    (le_of_perm_sorted hsorted hperm)

end Greedy

end TopologicalOrder
