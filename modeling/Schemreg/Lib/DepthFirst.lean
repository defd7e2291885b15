import Mathlib.Data.List.Basic

/-
  Depth-first traversal of a graph with a shared visited set.

  The graph is given by its edges: `key e` is the node an edge leads to, `fetch e` looks the
  node up and may fail, `children s` are the edges that leave a node. `walk` follows a list
  of edges in order and visits every node once. On entering a node it checks what has been
  collected so far (`check`), on leaving it the node is collected (`leave`); both may fail,
  and the walk stops at the first failure. The depth of the recursion is bounded by the
  levels that are left.

  `Order` is the order of the traversal by itself: the edges by which the nodes are
  reached first, in the order in which the nodes are left. A walk that succeeds follows it
  and collects along it (`walk_ok`), and it leaves no edge of a visited node unvisited
  (`Order.complete`).
-/

namespace DepthFirst

variable {E N S O ε : Type}

/-! ## The order -/

section Definitions

variable (key : E → N) (fetch : E → Except ε S) (children : S → List E)

/-- The traversal itself. `Order es visited firsts visited'`: following `es` when `visited`
    has been entered enters `visited'`, and `firsts` are the edges by which the new nodes are
    reached, with the nodes, in the order in which the nodes are left. -/
inductive Order : List E → List N → List (E × S) → List N → Prop where
  | nil {visited} : Order [] visited [] visited
  | seen {e es visited firsts visited'} (old : key e ∈ visited)
      (rest : Order es visited firsts visited') : Order (e :: es) visited firsts visited'
  | visit {e es s visited below firsts visited₁ visited'} (new : key e ∉ visited)
      (found : fetch e = .ok s) (inner : Order (children s) (visited ++ [key e]) below visited₁)
      (rest : Order es visited₁ firsts visited') :
      Order (e :: es) visited (below ++ (e, s) :: firsts) visited'

/-- The edges that can be reached from a list of edges. -/
inductive Reached (roots : List E) : E → Prop where
  | root {e} (mem : e ∈ roots) : Reached roots e
  | child {e s c} (reached : Reached roots e) (found : fetch e = .ok s) (mem : c ∈ children s) :
      Reached roots c

end Definitions

variable {key : E → N} {fetch : E → Except ε S} {children : S → List E}

section Order

variable {es : List E} {visited visited' : List N} {firsts : List (E × S)}

/-- A node without edges of its own. -/
theorem Order.leaf {e : E} {s : S} (new : key e ∉ visited) (found : fetch e = .ok s)
    (none : children s = [])
    (rest : Order key fetch children es (visited ++ [key e]) firsts visited') :
    Order key fetch children (e :: es) visited ((e, s) :: firsts) visited' := by
  have inner : Order key fetch children (children s) (visited ++ [key e]) []
      (visited ++ [key e]) := by
    rw [none]
    exact Order.nil
  exact Order.visit new found inner rest

/-- There is one order. -/
theorem Order.unique (h : Order key fetch children es visited firsts visited') :
    ∀ {other visited''}, Order key fetch children es visited other visited'' →
      other = firsts ∧ visited'' = visited' := by
  induction h with
  | nil =>
    intro other visited'' h'
    cases h'
    exact ⟨rfl, rfl⟩
  | seen old rest ih =>
    intro other visited'' h'
    cases h' with
    | seen _ rest' => exact ih rest'
    | visit new => exact absurd old new
  | visit new found inner rest ihInner ihRest =>
    intro other visited'' h'
    cases h' with
    | seen old => exact absurd old new
    | visit _ found' inner' rest' =>
      rw [found] at found'
      cases found'
      obtain ⟨rfl, rfl⟩ := ihInner inner'
      obtain ⟨rfl, rfl⟩ := ihRest rest'
      exact ⟨rfl, rfl⟩

/-- Nothing that has been entered is forgotten. -/
theorem Order.grows (h : Order key fetch children es visited firsts visited') :
    visited ⊆ visited' := by
  induction h with
  | nil => exact List.Subset.refl _
  | seen _ _ ih => exact ih
  | visit _ _ _ _ ihInner ihRest =>
    exact List.Subset.trans (List.Subset.trans (List.subset_append_left _ _) ihInner) ihRest

/-- The edges that are followed lead to visited nodes. -/
theorem Order.covers (h : Order key fetch children es visited firsts visited') :
    ∀ e ∈ es, key e ∈ visited' := by
  induction h with
  | nil => intro e he; cases he
  | seen old rest ih =>
    intro e he
    rcases List.mem_cons.mp he with rfl | he
    · exact rest.grows old
    · exact ih e he
  | visit _ _ inner rest _ ihRest =>
    intro e he
    rcases List.mem_cons.mp he with rfl | he
    · exact rest.grows (inner.grows (by simp))
    · exact ihRest e he

/-- The edges by which new nodes are reached: each leads to a node that was not entered
    before, was fetched, and has all its own edges followed. -/
theorem Order.found (h : Order key fetch children es visited firsts visited') :
    ∀ first ∈ firsts, fetch first.1 = .ok first.2 ∧
      ∀ c ∈ children first.2, key c ∈ visited' := by
  induction h with
  | nil => intro first hf; cases hf
  | seen _ _ ih => exact ih
  | visit _ found inner rest ihInner ihRest =>
    intro first hf
    rcases List.mem_append.mp hf with hf | hf
    · obtain ⟨hfetch, hchildren⟩ := ihInner first hf
      exact ⟨hfetch, fun c hc => rest.grows (hchildren c hc)⟩
    · rcases List.mem_cons.mp hf with rfl | hf
      · exact ⟨found, fun c hc => rest.grows (inner.covers c hc)⟩
      · exact ihRest first hf

/-- Every new node is reached by one of these edges. -/
theorem Order.reaches (h : Order key fetch children es visited firsts visited') :
    ∀ n ∈ visited', n ∈ visited ∨ ∃ first ∈ firsts, key first.1 = n := by
  induction h with
  | nil => exact fun n hn => Or.inl hn
  | seen _ _ ih => exact ih
  | @visit e es s visited below firsts visited₁ visited' _ _ _ _ ihInner ihRest =>
    intro n hn
    rcases ihRest n hn with hn | ⟨first, hf, hkey⟩
    · rcases ihInner n hn with hn | ⟨first, hf, hkey⟩
      · rcases List.mem_append.mp hn with hn | hn
        · exact Or.inl hn
        · exact Or.inr ⟨(e, s), by simp, (List.mem_singleton.mp hn).symm⟩
      · exact Or.inr ⟨first, List.mem_append_left _ hf, hkey⟩
    · exact Or.inr ⟨first, by simp [hf], hkey⟩

/-- The edges by which new nodes are reached are edges of the graph. -/
theorem Order.reached {roots : List E} (h : Order key fetch children es visited firsts visited')
    (hes : ∀ e ∈ es, Reached fetch children roots e) :
    ∀ first ∈ firsts, Reached fetch children roots first.1 := by
  induction h with
  | nil => intro first hf; cases hf
  | seen _ _ ih => exact ih fun e he => hes e (List.mem_cons_of_mem _ he)
  | @visit e es s _ _ _ _ _ _ found _ _ ihInner ihRest =>
    have he : Reached fetch children roots e := hes e List.mem_cons_self
    intro first hf
    rcases List.mem_append.mp hf with hf | hf
    · exact ihInner (fun c hc => Reached.child he found hc) first hf
    · rcases List.mem_cons.mp hf with rfl | hf
      · exact he
      · exact ihRest (fun e he => hes e (List.mem_cons_of_mem _ he)) first hf

/-- Started with nothing visited, the order misses no edge: every edge that can be reached
    leads to a node that one of the first edges leads to. -/
theorem Order.complete (hkey : ∀ e e', key e = key e' → fetch e = fetch e')
    (h : Order key fetch children es [] firsts visited') {e : E}
    (hreached : Reached fetch children es e) : ∃ first ∈ firsts, key first.1 = key e := by
  have hvisited : ∀ {n}, n ∈ visited' → ∃ first ∈ firsts, key first.1 = n := by
    intro n hn
    exact (h.reaches n hn).resolve_left (by simp)
  apply hvisited
  induction hreached with
  | root mem => exact h.covers _ mem
  | child _ found mem ih =>
    obtain ⟨first, hf, hsame⟩ := hvisited ih
    obtain ⟨hfetch, hchildren⟩ := h.found first hf
    rw [hkey _ _ hsame, found] at hfetch
    cases hfetch
    exact hchildren _ mem

end Order

/-! ## The walk -/

/-- What a walk has done so far: the nodes it has entered, the fetches it has made (both in
    order), and what it has collected. -/
structure Walk (N O : Type) where
  visited : List N
  requested : List N
  out : O
  deriving DecidableEq

variable [DecidableEq N]

section Definitions

variable (key : E → N) (fetch : E → Except ε S) (children : S → List E)
  (check : O → Except ε Unit) (leave : E → S → O → Except ε O) (tooDeep : ε)

/-- Follow the edges of one node in order; `descend` follows those of the next level. -/
def each (descend : List E → Walk N O → Except ε Unit × Walk N O) :
    List E → Walk N O → Except ε Unit × Walk N O
  | [], w => (.ok (), w)
  | e :: es, w =>
    if key e ∈ w.visited then each descend es w
    else
      let entered := { w with visited := w.visited ++ [key e] }
      match check entered.out with
      | .error err => (.error err, entered)
      | .ok () =>
        let asked := { entered with requested := entered.requested ++ [key e] }
        match fetch e with
        | .error err => (.error err, asked)
        | .ok s =>
          match descend (children s) asked with
          | (.error err, below) => (.error err, below)
          | (.ok (), below) =>
            match leave e s below.out with
            | .error err => (.error err, below)
            | .ok out => each descend es { below with out := out }

/-- Follow a list of edges with so many levels left. -/
def walk : Nat → List E → Walk N O → Except ε Unit × Walk N O
  | 0, es, w => if es.isEmpty then (.ok (), w) else (.error tooDeep, w)
  | levels + 1, es, w => each key fetch children check leave (walk levels) es w

end Definitions

variable {check : O → Except ε Unit} {leave : E → S → O → Except ε O} {tooDeep : ε}

/-- Collecting along a list of edges. -/
def collect (leave : E → S → O → Except ε O) (firsts : List (E × S)) (out : O) : Except ε O :=
  firsts.foldlM (fun out first => leave first.1 first.2 out) out

theorem collect_append (firsts firsts' : List (E × S)) (out : O) :
    collect leave (firsts ++ firsts') out =
      (collect leave firsts out >>= fun out => collect leave firsts' out) :=
  List.foldlM_append

theorem collect_cons (e : E) (s : S) (firsts : List (E × S)) (out : O) :
    collect leave ((e, s) :: firsts) out = (leave e s out >>= fun out => collect leave firsts out) :=
  List.foldlM_cons

/-- What a successful walk does: it follows the order and collects along it. -/
def Follows (key : E → N) (fetch : E → Except ε S) (children : S → List E)
    (leave : E → S → O → Except ε O) (es : List E) (w w' : Walk N O) : Prop :=
  ∃ firsts, Order key fetch children es w.visited firsts w'.visited ∧
    collect leave firsts w.out = .ok w'.out

theorem each_ok {descend : List E → Walk N O → Except ε Unit × Walk N O}
    (hdescend : ∀ es w w', descend es w = (.ok (), w') → Follows key fetch children leave es w w') :
    ∀ {es : List E} {w w' : Walk N O},
      each key fetch children check leave descend es w = (.ok (), w') →
      Follows key fetch children leave es w w'
  | [], w, w', h => by
      have heq : w = w' := (Prod.mk.inj h).2
      exact ⟨[], heq ▸ Order.nil, heq ▸ rfl⟩
  | e :: es, w, w', h => by
      unfold each at h
      split at h
      · rename_i old
        obtain ⟨firsts, horder, hout⟩ := each_ok hdescend h
        exact ⟨firsts, Order.seen old horder, hout⟩
      · rename_i new
        dsimp only at h
        split at h
        · cases h
        · split at h
          · cases h
          · rename_i s hfetch
            split at h
            · cases h
            · rename_i below hbelow
              split at h
              · cases h
              · rename_i out hleave
                obtain ⟨inner, hinner, hin⟩ := hdescend _ _ _ hbelow
                obtain ⟨firsts, horder, hout⟩ := each_ok hdescend h
                refine ⟨inner ++ (e, s) :: firsts, Order.visit new hfetch hinner horder, ?_⟩
                rw [collect_append, hin]
                show collect leave ((e, s) :: firsts) below.out = .ok w'.out
                rw [collect_cons, hleave]
                exact hout

/-- A walk that succeeds follows the depth-first order and collects along it. -/
theorem walk_ok : ∀ {levels : Nat} {es : List E} {w w' : Walk N O},
    walk key fetch children check leave tooDeep levels es w = (.ok (), w') →
    Follows key fetch children leave es w w'
  | 0, es, w, w', h => by
      unfold walk at h
      split at h
      · rename_i hempty
        have heq : w = w' := (Prod.mk.inj h).2
        rw [List.isEmpty_iff.mp hempty]
        exact ⟨[], heq ▸ Order.nil, heq ▸ rfl⟩
      · cases h
  | levels + 1, es, w, w', h =>
      each_ok (fun _ _ _ hbelow => walk_ok hbelow) h

end DepthFirst
