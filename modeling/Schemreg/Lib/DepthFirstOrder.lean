import Schemreg.Lib.DepthFirst

/-
  The order in which a depth-first traversal leaves the nodes.

  Every node is left once (`Order.nodup`, `Order.extends`). A node is left after the nodes its
  edges lead to, except for those that are still open at that moment: the node itself and the
  nodes above it (`Order.settled`). An open node was entered before and is left later, and
  it lies on a cycle with the node that is left.
-/

namespace DepthFirst

variable {E N S ε : Type} {key : E → N} {fetch : E → Except ε S} {children : S → List E}
  {es : List E} {visited visited' : List N} {firsts : List (E × S)}

/-- The new nodes are entered behind the old ones, each by one of the first edges. -/
theorem Order.extends (h : Order key fetch children es visited firsts visited') :
    ∃ new, visited' = visited ++ new ∧ new.Perm (firsts.map fun first => key first.1) := by
  induction h with
  | nil => exact ⟨[], (List.append_nil _).symm, List.Perm.refl _⟩
  | seen _ _ ih => exact ih
  | @visit e es s visited below firsts visited₁ visited' _ _ _ _ ihInner ihRest =>
    obtain ⟨inside, hinside, hbelow⟩ := ihInner
    obtain ⟨later, hlater, hfirsts⟩ := ihRest
    refine ⟨key e :: (inside ++ later), ?_, ?_⟩
    · rw [hlater, hinside]
      simp
    · rw [List.map_append, List.map_cons]
      exact ((hbelow.append hfirsts).cons (key e)).trans List.perm_middle.symm

theorem nodup_snoc {l : List N} {n : N} (hl : l.Nodup) (new : n ∉ l) : (l ++ [n]).Nodup := by
  rw [List.nodup_append]
  refine ⟨hl, by simp, fun a ha b hb heq => ?_⟩
  rw [heq, List.mem_singleton.mp hb] at ha
  exact new ha

theorem Order.nodup (h : Order key fetch children es visited firsts visited')
    (hvisited : visited.Nodup) : visited'.Nodup := by
  induction h with
  | nil => exact hvisited
  | seen _ _ ih => exact ih hvisited
  | visit new _ _ _ ihInner ihRest => exact ihRest (ihInner (nodup_snoc hvisited new))

/-- Started with nothing visited, every node is left once. -/
theorem Order.nodup_firsts (h : Order key fetch children es [] firsts visited') :
    (firsts.map fun first => key first.1).Nodup := by
  obtain ⟨new, hnew, hperm⟩ := h.extends
  have hnodup := h.nodup List.nodup_nil
  rw [hnew, List.nil_append] at hnodup
  exact hperm.nodup_iff.mp hnodup

/-- The node that an edge `e` leads to is still open when the first edge `first` is left: it
    is left later and was entered before, and it reaches `first`. -/
structure Open (key : E → N) (fetch : E → Except ε S) (children : S → List E)
    (after : List (E × S)) (visited' : List N) (first : E) (n : N) : Prop where
  later : ∃ a ∈ after, key a.1 = n ∧ Reached fetch children (children a.2) first
  entered : [n, key first].Sublist visited'

/-- When a node is left, the nodes its edges lead to have been left or are open. -/
theorem Order.settled (h : Order key fetch children es visited firsts visited') :
    ∀ before e s after, firsts = before ++ (e, s) :: after → ∀ c ∈ children s,
      key c ∈ visited ∨ (∃ b ∈ before, key b.1 = key c) ∨ key c = key e ∨
        Open key fetch children after visited' e (key c) := by
  induction h with
  | nil =>
    intro before e s after hsplit
    exact absurd hsplit.symm (by simp)
  | seen _ _ ih => exact ih
  | @visit e₀ es s₀ visited below firsts visited₁ visited' _ _ inner rest ihInner ihRest =>
    intro before e s after hsplit c hc
    obtain ⟨later, hlater, -⟩ := rest.extends
    -- a node that was known before the inner edges were followed
    have hknown : ∀ n, n ∈ visited₁ → n ∈ visited ∨
        ∃ b ∈ below ++ [(e₀, s₀)], key b.1 = n := by
      intro n hn
      rcases inner.reaches n hn with hn | ⟨b, hb, hkey⟩
      · rcases List.mem_append.mp hn with hn | hn
        · exact Or.inl hn
        · exact Or.inr ⟨(e₀, s₀), by simp, (List.mem_singleton.mp hn).symm⟩
      · exact Or.inr ⟨b, List.mem_append_left _ hb, hkey⟩
    have hself : ∀ c ∈ children s₀, key c ∈ visited ∨ (∃ b ∈ below, key b.1 = key c) ∨
        key c = key e₀ := by
      intro c hc
      rcases inner.reaches (key c) (inner.covers c hc) with hn | hb
      · rcases List.mem_append.mp hn with hn | hn
        · exact Or.inl hn
        · exact Or.inr (Or.inr (List.mem_singleton.mp hn))
      · exact Or.inr (Or.inl hb)
    rcases List.append_eq_append_iff.mp hsplit with ⟨mid, hbefore, hrest⟩ | ⟨mid, hbelow, hrest⟩
    · cases mid with
      | nil =>
        obtain ⟨hfirst, -⟩ := List.cons.inj hrest
        cases hfirst
        rw [List.append_nil] at hbefore
        rw [hbefore]
        exact (hself c hc).imp_right (Or.imp_right Or.inl)
      | cons x mid =>
        -- a node that is left after it
        obtain ⟨rfl, hfirsts⟩ := List.cons.inj hrest
        rcases ihRest mid e s after hfirsts c hc with hn | ⟨b, hb, hkey⟩ | hself | hopen
        · rcases hknown (key c) hn with hn | ⟨b, hb, hkey⟩
          · exact Or.inl hn
          · refine Or.inr (Or.inl ⟨b, ?_, hkey⟩)
            rw [hbefore]
            rcases List.mem_append.mp hb with hb | hb
            · exact List.mem_append_left _ hb
            · rw [List.mem_singleton.mp hb]
              simp
        · exact Or.inr (Or.inl ⟨b, by rw [hbefore]; simp [hb], hkey⟩)
        · exact Or.inr (Or.inr (Or.inl hself))
        · exact Or.inr (Or.inr (Or.inr hopen))
    · cases mid with
      | nil =>
        obtain ⟨hfirst, -⟩ := List.cons.inj hrest
        cases hfirst
        rw [List.append_nil] at hbelow
        rw [← hbelow]
        exact (hself c hc).imp_right (Or.imp_right Or.inl)
      | cons x mid =>
        -- a node below it
        obtain ⟨rfl, hafter⟩ := List.cons.inj hrest
        have hbelowMem : (e, s) ∈ below := by rw [hbelow]; simp
        rcases ihInner before e s mid hbelow c hc with hn | hb | hself | hopen
        · rcases List.mem_append.mp hn with hn | hn
          · exact Or.inl hn
          · refine Or.inr (Or.inr (Or.inr ⟨⟨(e₀, s₀), by rw [hafter]; simp, ?_, ?_⟩, ?_⟩))
            · exact (List.mem_singleton.mp hn).symm
            · exact inner.reached (fun e he => Reached.root he) (e, s) hbelowMem
            · obtain ⟨inside, hinside, hperm⟩ := inner.extends
              have hmem : key e ∈ inside :=
                hperm.mem_iff.mpr (List.mem_map.mpr ⟨(e, s), hbelowMem, rfl⟩)
              rw [List.mem_singleton.mp hn, hlater, hinside]
              have hpair : [key e₀, key e].Sublist ([key e₀] ++ inside) :=
                (List.Sublist.refl [key e₀]).append (List.singleton_sublist.mpr hmem)
              rw [List.append_assoc visited]
              exact (hpair.trans (List.sublist_append_right _ _)).trans
                (List.sublist_append_left _ _)
        · exact Or.inr (Or.inl hb)
        · exact Or.inr (Or.inr (Or.inl hself))
        · obtain ⟨a, ha, hkey, hreach⟩ := hopen.later
          refine Or.inr (Or.inr (Or.inr ⟨⟨a, ?_, hkey, hreach⟩, ?_⟩))
          · rw [hafter]
            exact List.mem_append_left _ ha
          · rw [hlater]
            exact hopen.entered.trans (List.sublist_append_left _ _)

end DepthFirst
