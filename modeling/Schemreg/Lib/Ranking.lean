import Mathlib.Algebra.BigOperators.Group.Finset.Basic
import Mathlib.Algebra.GroupWithZero.Nat
import Mathlib.Algebra.Order.BigOperators.Group.List
import Schemreg.Lib.Run

/-
  Runs whose length is bounded by what the parties still have to do.

  `weight s c` is the work that party `c` has left in state `s`, and `rest s` is work that
  belongs to no party. Every step is taken by one party and leaves the weight of the others
  alone. `credit` is what an event brings into the system. When every step pays one unit,
  a run is at most as long as the credit it was given (`Run.length_le_credit`).
-/

namespace Transition

variable {σ ε ι : Type} {step : σ → ε → Option σ} {P : σ → ε → Prop}
  {s t u : σ} {e : ε} {es : List ε}

/-- What the parties of `B` have left. -/
def work (weight : σ → ι → Nat) (B : Finset ι) (s : σ) : Nat := ∑ c ∈ B, weight s c

variable {weight : σ → ι → Nat} {rest : σ → Nat} {B : Finset ι} {c : ι}

theorem work_of_idle (h : ∀ c, weight s c = 0) : work weight B s = 0 :=
  Finset.sum_eq_zero fun c _ => h c

variable [DecidableEq ι]

/-- A party that has nothing to do may be counted. -/
theorem work_insert (idle : c ∉ B → weight s c = 0) :
    work weight (insert c B) s = work weight B s := by
  unfold work
  by_cases hc : c ∈ B
  · rw [Finset.insert_eq_of_mem hc]
  · rw [Finset.sum_insert hc, idle hc, Nat.zero_add]

/-- A step changes the work of the party that takes it. -/
theorem work_step (weight : σ → ι → Nat) (hc : c ∈ B) (frame : ∀ d, d ≠ c → weight t d = weight s d) :
    work weight B t + weight s c = work weight B s + weight t c := by
  have hother : ∑ d ∈ B.erase c, weight t d = ∑ d ∈ B.erase c, weight s d :=
    Finset.sum_congr rfl fun d hd => frame d (Finset.ne_of_mem_erase hd)
  have hs : weight s c + ∑ d ∈ B.erase c, weight s d = work weight B s := Finset.add_sum_erase B _ hc
  have ht : weight t c + ∑ d ∈ B.erase c, weight t d = work weight B t := Finset.add_sum_erase B _ hc
  omega

/-- The parties that take a step in a run. -/
def parties (party : ε → ι) (es : List ε) : Finset ι := (es.map party).toFinset

theorem parties_snoc (party : ε → ι) (es : List ε) (e : ε) :
    parties party (es ++ [e]) = insert (party e) (parties party es) := by
  ext c
  simp [parties]

/-- Every step of a run is paid for, by the party that takes it or by the credit of the
    event. -/
theorem Run.length_le_credit (weight : σ → ι → Nat) (rest : σ → Nat) (party : ε → ι)
    (credit : ε → Nat) (h : Run step P s es t)
    (start : ∀ c, weight s c = 0)
    (frame : ∀ x e y, step x e = some y → ∀ d, d ≠ party e → weight y d = weight x d)
    (pays : ∀ x e y, P x e → step x e = some y →
      weight y (party e) + rest y + 1 ≤ weight x (party e) + rest x + credit e) :
    es.length + work weight (parties party es) t + rest t ≤ rest s + (es.map credit).sum := by
  have both : (∀ c, c ∉ parties party es → weight t c = 0) ∧
      es.length + work weight (parties party es) t + rest t ≤ rest s + (es.map credit).sum := by
    induction h with
    | nil =>
      refine ⟨fun c _ => start c, ?_⟩
      rw [work_of_idle start]
      show 0 + 0 + rest s ≤ rest s + 0
      omega
    | @snoc es x y e run guard last ih =>
      obtain ⟨hidle, hle⟩ := ih
      rw [parties_snoc]
      constructor
      · intro c hc
        have hne : c ≠ party e := fun h => hc (h ▸ Finset.mem_insert_self _ _)
        rw [frame x e y last c hne]
        exact hidle c fun h => hc (Finset.mem_insert_of_mem h)
      · have hmoved := work_step weight
          (Finset.mem_insert_self (party e) (parties party es)) (frame x e y last)
        rw [work_insert (hidle (party e))] at hmoved
        have hpaid := pays x e y guard last
        have hcredit : ((es ++ [e]).map credit).sum = (es.map credit).sum + credit e := by
          rw [List.map_append, List.sum_append_nat]
          rfl
        rw [hcredit, List.length_append, List.length_singleton]
        omega
  exact both.2

end Transition
