import Mathlib.Data.List.Nodup

/-
  Exclusive ownership.

  `place i` lists the items that owner `i` holds. `Exclusive place` says that every item
  is held by at most one owner, and at most once. Items move between owners; one rule,
  `Exclusive.transfer`, covers every move: what an owner holds afterwards it either kept,
  or it is the receiver and got it from an owner that gave it up.
-/

namespace Ownership

variable {ι α : Type}

/-- Every item has at most one owner, which holds it once. -/
structure Exclusive (place : ι → List α) : Prop where
  once : ∀ i, (place i).Nodup
  unique : ∀ i j a, a ∈ place i → a ∈ place j → i = j

theorem Exclusive.empty : Exclusive fun _ : ι => ([] : List α) :=
  ⟨fun _ => List.nodup_nil, fun _ _ _ h => absurd h (by simp)⟩

/-- The transfer rule. `kept i a` says that owner `i` keeps item `a`; the items that are
    given up all go to owner `j`. -/
theorem Exclusive.transfer {place place' : ι → List α} (h : Exclusive place)
    (kept : ι → α → Prop) (j : ι) (once : ∀ i, (place' i).Nodup)
    (source : ∀ i a, a ∈ place' i →
      (a ∈ place i ∧ kept i a) ∨ (i = j ∧ ∃ i₀, a ∈ place i₀ ∧ ¬ kept i₀ a)) :
    Exclusive place' := by
  refine ⟨once, ?_⟩
  intro i₁ i₂ a h₁ h₂
  rcases source i₁ a h₁ with ⟨m₁, k₁⟩ | ⟨rfl, o₁, m₁, k₁⟩
  · rcases source i₂ a h₂ with ⟨m₂, _⟩ | ⟨rfl, o₂, m₂, k₂⟩
    · exact h.unique i₁ i₂ a m₁ m₂
    · have : i₁ = o₂ := h.unique i₁ o₂ a m₁ m₂
      subst this
      exact absurd k₁ k₂
  · rcases source i₂ a h₂ with ⟨m₂, k₂⟩ | ⟨rfl, _⟩
    · have : o₁ = i₂ := h.unique o₁ i₂ a m₁ m₂
      subst this
      exact absurd k₂ k₁
    · rfl

/-- A new item goes to one owner. -/
theorem Exclusive.acquire {place place' : ι → List α} (h : Exclusive place) (j : ι) (b : α)
    (fresh : ∀ i, b ∉ place i) (gets : place' j = place j ++ [b])
    (rest : ∀ i, i ≠ j → place' i = place i) : Exclusive place' := by
  have source : ∀ i a, a ∈ place' i → a ∈ place i ∨ (i = j ∧ a = b) := by
    intro i a ha
    by_cases hij : i = j
    · subst hij
      rw [gets] at ha
      simpa using ha
    · exact Or.inl (rest i hij ▸ ha)
  refine ⟨fun i => ?_, fun i₁ i₂ a h₁ h₂ => ?_⟩
  · by_cases hij : i = j
    · subst hij
      rw [gets]
      exact List.Nodup.append (h.once i) (by simp) (by simpa using fresh i)
    · rw [rest i hij]
      exact h.once i
  · rcases source i₁ a h₁ with m₁ | ⟨rfl, rfl⟩
    · rcases source i₂ a h₂ with m₂ | ⟨rfl, rfl⟩
      · exact h.unique i₁ i₂ a m₁ m₂
      · exact absurd m₁ (fresh i₁)
    · rcases source i₂ a h₂ with m₂ | ⟨rfl, _⟩
      · exact absurd m₂ (fresh i₂)
      · rfl

end Ownership
