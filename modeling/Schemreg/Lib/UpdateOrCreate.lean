import Mathlib.Logic.Function.Basic
import Schemreg.Lib.Run

/-
  Callers that update a value, and create it where there is none.

  A caller first updates; if there is nothing to update, it creates, which is refused if there
  is something by then. Both are atomic, and callers interleave between them. A step races if
  an update finds nothing while another caller is about to create.

  * `Orderly`: without races at most one caller creates, and nobody is refused.
  * `Contended`: after a race somebody is bound to be refused, whatever happens.
  * `Offered`: once anybody has succeeded, what is there is what one of the callers has offered.
-/

namespace UpdateOrCreate

open Transition

/-- What a caller is about to do, or how it has ended. -/
inductive Phase where
  | updating
  | creating
  | succeeded
  | conflicted
  deriving DecidableEq, Repr

structure State (ι α : Type) where
  value : Option α
  phase : ι → Phase

variable {ι α : Type} [DecidableEq ι] {offered : ι → α} {s t : State ι α} {i j : ι}
  {es : List ι} {initial : Option α}

/-- The caller `i` has gone on, and has left a value. -/
def State.move (s : State ι α) (i : ι) (phase : Phase) (value : Option α) : State ι α :=
  ⟨value, Function.update s.phase i phase⟩

/-- The next request of a caller. -/
def step (offered : ι → α) (s : State ι α) (i : ι) : Option (State ι α) :=
  match s.phase i, s.value with
  | .updating, some _ => some (s.move i .succeeded (some (offered i)))
  | .updating, none => some (s.move i .creating none)
  | .creating, none => some (s.move i .succeeded (some (offered i)))
  | .creating, some value => some (s.move i .conflicted (some value))
  | .succeeded, _ => none
  | .conflicted, _ => none

def start (initial : Option α) : State ι α := ⟨initial, fun _ => .updating⟩

/-- The caller finds nothing to update while another one is about to create. -/
def Races (s : State ι α) (i : ι) : Prop :=
  s.phase i = .updating ∧ s.value = none ∧ ∃ j, s.phase j = .creating

def Finished (s : State ι α) : Prop := ∀ i, s.phase i = .succeeded ∨ s.phase i = .conflicted

@[simp] theorem move_value {phase : Phase} {value : Option α} :
    (s.move i phase value).value = value := rfl

@[simp] theorem move_self {phase : Phase} {value : Option α} :
    (s.move i phase value).phase i = phase := Function.update_self ..

theorem move_of_ne {phase : Phase} {value : Option α} (h : j ≠ i) :
    (s.move i phase value).phase j = s.phase j := Function.update_of_ne h ..

/-- A caller is in the phase that it has gone on to, or is another one. -/
theorem phase_move {phase p : Phase} {value : Option α} (h : (s.move i phase value).phase j = p) :
    (j = i ∧ phase = p) ∨ (j ≠ i ∧ s.phase j = p) := by
  by_cases hji : j = i
  · rw [hji, move_self] at h
    exact Or.inl ⟨hji, h⟩
  · rw [move_of_ne hji] at h
    exact Or.inr ⟨hji, h⟩

/-- Everything a step can do. -/
theorem step_cases (h : step offered s i = some t) :
    (s.phase i = .updating ∧ s.value ≠ none ∧ t = s.move i .succeeded (some (offered i))) ∨
    (s.phase i = .updating ∧ s.value = none ∧ t = s.move i .creating none) ∨
    (s.phase i = .creating ∧ s.value = none ∧ t = s.move i .succeeded (some (offered i))) ∨
    (s.phase i = .creating ∧ ∃ value, s.value = some value ∧
      t = s.move i .conflicted (some value)) := by
  unfold step at h
  split at h
  · rename_i hphase hvalue
    exact Or.inl ⟨hphase, by rw [hvalue]; simp, (Option.some.inj h).symm⟩
  · rename_i hphase hvalue
    exact Or.inr (Or.inl ⟨hphase, hvalue, (Option.some.inj h).symm⟩)
  · rename_i hphase hvalue
    exact Or.inr (Or.inr (Or.inl ⟨hphase, hvalue, (Option.some.inj h).symm⟩))
  · rename_i value hphase hvalue
    exact Or.inr (Or.inr (Or.inr ⟨hphase, value, hvalue, (Option.some.inj h).symm⟩))
  · cases h
  · cases h

/-! ## Without races -/

/-- At most one caller is about to create, there is nothing yet if there is one, and nobody has
    been refused. -/
structure Orderly (s : State ι α) : Prop where
  accepted : ∀ i, s.phase i ≠ .conflicted
  absent : ∀ i, s.phase i = .creating → s.value = none
  alone : ∀ i j, s.phase i = .creating → s.phase j = .creating → i = j

omit [DecidableEq ι] in
theorem orderly_start : Orderly (start initial : State ι α) where
  accepted _ h := by cases h
  absent _ h := by cases h
  alone _ _ h := by cases h

/-- A caller that succeeds where nobody else is about to create. -/
theorem orderly_succeed {value : Option α} (h : Orderly s)
    (hcreating : ∀ j, s.phase j = .creating → j = i) : Orderly (s.move i .succeeded value) := by
  have hnone : ∀ j, (s.move i .succeeded value).phase j ≠ .creating := by
    intro j hj
    obtain ⟨-, hphase⟩ | ⟨hji, hj⟩ := phase_move hj
    · cases hphase
    · exact hji (hcreating j hj)
  refine ⟨fun j hj => ?_, fun j hj => absurd hj (hnone j), fun j k hj => absurd hj (hnone j)⟩
  obtain ⟨-, hphase⟩ | ⟨-, hj⟩ := phase_move hj
  · cases hphase
  · exact h.accepted j hj

theorem step_orderly (h : Orderly s) (hrace : ¬ Races s i) (hs : step offered s i = some t) :
    Orderly t := by
  obtain ⟨hi, hvalue, rfl⟩ | ⟨hi, hvalue, rfl⟩ | ⟨hi, hvalue, rfl⟩ | ⟨hi, value, hvalue, rfl⟩ :=
    step_cases hs
  · exact orderly_succeed h fun j hj => absurd (h.absent j hj) hvalue
  · have hnone : ∀ j, s.phase j ≠ .creating := fun j hj => hrace ⟨hi, hvalue, j, hj⟩
    have honly : ∀ j, (s.move i .creating none).phase j = .creating → j = i := by
      intro j hj
      obtain ⟨hji, -⟩ | ⟨-, hj⟩ := phase_move hj
      · exact hji
      · exact absurd hj (hnone j)
    refine ⟨fun j hj => ?_, fun _ _ => rfl, fun j k hj hk => (honly j hj).trans (honly k hk).symm⟩
    obtain ⟨-, hphase⟩ | ⟨-, hj⟩ := phase_move hj
    · cases hphase
    · exact h.accepted j hj
  · exact orderly_succeed h fun j hj => h.alone j i hj hi
  · rw [h.absent i hi] at hvalue
    cases hvalue

/-! ## After a race -/

/-- Somebody has been refused, or two callers are left of which one will be. -/
inductive Contended (s : State ι α) : Prop where
  | refused (i : ι) (conflicted : s.phase i = .conflicted)
  | late (i : ι) (creating : s.phase i = .creating) (present : s.value ≠ none)
  | both (i j : ι) (distinct : i ≠ j) (creating : s.phase i = .creating)
      (creating' : s.phase j = .creating)

theorem contended_of_races (hrace : Races s i) (hs : step offered s i = some t) : Contended t := by
  obtain ⟨hi, hnone, j, hj⟩ := hrace
  have hji : j ≠ i := by
    rintro rfl
    rw [hi] at hj
    cases hj
  have ht : t = s.move i .creating none := by
    unfold step at hs
    rw [hi, hnone] at hs
    exact (Option.some.inj hs).symm
  subst ht
  exact .both i j hji.symm move_self ((move_of_ne hji).trans hj)

/-- What is there is replaced, and never removed. -/
theorem step_present (hs : step offered s i = some t) (h : s.value ≠ none) : t.value ≠ none := by
  obtain ⟨-, -, rfl⟩ | ⟨-, hvalue, -⟩ | ⟨-, hvalue, -⟩ | ⟨-, value, -, rfl⟩ := step_cases hs
  · exact Option.some_ne_none _
  · exact absurd hvalue h
  · exact absurd hvalue h
  · exact Option.some_ne_none _

/-- Another caller stays where it is. -/
theorem step_other (hs : step offered s i = some t) (h : j ≠ i) : t.phase j = s.phase j := by
  obtain ⟨-, -, rfl⟩ | ⟨-, -, rfl⟩ | ⟨-, -, rfl⟩ | ⟨-, value, -, rfl⟩ := step_cases hs
  all_goals exact move_of_ne h

/-- The end of a caller that is about to create. -/
theorem step_creating (hs : step offered s i = some t) (hi : s.phase i = .creating) :
    t.value ≠ none ∧ (s.value ≠ none → t.phase i = .conflicted) := by
  obtain ⟨h, -, -⟩ | ⟨h, -, -⟩ | ⟨-, hvalue, rfl⟩ | ⟨-, value, -, rfl⟩ := step_cases hs
  · rw [hi] at h
    cases h
  · rw [hi] at h
    cases h
  · exact ⟨Option.some_ne_none _, fun h => absurd hvalue h⟩
  · exact ⟨Option.some_ne_none _, fun _ => move_self⟩

theorem step_contended (h : Contended s) (hs : step offered s i = some t) : Contended t := by
  -- of two callers about to create, the other one is late if the first goes on
  have hboth : ∀ j, i ≠ j → s.phase i = .creating → s.phase j = .creating → Contended t :=
    fun j hij hi hj => .late j ((step_other hs hij.symm).trans hj) (step_creating hs hi).1
  cases h with
  | refused j hj =>
    have hji : j ≠ i := by
      rintro rfl
      unfold step at hs
      rw [hj] at hs
      cases hs
    exact .refused j ((step_other hs hji).trans hj)
  | late j hj hpresent =>
    by_cases hji : j = i
    · subst hji
      exact .refused j ((step_creating hs hj).2 hpresent)
    · exact .late j ((step_other hs hji).trans hj) (step_present hs hpresent)
  | both j k hjk hj hk =>
    by_cases hij : i = j
    · subst hij
      exact hboth k hjk hj hk
    by_cases hik : i = k
    · subst hik
      exact hboth j hij hk hj
    · exact .both j k hjk ((step_other hs (Ne.symm hij)).trans hj)
        ((step_other hs (Ne.symm hik)).trans hk)

omit [DecidableEq ι] in
theorem refused_of_contended (h : Contended s) (hfinished : Finished s) :
    ∃ i, s.phase i = .conflicted := by
  have hcreating : ∀ i, s.phase i ≠ .creating := by
    intro i hi
    obtain h | h := hfinished i
    · rw [hi] at h
      cases h
    · rw [hi] at h
      cases h
  cases h with
  | refused i hi => exact ⟨i, hi⟩
  | late i hi => exact absurd hi (hcreating i)
  | both i j _ hi => exact absurd hi (hcreating i)

/-! ## The value -/

/-- Once anybody has succeeded, what is there is what somebody has offered. -/
def Offered (offered : ι → α) (s : State ι α) : Prop :=
  (∃ i, s.phase i = .succeeded) → ∃ j, s.value = some (offered j)

omit [DecidableEq ι] in
theorem offered_start : Offered offered (start initial) :=
  fun ⟨_, h⟩ => by cases h

theorem step_offered (h : Offered offered s) (hs : step offered s i = some t) :
    Offered offered t := by
  have hbefore : ∀ phase value, phase ≠ .succeeded →
      (∃ j, (s.move i phase value).phase j = .succeeded) → ∃ j, s.phase j = .succeeded := by
    rintro phase value hphase ⟨j, hj⟩
    obtain ⟨-, hj⟩ | ⟨-, hj⟩ := phase_move hj
    · exact absurd hj hphase
    · exact ⟨j, hj⟩
  intro hsome
  obtain ⟨-, -, rfl⟩ | ⟨-, hvalue, rfl⟩ | ⟨-, -, rfl⟩ | ⟨-, value, hvalue, rfl⟩ := step_cases hs
  · exact ⟨i, rfl⟩
  · obtain ⟨j, hj⟩ := h (hbefore .creating none nofun hsome)
    rw [hvalue] at hj
    cases hj
  · exact ⟨i, rfl⟩
  · obtain ⟨j, hj⟩ := h (hbefore .conflicted (some value) nofun hsome)
    exact ⟨j, hvalue.symm.trans hj⟩

/-! ## The end -/

/-- How many requests a caller has still to make, at most. -/
def Phase.remaining : Phase → Nat
  | .updating => 2
  | .creating => 1
  | .succeeded => 0
  | .conflicted => 0

theorem step_remaining (hs : step offered s i = some t) :
    (t.phase i).remaining < (s.phase i).remaining := by
  obtain ⟨hi, -, rfl⟩ | ⟨hi, -, rfl⟩ | ⟨hi, -, rfl⟩ | ⟨hi, value, -, rfl⟩ := step_cases hs
  all_goals
    rw [hi, move_self]
    decide

/-- What a caller has made and what it has still to make are two requests, at most. -/
theorem count_remaining {P : State ι α → ι → Prop}
    (h : Run (step offered) P (start initial) es t) (i : ι) :
    es.count i + (t.phase i).remaining ≤ 2 := by
  refine h.relative (I := fun es t => es.count i + (t.phase i).remaining ≤ 2) (Nat.le_refl 2) ?_
  intro es x j y hx _ hs
  rw [List.count_append, List.count_singleton]
  by_cases hji : j = i
  · subst hji
    have hless := step_remaining hs
    simp only [beq_self_eq_true, if_true]
    omega
  · rw [step_other hs (Ne.symm hji)]
    simpa [hji] using hx

end UpdateOrCreate
