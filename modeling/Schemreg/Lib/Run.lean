import Mathlib.Data.List.Basic

/-
  Runs of a partial step function, and the induction rules the invariant proofs use.

  A system is a function `step : σ → ε → Option σ`: `none` says that the event is not
  enabled. `Run step P s es s'` is a run over the events `es`, every step of which meets
  the guard `P` on the state before it. The guard carries what a result assumes of the
  environment or of the schedule, so that an assumption is about single steps.

  `Run.invariant` is the rule for a state predicate, `Run.relative` the rule for a
  predicate that also sees the events so far. `exec` runs a list of events, and
  `Run.of_exec` turns a computed execution into a run.
-/

namespace Transition

variable {σ ε : Type}

/-- A run of `step` from `s` to `s'` over the events `es`, each step of which meets the
    guard `P`. -/
inductive Run (step : σ → ε → Option σ) (P : σ → ε → Prop) (s : σ) : List ε → σ → Prop where
  | nil : Run step P s [] s
  | snoc {es : List ε} {t u : σ} {e : ε} (run : Run step P s es t) (guard : P t e)
      (last : step t e = some u) : Run step P s (es ++ [e]) u

variable {step : σ → ε → Option σ} {P Q : σ → ε → Prop} {s t u : σ} {es es' : List ε} {e : ε}

theorem Run.one (guard : P s e) (last : step s e = some t) : Run step P s [e] t :=
  Run.snoc Run.nil guard last

theorem Run.trans (h : Run step P s es t) (h' : Run step P t es' u) :
    Run step P s (es ++ es') u := by
  induction h' with
  | nil => simpa using h
  | snoc _ guard last ih => rw [← List.append_assoc]; exact Run.snoc ih guard last

theorem Run.cons (guard : P s e) (first : step s e = some t) (h : Run step P t es u) :
    Run step P s (e :: es) u :=
  Run.trans (Run.one guard first) h

/-- The step of a run at which an event occurs. -/
theorem Run.split (h : Run step P s es t) (he : e ∈ es) : ∃ es₁ x y es₂,
    es = es₁ ++ e :: es₂ ∧ Run step P s es₁ x ∧ P x e ∧ step x e = some y ∧
      Run step P y es₂ t := by
  induction h with
  | nil => cases he
  | @snoc es t u e' run guard last ih =>
    rcases List.mem_append.mp he with he | he
    · obtain ⟨es₁, x, y, es₂, rfl, h₁, hP, hs, h₂⟩ := ih he
      exact ⟨es₁, x, y, es₂ ++ [e'], by simp, h₁, hP, hs, Run.snoc h₂ guard last⟩
    · have heq : e = e' := by simpa using he
      subst heq
      exact ⟨es, t, u, [], rfl, run, guard, last, Run.nil⟩

/-- A run under a guard is a run under every guard that it implies at the events of the run. -/
theorem Run.mono_mem (h : Run step P s es t) (hPQ : ∀ e ∈ es, ∀ x, P x e → Q x e) :
    Run step Q s es t := by
  induction h with
  | nil => exact Run.nil
  | snoc _ guard last ih =>
    exact Run.snoc (ih fun e he => hPQ e (List.mem_append_left _ he))
      (hPQ _ (List.mem_append_right _ List.mem_cons_self) _ guard) last

theorem Run.mono (h : Run step P s es t) (hPQ : ∀ x e, P x e → Q x e) : Run step Q s es t :=
  h.mono_mem fun e _ x => hPQ x e

/-- The invariant rule: what holds at the start and is preserved by every guarded step
    holds at the end. -/
theorem Run.invariant {I : σ → Prop} (h : Run step P s es t) (start : I s)
    (preserved : ∀ x e y, I x → P x e → step x e = some y → I y) : I t := by
  induction h with
  | nil => exact start
  | snoc _ guard last ih => exact preserved _ _ _ ih guard last

/-- The invariant rule for a predicate that also sees the events of the run. -/
theorem Run.relative {I : List ε → σ → Prop} (h : Run step P s es t) (start : I [] s)
    (preserved : ∀ es x e y, I es x → P x e → step x e = some y → I (es ++ [e]) y) : I es t := by
  induction h with
  | nil => exact start
  | snoc _ guard last ih => exact preserved _ _ _ _ ih guard last

/-- A run under two guards. -/
theorem Run.and (h : Run step P s es t) {I : σ → Prop} (start : I s)
    (preserved : ∀ x e y, I x → P x e → step x e = some y → I y)
    (hQ : ∀ x e y, I x → P x e → step x e = some y → Q x e) : Run step Q s es t := by
  have both : I t ∧ Run step Q s es t := by
    induction h with
    | nil => exact ⟨start, Run.nil⟩
    | snoc _ guard last ih =>
      exact ⟨preserved _ _ _ ih.1 guard last, Run.snoc ih.2 (hQ _ _ _ ih.1 guard last) last⟩
  exact both.2

/-- A run that leaves the guard `Q` at some step ends where such a step leads. -/
theorem Run.within_or {I : σ → Prop} (h : Run step P s es t)
    (left : ∀ x e y, P x e → ¬ Q x e → step x e = some y → I y)
    (preserved : ∀ x e y, I x → P x e → step x e = some y → I y) : Run step Q s es t ∨ I t := by
  induction h with
  | nil => exact Or.inl Run.nil
  | @snoc es t u e run guard last ih =>
    obtain ih | ih := ih
    · by_cases hQ : Q t e
      · exact Or.inl (Run.snoc ih hQ last)
      · exact Or.inr (left t e u guard hQ last)
    · exact Or.inr (preserved t e u ih guard last)

/-- The states a run without a guard reaches from `s`. -/
def Reachable (step : σ → ε → Option σ) (s t : σ) : Prop :=
  ∃ es, Run step (fun _ _ => True) s es t

theorem Reachable.refl : Reachable step s s := ⟨[], Run.nil⟩

theorem Reachable.tail (h : Reachable step s t) (last : step t e = some u) :
    Reachable step s u := by
  obtain ⟨es, hrun⟩ := h
  exact ⟨es ++ [e], Run.snoc hrun trivial last⟩

theorem Reachable.trans (h : Reachable step s t) (h' : Reachable step t u) :
    Reachable step s u := by
  obtain ⟨es, hrun⟩ := h
  obtain ⟨es', hrun'⟩ := h'
  exact ⟨es ++ es', hrun.trans hrun'⟩

theorem Run.reachable (h : Run step P s es t) : Reachable step s t :=
  ⟨es, h.mono (fun _ _ _ => trivial)⟩

/-! ## Computed executions -/

/-- Run a list of events in order. -/
def exec (step : σ → ε → Option σ) : σ → List ε → Option σ
  | s, [] => some s
  | s, e :: es => (step s e).bind fun t => exec step t es

theorem exec_append (h : exec step s es = some t) : exec step s (es ++ es') = exec step t es' := by
  induction es generalizing s with
  | nil =>
    have hst : s = t := Option.some.inj h
    rw [hst]
    rfl
  | cons e es ih =>
    cases hs : step s e with
    | none => simp [exec, hs] at h
    | some u =>
      have h' : exec step u es = some t := by simpa [exec, hs] using h
      simpa [exec, hs] using ih h'

/-- The guard holds at every step of the execution of `es` from `s`. -/
def Along (step : σ → ε → Option σ) (P : σ → ε → Prop) : σ → List ε → Prop
  | _, [] => True
  | s, e :: es => P s e ∧ ∀ t, step s e = some t → Along step P t es

theorem Run.of_exec : ∀ {es : List ε} {s t : σ}, exec step s es = some t →
    Along step P s es → Run step P s es t
  | [], s, t, h, _ => by
      have : s = t := Option.some.inj h
      subst this
      exact Run.nil
  | e :: es, s, t, h, hP => by
      cases hs : step s e with
      | none => simp [exec, hs] at h
      | some u =>
        have h' : exec step u es = some t := by simpa [exec, hs] using h
        exact Run.cons hP.1 hs (Run.of_exec h' (hP.2 u hs))

/-- A guard that the events themselves meet. -/
theorem Along.of_forall (h : ∀ e ∈ es, ∀ x, P x e) : Along step P s es := by
  induction es generalizing s with
  | nil => trivial
  | cons e es ih =>
    exact ⟨h e List.mem_cons_self s, fun t _ => ih fun e he => h e (List.mem_cons_of_mem _ he)⟩

theorem Run.of_exec_free (h : exec step s es = some t) : Run step (fun _ _ => True) s es t := by
  exact Run.of_exec h (Along.of_forall fun _ _ _ => trivial)

theorem Reachable.of_exec (h : exec step s es = some t) : Reachable step s t :=
  ⟨es, Run.of_exec_free h⟩

/-- Every step of the execution of `es` from `s` passes the check `p`. -/
def passes (step : σ → ε → Option σ) (p : σ → ε → Bool) : σ → List ε → Bool
  | _, [] => true
  | s, e :: es =>
      p s e &&
        match step s e with
        | some t => passes step p t es
        | none => true

theorem Run.of_passes {p : σ → ε → Bool} (h : exec step s es = some t)
    (hp : passes step p s es = true) : Run step (fun x e => p x e = true) s es t := by
  refine Run.of_exec h ?_
  clear h
  induction es generalizing s with
  | nil => trivial
  | cons e es ih =>
    unfold passes at hp
    obtain ⟨hfirst, hrest⟩ := Bool.and_eq_true_iff.mp hp
    refine ⟨hfirst, fun u hu => ?_⟩
    rw [hu] at hrest
    exact ih hrest

end Transition
