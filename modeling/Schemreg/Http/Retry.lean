import Schemreg.Http
import Schemreg.Lib.Retry

/-
  The retry loop over a network that loses answers.

  Whatever the client is told of a lost attempt, the loop goes on: an error, or a status that
  warrants a retry. Within the budget of the policy it comes to the attempt that is answered
  (`request_attempt`).
-/

namespace Schemreg.HttpClient

open Retry

/-- An attempt that was lost, as the client sees it: 429, a server error, or no answer. -/
def Lost (loss : Loss (Result HttpResponse)) : Prop :=
  match loss.told with
  | .ok resp => isRetryableStatus resp.status = true
  | .error _ => True

/-- The losses are within the policy's budget. -/
structure WithinBudget (maxRetries : Nat) (losses : List (Loss (Result HttpResponse))) : Prop where
  length_le : losses.length ≤ maxRetries
  lost : ∀ loss ∈ losses, Lost loss

variable {Req σ : Type} (apply : Req → σ → HttpResponse × σ)

/-- All the attempts of one request. -/
def exchange (maxRetries : Nat) : Program.Exchange Req HttpResponse σ SchemaRegError :=
  fun req losses s =>
    let (answer, (s, _)) := request (attempt apply req) maxRetries (s, losses)
    (answer, s)

variable {apply} {req : Req} {losses : List (Loss (Result HttpResponse))} {maxRetries : Nat}

theorem request_attempt (hanswers : ∀ s, isRetryableStatus (apply req s).1.status = false)
    (h : WithinBudget maxRetries losses) (s : σ) :
    request (attempt apply req) maxRetries (s, losses) =
      (.ok (apply req (afterLosses apply req losses s)).1,
        ((apply req (afterLosses apply req losses s)).2, [])) := by
  induction losses generalizing maxRetries s with
  | nil =>
    cases maxRetries with
    | zero => rfl
    | succ n =>
      have hstop : ¬ isRetryableStatus (apply req s).1.status = true := by
        rw [hanswers s]
        decide
      show (if isRetryableStatus (apply req s).1.status then _ else _) = _
      rw [if_neg hstop]
      rfl
  | cons loss losses ih =>
    cases maxRetries with
    | zero => cases h.length_le
    | succ n =>
      have hrest : WithinBudget n losses :=
        ⟨Nat.le_of_succ_le_succ h.length_le, fun l hl => h.lost l (List.mem_cons_of_mem _ hl)⟩
      have hlost := h.lost loss List.mem_cons_self
      have hnext := ih hrest (if loss.applied then (apply req s).2 else s)
      unfold Lost at hlost
      unfold request
      rw [show attempt apply req (s, loss :: losses) =
        (loss.told, (if loss.applied then (apply req s).2 else s, losses)) from rfl]
      cases htold : loss.told with
      | ok resp =>
        rw [htold] at hlost
        dsimp only
        rw [if_pos hlost, hnext]
        rfl
      | error err =>
        dsimp only
        rw [hnext]
        rfl

/-- The client gets the answer to the last attempt. -/
theorem exchange_eq (hanswers : ∀ s, isRetryableStatus (apply req s).1.status = false)
    (h : WithinBudget maxRetries losses) (s : σ) :
    exchange apply maxRetries req losses s = Program.answered apply req losses s := by
  unfold exchange
  rw [request_attempt hanswers h s]
  rfl

theorem withinBudget_nil : WithinBudget maxRetries [] := ⟨Nat.zero_le _, by simp⟩

theorem answers_exchange {pattern : Program.Pattern Req HttpResponse SchemaRegError}
    (hanswers : ∀ req s, isRetryableStatus (apply req s).1.status = false)
    (hbudget : ∀ req, WithinBudget maxRetries (pattern req)) :
    Program.Answers apply (exchange apply maxRetries) pattern :=
  fun req s => exchange_eq (hanswers req) (hbudget req) s

end Schemreg.HttpClient
