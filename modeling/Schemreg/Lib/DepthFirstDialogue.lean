import Schemreg.Lib.DepthFirst
import Schemreg.Lib.DialogueOracle

/-
  A depth-first walk that asks for its nodes.

  `walkProgram` is `walk` where looking up a node is a dialogue. Answered by an oracle, it
  computes the walk over the graph that the oracle gives (`eval_walkProgram`). If the lookups
  stop at the first failure, so does the walk (`strict_walkProgram`).
-/

namespace DepthFirst

open Dialogue Program

variable {E N S O ε Req : Type} [DecidableEq N]

section Definitions

variable {Resp : Req → Type} (key : E → N) (fetch : E → Program Req Resp (Except ε S))
  (children : S → List E) (check : O → Except ε Unit) (leave : E → S → O → Except ε O)
  (tooDeep : ε)

/-- `each`, with dialogues for the lookups. -/
def eachProgram (descend : List E → Walk N O → Program Req Resp (Except ε Unit × Walk N O)) :
    List E → Walk N O → Program Req Resp (Except ε Unit × Walk N O)
  | [], w => .done (.ok (), w)
  | e :: es, w =>
    if key e ∈ w.visited then eachProgram descend es w
    else
      let entered := { w with visited := w.visited ++ [key e] }
      match check entered.out with
      | .error err => .done (.error err, entered)
      | .ok () =>
        let asked := { entered with requested := entered.requested ++ [key e] }
        (fetch e).bind fun
        | .error err => .done (.error err, asked)
        | .ok s =>
          (descend (children s) asked).bind fun
          | (.error err, below) => .done (.error err, below)
          | (.ok (), below) =>
            match leave e s below.out with
            | .error err => .done (.error err, below)
            | .ok out => eachProgram descend es { below with out := out }

/-- `walk`, with dialogues for the lookups. -/
def walkProgram : Nat → List E → Walk N O → Program Req Resp (Except ε Unit × Walk N O)
  | 0, es, w => if es.isEmpty then .done (.ok (), w) else .done (.error tooDeep, w)
  | levels + 1, es, w =>
    eachProgram key fetch children check leave (walkProgram levels) es w

end Definitions

section Oracle

variable {Resp : Req → Type} {oracle : ∀ req, Resp req} {key : E → N}
  {fetch : E → Program Req Resp (Except ε S)} {children : S → List E}
  {check : O → Except ε Unit} {leave : E → S → O → Except ε O} {tooDeep : ε}

theorem eval_eachProgram
    {descend : List E → Walk N O → Program Req Resp (Except ε Unit × Walk N O)}
    {descend' : List E → Walk N O → Except ε Unit × Walk N O}
    (hdescend : ∀ es w, (descend es w).eval oracle = descend' es w) (es : List E) (w : Walk N O) :
    (eachProgram key fetch children check leave descend es w).eval oracle =
      each key (fun e => (fetch e).eval oracle) children check leave descend' es w := by
  induction es generalizing w with
  | nil => rfl
  | cons e es ih =>
    rw [eachProgram, each]
    split
    · exact ih w
    · dsimp only
      cases check w.out with
      | error err => rfl
      | ok =>
        dsimp only
        rw [eval_bind]
        cases (fetch e).eval oracle with
        | error err => rfl
        | ok s =>
          dsimp only
          rw [eval_bind, hdescend]
          generalize descend' (children s) _ = inner
          obtain ⟨result, below⟩ := inner
          cases result with
          | error err => rfl
          | ok =>
            dsimp only
            cases leave e s below.out with
            | error err => rfl
            | ok out => exact ih _

/-- Answered by an oracle, it is the walk over what the oracle answers. -/
theorem eval_walkProgram (levels : Nat) (es : List E) (w : Walk N O) :
    (walkProgram key fetch children check leave tooDeep levels es w).eval oracle =
      walk key (fun e => (fetch e).eval oracle) children check leave tooDeep levels es w := by
  induction levels generalizing es w with
  | zero =>
    rw [walkProgram, walk]
    split <;> rfl
  | succ levels ih => exact eval_eachProgram ih es w

end Oracle

section Failures

variable {R : Req → Type} {key : E → N}
  {fetch : E → Program Req (fun req => Except ε (R req)) (Except ε S)} {children : S → List E}
  {check : O → Except ε Unit} {leave : E → S → O → Except ε O} {tooDeep : ε}

/-- The walk has failed. -/
def Failed {A : Type} (result : Except ε Unit × A) : Prop := ∃ err, result.1 = .error err

theorem strict_eachProgram
    {descend : List E → Walk N O →
      Program Req (fun req => Except ε (R req)) (Except ε Unit × Walk N O)}
    (hfetch : ∀ e, Strict IsError (fetch e))
    (hdescend : ∀ es w, Strict Failed (descend es w)) (es : List E) (w : Walk N O) :
    Strict Failed (eachProgram key fetch children check leave descend es w) := by
  induction es generalizing w with
  | nil => trivial
  | cons e es ih =>
    rw [eachProgram]
    split
    · exact ih w
    · dsimp only
      cases check w.out with
      | error err => trivial
      | ok =>
        refine (hfetch e).bind ?_ ?_
        · rintro _ ⟨err, rfl⟩
          exact ⟨_, rfl, err, rfl⟩
        · intro result
          cases result with
          | error err => trivial
          | ok s =>
            refine (hdescend _ _).bind ?_ ?_
            · rintro ⟨_, below⟩ ⟨err, rfl⟩
              exact ⟨_, rfl, err, rfl⟩
            · rintro ⟨result, below⟩
              cases result with
              | error err => trivial
              | ok =>
                dsimp only
                cases leave e s below.out with
                | error err => trivial
                | ok out => exact ih _

/-- It stops at the first failure. -/
theorem strict_walkProgram (hfetch : ∀ e, Strict IsError (fetch e))
    (levels : Nat) (es : List E) (w : Walk N O) :
    Strict Failed (walkProgram key fetch children check leave tooDeep levels es w) := by
  induction levels generalizing es w with
  | zero =>
    rw [walkProgram]
    split <;> trivial
  | succ levels ih => exact strict_eachProgram hfetch ih es w

end Failures

end DepthFirst
