import Mathlib.Data.List.Basic

/-
  A computation that asks its environment, one request at a time.

  What a `Program` asks next, and what it returns, depend on the answers so far. `Leads p xs q`
  says that the exchanges `xs` take `p` to `q`, so that an execution can be interrupted after
  every answer, and other computations can run in between.

  * `Leads.snoc`: one more answer.
  * `Asks allowed p`: whatever the answers are, the program asks only what is allowed.
-/

namespace Dialogue

variable {Req A : Type} {Resp : Req → Type}

inductive Program (Req : Type) (Resp : Req → Type) (A : Type) where
  | done (result : A)
  | ask (req : Req) (next : Resp req → Program Req Resp A)

/-- A request with its answer. -/
structure Exchange (Req : Type) (Resp : Req → Type) where
  req : Req
  answer : Resp req

namespace Program

/-- The request that waits for an answer. -/
def waiting : Program Req Resp A → Option Req
  | done _ => none
  | ask req _ => some req

/-- Go on with an answer to the request that waits. -/
def resume [DecidableEq Req] : Program Req Resp A → Exchange Req Resp → Option (Program Req Resp A)
  | done _, _ => none
  | ask req next, x => if h : x.req = req then some (next (h ▸ x.answer)) else none

/-- The exchanges take one program to another. -/
inductive Leads : Program Req Resp A → List (Exchange Req Resp) → Program Req Resp A → Prop where
  | here {p} : Leads p [] p
  | answer {req next xs q} (a : Resp req) (rest : Leads (next a) xs q) :
      Leads (ask req next) (⟨req, a⟩ :: xs) q

/-- Only allowed requests are asked. -/
def Asks (allowed : Req → Prop) : Program Req Resp A → Prop
  | done _ => True
  | ask req next => allowed req ∧ ∀ a, Asks allowed (next a)

variable {p q : Program Req Resp A} {xs : List (Exchange Req Resp)} {allowed : Req → Prop}

theorem Leads.snoc {req : Req} {next : Resp req → Program Req Resp A} (a : Resp req)
    (h : Leads p xs (ask req next)) : Leads p (xs ++ [⟨req, a⟩]) (next a) := by
  generalize hq : ask req next = q at h
  induction h with
  | here =>
    subst hq
    exact .answer a .here
  | answer b rest ih => exact .answer b (ih hq)

/-- The answers decide where a program is. -/
theorem Leads.unique {q' : Program Req Resp A} (h : Leads p xs q) (h' : Leads p xs q') :
    q = q' := by
  induction h with
  | here =>
    cases h'
    rfl
  | answer a rest ih =>
    cases h' with
    | answer _ rest' => exact ih rest'

/-- What resumes a program is an answer to the request that waits. -/
theorem resume_eq_some [DecidableEq Req] {x : Exchange Req Resp} (h : p.resume x = some q) :
    ∃ next, p = ask x.req next ∧ q = next x.answer := by
  cases p with
  | done result => cases h
  | ask req next =>
    obtain ⟨req', a⟩ := x
    have hnext : (if hreq : req' = req then some (next (hreq ▸ a)) else none) = some q := h
    by_cases hreq : req' = req
    · subst hreq
      rw [dif_pos rfl] at hnext
      exact ⟨next, rfl, (Option.some.inj hnext).symm⟩
    · rw [dif_neg hreq] at hnext
      cases hnext

theorem Leads.resume [DecidableEq Req] {x : Exchange Req Resp} {q' : Program Req Resp A}
    (h : Leads p xs q) (hq : q.resume x = some q') : Leads p (xs ++ [x]) q' := by
  obtain ⟨next, rfl, rfl⟩ := resume_eq_some hq
  exact h.snoc x.answer

theorem Asks.leads (h : Asks allowed p) (hleads : Leads p xs q) : Asks allowed q := by
  induction hleads with
  | here => exact h
  | answer a rest ih => exact ih (h.2 a)

theorem Asks.waiting {req : Req} (h : Asks allowed p) (hreq : p.waiting = some req) :
    allowed req := by
  cases p with
  | done result => cases hreq
  | ask req' next =>
    cases hreq
    exact h.1

end Program

end Dialogue
