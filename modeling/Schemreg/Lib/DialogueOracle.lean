import Schemreg.Lib.DialogueRules

/-
  Computations in an environment that does not change its mind.

  An oracle says what the answer to each request is, and `eval` is what a program returns when
  it is answered so. An execution that is answered by the oracle ends there, however it is
  interrupted (`Leads.eval_eq`).

  Where an answer can also be a failure, the oracle says what the answer is that is not one. A
  program is `Strict` if it stops at the first failure, with a result that tells so. It then
  returns such a result, or what it returns without failures (`Strict.result_of_leads`).
-/

namespace Dialogue.Program

variable {Req A B : Type}

section Oracle

variable {Resp : Req → Type} {oracle : ∀ req, Resp req} {p q : Program Req Resp A}
  {xs : List (Exchange Req Resp)}

/-- The result where every request is answered by the oracle. -/
def eval (oracle : ∀ req, Resp req) : Program Req Resp A → A
  | done result => result
  | ask req next => (next (oracle req)).eval oracle

@[simp] theorem eval_done (result : A) : (done result : Program Req Resp A).eval oracle = result :=
  rfl

@[simp] theorem eval_send (req : Req) : (send req : Program Req Resp _).eval oracle = oracle req :=
  rfl

@[simp] theorem eval_bind (p : Program Req Resp A) (f : A → Program Req Resp B) :
    (p.bind f).eval oracle = (f (p.eval oracle)).eval oracle := by
  induction p with
  | done result => rfl
  | ask req next ih => exact ih (oracle req)

/-- An exchange is answered by the oracle. -/
def AnsweredBy (oracle : ∀ req, Resp req) (x : Exchange Req Resp) : Prop :=
  x.answer = oracle x.req

theorem Leads.eval_eq (h : p.Leads xs q) (hxs : ∀ x ∈ xs, AnsweredBy oracle x) :
    q.eval oracle = p.eval oracle := by
  induction h with
  | here => rfl
  | @answer req next xs q a rest ih =>
    have ha : a = oracle req := hxs ⟨req, a⟩ List.mem_cons_self
    rw [ih fun x hx => hxs x (List.mem_cons_of_mem _ hx), ha]
    rfl

end Oracle

section Failures

variable {ε : Type} {R : Req → Type}

/-- The program stops at the first failure. -/
def Strict (failed : A → Prop) : Program Req (fun req => Except ε (R req)) A → Prop
  | done _ => True
  | ask _ next => (∀ err, ∃ result, next (.error err) = done result ∧ failed result) ∧
      ∀ answer, Strict failed (next (.ok answer))

/-- An exchange is answered by the oracle, or it fails. -/
def AnsweredOrFailed (oracle : ∀ req, Except ε (R req))
    (x : Exchange Req fun req => Except ε (R req)) : Prop :=
  x.answer = oracle x.req ∨ ∃ err, x.answer = .error err

/-- Go on with what has not failed. -/
def bindOk (p : Program Req (fun req => Except ε (R req)) (Except ε A))
    (f : A → Program Req (fun req => Except ε (R req)) (Except ε B)) :
    Program Req (fun req => Except ε (R req)) (Except ε B) :=
  p.bind fun
  | .ok a => f a
  | .error err => done (.error err)

/-- The result is a failure. -/
def IsError (result : Except ε A) : Prop := ∃ err, result = .error err

variable {failed : A → Prop} {failed' : B → Prop} {oracle : ∀ req, Except ε (R req)}
  {p q : Program Req (fun req => Except ε (R req)) A}
  {xs : List (Exchange Req fun req => Except ε (R req))}

@[simp] theorem eval_bindOk (p : Program Req (fun req => Except ε (R req)) (Except ε A))
    (f : A → Program Req (fun req => Except ε (R req)) (Except ε B)) :
    (p.bindOk f).eval oracle = (p.eval oracle).bind fun a => (f a).eval oracle := by
  rw [bindOk, eval_bind]
  cases p.eval oracle <;> rfl

theorem strict_send (req : Req) : Strict IsError
    (send req : Program Req (fun req => Except ε (R req)) _) :=
  ⟨fun err => ⟨.error err, rfl, err, rfl⟩, fun _ => trivial⟩

/-- One program after another, which hands on what has failed. -/
theorem Strict.bind {f : A → Program Req (fun req => Except ε (R req)) B} (h : Strict failed p)
    (hands : ∀ result, failed result → ∃ result', f result = done result' ∧ failed' result')
    (hf : ∀ result, Strict failed' (f result)) : Strict failed' (p.bind f) := by
  induction p with
  | done result => exact hf result
  | ask req next ih =>
    refine ⟨fun err => ?_, fun answer => ih (.ok answer) (h.2 answer)⟩
    obtain ⟨result, hnext, hfailed⟩ := h.1 err
    obtain ⟨result', hresult, hfailed'⟩ := hands result hfailed
    refine ⟨result', ?_, hfailed'⟩
    dsimp only
    rw [hnext]
    exact hresult

theorem Strict.bindOk {p : Program Req (fun req => Except ε (R req)) (Except ε A)}
    {f : A → Program Req (fun req => Except ε (R req)) (Except ε B)} (h : Strict IsError p)
    (hf : ∀ a, Strict IsError (f a)) : Strict IsError (p.bindOk f) := by
  refine h.bind ?_ fun result => ?_
  · rintro _ ⟨err, rfl⟩
    exact ⟨_, rfl, err, rfl⟩
  · cases result with
    | ok a => exact hf a
    | error err => trivial

/-- A program that was answered with failures has stopped, or returns what it returns without
    them. -/
theorem Strict.of_leads (h : Strict failed p) (hleads : p.Leads xs q)
    (hxs : ∀ x ∈ xs, AnsweredOrFailed oracle x) :
    (∃ result, q = done result ∧ failed result) ∨ q.eval oracle = p.eval oracle := by
  induction hleads with
  | here => exact Or.inr rfl
  | @answer req next xs q a rest ih =>
    have hrest : ∀ x ∈ xs, AnsweredOrFailed oracle x :=
      fun x hx => hxs x (List.mem_cons_of_mem _ hx)
    have stopped : ∀ err, a = .error err → ∃ result, q = done result ∧ failed result := by
      rintro err rfl
      obtain ⟨result, hnext, hfailed⟩ := h.1 err
      rw [hnext] at rest
      cases rest
      exact ⟨result, rfl, hfailed⟩
    cases a with
    | error err => exact Or.inl (stopped err rfl)
    | ok answer =>
      rcases hxs ⟨req, .ok answer⟩ List.mem_cons_self with horacle | ⟨err, herr⟩
      · have hnext : (ask req next).eval oracle = (next (.ok answer)).eval oracle := by
          have horacle : Except.ok answer = oracle req := horacle
          rw [horacle]
          rfl
        rw [hnext]
        exact ih (h.2 answer) hrest
      · cases herr

theorem Strict.result_of_leads {result : A} (h : Strict failed p)
    (hleads : p.Leads xs (done result)) (hxs : ∀ x ∈ xs, AnsweredOrFailed oracle x) :
    failed result ∨ p.eval oracle = result := by
  rcases h.of_leads hleads hxs with ⟨result', hdone, hfailed⟩ | heval
  · cases hdone
    exact Or.inl hfailed
  · exact Or.inr heval.symm

end Failures

end Dialogue.Program
