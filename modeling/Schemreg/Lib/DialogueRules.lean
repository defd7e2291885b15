import Schemreg.Lib.Dialogue

/-
  Rules for computations that ask their environment.

  `Spec allowed post xs p` is about the program `p` after the exchanges `xs`: whatever the answers
  are, each request is allowed by the exchanges before it, and what is returned at the end is as
  described. `spec_send` and `spec_bind` follow the code, `Spec.extends` keeps what has been
  exchanged before. The consequences are about every execution, also one that is interrupted:

  * `Spec.leads`: the rest of the program meets its description.
  * `Spec.issued_allowed`: each request was allowed when it was issued.
  * `Spec.countP_issued_le`: requests that are issued only below a bound do not exceed it.
-/

namespace Dialogue

variable {Req A B : Type} {Resp : Req → Type}

namespace Program

def bind : Program Req Resp A → (A → Program Req Resp B) → Program Req Resp B
  | done result, f => f result
  | ask req next, f => ask req fun answer => (next answer).bind f

instance : Monad (Program Req Resp) where
  pure := done
  bind := bind

/-- One request, and its answer. -/
def send (req : Req) : Program Req Resp (Resp req) := ask req done

/-- What is asked and returned from here on. -/
def Spec (allowed : List (Exchange Req Resp) → Req → Prop)
    (post : List (Exchange Req Resp) → A → Prop) :
    List (Exchange Req Resp) → Program Req Resp A → Prop
  | xs, done result => post xs result
  | xs, ask req next => allowed xs req ∧
      ∀ answer, Spec allowed post (xs ++ [⟨req, answer⟩]) (next answer)

variable {allowed : List (Exchange Req Resp) → Req → Prop}
  {post mid : List (Exchange Req Resp) → A → Prop} {xs ys : List (Exchange Req Resp)}
  {p q : Program Req Resp A}

/-! ## Rules -/

theorem spec_send {req : Req} {post : List (Exchange Req Resp) → Resp req → Prop} :
    Spec allowed post xs (send req) ↔
      allowed xs req ∧ ∀ answer, post (xs ++ [⟨req, answer⟩]) answer := Iff.rfl

theorem spec_bind {f : A → Program Req Resp B} {post : List (Exchange Req Resp) → B → Prop} :
    Spec allowed post xs (p >>= f) ↔
      Spec allowed (fun ys result => Spec allowed post ys (f result)) xs p := by
  induction p generalizing xs with
  | done result => exact Iff.rfl
  | ask req next ih => exact and_congr_right fun _ => forall_congr' fun answer => ih answer

theorem Spec.mono (h : Spec allowed mid xs p)
    (hpost : ∀ ys result, mid ys result → post ys result) : Spec allowed post xs p := by
  induction p generalizing xs with
  | done result => exact hpost xs result h
  | ask req next ih => exact ⟨h.1, fun answer => ih answer (h.2 answer)⟩

/-- What has been exchanged stays so. -/
theorem Spec.extends (h : Spec allowed post xs p) :
    Spec allowed (fun ys result => post ys result ∧ xs <+: ys) xs p := by
  induction p generalizing xs with
  | done result => exact ⟨h, List.prefix_refl xs⟩
  | ask req next ih =>
    refine ⟨h.1, fun answer => (ih answer (h.2 answer)).mono fun ys result hys => ?_⟩
    exact ⟨hys.1, (List.prefix_append xs _).trans hys.2⟩

/-! ## Executions -/

theorem Spec.leads (h : Spec allowed post xs p) (hleads : p.Leads ys q) :
    Spec allowed post (xs ++ ys) q := by
  induction hleads generalizing xs with
  | here => rwa [List.append_nil]
  | answer a rest ih =>
    have hrest := ih (h.2 a)
    rwa [List.append_assoc] at hrest

/-- The requests so far, the one that waits for its answer among them. -/
def issued (xs : List (Exchange Req Resp)) (q : Program Req Resp A) : List Req :=
  xs.map Exchange.req ++ q.waiting.toList

/-- A request is issued when it is allowed by the answers before it. -/
theorem Spec.issued_allowed (h : Spec allowed post [] p) (hleads : p.Leads xs q) {i : Nat}
    {req : Req} (hreq : (issued xs q)[i]? = some req) : allowed (xs.take i) req := by
  suffices hall : ∀ before, Spec allowed post before p → allowed (before ++ xs.take i) req from
    hall [] h
  clear h
  induction hleads generalizing i with
  | @here q =>
    intro before h
    rw [List.take_nil, List.append_nil]
    cases q with
    | done result => cases hreq
    | ask req' next =>
      cases i with
      | zero =>
        obtain rfl : req' = req := Option.some.inj hreq
        exact h.1
      | succ i => cases hreq
  | @answer req' next xs q a rest ih =>
    intro before h
    cases i with
    | zero =>
      obtain rfl : req' = req := Option.some.inj hreq
      rw [List.take_zero, List.append_nil]
      exact h.1
    | succ i =>
      have hrest := ih hreq _ (h.2 a)
      rwa [List.append_assoc] at hrest

/-- Requests of a kind that are issued only if fewer than `n` were. -/
theorem Spec.countP_issued_le {kind : Req → Bool} {n : Nat} (h : Spec allowed post [] p)
    (hguard : ∀ xs req, allowed xs req → kind req = true →
      (xs.map Exchange.req).countP kind < n)
    (hleads : p.Leads xs q) : (issued xs q).countP kind ≤ n := by
  have hnext : ∀ xs req, allowed xs req → (xs.map Exchange.req).countP kind ≤ n →
      (xs.map Exchange.req ++ [req]).countP kind ≤ n := by
    intro xs req hallowed hle
    rw [List.countP_append, List.countP_singleton]
    split
    · exact hguard xs req hallowed ‹_›
    · exact hle
  suffices hall : ∀ before, Spec allowed post before p →
      (before.map Exchange.req).countP kind ≤ n → (issued (before ++ xs) q).countP kind ≤ n from
    hall [] h (Nat.zero_le n)
  clear h
  induction hleads with
  | @here q =>
    intro before h hle
    rw [List.append_nil]
    cases q with
    | done result =>
      show (before.map Exchange.req ++ []).countP kind ≤ n
      rwa [List.append_nil]
    | ask req next => exact hnext before req h.1 hle
  | @answer req next xs q a rest ih =>
    intro before h hle
    have hrest := ih _ (h.2 a) (by rw [List.map_append]; exact hnext before req h.1 hle)
    rwa [List.append_assoc] at hrest

end Program

end Dialogue
