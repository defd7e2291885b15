import Mathlib.Algebra.Group.Int.Defs
import Mathlib.Algebra.Group.Nat.Defs
import Mathlib.Data.List.Basic

/-
  Computations that return a value, return an error, or panic.

  `Outcome ε α` is the result of running code in a language with checked indexing and checked
  arithmetic: an error is a value that the code returns, a panic is a run that does not
  return. Each primitive below panics exactly where the language does, so that "no path
  panics" is a statement about the code and not about the model.
-/

namespace Checked

/-- Why a run panicked. -/
inductive Panic where
  | index
  | shift
  | overflow
  deriving DecidableEq, Repr

/-- The outcome of a run. -/
inductive Outcome (ε α : Type) where
  | ok (a : α)
  | err (e : ε)
  | panic (p : Panic)
  deriving DecidableEq

variable {ε α β γ : Type}

namespace Outcome

def bind (x : Outcome ε α) (f : α → Outcome ε β) : Outcome ε β :=
  match x with
  | ok a => f a
  | err e => err e
  | panic p => panic p

instance : Monad (Outcome ε) where
  pure := ok
  bind := bind

@[simp] theorem bind_ok (a : α) (f : α → Outcome ε β) : (ok a >>= f) = f a := rfl
@[simp] theorem bind_err (e : ε) (f : α → Outcome ε β) : (err e >>= f) = err e := rfl
@[simp] theorem bind_panic (p : Panic) (f : α → Outcome ε β) : (panic p >>= f) = panic p := rfl
@[simp] theorem pure_eq_ok (a : α) : (pure a : Outcome ε α) = ok a := rfl

/-- A result that was computed without a panic. -/
def ofExcept : Except ε α → Outcome ε α
  | .ok a => ok a
  | .error e => err e

theorem bind_eq_ok {x : Outcome ε α} {f : α → Outcome ε β} {b : β} :
    (x >>= f) = ok b ↔ ∃ a, x = ok a ∧ f a = ok b := by
  constructor
  · intro h
    cases x with
    | ok a => exact ⟨a, rfl, h⟩
    | err e => cases h
    | panic p => cases h
  · rintro ⟨a, rfl, h⟩
    exact h

/-- The run does not panic. -/
def Safe (x : Outcome ε α) : Prop := ∀ p, x ≠ panic p

@[simp] theorem safe_ok (a : α) : (ok a : Outcome ε α).Safe := fun _ h => by cases h
@[simp] theorem safe_err (e : ε) : (err e : Outcome ε α).Safe := fun _ h => by cases h
@[simp] theorem not_safe_panic (p : Panic) : ¬ (panic p : Outcome ε α).Safe := fun h => h p rfl

/-- The result of a run that does not panic. -/
def result : (x : Outcome ε α) → x.Safe → Except ε α
  | ok a, _ => .ok a
  | err e, _ => .error e
  | panic p, safe => (safe p rfl).elim

theorem result_eq_ok {x : Outcome ε α} {safe : x.Safe} {a : α} :
    x.result safe = .ok a ↔ x = ok a := by
  cases x with
  | ok b => simp [result]
  | err e => simp [result]
  | panic p => exact absurd rfl (safe p)

theorem safe_bind {x : Outcome ε α} {f : α → Outcome ε β} :
    (x >>= f).Safe ↔ x.Safe ∧ ∀ a, x = ok a → (f a).Safe := by
  cases x with
  | ok a => simp
  | err e => simp
  | panic p => simp

/-- The run returns a value. -/
def IsOk (x : Outcome ε α) : Prop := ∃ a, x = ok a

/-- The run returns an error. -/
def IsErr (x : Outcome ε α) : Prop := ∃ e, x = err e

theorem not_isOk_err (e : ε) : ¬ (err e : Outcome ε α).IsOk := by
  rintro ⟨a, h⟩
  cases h

theorem not_isOk_panic (p : Panic) : ¬ (panic p : Outcome ε α).IsOk := by
  rintro ⟨a, h⟩
  cases h

theorem IsErr.not_isOk {x : Outcome ε α} (h : x.IsErr) : ¬ x.IsOk := by
  obtain ⟨e, rfl⟩ := h
  exact not_isOk_err e

end Outcome

open Outcome

/-- `data[i]`. -/
def index (data : List α) (i : Nat) : Outcome ε α :=
  match data[i]? with
  | some a => ok a
  | none => panic .index

/-- `&data[start..end]`. -/
def slice (data : List α) (start stop : Nat) : Outcome ε (List α) :=
  if start ≤ stop ∧ stop ≤ data.length then ok ((data.take stop).drop start) else panic .index

/-- `&data[start..]`. -/
def sliceFrom (data : List α) (start : Nat) : Outcome ε (List α) :=
  if start ≤ data.length then ok (data.drop start) else panic .index

/-- `array.copy_from_slice(data)` for an array of `n` items. -/
def copyFromSlice (n : Nat) (data : List α) : Outcome ε {items : List α // items.length = n} :=
  if h : data.length = n then ok ⟨data, h⟩ else panic .index

/-- `start + n` for two positions in `data`. A slice is at most `isize::MAX` long, so a sum
    that is still a position in it fits `usize`; the check is the stricter one. -/
def advance (data : List α) (start n : Nat) : Outcome ε Nat :=
  if start + n ≤ data.length then ok (start + n) else panic .overflow

/-- `a - b` on `usize`. -/
def subUsize (a b : Nat) : Outcome ε Nat := if b ≤ a then ok (a - b) else panic .overflow

/-- `a + b` on `u32`. -/
def addU32 (a b : Nat) : Outcome ε Nat := if a + b < 2 ^ 32 then ok (a + b) else panic .overflow

/-- `a + b` on `u64`. -/
def addU64 (a b : UInt64) : Outcome ε UInt64 :=
  if a.toNat + b.toNat < 2 ^ 64 then ok (a + b) else panic .overflow

/-- `a << s` on `u64`: the bits that leave the word are lost, but the amount is checked. -/
def shlU64 (a : UInt64) (s : Nat) : Outcome ε UInt64 :=
  if s < 64 then ok (a <<< UInt64.ofNat s) else panic .shift

/-- `-a` on `i64`. -/
def negI64 (a : Int64) : Outcome ε Int64 :=
  if a = Int64.minValue then panic .overflow else ok (-a)

/-- The result of an operation on `i64`, from its exact value. -/
def i64 (n : Int) : Outcome ε Int := if -2 ^ 63 ≤ n ∧ n < 2 ^ 63 then ok n else panic .overflow

/-- `a * b` on `u64`. -/
def mulU64 (a b : UInt64) : Outcome ε UInt64 :=
  if a.toNat * b.toNat < 2 ^ 64 then ok (a * b) else panic .overflow

/-- `option?` in a function that returns an `Option`. -/
def ofOption : Option α → Outcome Unit α
  | some a => ok a
  | none => err ()

/-- `return None` unless a condition holds. -/
def require (p : Prop) [Decidable p] : Outcome Unit Unit := if p then ok () else err ()

theorem index_eq_ok {data : List α} {i : Nat} {a : α} :
    (index data i : Outcome ε α) = ok a ↔ data[i]? = some a := by
  unfold index
  cases data[i]? <;> simp

/-- A slice of `n` items, copied into an array of `n` items. -/
theorem slice_copy {data : List α} {start n : Nat} (h : start + n ≤ data.length) :
    ∃ hlen : ((data.drop start).take n).length = n,
      (slice data start (start + n) : Outcome ε (List α)) = ok ((data.drop start).take n) ∧
      (copyFromSlice n ((data.drop start).take n) : Outcome ε _) = ok ⟨_, hlen⟩ := by
  have hslice : (slice data start (start + n) : Outcome ε (List α)) =
      ok ((data.take (start + n)).drop start) := if_pos ⟨by omega, h⟩
  have hitems : (data.take (start + n)).drop start = (data.drop start).take n := by
    rw [List.drop_take]
    congr 1
    omega
  have hlen : ((data.drop start).take n).length = n := by
    rw [List.length_take, List.length_drop]
    omega
  exact ⟨hlen, hitems ▸ hslice, dif_pos hlen⟩

theorem sliceFrom_of_le {data : List α} {start : Nat} (h : start ≤ data.length) :
    (sliceFrom data start : Outcome ε (List α)) = ok (data.drop start) := if_pos h

theorem advance_of_le {data : List α} {start n : Nat} (h : start + n ≤ data.length) :
    (advance data start n : Outcome ε Nat) = ok (start + n) := if_pos h

theorem subUsize_of_le {a b : Nat} (h : b ≤ a) : (subUsize a b : Outcome ε Nat) = ok (a - b) :=
  if_pos h

theorem i64_of_bounds {n : Int} (hmin : -2 ^ 63 ≤ n) (hmax : n < 2 ^ 63) :
    (i64 n : Outcome ε Int) = ok n := if_pos ⟨hmin, hmax⟩

theorem ofOption_eq_ok {x : Option α} {a : α} : ofOption x = ok a ↔ x = some a := by
  cases x <;> simp [ofOption]

theorem require_eq_ok {p : Prop} [Decidable p] {u : Unit} : require p = ok u ↔ p := by
  unfold require
  split <;> simp [*]

end Checked
