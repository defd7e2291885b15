import Mathlib.Algebra.Group.Nat.Defs
import Mathlib.Data.List.Induction

/-
  Decimal numerals, as ASCII bytes.

  `decimal` is the value of a non-empty run of digits; a numeral may have a sign where a parser
  of integers takes one.
-/

namespace Decimal

def isDigit (b : UInt8) : Bool := 0x30 ≤ b && b ≤ 0x39

/-- The value of a sequence of digits. -/
def value (ds : List UInt8) : Nat := ds.foldl (fun n d => n * 10 + (d.toNat - 0x30)) 0

/-- The value of a non-empty run of digits. -/
def decimal (ds : List UInt8) : Option Nat :=
  if ds ≠ [] ∧ ds.all isDigit = true then some (value ds) else none

/-- The value of a run of digits behind an optional sign `+`. -/
def unsigned : List UInt8 → Option Nat
  | 0x2B :: ds => decimal ds
  | ds => decimal ds

/-- The value of a run of digits behind an optional sign. -/
def signed : List UInt8 → Option Int
  | 0x2B :: ds => (decimal ds).map Int.ofNat
  | 0x2D :: ds => (decimal ds).map fun n => -Int.ofNat n
  | ds => (decimal ds).map Int.ofNat

/-- The numeral has a sign. -/
def HasSign (ds : List UInt8) : Prop := ds.head? = some 0x2B ∨ ds.head? = some 0x2D

instance (ds : List UInt8) : Decidable (HasSign ds) := inferInstanceAs (Decidable (_ ∨ _))

variable {ds : List UInt8} {b : UInt8} {n : Nat} {k : Int}

theorem decimal_eq_some :
    decimal ds = some n ↔ ds ≠ [] ∧ ds.all isDigit = true ∧ value ds = n := by
  unfold decimal
  split
  · rename_i h
    rw [Option.some.injEq]
    exact ⟨fun hn => ⟨h.1, h.2, hn⟩, fun hn => hn.2.2⟩
  · rename_i h
    exact ⟨nofun, fun hn => absurd ⟨hn.1, hn.2.1⟩ h⟩

theorem digit_of_mem (h : decimal ds = some n) (hb : b ∈ ds) : isDigit b = true :=
  List.all_eq_true.mp (decimal_eq_some.mp h).2.1 b hb

theorem isDigit_iff : isDigit b = true ↔ 0x30 ≤ b.toNat ∧ b.toNat ≤ 0x39 := by
  unfold isDigit
  rw [Bool.and_eq_true, decide_eq_true_iff, decide_eq_true_iff, UInt8.le_iff_toNat_le,
    UInt8.le_iff_toNat_le]
  exact Iff.rfl

theorem value_lt (h : ds.all isDigit = true) : value ds < 10 ^ ds.length := by
  induction ds using List.reverseRecOn with
  | nil => decide
  | append_singleton ds d ih =>
    rw [List.all_append, Bool.and_eq_true] at h
    have hd : isDigit d = true := by simpa using h.2
    have hvalue : value (ds ++ [d]) = value ds * 10 + (d.toNat - 0x30) := by
      unfold value
      rw [List.foldl_append]
      rfl
    have hbound := ih h.1
    rw [isDigit_iff] at hd
    rw [hvalue, List.length_append, List.length_singleton, Nat.pow_succ]
    omega

theorem decimal_lt (h : decimal ds = some n) : n < 10 ^ ds.length := by
  obtain ⟨-, hdigits, rfl⟩ := decimal_eq_some.mp h
  exact value_lt hdigits

/-- A numeral without a sign. -/
theorem unsigned_of_not_sign (h : ds.head? ≠ some 0x2B) : unsigned ds = decimal ds := by
  unfold unsigned
  split
  · exact absurd rfl h
  · rfl

theorem signed_of_not_sign (h : ¬ HasSign ds) : signed ds = (decimal ds).map Int.ofNat := by
  unfold signed
  split
  · exact absurd (Or.inl rfl) h
  · exact absurd (Or.inr rfl) h
  · rfl

theorem not_hasSign (h : decimal ds = some n) : ¬ HasSign ds := by
  rintro (hhead | hhead)
  · have hdigit := digit_of_mem h (List.mem_of_head? hhead)
    exact absurd hdigit (by decide)
  · have hdigit := digit_of_mem h (List.mem_of_head? hhead)
    exact absurd hdigit (by decide)

/-- A run of digits is a numeral of both kinds. -/
theorem unsigned_of_decimal (h : decimal ds = some n) : unsigned ds = some n :=
  (unsigned_of_not_sign fun hhead => not_hasSign h (Or.inl hhead)).trans h

theorem signed_of_decimal (h : decimal ds = some n) : signed ds = some (n : Int) := by
  rw [signed_of_not_sign (not_hasSign h), h]
  rfl

/-- A numeral is digits, but for a sign at its start. -/
theorem signed_cases (h : signed ds = some k) :
    ∃ sign digits n, ds = sign ++ digits ∧ (sign = [] ∨ sign = [0x2B] ∨ sign = [0x2D]) ∧
      decimal digits = some n ∧ k.natAbs = n := by
  unfold signed at h
  split at h
  · rename_i digits
    obtain ⟨n, hn, rfl⟩ := Option.map_eq_some_iff.mp h
    exact ⟨[0x2B], digits, n, rfl, Or.inr (Or.inl rfl), hn, rfl⟩
  · rename_i digits
    obtain ⟨n, hn, rfl⟩ := Option.map_eq_some_iff.mp h
    exact ⟨[0x2D], digits, n, rfl, Or.inr (Or.inr rfl), hn, by simp⟩
  · rename_i digits
    obtain ⟨n, hn, rfl⟩ := Option.map_eq_some_iff.mp h
    exact ⟨[], ds, n, rfl, Or.inl rfl, hn, rfl⟩

/-- A numeral is made of ASCII. -/
theorem ascii_of_signed (h : signed ds = some k) (hb : b ∈ ds) : b.toNat < 0x80 := by
  obtain ⟨sign, digits, n, rfl, hsign, hdigits, -⟩ := signed_cases h
  rcases List.mem_append.mp hb with hb | hb
  · rcases hsign with rfl | rfl | rfl
    · cases hb
    · cases List.mem_singleton.mp hb
      decide
    · cases List.mem_singleton.mp hb
      decide
  · have hdigit := isDigit_iff.mp (digit_of_mem hdigits hb)
    omega

theorem signed_bound (h : signed ds = some k) : k.natAbs < 10 ^ ds.length := by
  obtain ⟨sign, digits, n, rfl, -, hdigits, hk⟩ := signed_cases h
  rw [hk, List.length_append]
  exact Nat.lt_of_lt_of_le (decimal_lt hdigits)
    (Nat.pow_le_pow_right (by decide) (Nat.le_add_left ..))

theorem signed_ne_nil (h : signed ds = some k) : ds ≠ [] := by
  rintro rfl
  cases h

end Decimal
