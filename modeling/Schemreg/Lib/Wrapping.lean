import Mathlib.Tactic.NormNum

/-
  Wrapping 64-bit counters.

  A counter that only ever grows by one is kept as the number of its increments, a
  natural number, and read as the `u64` the machine holds. Two readings are equal
  exactly when the counts agree modulo `2^64` (`u64_eq_iff`), so a comparison of two
  readings is faithful to the machine, wraparound included, and the count stays
  available to say how far apart two readings are.
-/

namespace Wrapping

/-- What a `u64` counter holds after `n` increments from zero. -/
def u64 (n : Nat) : UInt64 := UInt64.ofNat n

theorem u64_eq_iff {a b : Nat} : u64 a = u64 b ↔ a % 2 ^ 64 = b % 2 ^ 64 := by
  unfold u64
  rw [UInt64.ofNat_eq_iff_mod_eq_toNat, UInt64.toNat_ofNat']

/-- Counts less than `2^64` apart are told apart. -/
theorem u64_inj {a b : Nat} (hle : a ≤ b) (hlt : b < a + 2 ^ 64) (h : u64 a = u64 b) : a = b := by
  rw [u64_eq_iff] at h
  omega

/-- `2^64` increments bring the counter back. -/
theorem u64_period (n : Nat) : u64 (n + 2 ^ 64) = u64 n := by
  rw [u64_eq_iff]
  omega

end Wrapping
