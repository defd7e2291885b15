import Mathlib.Tactic.NormNum

/-
  Saturating and checked operations on `u64`, with what they compute on naturals.

  Each operation is the exact result brought back into the word: `saturate` is
  `u64::try_from(n).unwrap_or(u64::MAX)`.
-/

namespace Saturating

/-- `u64::MAX`. -/
def u64Max : UInt64 := 0xFFFFFFFFFFFFFFFF

/-- `u64::try_from(n).unwrap_or(u64::MAX)`. -/
def saturate (n : Nat) : UInt64 := if n < 2 ^ 64 then UInt64.ofNat n else u64Max

/-- `a.saturating_mul(b)`. -/
def saturatingMul (a b : UInt64) : UInt64 := saturate (a.toNat * b.toNat)

/-- `a.saturating_add(b)`. -/
def saturatingAdd (a b : UInt64) : UInt64 := saturate (a.toNat + b.toNat)

/-- `a.min(b)`. -/
def minU64 (a b : UInt64) : UInt64 := if a ≤ b then a else b

/-- `a.checked_shl(s)`: an amount of the word's width or more has no result. -/
def checkedShl (a : UInt64) (s : UInt32) : Option UInt64 :=
  if s.toNat < 64 then some (a <<< UInt64.ofNat s.toNat) else none

@[simp] theorem toNat_u64Max : u64Max.toNat = 2 ^ 64 - 1 := rfl

@[simp] theorem toNat_saturate (n : Nat) : (saturate n).toNat = min n (2 ^ 64 - 1) := by
  unfold saturate
  split
  · rename_i h
    rw [UInt64.toNat_ofNat', Nat.mod_eq_of_lt h]
    omega
  · rw [toNat_u64Max]
    omega

@[simp] theorem toNat_saturatingMul (a b : UInt64) :
    (saturatingMul a b).toNat = min (a.toNat * b.toNat) (2 ^ 64 - 1) := toNat_saturate _

@[simp] theorem toNat_saturatingAdd (a b : UInt64) :
    (saturatingAdd a b).toNat = min (a.toNat + b.toNat) (2 ^ 64 - 1) := toNat_saturate _

@[simp] theorem toNat_minU64 (a b : UInt64) : (minU64 a b).toNat = min a.toNat b.toNat := by
  unfold minU64
  split
  · rename_i h
    rw [UInt64.le_iff_toNat_le] at h
    omega
  · rename_i h
    rw [UInt64.le_iff_toNat_le] at h
    omega

/-- A shift of 1 that is in the word is a power of two, and saturates where it is not. -/
theorem toNat_checkedShl_one (s : UInt32) :
    ((checkedShl 1 s).getD u64Max).toNat = min (2 ^ s.toNat) (2 ^ 64 - 1) := by
  unfold checkedShl
  split
  · rename_i h
    have hpow : 2 ^ s.toNat < 2 ^ 64 := Nat.pow_lt_pow_right (by omega) h
    have hs : (UInt64.ofNat s.toNat).toNat = s.toNat := by
      rw [UInt64.toNat_ofNat', Nat.mod_eq_of_lt (by omega)]
    rw [Option.getD_some, UInt64.toNat_shiftLeft, hs, Nat.mod_eq_of_lt h,
      show (1 : UInt64).toNat = 1 from rfl, Nat.one_shiftLeft, Nat.mod_eq_of_lt hpow]
    omega
  · rename_i h
    have hpow : 2 ^ 64 ≤ 2 ^ s.toNat := Nat.pow_le_pow_right (by omega) (by omega)
    rw [Option.getD_none, toNat_u64Max]
    omega

/-- Saturating on the way to a minimum within the word is no loss. -/
theorem min_saturated {a b cap : Nat} (hcap : cap ≤ 2 ^ 64 - 1) :
    min (min (a * min b (2 ^ 64 - 1)) (2 ^ 64 - 1)) cap = min (a * b) cap := by
  rcases Nat.lt_or_ge (2 ^ 64 - 1) b with hb | hb
  · rw [min_eq_right (Nat.le_of_lt hb)]
    rcases Nat.eq_zero_or_pos a with rfl | ha
    · simp
    · have hsat : 2 ^ 64 - 1 ≤ a * (2 ^ 64 - 1) := Nat.le_mul_of_pos_left _ ha
      have htrue : b ≤ a * b := Nat.le_mul_of_pos_left _ ha
      omega
  · rw [min_eq_left hb]
    omega

end Saturating
