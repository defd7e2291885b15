import Schemreg.Lib.Calendar
import Schemreg.Http.RetryAfter

/-
  `days_from_civil` against the calendar.

  The years begin in March, in eras of 400. `era_eq` is the one place where the division that
  truncates matters. By `daysFromCivil_eq` the result is the count of the calendar, in any
  integers that hold a thousand times the year and a million.
-/

namespace Schemreg.RetryAfter

open Checked Calendar

variable {word : Int → Outcome Unit Int} {year day : Int} {month : Nat}

/-- The division by 400 rounds down. -/
theorem era_eq (y : Int) : Int.tdiv (if 0 ≤ y then y else y - 399) 400 = y / 400 := by
  split
  · rename_i h
    exact Int.tdiv_eq_ediv_of_nonneg h
  · rename_i h
    have hneg : y - 399 = -(399 - y) := by omega
    rw [hneg, Int.neg_tdiv, Int.tdiv_eq_ediv_of_nonneg (by omega)]
    omega

/-- The days of whole years, in eras of 400. -/
theorem years_eq (y : Int) :
    y / 400 * 146097 + ((y - y / 400 * 400) * 365 + (y - y / 400 * 400) / 4 -
      (y - y / 400 * 400) / 100) = elapsed (y + 1) - 365 := by
  unfold elapsed
  omega

/-- The months from March on. -/
theorem months_eq (h : 1 ≤ month ∧ month ≤ 12) :
    Int.tdiv (153 * Int.tmod (month + 9) 12 + 2) 5 =
      if month ≤ 2 then 31 * (month - 1 : Int) + 306 else (153 * (month - 3 : Int) + 2) / 5 := by
  obtain ⟨hpos, hle⟩ := h
  interval_cases month <;> decide

theorem elapsed_epoch : elapsed 1970 = 719527 := rfl

/-- The day count of the calendar, wherever the integers are wide enough. -/
theorem daysFromCivil_eq
    (hword : ∀ n : Int, n.natAbs ≤ 1000 * year.natAbs + 1000000 → word n = .ok n)
    (hmonth : 1 ≤ month ∧ month ≤ 12) (hday : 1 ≤ day ∧ day ≤ 31) :
    daysFromCivil word year month day =
      .ok (yearStart year + daysOfMonths year (month - 1) + (day - 1)) := by
  obtain ⟨y, hy⟩ : ∃ y, y = if month ≤ 2 then year - 1 else year := ⟨_, rfl⟩
  obtain ⟨mp, hmp⟩ : ∃ mp, mp = Int.tmod (month + 9) 12 := ⟨_, rfl⟩
  obtain ⟨doy, hdoy⟩ : ∃ doy, doy = Int.tdiv (153 * mp + 2) 5 := ⟨_, rfl⟩
  have hshift : (if (month : Int) ≤ 2 then word (year - 1) else .ok year) = .ok y := by
    by_cases hm : month ≤ 2
    · rw [hy, if_pos hm, if_pos (by omega), hword _ (by omega)]
    · rw [hy, if_neg hm, if_neg (by omega)]
  have hstart : (if 0 ≤ y then .ok y else word (y - 399)) =
      .ok (if 0 ≤ y then y else y - 399) := by
    split
    · rfl
    · exact hword _ (by omega)
  have hmpBound : 0 ≤ mp ∧ mp ≤ 11 := by
    rw [hmp, Int.tmod_eq_emod_of_nonneg (by omega)]
    omega
  have hdoyBound : 0 ≤ doy ∧ doy ≤ 337 := by
    rw [hdoy, Int.tdiv_eq_ediv_of_nonneg (by omega)]
    omega
  have hyoe : 0 ≤ y - y / 400 * 400 := by omega
  have hcarry : ∀ {n : Int} {f : Int → Outcome Unit Int},
      n.natAbs ≤ 1000 * year.natAbs + 1000000 → (word n >>= f) = f n := by
    intro n f hn
    rw [hword n hn, Outcome.bind_ok]
  unfold daysFromCivil
  rw [hshift, Outcome.bind_ok, hstart, Outcome.bind_ok, era_eq]
  dsimp only
  rw [hcarry (by omega), hcarry (by omega), hcarry (by omega), ← hmp, hcarry (by omega),
    hcarry (by omega), ← hdoy, hcarry (by omega), hcarry (by omega), hcarry (by omega),
    Int.tdiv_eq_ediv_of_nonneg hyoe, hcarry (by omega), Int.tdiv_eq_ediv_of_nonneg hyoe,
    hcarry (by omega), hcarry (by omega), hcarry (by omega), hcarry (by omega), hword _ (by omega)]
  have hyears := years_eq y
  have hmonths := months_eq hmonth
  rw [← hmp, ← hdoy] at hmonths
  rw [yearStart_eq, elapsed_epoch, daysOfMonths_eq hmonth]
  by_cases hm : month ≤ 2
  · rw [if_pos hm] at hy hmonths ⊢
    rw [show y + 1 = year by omega] at hyears
    congr 1
    omega
  · rw [if_neg hm] at hy hmonths ⊢
    rw [hy, elapsed_succ, yearLength] at hyears
    rw [hy]
    congr 1
    by_cases hleap : IsLeap year
    · rw [if_pos hleap] at hyears ⊢
      omega
    · rw [if_neg hleap] at hyears ⊢
      omega

/-- Over unbounded integers the code counts the days of every date. -/
theorem daysFromCivil_number (d : Date) :
    daysFromCivil .ok d.year d.month d.day = .ok d.number := by
  have hday := d.day_mem
  have hlength : monthLength d.year d.month ≤ 31 := monthLength_le
  exact daysFromCivil_eq (fun _ _ => rfl) d.month_mem (by omega)

end Schemreg.RetryAfter
