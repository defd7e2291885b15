import Mathlib.Tactic.IntervalCases

/-
  The proleptic Gregorian calendar, over all integer years, and its days counted from
  1970-01-01.

  A `Date` is a day that exists. `Date.number` counts year by year and month by month, as the
  leap-year rule has it; `elapsed` is the number of days before a year in closed form.

  * `number_epoch`, `number_next`: the first of January 1970 is 0, and each day is one more than
    the day before it.
  * `number_injective`: no two days have the same number. So the numbers are the distances in
    days (`iterate_next_iff`).
-/

namespace Calendar

/-- Every fourth year, of the centuries every fourth only. -/
def IsLeap (year : Int) : Prop := year % 4 = 0 ∧ (year % 100 = 0 → year % 400 = 0)

instance (year : Int) : Decidable (IsLeap year) := inferInstanceAs (Decidable (_ ∧ (_ → _)))

def yearLength (year : Int) : Int := if IsLeap year then 366 else 365

def monthLength (year : Int) (month : Nat) : Nat :=
  match month with
  | 2 => if IsLeap year then 29 else 28
  | 4 | 6 | 9 | 11 => 30
  | _ => 31

/-- A day of the calendar. -/
structure Date where
  year : Int
  month : Nat
  day : Nat
  month_mem : 1 ≤ month ∧ month ≤ 12
  day_mem : 1 ≤ day ∧ day ≤ monthLength year month

variable {year first : Int} {month : Nat}

theorem monthLength_pos : 1 ≤ monthLength year month := by
  unfold monthLength
  split
  · split <;> omega
  all_goals omega

theorem monthLength_le : monthLength year month ≤ 31 := by
  unfold monthLength
  split
  · split <;> omega
  all_goals omega

/-- The day after. -/
def Date.next (d : Date) : Date :=
  if hday : d.day < monthLength d.year d.month then
    ⟨d.year, d.month, d.day + 1, d.month_mem, by omega⟩
  else if hmonth : d.month < 12 then
    ⟨d.year, d.month + 1, 1, by omega, Nat.le_refl 1, monthLength_pos⟩
  else ⟨d.year + 1, 1, 1, by omega, Nat.le_refl 1, monthLength_pos⟩

/-! ## The count -/

/-- The days of the first months of a year. -/
def daysOfMonths (year : Int) : Nat → Int
  | 0 => 0
  | n + 1 => daysOfMonths year n + monthLength year (n + 1)

/-- The days of a number of years. -/
def daysOfYears (first : Int) : Nat → Int
  | 0 => 0
  | n + 1 => daysOfYears first n + yearLength (first + n)

/-- The first of January. -/
def yearStart (year : Int) : Int :=
  if 1970 ≤ year then daysOfYears 1970 (year - 1970).toNat
  else -daysOfYears year (1970 - year).toNat

/-- The days from 1970-01-01 to a date. -/
def Date.number (d : Date) : Int :=
  yearStart d.year + daysOfMonths d.year (d.month - 1) + (d.day - 1)

/-- The days before a year, up to a constant. -/
def elapsed (year : Int) : Int :=
  365 * year + (year - 1) / 4 - (year - 1) / 100 + (year - 1) / 400

theorem elapsed_succ (year : Int) : elapsed (year + 1) = elapsed year + yearLength year := by
  unfold elapsed yearLength
  by_cases hleap : IsLeap year
  · rw [if_pos hleap]
    obtain ⟨hfour, hcentury⟩ := hleap
    omega
  · rw [if_neg hleap]
    unfold IsLeap at hleap
    omega

theorem daysOfYears_eq (first : Int) (n : Nat) :
    daysOfYears first n = elapsed (first + n) - elapsed first := by
  induction n with
  | zero => simp [daysOfYears]
  | succ n ih =>
    have hsucc := elapsed_succ (first + n)
    rw [daysOfYears, ih, Int.natCast_succ, ← Int.add_assoc, hsucc]
    omega

theorem yearStart_eq (year : Int) : yearStart year = elapsed year - elapsed 1970 := by
  unfold yearStart
  split
  · rw [daysOfYears_eq, show (1970 : Int) + (year - 1970).toNat = year by omega]
  · rw [daysOfYears_eq, show year + (1970 - year).toNat = 1970 by omega]
    omega

theorem yearStart_succ (year : Int) : yearStart (year + 1) = yearStart year + yearLength year := by
  rw [yearStart_eq, yearStart_eq, elapsed_succ]
  omega

/-- The days before each month of a year. -/
theorem daysOfMonths_eq (h : 1 ≤ month ∧ month ≤ 12) :
    daysOfMonths year (month - 1) =
      if month ≤ 2 then 31 * (month - 1 : Int)
      else (153 * (month - 3 : Int) + 2) / 5 + if IsLeap year then 60 else 59 := by
  obtain ⟨hpos, hle⟩ := h
  by_cases hleap : IsLeap year
  all_goals
    interval_cases month
    all_goals simp [daysOfMonths, monthLength, hleap]

theorem daysOfMonths_twelve : daysOfMonths year 12 = yearLength year := by
  by_cases hleap : IsLeap year
  · simp [daysOfMonths, monthLength, yearLength, hleap]
  · simp [daysOfMonths, monthLength, yearLength, hleap]

/-! ## The count is right -/

def epoch : Date := ⟨1970, 1, 1, by decide, by decide⟩

theorem number_epoch : epoch.number = 0 := rfl

theorem number_next (d : Date) : d.next.number = d.number + 1 := by
  have hmonth := d.month_mem
  have hday := d.day_mem
  unfold Date.next
  split
  · show yearStart d.year + daysOfMonths d.year (d.month - 1) + ((d.day + 1 : Nat) - 1) = _
    unfold Date.number
    omega
  · split
    · -- the last day of a month
      show yearStart d.year + daysOfMonths d.year d.month + ((1 : Nat) - 1) = _
      have hlast : daysOfMonths d.year d.month =
          daysOfMonths d.year (d.month - 1) + monthLength d.year d.month := by
        obtain ⟨n, hn⟩ : ∃ n, d.month = n + 1 := ⟨d.month - 1, by omega⟩
        rw [hn]
        rfl
      unfold Date.number
      omega
    · -- the last day of a year
      show yearStart (d.year + 1) + 0 + ((1 : Nat) - 1) = _
      have htwelve : d.month = 12 := by omega
      have hfull : d.day = monthLength d.year 12 := by
        rw [← htwelve]
        omega
      have hlast : daysOfMonths d.year 12 = daysOfMonths d.year 11 + monthLength d.year 12 := rfl
      rw [daysOfMonths_twelve] at hlast
      unfold Date.number
      rw [yearStart_succ, htwelve, hfull, show 12 - 1 = 11 from rfl]
      omega

/-! ## Days have different numbers -/

theorem daysOfMonths_mono {n m : Nat} (h : n ≤ m) : daysOfMonths year n ≤ daysOfMonths year m := by
  induction m with
  | zero =>
    rw [Nat.le_zero.mp h]
  | succ m ih =>
    have hlast : daysOfMonths year (m + 1) = daysOfMonths year m + monthLength year (m + 1) := rfl
    rcases Nat.lt_or_eq_of_le h with h | rfl
    · have := ih (by omega)
      omega
    · exact Int.le_refl _

/-- A day is in its month. -/
theorem Date.lt_month (d : Date) :
    daysOfMonths d.year (d.month - 1) + (d.day - 1) < daysOfMonths d.year d.month := by
  obtain ⟨n, hn⟩ : ∃ n, d.month = n + 1 := ⟨d.month - 1, by have := d.month_mem; omega⟩
  have hlast : daysOfMonths d.year (n + 1) = daysOfMonths d.year n + monthLength d.year (n + 1) :=
    rfl
  have hday := d.day_mem
  rw [hn] at hday ⊢
  rw [hlast, Nat.add_sub_cancel]
  omega

/-- A day is in its year. -/
theorem Date.mem_year (d : Date) :
    yearStart d.year ≤ d.number ∧ d.number < yearStart (d.year + 1) := by
  have hmonth := d.lt_month
  have hfirst : daysOfMonths d.year 0 ≤ daysOfMonths d.year (d.month - 1) :=
    daysOfMonths_mono (Nat.zero_le _)
  have hlast : daysOfMonths d.year d.month ≤ daysOfMonths d.year 12 :=
    daysOfMonths_mono d.month_mem.2
  have hzero : daysOfMonths d.year 0 = 0 := rfl
  have hday := d.day_mem
  rw [daysOfMonths_twelve] at hlast
  rw [yearStart_succ]
  unfold Date.number
  omega

theorem yearStart_mono {other : Int} (h : year ≤ other) : yearStart year ≤ yearStart other := by
  rw [yearStart_eq, yearStart_eq]
  unfold elapsed
  omega

theorem number_lt_of_year {d e : Date} (h : d.year < e.year) : d.number < e.number :=
  Int.lt_of_lt_of_le d.mem_year.2 (Int.le_trans (yearStart_mono h) e.mem_year.1)

theorem number_lt_of_month {d e : Date} (hyear : d.year = e.year) (h : d.month < e.month) :
    d.number < e.number := by
  have hmonth := d.lt_month
  have hmono : daysOfMonths d.year d.month ≤ daysOfMonths d.year (e.month - 1) :=
    daysOfMonths_mono (by omega)
  have hday := e.day_mem
  unfold Date.number
  rw [← hyear]
  omega

theorem number_injective : Function.Injective Date.number := by
  intro d e h
  have hyear : d.year = e.year := by
    rcases Int.lt_trichotomy d.year e.year with hlt | heq | hgt
    · exact absurd h (Int.ne_of_lt (number_lt_of_year hlt))
    · exact heq
    · exact absurd h.symm (Int.ne_of_lt (number_lt_of_year hgt))
  have hmonth : d.month = e.month := by
    rcases Nat.lt_trichotomy d.month e.month with hlt | heq | hgt
    · exact absurd h (Int.ne_of_lt (number_lt_of_month hyear hlt))
    · exact heq
    · exact absurd h.symm (Int.ne_of_lt (number_lt_of_month hyear.symm hgt))
  have hday : d.day = e.day := by
    unfold Date.number at h
    rw [hyear, hmonth] at h
    omega
  cases d
  cases e
  cases hyear
  cases hmonth
  cases hday
  rfl

/-- `n` days later the number is `n` more. -/
theorem number_iterate (d : Date) (n : Nat) : (Date.next^[n] d).number = d.number + n := by
  induction n with
  | zero => simp
  | succ n ih =>
    rw [Function.iterate_succ_apply', number_next, ih]
    omega

/-- The difference of two numbers is the distance of the days. -/
theorem iterate_next_iff {d e : Date} {n : Nat} :
    Date.next^[n] d = e ↔ e.number = d.number + n := by
  rw [← number_injective.eq_iff, number_iterate]
  exact eq_comm

end Calendar
