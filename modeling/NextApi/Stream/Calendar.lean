import Mathlib.Data.Int.ConditionallyCompleteOrder
import Mathlib.Order.ConditionallyCompleteLattice.Basic
import Mathlib.Order.Monotone.Basic

/-!
# Days and months

Consecutive periods cut the days (`Periods`): every day is in one, and they come in order.

Days are counted from the first of January 1970, in the Gregorian calendar before and after it.
Months are counted from March of the year 0, so that a leap day is the last day of a year. A day is
in the month with its first day at or before it and the first day of the next month after it
(`monthStart_le`, `lt_monthStart`).
-/

set_option autoImplicit false

namespace NextApi

/-! ### Periods -/

/-- Consecutive periods of days, each with its first day. -/
structure Periods where
  index : ℤ → ℤ
  start : ℤ → ℤ
  start_lt_succ (k : ℤ) : start k < start (k + 1)
  start_le (day : ℤ) : start (index day) ≤ day
  lt_start (day : ℤ) : day < start (index day + 1)

namespace Periods

variable (p : Periods)

theorem strictMono_start : StrictMono p.start := strictMono_int_of_lt_succ p.start_lt_succ

/-- The period of a day is the one it is in. -/
theorem index_eq_iff {day k : ℤ} : p.index day = k ↔ p.start k ≤ day ∧ day < p.start (k + 1) := by
  constructor
  · rintro rfl
    exact ⟨p.start_le day, p.lt_start day⟩
  · intro ⟨hle, hlt⟩
    have hbelow : k < p.index day + 1 :=
      p.strictMono_start.lt_iff_lt.1 (lt_of_le_of_lt hle (p.lt_start day))
    have habove : p.index day < k + 1 :=
      p.strictMono_start.lt_iff_lt.1 (lt_of_le_of_lt (p.start_le day) hlt)
    omega

/-- Every day is a period. -/
def daily : Periods := ⟨id, id, Int.lt_succ, Int.le_refl, Int.lt_succ⟩

end Periods

/-! ### Months -/

/-- The days from the first of March of the year 0 to that of another year. -/
def daysBeforeYear (y : ℤ) : ℤ := 365 * y + y / 4 - y / 100 + y / 400

/-- The first day of a month. -/
def monthStart (k : ℤ) : ℤ := daysBeforeYear (k / 12) + (153 * (k % 12) + 2) / 5 - 719468

/-- The year of a day, as years begin with March and days are counted from the year 0. -/
def yearOf (z : ℤ) : ℤ :=
  let guess := 400 * z / 146097
  if z < daysBeforeYear guess then guess - 1
  else if daysBeforeYear (guess + 1) ≤ z then guess + 1
  else guess

/-- The month of a day. -/
def monthOf (day : ℤ) : ℤ :=
  let year := yearOf (day + 719468)
  12 * year + (5 * (day + 719468 - daysBeforeYear year) + 2) / 153

theorem daysBeforeYear_yearOf (z : ℤ) :
    daysBeforeYear (yearOf z) ≤ z ∧ z < daysBeforeYear (yearOf z + 1) := by
  -- the guess is off by at most one year
  have hguess : daysBeforeYear (400 * z / 146097 - 1) ≤ z ∧
      z < daysBeforeYear (400 * z / 146097 + 1 + 1) := by
    simp only [daysBeforeYear]
    omega
  rw [yearOf]
  split
  · next hlt =>
    rw [Int.sub_add_cancel]
    exact ⟨hguess.1, hlt⟩
  · next hle =>
    split
    · next hnext => exact ⟨hnext, hguess.2⟩
    · next hnext => exact ⟨Int.not_lt.1 hle, Int.not_le.1 hnext⟩

/-- A year has at most 366 days. -/
theorem daysBeforeYear_succ_le (y : ℤ) : daysBeforeYear (y + 1) ≤ daysBeforeYear y + 366 := by
  simp only [daysBeforeYear]
  omega

theorem monthStart_lt_succ (k : ℤ) : monthStart k < monthStart (k + 1) := by
  simp only [monthStart, daysBeforeYear]
  omega

/-- A day is in its month. -/
theorem monthStart_monthOf (day : ℤ) :
    monthStart (monthOf day) ≤ day ∧ day < monthStart (monthOf day + 1) := by
  obtain ⟨hle, hlt⟩ := daysBeforeYear_yearOf (day + 719468)
  have hyear := daysBeforeYear_succ_le (yearOf (day + 719468))
  rw [monthOf]
  generalize yearOf (day + 719468) = y at *
  obtain ⟨n, hn⟩ : ∃ n, n = day + 719468 - daysBeforeYear y := ⟨_, rfl⟩
  have hmonth : (5 * n + 2) / 153 < 12 := by omega
  rw [← hn, monthStart, monthStart]
  have hindex : (12 * y + (5 * n + 2) / 153) / 12 = y ∧
      (12 * y + (5 * n + 2) / 153) % 12 = (5 * n + 2) / 153 := by omega
  rw [hindex.1, hindex.2]
  refine ⟨by omega, ?_⟩
  -- the next month is in the same year, or the first one of the next year
  by_cases hlast : (5 * n + 2) / 153 = 11
  · rw [hlast]
    have hnext : (12 * y + 11 + 1) / 12 = y + 1 ∧ (12 * y + 11 + 1) % 12 = 0 := by omega
    rw [hnext.1, hnext.2]
    omega
  · have hnext : (12 * y + (5 * n + 2) / 153 + 1) / 12 = y ∧
        (12 * y + (5 * n + 2) / 153 + 1) % 12 = (5 * n + 2) / 153 + 1 := by omega
    rw [hnext.1, hnext.2]
    omega

/-- The months. -/
def Periods.monthly : Periods where
  index := monthOf
  start := monthStart
  start_lt_succ := monthStart_lt_succ
  start_le day := (monthStart_monthOf day).1
  lt_start day := (monthStart_monthOf day).2

/-- The last day of February 2000 and the first one of March. -/
example : (monthOf 11016, monthStart (monthOf 11016), monthStart (monthOf 11017)) =
    (23999, 10988, 11017) := by decide

end NextApi
