import Mathlib.Order.Monotone.Basic
import Mathlib.Data.Int.Order.Basic

/-!
# The proleptic Gregorian calendar on day numbers

Days are integers, day `0` being 1970-01-01. Years are cut at the first of March, so that a leap day
is the last day of its year: `marchStart y` is the day count up to the first of March of year `y`,
and the months of a year are numbered from March on. Months get one running number, `monthIndex`
(`monthIndex_eq_iff`).
-/

namespace Calendar

/-- Day number of the first of March of year `0`, counted back from 1970-01-01. -/
def epochShift : Int := 719468

/-- Days from the first of March of year `0` to the first of March of year `y`. -/
def marchStart (y : Int) : Int := 365 * y + y / 4 - y / 100 + y / 400

/-- The year, cut at the first of March, of the day `z` counted from the first of March of year
`0`. The quotient is off by at most one. -/
def marchYear (z : Int) : Int :=
  let y := 400 * z / 146097
  if z < marchStart y then y - 1 else if marchStart (y + 1) ≤ z then y + 1 else y

/-- The running number of the month of a day: `12 * y + 0` is March of year `y`. -/
def monthIndex (d : Int) : Int :=
  let z := d + epochShift
  let y := marchYear z
  12 * y + (5 * (z - marchStart y) + 2) / 153

/-- The first day of the month with running number `n`. -/
def monthStart (n : Int) : Int := marchStart (n / 12) + (153 * (n % 12) + 2) / 5 - epochShift

def year (d : Int) : Int := (monthIndex d + 2) / 12

def month (d : Int) : Int := (monthIndex d + 2) % 12 + 1

/-- `0` on Mondays, `6` on Sundays. -/
def numDaysFromMonday (d : Int) : Int := (d + 3) % 7

theorem marchStart_marchYear_le (z : Int) : marchStart (marchYear z) ≤ z := by
  unfold marchYear marchStart
  dsimp only
  split
  · omega
  · split <;> omega

theorem lt_marchStart_marchYear (z : Int) : z < marchStart (marchYear z + 1) := by
  unfold marchYear marchStart
  dsimp only
  split
  · omega
  · split <;> omega

theorem marchStart_succ_le (y : Int) : marchStart (y + 1) ≤ marchStart y + 366 := by
  unfold marchStart; omega

theorem monthStart_monthIndex_le (d : Int) : monthStart (monthIndex d) ≤ d := by
  have h1 := marchStart_marchYear_le (d + epochShift)
  have h2 := lt_marchStart_marchYear (d + epochShift)
  have h3 := marchStart_succ_le (marchYear (d + epochShift))
  unfold monthStart monthIndex
  dsimp only
  generalize marchYear (d + epochShift) = y at *
  obtain ⟨q, hq⟩ : ∃ q, (5 * (d + epochShift - marchStart y) + 2) / 153 = q := ⟨_, rfl⟩
  have hy : (12 * y + q) / 12 = y := by omega
  have hm : (12 * y + q) % 12 = q := by omega
  rw [hq, hy, hm]
  omega

theorem lt_monthStart_monthIndex (d : Int) : d < monthStart (monthIndex d + 1) := by
  have h1 := marchStart_marchYear_le (d + epochShift)
  have h2 := lt_marchStart_marchYear (d + epochShift)
  have h3 := marchStart_succ_le (marchYear (d + epochShift))
  unfold monthStart monthIndex
  dsimp only
  generalize marchYear (d + epochShift) = y at *
  obtain ⟨q, hq⟩ : ∃ q, (5 * (d + epochShift - marchStart y) + 2) / 153 = q := ⟨_, rfl⟩
  rw [hq]
  -- from February on the next month is the first one of the next year
  by_cases hq11 : q = 11
  · have hy : (12 * y + q + 1) / 12 = y + 1 := by omega
    have hm : (12 * y + q + 1) % 12 = 0 := by omega
    rw [hy, hm]
    omega
  · have hy : (12 * y + q + 1) / 12 = y := by omega
    have hm : (12 * y + q + 1) % 12 = q + 1 := by omega
    rw [hy, hm]
    omega

theorem monthStart_lt_succ (n : Int) : monthStart n < monthStart (n + 1) := by
  unfold monthStart marchStart
  by_cases h : n % 12 = 11
  · have hy : (n + 1) / 12 = n / 12 + 1 := by omega
    have hm : (n + 1) % 12 = 0 := by omega
    rw [hy, hm, h]
    omega
  · have hy : (n + 1) / 12 = n / 12 := by omega
    have hm : (n + 1) % 12 = n % 12 + 1 := by omega
    rw [hy, hm]
    omega

theorem monthStart_lt_iff {m n : Int} : monthStart m < monthStart n ↔ m < n :=
  (strictMono_int_of_lt_succ monthStart_lt_succ).lt_iff_lt

/-- A month is the stretch of days from its start to the start of the next one. -/
theorem monthIndex_eq_iff {d n : Int} : monthIndex d = n ↔ monthStart n ≤ d ∧ d < monthStart (n + 1) := by
  constructor
  · rintro rfl
    exact ⟨monthStart_monthIndex_le d, lt_monthStart_monthIndex d⟩
  · rintro ⟨h1, h2⟩
    have h3 : monthIndex d < n + 1 :=
      monthStart_lt_iff.1 (lt_of_le_of_lt (monthStart_monthIndex_le d) h2)
    have h4 : n < monthIndex d + 1 :=
      monthStart_lt_iff.1 (lt_of_le_of_lt h1 (lt_monthStart_monthIndex d))
    omega

theorem monthIndex_lt_of_le {d e : Int} (h : monthStart (monthIndex d + 1) ≤ e) : monthIndex d < monthIndex e := by
  have := monthStart_lt_iff.1 (lt_of_le_of_lt h (lt_monthStart_monthIndex e))
  omega

theorem year_month_eq_iff {d e : Int} : year d = year e ∧ month d = month e ↔ monthIndex d = monthIndex e := by
  unfold year month
  omega

/-- 2000-02-29, 1970-01-01 and the Thursday it was. -/
example : year 11016 = 2000 ∧ month 11016 = 2 ∧ month 11017 = 3 ∧ year 0 = 1970 ∧ month 0 = 1 ∧
    numDaysFromMonday 0 = 3 := by decide

end Calendar
