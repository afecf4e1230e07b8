import ObeyGateway.Metrics.ProviderBudgetStore

/-!
# The cached reset boundary

`next_reset_epoch` of `metrics/mod.rs` against `window_expired` of `virtual_keys/budget.rs`, each with the dates that
chrono can represent. Where the dates that the two work out are representable they agree, and so does the next boundary
after a boundary (`reset_boundary_law`).
-/

namespace ObeyGateway.Budgets
open VirtualKeys

/-- The day of `NaiveDate::from_ymd_opt(year, month, 1)`. -/
def firstOfMonth (year month : Int) : Int := Calendar.monthStart (12 * year + month - 3)

/-- `NaiveDate::MIN`, January 1, -262143 -/
def minDate : Int := firstOfMonth (-262143) 1

/-- `NaiveDate::MAX`, December 31, 262142 -/
def maxDate : Int := firstOfMonth 262143 1 - 1

/-- A date, where chrono has it: elsewhere its constructors give `None` and its operators panic. -/
def naiveDate (date : Int) : Option Int := if minDate ≤ date ∧ date ≤ maxDate then some date else none

/-- `next_reset_epoch`, step by step: `none` is `None` or a panic. -/
def nextResetChecked (policy : BudgetResetPolicy) (windowStartEpoch : Int) : Option Int := do
  let window ← policy.window
  let date ← naiveDate (windowStartEpoch / daySecs)
  let next ← match window with
    | .daily => naiveDate (date + 1)
    | .weekly => naiveDate (date + (7 - Calendar.numDaysFromMonday date))
    | .monthly => do
      let d ← naiveDate (firstOfMonth (Calendar.year date) (Calendar.month date))
      let (year, month) := (Calendar.year d, Calendar.month d)
      let (nextYear, nextMonth) := if month = 12 then (year + 1, 1) else (year, month + 1)
      naiveDate (firstOfMonth nextYear nextMonth)
  return next * daySecs

/-- `window_expired` for whole seconds: `none` is a panic. -/
def windowExpiredChecked (window : BudgetWindow) (windowStart now : Int) : Option Bool := do
  let date ← naiveDate (windowStart / daySecs)
  let today ← naiveDate (now / daySecs)
  match window with
  | .daily => some (today ≠ date)
  | .weekly => do
    let monday ← naiveDate (date - Calendar.numDaysFromMonday date)
    let nextMonday ← naiveDate (monday + 7)
    return nextMonday * daySecs ≤ now
  | .monthly => some ((Calendar.year today, Calendar.month today) ≠ (Calendar.year date, Calendar.month date))

def nextPeriodStart : BudgetWindow → Int → Int
  | .daily, date => date + 1
  | .weekly, date => mondayOfWeek date + 7
  | .monthly, date => Calendar.monthStart (Calendar.monthIndex date + 1)

structure InCalendar (window : BudgetWindow) (date : Int) : Prop where
  start : minDate ≤ periodStart window date
  next : nextPeriodStart window date ≤ maxDate

section
variable {window : BudgetWindow} {policy : BudgetResetPolicy} {a n date : Int}

theorem naiveDate_of (hmin : minDate ≤ date) (hmax : date ≤ maxDate) : naiveDate date = some date := if_pos ⟨hmin, hmax⟩

theorem firstOfMonth_year_month (date : Int) :
    firstOfMonth (Calendar.year date) (Calendar.month date) = Calendar.monthStart (Calendar.monthIndex date) := by
  unfold firstOfMonth Calendar.year Calendar.month
  congr 1
  omega

theorem nextMonth_eq (date : Int) : (if Calendar.month date = 12 then firstOfMonth (Calendar.year date + 1) 1
    else firstOfMonth (Calendar.year date) (Calendar.month date + 1)) =
      Calendar.monthStart (Calendar.monthIndex date + 1) := by
  unfold firstOfMonth Calendar.year Calendar.month
  split_ifs <;> congr 1 <;> omega

theorem monthIndex_monthStart (m : Int) : Calendar.monthIndex (Calendar.monthStart m) = m :=
  Calendar.monthIndex_eq_iff.2 ⟨le_rfl, Calendar.monthStart_lt_succ m⟩

theorem lt_nextPeriodStart (window : BudgetWindow) (date : Int) : date < nextPeriodStart window date := by
  cases window with
  | daily => exact lt_add_one date
  | weekly =>
    simp only [nextPeriodStart, mondayOfWeek, Calendar.numDaysFromMonday]
    omega
  | monthly => exact Calendar.lt_monthStart_monthIndex date

theorem daySecs_pos : 0 < daySecs := by decide

/-- A day of a period is before the next one; the days from there on are not. -/
theorem period_law (window : BudgetWindow) {date today : Int} (h : date ≤ today) :
    nextPeriodStart window date ≤ today ↔ periodStart window today ≠ periodStart window date := by
  cases window with
  | daily =>
    simp only [nextPeriodStart, periodStart]
    omega
  | weekly =>
    simp only [nextPeriodStart, periodStart, mondayOfWeek, Calendar.numDaysFromMonday]
    omega
  | monthly =>
    have hdate := Calendar.monthStart_monthIndex_le date
    have htoday := Calendar.lt_monthStart_monthIndex today
    have hmono := monthIndex_mono h
    simp only [nextPeriodStart, periodStart]
    constructor
    · intro hle heq
      have hindex := Calendar.monthIndex_lt_of_le hle
      have := Calendar.monthStart_lt_iff.2 hindex
      omega
    · intro hne
      rcases hmono.lt_or_eq with hlt | heq
      · have hstart := Calendar.monthStart_monthIndex_le today
        rcases (show Calendar.monthIndex date + 1 ≤ Calendar.monthIndex today by omega).lt_or_eq with hlt | heq
        · have := Calendar.monthStart_lt_iff.2 hlt
          omega
        · rw [heq]
          exact hstart
      · rw [heq] at hne
        exact absurd rfl hne

theorem nextResetChecked_eq (hwindow : policy.window = some window) (hdate : InCalendar window (a / daySecs)) :
    nextResetChecked policy a = some (nextPeriodStart window (a / daySecs) * daySecs) := by
  have hlt := lt_nextPeriodStart window (a / daySecs)
  have hle := periodStart_le window (a / daySecs)
  have hstart := hdate.start
  have hnext := hdate.next
  set date := a / daySecs with hd
  rw [nextResetChecked, hwindow, ← hd]
  simp only [Option.bind_eq_bind, Option.bind_some, naiveDate_of (hstart.trans hle) (hlt.le.trans hnext)]
  cases window with
  | daily => simp [naiveDate_of (show minDate ≤ date + 1 by omega) hnext, nextPeriodStart]
  | weekly =>
    have heq : date + (7 - Calendar.numDaysFromMonday date) = nextPeriodStart .weekly date := by
      simp only [nextPeriodStart, mondayOfWeek]
      omega
    simp [heq, naiveDate_of (by omega) hnext]
  | monthly =>
    have hfirst : firstOfMonth (Calendar.year date) (Calendar.month date) = periodStart .monthly date :=
      firstOfMonth_year_month date
    have heq := nextMonth_eq (periodStart .monthly date)
    rw [show Calendar.monthIndex (periodStart .monthly date) = Calendar.monthIndex date from monthIndex_monthStart _] at heq
    have hnaive : naiveDate (nextPeriodStart .monthly date) = some (nextPeriodStart .monthly date) :=
      naiveDate_of (by omega) hnext
    rw [hfirst, naiveDate_of hstart (by omega)]
    simp only [Option.bind_some]
    split_ifs at heq ⊢ with h12 <;> simp only [heq] <;> rw [show Calendar.monthStart _ = nextPeriodStart .monthly date from rfl, hnaive] <;> rfl

theorem windowExpiredChecked_eq (hdate : InCalendar window (a / daySecs)) (hle : a ≤ n) (hn : n / daySecs ≤ maxDate) :
    windowExpiredChecked window a n = some (decide (nextPeriodStart window (a / daySecs) * daySecs ≤ n)) := by
  have hlt := lt_nextPeriodStart window (a / daySecs)
  have hstart := hdate.start
  have hnext := hdate.next
  have hperiod := periodStart_le window (a / daySecs)
  have hday : a / daySecs ≤ n / daySecs := Int.ediv_le_ediv daySecs_pos hle
  have hlaw := period_law window hday
  have hmul : nextPeriodStart window (a / daySecs) * daySecs ≤ n ↔ nextPeriodStart window (a / daySecs) ≤ n / daySecs :=
    (Int.le_ediv_iff_mul_le daySecs_pos).symm
  rw [windowExpiredChecked, naiveDate_of (by omega) (by omega), naiveDate_of (by omega) hn]
  simp only [Option.bind_eq_bind, Option.bind_some]
  cases window with
  | daily =>
    refine congrArg some (decide_eq_decide.2 ?_)
    rw [hmul, hlaw]
    rfl
  | weekly =>
    have hmonday : a / daySecs - Calendar.numDaysFromMonday (a / daySecs) = periodStart .weekly (a / daySecs) := rfl
    rw [hmonday, naiveDate_of hstart (by omega), Option.bind_some,
      show periodStart .weekly (a / daySecs) + 7 = nextPeriodStart .weekly (a / daySecs) from rfl,
      naiveDate_of (by omega) hnext]
    rfl
  | monthly =>
    refine congrArg some (decide_eq_decide.2 ?_)
    rw [hmul, hlaw, Ne, Ne, Prod.mk.injEq, Calendar.year_month_eq_iff, not_iff_not]
    exact ⟨fun h => by rw [periodStart, periodStart, h], fun h => by
      rw [← monthIndex_monthStart (Calendar.monthIndex (n / daySecs)), ← monthIndex_monthStart (Calendar.monthIndex (a / daySecs))]
      exact congrArg Calendar.monthIndex h⟩

end

/-- The boundary comes after the anchor and is where the window expires; a window that starts with it expires with the next
one. -/
theorem reset_boundary_law (policy : BudgetResetPolicy) (window : BudgetWindow) (hwindow : policy.window = some window) (a : Int)
    (ha : InCalendar window (a / daySecs)) :
    ∃ boundary, nextResetChecked policy a = some boundary ∧ nextResetEpoch policy a = some boundary ∧ a < boundary ∧
      (∀ n, a ≤ n → n / daySecs ≤ maxDate → windowExpiredChecked window a n = some (decide (boundary ≤ n))) ∧
      (InCalendar window (boundary / daySecs) → ∃ next, nextResetChecked policy boundary = some next ∧
        ∀ n, boundary ≤ n → n < next → windowExpiredChecked window boundary n = some false) := by
  have hday := lt_nextPeriodStart window (a / daySecs)
  refine ⟨_, nextResetChecked_eq hwindow ha, ?_, ?_, fun n hn hmax => windowExpiredChecked_eq ha hn hmax, fun hb =>
    ⟨_, nextResetChecked_eq hwindow hb, fun n hn hlt => ?_⟩⟩
  · have hdate : dateNaive (fromEpochSecs a) = a / daySecs := by
      unfold dateNaive fromEpochSecs dayNanos daySecs
      omega
    rw [nextResetEpoch, hwindow, Option.map_some]
    refine congrArg some ?_
    cases window <;> simp only [periodEnd, nextPeriodStart, hdate, toEpochSecs, dayNanos, daySecs] <;> omega
  · have := Int.lt_ediv_add_one_mul_self a daySecs_pos
    exact this.trans_le (mul_le_mul_of_nonneg_right (by omega) daySecs_pos.le)
  · have hnext := hb.next
    have hmax : n / daySecs ≤ maxDate := by
      have : n / daySecs < nextPeriodStart window _ := Int.ediv_lt_of_lt_mul daySecs_pos hlt
      omega
    rw [windowExpiredChecked_eq hb hn hmax, decide_eq_false (not_le.2 hlt)]

theorem reset_boundary_law_leapYear : ∃ boundary, nextResetChecked .monthly 1707955200 = some boundary ∧
    nextResetEpoch .monthly 1707955200 = some boundary ∧ 1707955200 < boundary ∧
      (∀ n, 1707955200 ≤ n → n / daySecs ≤ maxDate →
        windowExpiredChecked .monthly 1707955200 n = some (decide (boundary ≤ n))) ∧
      (InCalendar .monthly (boundary / daySecs) → ∃ next, nextResetChecked .monthly boundary = some next ∧
        ∀ n, boundary ≤ n → n < next → windowExpiredChecked .monthly boundary n = some false) :=
  reset_boundary_law .monthly .monthly rfl 1707955200 ⟨by decide +kernel, by decide +kernel⟩

/-- The last day has no boundary after it. -/
theorem no_boundary_after_maxDate : naiveDate (maxDate * daySecs / daySecs) = some maxDate ∧
    nextResetChecked .daily (maxDate * daySecs) = none := by decide +kernel

end ObeyGateway.Budgets
