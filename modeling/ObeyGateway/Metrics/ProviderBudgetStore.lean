import ObeyGateway.Router.Cost
import ObeyGateway.VirtualKeys.Anchor

/-!
# The durable budget of a provider

`metrics/provider_budget_store.rs`, the table `provider_budgets`: for each provider the start of its budget window, in
epoch seconds, and what was spent in it. An accrual names the window it belongs to and is dropped when the row is in
another one; a reset is a compare-and-swap on the start of the window.
-/

namespace ObeyGateway.Budgets
open VirtualKeys

inductive BudgetResetPolicy
  | daily | weekly | monthly | manual
deriving DecidableEq

def BudgetResetPolicy.window : BudgetResetPolicy → Option BudgetWindow
  | .daily => some .daily
  | .weekly => some .weekly
  | .monthly => some .monthly
  | .manual => none

structure ProviderBudgetRow where
  windowStart : Int
  currentSpendUsd : ℚ
deriving DecidableEq

structure ResetWindowOutcome where
  didReset : Bool
  previousSpend : ℚ
  newAnchor : Int
deriving DecidableEq

namespace ProviderBudgetRow

/-- `add_spend` on the row of the provider, the conditional upsert -/
def addSpend (row : Option ProviderBudgetRow) (usd : ℚ) (windowStartEpoch : Int) : Option ProviderBudgetRow :=
  if usd < 0 then row
  else match row with
    | none => some ⟨windowStartEpoch, usd⟩
    | some row =>
      if row.windowStart = windowStartEpoch then some { row with currentSpendUsd := row.currentSpendUsd + usd }
      else some row

/-- `reset_window` on the row of the provider, at the time `now` -/
def resetWindow (row : Option ProviderBudgetRow) (expectedWindowStartEpoch now : Int) :
    Option ResetWindowOutcome × Option ProviderBudgetRow :=
  match row with
  | none => (none, none)
  | some row =>
    if row.windowStart = expectedWindowStartEpoch then (some ⟨true, row.currentSpendUsd, now⟩, some ⟨now, 0⟩)
    else (some ⟨false, row.currentSpendUsd, row.windowStart⟩, some row)

end ProviderBudgetRow

abbrev ProviderBudgetStore := String → Option ProviderBudgetRow

namespace ProviderBudgetStore
variable (store : ProviderBudgetStore) (provider : String)

def addSpend (usd : ℚ) (windowStartEpoch : Int) : ProviderBudgetStore :=
  Function.update store provider (ProviderBudgetRow.addSpend (store provider) usd windowStartEpoch)

def getWindowStart : Option Int := (store provider).map (·.windowStart)

end ProviderBudgetStore

def daySecs : Int := 86400

def periodStart : BudgetWindow → Int → Int
  | .daily, date => date
  | .weekly, date => mondayOfWeek date
  | .monthly, date => Calendar.monthStart (Calendar.monthIndex date)

/-- `current_window_start_for_policy` -/
def currentWindowStartForPolicy (policy : BudgetResetPolicy) (now : Int) : Int :=
  match policy.window with
  | some window => periodStart window (now / daySecs) * daySecs
  | none => now

/-- The anchor that `persist_provider_spend` writes with: that of the row, else the start of the current window. -/
def accrualAnchor (rowStart : Option Int) (currentStart : Int) : Int :=
  match rowStart with
  | some epoch => if 0 < epoch then epoch else currentStart
  | none => currentStart

/-- `next_reset_epoch` -/
def nextResetEpoch (policy : BudgetResetPolicy) (windowStartEpoch : Int) : Option Int :=
  policy.window.map fun window => toEpochSecs (periodEnd window (fromEpochSecs windowStartEpoch))

theorem dayNanos_nonneg : 0 ≤ dayNanos := by decide

theorem monthIndex_mono {d e : Int} (h : d ≤ e) : Calendar.monthIndex d ≤ Calendar.monthIndex e := by
  have hd := Calendar.monthStart_monthIndex_le d
  have he := Calendar.lt_monthStart_monthIndex e
  have := Calendar.monthStart_lt_iff.1 (lt_of_le_of_lt (le_trans hd h) he)
  omega

variable (window : BudgetWindow)

theorem periodEnd_mono {t u : Int} (h : t ≤ u) : periodEnd window t ≤ periodEnd window u := by
  have hday : dateNaive t ≤ dateNaive u := le_dateNaive_iff.2 (le_trans (le_dateNaive_iff.1 le_rfl) h)
  unfold periodEnd
  cases window with
  | daily => exact mul_le_mul_of_nonneg_right (add_le_add_left hday 1) dayNanos_nonneg
  | weekly =>
    refine mul_le_mul_of_nonneg_right ?_ dayNanos_nonneg
    unfold mondayOfWeek Calendar.numDaysFromMonday
    omega
  | monthly =>
    refine mul_le_mul_of_nonneg_right ?_ dayNanos_nonneg
    rcases lt_or_eq_of_le (monthIndex_mono hday) with hlt | heq
    · exact le_of_lt (Calendar.monthStart_lt_iff.2 (by omega))
    · rw [heq]

theorem period_mono {t u : Int} (h : t ≤ u) : period window t ≤ period window u := by
  have hday : dateNaive t ≤ dateNaive u := le_dateNaive_iff.2 (le_trans (le_dateNaive_iff.1 le_rfl) h)
  cases window with
  | daily => exact hday
  | weekly =>
    simp only [period]
    unfold mondayOfWeek Calendar.numDaysFromMonday
    omega
  | monthly => exact monthIndex_mono hday

theorem period_eq_of_lt {t now : Int} (h : t ≤ now) (hlt : now < periodEnd window t) :
    period window t = period window now := by
  have hday : dateNaive t ≤ dateNaive now := le_dateNaive_iff.2 (le_trans (le_dateNaive_iff.1 le_rfl) h)
  have hdate : ∀ {d : Int}, now < d * dayNanos → dateNaive now < d := fun hd => not_le.1 fun hle =>
    absurd (le_dateNaive_iff.1 hle) (not_le.2 hd)
  cases window with
  | daily =>
    have := hdate hlt
    simp only [period]
    omega
  | weekly =>
    have := hdate hlt
    simp only [period]
    unfold mondayOfWeek Calendar.numDaysFromMonday at *
    omega
  | monthly =>
    refine (Calendar.monthIndex_eq_iff.2 ⟨?_, hdate hlt⟩).symm
    exact le_trans (Calendar.monthStart_monthIndex_le _) hday

theorem windowExpired_iff {window : BudgetWindow} {t now : Int} (h : t ≤ now) :
    windowExpired window t now = true ↔ periodEnd window t ≤ now := by
  constructor
  · intro hexp
    by_contra hlt
    rw [windowExpired_of_period_eq (period_eq_of_lt window h (not_le.1 hlt))] at hexp
    cases hexp
  · exact windowExpired_of_periodEnd_le

theorem periodStart_le (date : Int) : periodStart window date ≤ date := by
  cases window with
  | daily => exact le_refl date
  | weekly =>
    unfold periodStart mondayOfWeek Calendar.numDaysFromMonday
    dsimp only
    omega
  | monthly => exact Calendar.monthStart_monthIndex_le date

theorem currentWindowStartForPolicy_le (policy : BudgetResetPolicy) (now : Int) :
    currentWindowStartForPolicy policy now ≤ now := by
  unfold currentWindowStartForPolicy
  rcases policy.window with _ | window
  · exact le_refl now
  have hstart := periodStart_le window (now / daySecs)
  unfold daySecs at hstart ⊢
  dsimp only
  omega

end ObeyGateway.Budgets
