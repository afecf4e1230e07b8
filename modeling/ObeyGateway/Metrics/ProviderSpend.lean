import Mathlib.Data.NNRat.Defs
import ObeyGateway.Metrics.ProviderBudgetStore

/-!
# Spend in memory and on disk

A response adds its cost to the counter of the provider, in whole cents (`Metrics::add_cost`), and to the row of the
provider, exactly (`persist_provider_spend`). Inside one budget window the row is the exact sum (`counted_run`),
while every call drops its fraction of a cent from the counter (`SpendHistory.shortfall_eq`): how far the two may
drift apart is `spend_law_iff_fits`.
-/

namespace ObeyGateway.Budgets

/-- `(spend_usd * 100.0).round() as u64` -/
def restoreCents (spendUsd : ℚ) : Nat := min ⌊spendUsd * 100 + 1 / 2⌋.toNat (2 ^ 64 - 1)

structure SpendState where
  metrics : SpendMetrics
  store : ProviderBudgetStore

inductive SpendEvent
  /-- A priced response, while the window that starts at `windowStart` is the current one. -/
  | addCost (provider : String) (cost : ℚ≥0) (windowStart : { epoch : Int // 0 < epoch })
  | restart

namespace SpendState

def empty : SpendState := ⟨⟨fun _ => 0⟩, fun _ => none⟩

/-- `add_cost` and `persist_provider_spend`, its write included -/
def addCost (s : SpendState) (provider : String) (cost : ℚ) (windowStart : Int) : SpendState where
  metrics := s.metrics.addCost provider cost
  store := s.store.addSpend provider cost (accrualAnchor (s.store.getWindowStart provider) windowStart)

/-- New counters, with `restore_provider_budget_spend` of every row. -/
def restart (s : SpendState) : SpendState where
  metrics := ⟨fun provider => ((s.store provider).map fun row => restoreCents row.currentSpendUsd).getD 0⟩
  store := s.store

def step (s : SpendState) : SpendEvent → SpendState
  | .addCost provider cost windowStart => s.addCost provider cost windowStart
  | .restart => s.restart

def run (events : List SpendEvent) : SpendState := Run.run step empty events

def durableSpend (s : SpendState) (provider : String) : ℚ :=
  ((s.store provider).map (·.currentSpendUsd)).getD 0

def budgetSkipped (s : SpendState) (provider : String) (limitUsd : ℚ) : Prop :=
  limitUsd ≤ s.metrics.currentProviderCostUsd provider

end SpendState

def SpendEvent.costOf (p : String) : SpendEvent → ℚ
  | .addCost provider cost _ => if provider = p then cost else 0
  | .restart => 0

def SpendEvent.isRestart : SpendEvent → Bool
  | .addCost _ _ _ => false
  | .restart => true

/-- The exact sum of the costs of `p`. -/
def spentOf (p : String) (events : List SpendEvent) : ℚ := (events.map (·.costOf p)).sum

/-- No spend of `p` is lost to rounding. -/
structure SpendLaw (p : String) (events : List SpendEvent) : Prop where
  counted : |(SpendState.run events).metrics.currentProviderCostUsd p - spentOf p events| <
    (1 + events.countP (·.isRestart)) / 100
  skipped : ∀ limitUsd, 0 ≤ limitUsd → limitUsd + 1 / 100 ≤ spentOf p events →
    (SpendState.run events).budgetSkipped p limitUsd
  durable : |(SpendState.run events).metrics.currentProviderCostUsd p - (SpendState.run events).durableSpend p| <
    (1 + events.countP (·.isRestart)) / 100

structure SpendHistory where
  restarts : Nat := 0
  /-- What had been spent at the last restart. -/
  restored : ℚ := 0
  /-- The costs since. -/
  costs : List ℚ≥0 := []

def SpendHistory.step (p : String) (h : SpendHistory) : SpendEvent → SpendHistory
  | .addCost provider cost _ => if provider = p then { h with costs := h.costs ++ [cost] } else h
  | .restart => ⟨h.restarts + 1, h.restored + (h.costs.map fun c : ℚ≥0 => (c : ℚ)).sum, []⟩

def history (p : String) (events : List SpendEvent) : SpendHistory := Run.run (SpendHistory.step p) {} events

/-- What `add_cost` drops of a cost, in cents: its fraction of a cent, and what a `u64` does not hold. -/
def droppedCents (cost : ℚ) : ℚ := cost * 100 - costCents cost

namespace SpendHistory
variable (h : SpendHistory)

def total : ℚ := h.restored + (h.costs.map fun c : ℚ≥0 => (c : ℚ)).sum

/-- The counter, before it wraps. -/
def cents : Nat := restoreCents h.restored + (h.costs.map fun c : ℚ≥0 => costCents c).sum

def shortfall : ℚ := (h.costs.map fun c : ℚ≥0 => droppedCents c).sum - (restoreCents h.restored - h.restored * 100)

/-- The dropped fractions stay below one cent, or at one cent after a restart, and the counter does not wrap. -/
structure Fits : Prop where
  dropped : h.shortfall ≤ 1 ∧ (h.restarts = 0 → h.shortfall < 1)
  counter : h.cents < 2 ^ 64

structure Counted (p : String) (h : SpendHistory) (s : SpendState) : Prop where
  counter : s.metrics.costByProviderCents p = h.cents % 2 ^ 64
  durable : s.durableSpend p = h.total
  anchored : ∀ row ∈ s.store p, 0 < row.windowStart
  nonneg : 0 ≤ h.restored

end SpendHistory

theorem restoreCents_zero : restoreCents 0 = 0 := by norm_num [restoreCents]

theorem restoreCents_lt (spendUsd : ℚ) : restoreCents spendUsd < 2 ^ 64 :=
  Nat.lt_of_le_of_lt (min_le_right _ _) (by norm_num)

theorem restoreCents_le {spendUsd : ℚ} (h : 0 ≤ spendUsd) : (restoreCents spendUsd : ℚ) ≤ spendUsd * 100 + 1 / 2 := by
  have hfloor : 0 ≤ ⌊spendUsd * 100 + 1 / 2⌋ := Int.floor_nonneg.2 (by positivity)
  calc (restoreCents spendUsd : ℚ) ≤ (⌊spendUsd * 100 + 1 / 2⌋.toNat : ℚ) := by exact_mod_cast min_le_left _ _
    _ = (⌊spendUsd * 100 + 1 / 2⌋ : ℚ) := by exact_mod_cast Int.toNat_of_nonneg hfloor
    _ ≤ spendUsd * 100 + 1 / 2 := Int.floor_le _

section
variable {p : String} {h : SpendHistory} {s : SpendState}

theorem SpendHistory.counted_empty : SpendHistory.Counted p {} SpendState.empty where
  counter := by simp [SpendState.empty, SpendHistory.cents, restoreCents_zero]
  durable := by simp [SpendState.durableSpend, SpendState.empty, SpendHistory.total]
  anchored := by simp [SpendState.empty]
  nonneg := le_refl 0

theorem addSpend_accrualAnchor {row : Option ProviderBudgetRow} {cost : ℚ} {windowStart : Int} (hcost : 0 ≤ cost)
    (hrow : ∀ r ∈ row, 0 < r.windowStart) (hstart : 0 < windowStart) :
    ∃ r, ProviderBudgetRow.addSpend row cost (accrualAnchor (row.map (·.windowStart)) windowStart) = some r ∧
      0 < r.windowStart ∧ r.currentSpendUsd = (row.map (·.currentSpendUsd)).getD 0 + cost := by
  rcases row with _ | r
  · exact ⟨⟨windowStart, cost⟩, by simp [ProviderBudgetRow.addSpend, accrualAnchor, not_lt.2 hcost], hstart, by simp⟩
  have hr : 0 < r.windowStart := hrow r rfl
  refine ⟨{ r with currentSpendUsd := r.currentSpendUsd + cost }, ?_, hr, by simp⟩
  simp [ProviderBudgetRow.addSpend, accrualAnchor, not_lt.2 hcost, hr]

theorem SpendHistory.Counted.addCost (hs : h.Counted p s) (provider : String) (cost : ℚ≥0)
    (windowStart : { epoch : Int // 0 < epoch }) :
    (h.step p (.addCost provider cost windowStart)).Counted p (s.addCost provider cost windowStart) := by
  by_cases hp : provider = p
  · subst hp
    have hcost : (0 : ℚ) ≤ (cost : ℚ) := cost.2
    obtain ⟨r, hr, hstart, hspend⟩ := addSpend_accrualAnchor hcost hs.anchored windowStart.2
    have hstore : (s.addCost provider cost windowStart).store provider = some r := by
      simpa [SpendState.addCost, ProviderBudgetStore.addSpend, ProviderBudgetStore.getWindowStart] using hr
    constructor
    · simp [SpendState.addCost, SpendMetrics.addCost, SpendHistory.step, SpendHistory.cents, hs.counter, Nat.add_assoc]
    · have hdurable : (s.addCost provider cost windowStart).durableSpend provider = s.durableSpend provider + cost := by
        simpa [SpendState.durableSpend, hstore] using hspend
      rw [hdurable, hs.durable]
      simp [SpendHistory.step, SpendHistory.total, add_assoc]
    · intro row hrow
      rw [hstore] at hrow
      cases hrow
      exact hstart
    · simpa [SpendHistory.step] using hs.nonneg
  · have hstore : (s.addCost provider cost windowStart).store p = s.store p := by
      simp [SpendState.addCost, ProviderBudgetStore.addSpend, Ne.symm hp]
    rw [SpendHistory.step, if_neg hp]
    constructor
    · simpa [SpendState.addCost, SpendMetrics.addCost, Ne.symm hp] using hs.counter
    · rw [SpendState.durableSpend, hstore]
      exact hs.durable
    · rw [hstore]
      exact hs.anchored
    · exact hs.nonneg

theorem SpendHistory.total_nonneg (hr : 0 ≤ h.restored) : 0 ≤ h.total :=
  add_nonneg hr (List.sum_nonneg fun c hc => by
    obtain ⟨c, -, rfl⟩ := List.mem_map.1 hc
    exact c.2)

theorem SpendHistory.Counted.restart (hs : h.Counted p s) : (h.step p .restart).Counted p s.restart := by
  have htotal : (h.step p .restart).restored = h.total := rfl
  constructor
  · have hcents : (h.step p .restart).cents = restoreCents h.total := by
      simp [SpendHistory.cents, SpendHistory.step, SpendHistory.total]
    rw [hcents, Nat.mod_eq_of_lt (restoreCents_lt _), ← hs.durable]
    cases hrow : s.store p with
    | none => simp [SpendState.restart, SpendState.durableSpend, hrow, restoreCents_zero]
    | some row => simp [SpendState.restart, SpendState.durableSpend, hrow]
  · have hdurable : s.restart.durableSpend p = s.durableSpend p := rfl
    rw [hdurable, hs.durable]
    simp [SpendHistory.step, SpendHistory.total]
  · exact hs.anchored
  · rw [htotal]
    exact SpendHistory.total_nonneg hs.nonneg

end

theorem counted_run (p : String) (events : List SpendEvent) : (history p events).Counted p (SpendState.run events) := by
  induction events using List.reverseRecOn with
  | nil => exact SpendHistory.counted_empty
  | append_singleton events e ih =>
    rw [history, SpendState.run, Run.run_concat, Run.run_concat]
    cases e with
    | addCost provider cost windowStart => exact ih.addCost provider cost windowStart
    | restart => exact ih.restart

theorem total_history (p : String) (events : List SpendEvent) : (history p events).total = spentOf p events := by
  induction events using List.reverseRecOn with
  | nil => simp [history, SpendHistory.total, spentOf]
  | append_singleton events e ih =>
    have hspent : spentOf p (events ++ [e]) = spentOf p events + e.costOf p := by simp [spentOf]
    rw [hspent, ← ih, history, Run.run_concat]
    cases e with
    | addCost provider cost windowStart =>
      by_cases hp : provider = p <;> simp [SpendHistory.step, SpendHistory.total, SpendEvent.costOf, hp, history, add_assoc]
    | restart => simp [SpendHistory.step, SpendHistory.total, SpendEvent.costOf, history]

theorem restarts_history (p : String) (events : List SpendEvent) :
    (history p events).restarts = events.countP (·.isRestart) := by
  induction events using List.reverseRecOn with
  | nil => rfl
  | append_singleton events e ih =>
    rw [List.countP_append, ← ih, history, Run.run_concat]
    cases e with
    | addCost provider cost windowStart =>
      by_cases hp : provider = p <;> simp [SpendHistory.step, SpendEvent.isRestart, hp, history]
    | restart => simp [SpendHistory.step, SpendEvent.isRestart, history]

section
variable {h : SpendHistory}

theorem SpendHistory.shortfall_eq : h.shortfall = h.total * 100 - h.cents := by
  have hdropped : (h.costs.map fun c : ℚ≥0 => droppedCents c).sum =
      (h.costs.map fun c : ℚ≥0 => (c : ℚ)).sum * 100 - ((h.costs.map fun c : ℚ≥0 => costCents c).sum : Nat) := by
    induction h.costs with
    | nil => simp
    | cons c costs ih =>
      rw [List.map_cons, List.sum_cons, ih, droppedCents]
      simp only [List.map_cons, List.sum_cons]
      push_cast
      ring
  rw [SpendHistory.shortfall, hdropped, SpendHistory.total, SpendHistory.cents]
  push_cast
  ring

theorem SpendHistory.neg_shortfall_le (hr : 0 ≤ h.restored) : -h.shortfall ≤ 1 / 2 := by
  have hdropped : 0 ≤ (h.costs.map fun c : ℚ≥0 => droppedCents c).sum := by
    refine List.sum_nonneg fun x hx => ?_
    obtain ⟨c, -, rfl⟩ := List.mem_map.1 hx
    exact sub_nonneg.2 (costCents_le c.2)
  have hrestored := restoreCents_le hr
  rw [SpendHistory.shortfall]
  linarith

theorem SpendHistory.wrapped (hr : 0 ≤ h.restored) (hwrap : 2 ^ 64 ≤ h.cents) :
    ((h.cents % 2 ^ 64 : Nat) : ℚ) + 2 ≤ h.total * 100 := by
  have hmod : h.cents % 2 ^ 64 + 2 ^ 64 ≤ h.cents := by omega
  have hcast : ((h.cents % 2 ^ 64 : Nat) : ℚ) + 2 ^ 64 ≤ h.cents := by exact_mod_cast hmod
  have hneg := h.neg_shortfall_le hr
  rw [h.shortfall_eq] at hneg
  linarith

end

/-- The counters are true to the sums exactly when the dropped fractions of a cent stay small. -/
theorem spend_law_iff_fits (p : String) (events : List SpendEvent) : SpendLaw p events ↔ (history p events).Fits := by
  have hs := counted_run p events
  have htotal := total_history p events
  have hrestarts := restarts_history p events
  have hneg := (history p events).neg_shortfall_le hs.nonneg
  have hshort := (history p events).shortfall_eq
  have hspent : (SpendState.run events).metrics.currentProviderCostUsd p =
      ((history p events).cents % 2 ^ 64 : Nat) / 100 := by
    rw [SpendMetrics.currentProviderCostUsd, hs.counter]
  have hcount : ((events.countP (·.isRestart) : Nat) : ℚ) = (history p events).restarts := by rw [hrestarts]
  generalize history p events = h at *
  constructor
  · rintro ⟨hcounted, hskipped, -⟩
    rw [hspent, hcount, ← htotal, abs_lt] at hcounted
    have hgate : ∀ limitUsd, 0 ≤ limitUsd → limitUsd + 1 / 100 ≤ h.total →
        limitUsd ≤ ((h.cents % 2 ^ 64 : Nat) : ℚ) / 100 := by
      intro limitUsd hlimit hle
      rw [← hspent]
      exact hskipped limitUsd hlimit (htotal ▸ hle)
    have hlt : h.cents < 2 ^ 64 := by
      by_contra hwrap
      have hfar := h.wrapped hs.nonneg (not_lt.1 hwrap)
      generalize h.cents % 2 ^ 64 = m at hfar hgate
      have hm : (0 : ℚ) ≤ m := Nat.cast_nonneg _
      have hlimit := hgate (h.total - 1 / 100) (by linarith) (by linarith)
      linarith
    rw [Nat.mod_eq_of_lt hlt] at hcounted hgate
    refine ⟨⟨?_, fun hfirst => ?_⟩, hlt⟩
    · by_cases hsmall : h.total < 1 / 100
      · have hcents : (0 : ℚ) ≤ h.cents := Nat.cast_nonneg _
        linarith
      · have hlimit := hgate (h.total - 1 / 100) (by linarith) (by linarith)
        linarith
    · rw [hfirst, Nat.cast_zero] at hcounted
      linarith
  · rintro ⟨⟨hle, hlt⟩, hcounter⟩
    rw [Nat.mod_eq_of_lt hcounter] at hspent
    have herror : |((h.cents : Nat) : ℚ) / 100 - h.total| < (1 + h.restarts) / 100 := by
      have hrest : (0 : ℚ) ≤ h.restarts := Nat.cast_nonneg _
      rw [abs_lt]
      refine ⟨?_, by linarith⟩
      rcases Nat.eq_zero_or_pos h.restarts with hfirst | hpos
      · have := hlt hfirst
        linarith
      · have hone : (1 : ℚ) ≤ h.restarts := by exact_mod_cast hpos
        linarith
    refine ⟨?_, fun limitUsd _ hreach => ?_, ?_⟩
    · rwa [hspent, hcount, ← htotal]
    · rw [SpendState.budgetSkipped, hspent]
      rw [← htotal] at hreach
      linarith
    · rwa [hspent, hcount, hs.durable]

/-- Two responses of nine tenths of a cent are spent, and none of it is counted. -/
theorem small_costs_dropped : ¬ SpendLaw "openai" [.addCost "openai" (9 / 1000) ⟨1754352000, by decide⟩,
      .addCost "openai" (9 / 1000) ⟨1754352000, by decide⟩] := by
  intro h
  exact absurd h.counted (by decide +kernel)

end ObeyGateway.Budgets
