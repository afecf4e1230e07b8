import ObeyGateway.Time

/-!
# What a response costs

Prices and costs, `f64` in the source, are exact rationals in USD. `computeActualCost` prices the usage of a
response; the spend of a provider is kept in whole cents (`Metrics::add_cost`), so that the fraction of a cent
of every single response is lost to the budget gate (`le_charged_iff`).
-/

namespace ObeyGateway

/-- The fields of `ProviderModel` that routing reads. -/
structure ProviderModel where
  provider : String
  model : String
  priority : Nat
  costPerMillionInputTokens : ℚ
  costPerMillionOutputTokens : ℚ
  costPerMillionCacheReadInputTokens : Option ℚ
  costPerMillionCacheCreationInputTokens : Option ℚ
  costPerMillionReasoningTokens : Option ℚ
  contextWindow : Nat
deriving DecidableEq

namespace ProviderModel
variable (m : ProviderModel)

def totalCost : ℚ := m.costPerMillionInputTokens + m.costPerMillionOutputTokens

def totalCostWithHitRate (assumedHitRate : Option ℚ) : ℚ :=
  let hitRate := max 0 (min (assumedHitRate.getD 0) 1)
  if hitRate = 0 then m.costPerMillionInputTokens + m.costPerMillionOutputTokens
  else
    let readPrice := m.costPerMillionCacheReadInputTokens.getD m.costPerMillionInputTokens
    let writePrice := m.costPerMillionCacheCreationInputTokens.getD m.costPerMillionInputTokens
    let effectiveInput := readPrice * hitRate + writePrice * (1 - hitRate)
    effectiveInput + m.costPerMillionOutputTokens

def sortCost (assumedHitRate : Option ℚ) : ℚ :=
  match assumedHitRate with
  | some hitRate => m.totalCostWithHitRate (some hitRate)
  | none => m.totalCost

structure NonNeg : Prop where
  input : 0 ≤ m.costPerMillionInputTokens
  output : 0 ≤ m.costPerMillionOutputTokens
  read : ∀ price ∈ m.costPerMillionCacheReadInputTokens, 0 ≤ price
  creation : ∀ price ∈ m.costPerMillionCacheCreationInputTokens, 0 ≤ price

end ProviderModel

/-- The token counts of a usage object; `thinkingTokens` are those of the Anthropic shape, which come on top of the
output. -/
structure Usage where
  promptTokens : Nat
  completionTokens : Nat
  totalTokens : Nat
  cacheReadInputTokens : Nat
  cacheCreationInputTokens : Nat
  thinkingTokens : Option Nat
deriving DecidableEq

def Usage.cachedPrompt (usage : Usage) : Nat :=
  min (usage.cacheReadInputTokens + usage.cacheCreationInputTokens) (2 ^ 64 - 1)

def reasoningCost (m : ProviderModel) (reasoningTokens : Nat) : ℚ :=
  m.costPerMillionReasoningTokens.getD m.costPerMillionOutputTokens * reasoningTokens / 1000000

def computeActualCost (m : ProviderModel) (usage : Usage) : ℚ :=
  let readPrice := m.costPerMillionCacheReadInputTokens.getD m.costPerMillionInputTokens
  let writePrice := m.costPerMillionCacheCreationInputTokens.getD m.costPerMillionInputTokens
  let reasoningCharge := match usage.thinkingTokens with
    | some tokens => reasoningCost m tokens
    | none => 0
  if usage.cachedPrompt = 0 then
    usage.promptTokens * m.costPerMillionInputTokens / 1000000 +
      usage.completionTokens * m.costPerMillionOutputTokens / 1000000 + reasoningCharge
  else
    let uncached := usage.promptTokens - usage.cachedPrompt
    (uncached * m.costPerMillionInputTokens + usage.cacheReadInputTokens * readPrice +
      usage.cacheCreationInputTokens * writePrice +
      usage.completionTokens * m.costPerMillionOutputTokens) / 1000000 + reasoningCharge

/-- `(cost * 100.0) as u64` -/
def costCents (cost : ℚ) : Nat := min ⌊cost * 100⌋.toNat (2 ^ 64 - 1)

structure SpendMetrics where
  costByProviderCents : String → Nat

namespace SpendMetrics
variable (metrics : SpendMetrics)

def addCost (provider : String) (cost : ℚ) : SpendMetrics :=
  ⟨Function.update metrics.costByProviderCents provider
    ((metrics.costByProviderCents provider + costCents cost) % 2 ^ 64)⟩

def resetProviderSpend (provider : String) : SpendMetrics :=
  ⟨Function.update metrics.costByProviderCents provider 0⟩

def currentProviderCostUsd (provider : String) : ℚ := metrics.costByProviderCents provider / 100

end SpendMetrics

theorem costCents_le {cost : ℚ} (h : 0 ≤ cost) : (costCents cost : ℚ) ≤ cost * 100 := by
  have hfloor : 0 ≤ ⌊cost * 100⌋ := Int.floor_nonneg.2 (by positivity)
  calc (costCents cost : ℚ) ≤ (⌊cost * 100⌋.toNat : ℚ) := by exact_mod_cast min_le_left _ _
    _ = (⌊cost * 100⌋ : ℚ) := by exact_mod_cast Int.toNat_of_nonneg hfloor
    _ ≤ cost * 100 := Int.floor_le _

namespace ProviderModel
variable {m : ProviderModel}

theorem NonNeg.sortCost (h : m.NonNeg) (rate : Option ℚ) : 0 ≤ m.sortCost rate := by
  have hbase : 0 ≤ m.costPerMillionInputTokens + m.costPerMillionOutputTokens := add_nonneg h.input h.output
  rcases rate with _ | rate
  · exact hbase
  simp only [ProviderModel.sortCost, totalCostWithHitRate, Option.getD_some]
  split
  · exact hbase
  · have hrate : max 0 (min rate 1) ≤ 1 := max_le zero_le_one (min_le_right _ _)
    have hread : 0 ≤ m.costPerMillionCacheReadInputTokens.getD m.costPerMillionInputTokens := by
      cases hr : m.costPerMillionCacheReadInputTokens with
      | none => exact h.input
      | some price => exact h.read price hr
    have hwrite : 0 ≤ m.costPerMillionCacheCreationInputTokens.getD m.costPerMillionInputTokens := by
      cases hw : m.costPerMillionCacheCreationInputTokens with
      | none => exact h.input
      | some price => exact h.creation price hw
    have h₁ := mul_nonneg hread (le_max_left 0 (min rate 1))
    have h₂ := mul_nonneg hwrite (sub_nonneg.2 hrate)
    linarith [h.output]

end ProviderModel

end ObeyGateway
