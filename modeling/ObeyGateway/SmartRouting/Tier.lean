import Mathlib.Data.Rat.Defs
import Mathlib.Tactic.NormNum

/-!
# Scores and tiers

`smart_routing/tier.rs` and `decision_engine.rs`. A complexity score is a number of the unit interval; the decision
engine scales it by a threshold and compares it with two boundaries.
-/

namespace ObeyGateway.SmartRouting

inductive SmartRoutingTier
  | fast | balanced | powerful
deriving DecidableEq

inductive ClassifierUsed
  | heuristic | ml | llm | composite | jev | laya
deriving DecidableEq

inductive TaskType
  | codeGeneration | mathReasoning | creativeWriting | factualQA | toolUse | summarization | general
deriving DecidableEq

/-- The operations on `f64` scores; `lit` rounds a decimal. -/
structure Scores (F : Type) where
  lit : ℚ → F
  add : F → F → F
  sub : F → F → F
  mul : F → F → F
  lt : F → F → Bool
  le : F → F → Bool
  isNan : F → Bool
  isFinite : F → Bool
  isNan_lit : ∀ q, isNan (lit q) = false
  le_lit : ∀ {p q}, p ≤ q → le (lit p) (lit q) = true
  le_of_not_lt : ∀ {x y}, isNan x = false → isNan y = false → lt x y = false → le y x = true

variable {F : Type} (A : Scores F)

namespace Scores

def clamp (value lo hi : F) : F :=
  let value := if A.lt value lo then lo else value
  if A.lt hi value then hi else value

/-- `(0.0..=1.0).contains(&value)` -/
def inUnit (value : F) : Bool := A.le (A.lit 0) value && A.le value (A.lit 1)

theorem inUnit_lit {q : ℚ} (h0 : 0 ≤ q) (h1 : q ≤ 1) : A.inUnit (A.lit q) = true := by
  simp [inUnit, A.le_lit h0, A.le_lit h1]

variable {A} in
theorem inUnit_clamp {value : F} (hvalue : A.isNan value = false) :
    A.inUnit (A.clamp value (A.lit 0) (A.lit 1)) = true := by
  unfold clamp
  by_cases hlo : A.lt value (A.lit 0)
  · simp only [hlo, if_true]
    split_ifs
    · exact A.inUnit_lit (by norm_num) (le_refl _)
    · exact A.inUnit_lit (le_refl _) (by norm_num)
  · rw [Bool.not_eq_true] at hlo
    have h0 : A.le (A.lit 0) value = true := A.le_of_not_lt hvalue (A.isNan_lit 0) hlo
    simp only [hlo, Bool.false_eq_true, if_false]
    split_ifs with hhi
    · exact A.inUnit_lit (by norm_num) (le_refl _)
    · rw [Bool.not_eq_true] at hhi
      have h1 : A.le value (A.lit 1) = true := A.le_of_not_lt (A.isNan_lit 1) hvalue hhi
      simp [inUnit, h0, h1]

/-- What is neither a NaN nor finite is an infinity. -/
def normalize (value : F) : F :=
  if A.isNan value then A.lit (1 / 2)
  else if !A.isFinite value then if A.lt (A.lit 0) value then A.lit 1 else A.lit 0
  else A.clamp value (A.lit 0) (A.lit 1)

theorem inUnit_normalize (value : F) : A.inUnit (A.normalize value) = true := by
  unfold normalize
  split_ifs with hnan hfinite hpos
  · exact A.inUnit_lit (by norm_num) (by norm_num)
  · exact A.inUnit_lit (by norm_num) (le_refl _)
  · exact A.inUnit_lit (le_refl _) (by norm_num)
  · exact inUnit_clamp (by simpa using hnan)

end Scores

structure ComplexityScore where
  value : F
  unit : A.inUnit value = true

def ComplexityScore.new (value : F) : ComplexityScore A := ⟨A.normalize value, A.inUnit_normalize value⟩

structure TierBoundaries (F : Type) where
  fastMax : F
  balancedMax : F
deriving DecidableEq

def TierBoundaries.default : TierBoundaries F := ⟨A.lit (33 / 100), A.lit (66 / 100)⟩

structure Decision where
  score : ComplexityScore A
  adjustedScore : ComplexityScore A
  tier : SmartRoutingTier

namespace DecisionEngine

def normalizeThreshold (threshold : F) : F :=
  if A.isFinite threshold then A.clamp threshold (A.lit 0) (A.lit 1) else A.lit (1 / 2)

def adjustScore (score : ComplexityScore A) (threshold : F) : ComplexityScore A :=
  let threshold := normalizeThreshold A threshold
  .new A (A.mul score.value (A.add (A.lit 1) (A.sub threshold (A.lit (1 / 2)))))

def normalizeBoundaries (boundaries : TierBoundaries F) : TierBoundaries F :=
  if A.isFinite boundaries.fastMax && A.isFinite boundaries.balancedMax && A.lt (A.lit 0) boundaries.fastMax &&
      A.lt boundaries.fastMax boundaries.balancedMax && A.lt boundaries.balancedMax (A.lit 1) then boundaries
  else .default A

def decide (score : ComplexityScore A) (boundaries : TierBoundaries F) (costQualityThreshold : F) : Decision A :=
  let adjustedScore := adjustScore A score costQualityThreshold
  let boundaries := normalizeBoundaries A boundaries
  let tier :=
    if A.lt adjustedScore.value boundaries.fastMax then .fast
    else if A.le adjustedScore.value boundaries.balancedMax then .balanced
    else .powerful
  ⟨score, adjustedScore, tier⟩

end DecisionEngine

end ObeyGateway.SmartRouting
