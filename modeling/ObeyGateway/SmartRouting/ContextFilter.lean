import ObeyGateway.Compression.Payload
import ObeyGateway.Router.Cost
import ObeyGateway.SmartRouting.Tier

/-!
# Context capacity

`smart_routing/context_filter.rs`. A model with a known context window (`context_window > 0`) holds a request when the
window is at least the requirement.
-/

namespace ObeyGateway.SmartRouting

/-- `ProviderModel` with the fields that smart routing reads. -/
structure TaggedModel extends ProviderModel where
  tier : Option SmartRoutingTier
  specializations : List TaskType
deriving DecidableEq

def TaggedModel.key (m : TaggedModel) : String × String := (m.provider, m.model)

/-- `checked_add` of `u64` -/
def checkedAdd (a b : Nat) : Option Nat := if a + b < 2 ^ 64 then some (a + b) else none

structure ContextRequirement where
  inputTokens : Nat
  reservedOutputTokens : Nat
  providerOverheadTokens : Nat
  safetyMarginTokens : Nat

def ContextRequirement.estimatedTokens (r : ContextRequirement) : Nat :=
  (((checkedAdd r.inputTokens r.reservedOutputTokens).bind (checkedAdd · r.providerOverheadTokens)).bind
    (checkedAdd · r.safetyMarginTokens)).getD (2 ^ 64 - 1)

def ContextRequirement.fromGateEstimate (counter : Compression.TokenCounter) (request : Models.OpenAIRequest) :
    ContextRequirement where
  inputTokens := counter.countRequest request
  reservedOutputTokens := (request.maxTokens.map UInt32.toNat).getD 0
  providerOverheadTokens := 0
  safetyMarginTokens := 1024

structure EligibleModels where
  models : List TaggedModel
  excludedCount : Nat
  largestKnownContext : Option Nat
  estimatedRequirement : Nat

structure NoSafeCandidate where
  excludedCount : Nat
  largestKnownContext : Option Nat
  estimatedRequirement : Nat

inductive ContextFilterResult
  | eligible (eligible : EligibleModels)
  | noCandidates (excludedCount : Nat) (largestKnownContext : Option Nat) (estimatedRequirement : Nat)
  | noSafeCandidate (error : NoSafeCandidate)

structure ReduceCandidates where
  models : List TaggedModel
  largestKnownContext : Option Nat

def largestKnownContext (candidates : List TaggedModel) : Option Nat :=
  (candidates.filterMap fun m => if m.contextWindow > 0 then some m.contextWindow else none).max?

def contextSafe (estimatedRequirement : Nat) (allowUnknownContextWindow : Bool) (m : TaggedModel) : Bool :=
  if m.contextWindow = 0 then allowUnknownContextWindow else estimatedRequirement ≤ m.contextWindow

def reduceCandidatesByContextCapacity (candidates : List TaggedModel) (requirement : ContextRequirement) :
    ReduceCandidates where
  models := candidates.filter fun m => m.contextWindow > 0 && m.contextWindow < requirement.estimatedTokens
  largestKnownContext := largestKnownContext candidates

def filterByContextCapacity (candidates : List TaggedModel) (requirement : ContextRequirement)
    (allowUnknownContextWindow : Bool) : ContextFilterResult :=
  let estimatedRequirement := requirement.estimatedTokens
  let largest := largestKnownContext candidates
  if candidates.isEmpty then .noCandidates 0 largest estimatedRequirement
  else
    let models := candidates.filter (contextSafe estimatedRequirement allowUnknownContextWindow)
    let excludedCount := candidates.length - models.length
    if models.isEmpty then .noSafeCandidate ⟨excludedCount, largest, estimatedRequirement⟩
    else .eligible ⟨models, excludedCount, largest, estimatedRequirement⟩

theorem ContextRequirement.estimatedTokens_eq (r : ContextRequirement) : r.estimatedTokens =
    min (r.inputTokens + r.reservedOutputTokens + r.providerOverheadTokens + r.safetyMarginTokens) (2 ^ 64 - 1) := by
  unfold estimatedTokens checkedAdd
  split_ifs with hreserved
  · simp only [Option.bind_some]
    split_ifs with hoverhead
    · simp only [Option.bind_some]
      split_ifs with hmargin
      · simp only [Option.getD_some]
        omega
      · simp only [Option.getD_none]
        omega
    · simp only [Option.bind_none, Option.getD_none]
      omega
  · simp only [Option.bind_none, Option.getD_none]
    omega

theorem filterByContextCapacity_eligible {candidates : List TaggedModel} {requirement : ContextRequirement}
    {allow : Bool} {eligible : EligibleModels}
    (h : filterByContextCapacity candidates requirement allow = .eligible eligible) :
    eligible.models = candidates.filter (contextSafe requirement.estimatedTokens allow) ∧ eligible.models ≠ [] ∧
      eligible.estimatedRequirement = requirement.estimatedTokens := by
  simp only [filterByContextCapacity] at h
  split_ifs at h with hempty hnone
  injection h with h
  subst h
  exact ⟨rfl, by simpa using hnone, rfl⟩

theorem le_contextWindow_of_contextSafe {estimated : Nat} {allow : Bool} {m : TaggedModel}
    (h : contextSafe estimated allow m = true) (hknown : m.contextWindow ≠ 0) : estimated ≤ m.contextWindow := by
  rw [contextSafe, if_neg hknown] at h
  exact of_decide_eq_true h

end ObeyGateway.SmartRouting
