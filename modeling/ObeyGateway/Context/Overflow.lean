import ObeyGateway.SmartRouting.ContextFilter

/-!
# The context gate

`context/overflow.rs`. The gate compares a token count with the window less the reserved output and a safety margin.
The routing lists a model to reduce for by the window alone and the least margin
(`ContextRequirement.fromGateEstimate`), so that the two decide differently on the windows in between
(`listed_iff_not_fits_iff`).
-/

namespace ObeyGateway.Context
open Compression (TokenCounter)
open SmartRouting (TaggedModel ContextRequirement reduceCandidatesByContextCapacity)

structure BudgetCheck where
  estimate : Nat
  budget : Nat
  fits : Bool
  reservedOutputTokens : Nat
  safetyMarginTokens : Nat

namespace ContextBudgetGate

def safetyMargin (contextWindow : Nat) : Nat := max (contextWindow / 20) 1024

def inputBudget (contextWindow maxTokens : Nat) : Nat := contextWindow - maxTokens - safetyMargin contextWindow

def check (counter : TokenCounter) (request : Models.OpenAIRequest) (contextWindow maxTokens : Nat) :
    BudgetCheck where
  estimate := counter.countRequest request
  budget := inputBudget contextWindow maxTokens
  fits := counter.countRequest request ≤ inputBudget contextWindow maxTokens
  reservedOutputTokens := maxTokens
  safetyMarginTokens := safetyMargin contextWindow

end ContextBudgetGate

open ContextBudgetGate

/-- `max_tokens` of the request or 0 -/
def maxTokens (request : Models.OpenAIRequest) : Nat := (request.maxTokens.map UInt32.toNat).getD 0

section
variable {counter : TokenCounter} {request : Models.OpenAIRequest}

theorem maxTokens_lt (request : Models.OpenAIRequest) : maxTokens request < 2 ^ 32 := by
  unfold maxTokens
  cases request.maxTokens with
  | none => simp
  | some tokens => exact tokens.toNat_lt

theorem check_fits_eq_false_iff {contextWindow tokens : Nat} : (check counter request contextWindow tokens).fits = false ↔
      contextWindow < counter.countRequest request + tokens + safetyMargin contextWindow := by
  have hpos := counter.countRequest_pos request
  have hfits : (check counter request contextWindow tokens).fits = false ↔
      ¬ counter.countRequest request ≤ inputBudget contextWindow tokens := decide_eq_false_iff_not
  rw [hfits]
  unfold inputBudget
  omega

theorem estimatedTokens_fromGateEstimate (counter : TokenCounter) (request : Models.OpenAIRequest) :
    (ContextRequirement.fromGateEstimate counter request).estimatedTokens =
      counter.countRequest request + maxTokens request + 1024 := by
  have hcount := counter.countRequest_lt request
  have hmax := maxTokens_lt request
  rw [ContextRequirement.estimatedTokens_eq]
  simp only [ContextRequirement.fromGateEstimate]
  unfold maxTokens at *
  omega

theorem mem_reduceCandidates_iff {candidates : List TaggedModel} {m : TaggedModel} (hm : m ∈ candidates)
    (hwindow : 1 ≤ m.contextWindow) :
    m ∈ (reduceCandidatesByContextCapacity candidates (.fromGateEstimate counter request)).models ↔
      m.contextWindow < counter.countRequest request + maxTokens request + 1024 := by
  simp only [reduceCandidatesByContextCapacity, List.mem_filter, hm, true_and, Bool.and_eq_true, decide_eq_true_eq,
    estimatedTokens_fromGateEstimate]
  omega

end

/-- The routing and the gate agree on a model unless its window lies between the two margins: large enough for the
least margin, but not for a twentieth of the window. -/
theorem listed_iff_not_fits_iff (counter : TokenCounter) (request : Models.OpenAIRequest)
    {candidates : List TaggedModel} {m : TaggedModel} (hm : m ∈ candidates) (hwindow : 1 ≤ m.contextWindow) :
    (m ∈ (reduceCandidatesByContextCapacity candidates (.fromGateEstimate counter request)).models ↔
        (check counter request m.contextWindow (maxTokens request)).fits = false) ↔
      ¬ (counter.countRequest request + maxTokens request + 1024 ≤ m.contextWindow ∧
        m.contextWindow < counter.countRequest request + maxTokens request + m.contextWindow / 20) := by
  rw [mem_reduceCandidates_iff hm hwindow, check_fits_eq_false_iff]
  unfold safetyMargin
  omega

def oneToken : TokenCounter := ⟨Json.wireNumbers, fun _ text => min text.length 1⟩

def longAnswer : Models.OpenAIRequest where
  model := "x"
  messages :=
    [⟨"user", .string "a", [], rfl, Json.nodupKeys_object_nil, List.not_mem_nil, List.not_mem_nil⟩]
  stream := false
  temperature := none
  maxTokens := some 122000
  extra := []
  extra_nodup := Json.nodupKeys_object_nil

def largeModel : TaggedModel where
  provider := "openai"
  model := "x"
  priority := 100
  costPerMillionInputTokens := 1
  costPerMillionOutputTokens := 2
  costPerMillionCacheReadInputTokens := none
  costPerMillionCacheCreationInputTokens := none
  costPerMillionReasoningTokens := none
  contextWindow := 128000
  tier := none
  specializations := []

theorem listed_iff_not_fits_iff_longAnswer :
    (largeModel ∈ (reduceCandidatesByContextCapacity [largeModel] (.fromGateEstimate oneToken longAnswer)).models ↔
        (check oneToken longAnswer largeModel.contextWindow (maxTokens longAnswer)).fits = false) ↔
      ¬ (oneToken.countRequest longAnswer + maxTokens longAnswer + 1024 ≤ largeModel.contextWindow ∧
        largeModel.contextWindow <
          oneToken.countRequest longAnswer + maxTokens longAnswer + largeModel.contextWindow / 20) :=
  listed_iff_not_fits_iff oneToken longAnswer (List.mem_singleton_self largeModel) (by decide)

/-- The whole requirement is below 124000 tokens, but the gate keeps a margin of 6400. -/
theorem not_listed_not_fits :
    largeModel ∉ (reduceCandidatesByContextCapacity [largeModel] (.fromGateEstimate oneToken longAnswer)).models ∧
      (check oneToken longAnswer largeModel.contextWindow (maxTokens longAnswer)).fits = false := by
  have hcount : oneToken.countRequest longAnswer = 9 := by decide +kernel
  have hmax : maxTokens longAnswer = 122000 := by decide +kernel
  constructor
  · rw [mem_reduceCandidates_iff (List.mem_singleton_self _) (by decide), hcount, hmax]
    decide
  · rw [check_fits_eq_false_iff, hcount, hmax]
    decide

end ObeyGateway.Context
