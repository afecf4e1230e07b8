import ObeyGateway.Lib.Firsts
import ObeyGateway.Lib.SortBy
import ObeyGateway.SmartRouting.BudgetController
import ObeyGateway.SmartRouting.ContextFilter

/-!
# Smart routing

`smart_routing/mod.rs`. The classifiers, the cache, the budget, the optimizer and the experiment are injected; what they
answer in the course of one plan is a function of what they are asked.
-/

namespace ObeyGateway.SmartRouting

structure ModelGroup where
  name : String
  models : List TaggedModel

structure PinnedRoutingContext where
  provider : Option String := none
  model : Option String := none
  additionalInputTokens : Nat := 0
  reservedOutputTokens : Nat := 0
  providerOverheadTokens : Nat := 0
  safetyMarginTokens : Nat := 0
  allowUnknownContextWindow : Bool := false

structure SmartRoutingInput where
  requestId : String
  request : Models.OpenAIRequest
  modelGroup : ModelGroup
  pinnedContext : PinnedRoutingContext

inductive ClassifierFailure
  | unavailable | timeout | invalidOutput | backend | lowConfidence | noJevAtEndpoint
deriving DecidableEq

inductive ClassifierMode
  | heuristic | ml | llm | composite | jev | laya
deriving DecidableEq

inductive SemanticCacheFailure
  | unavailable | backend
deriving DecidableEq

section
variable (F : Type)

inductive JevFallbackPolicy
  | fallback | blend

structure JevTrustOverride where
  minConfidence : F
  minTaskConfidence : F
  fallbackPolicy : JevFallbackPolicy

structure HeuristicWeights where
  messageCount : F
  tokenEstimate : F
  codeBlocks : F
  toolCalls : F
  mathExpressions : F
  reasoningKeywords : F

structure CompositeWeights where
  heuristic : F
  ml : F

structure SmartRoutingSemanticCacheConfig where
  enabled : Bool
  similarityThreshold : F
  minQualityScore : F

structure SmartRoutingOverride where
  enabled : Option Bool
  classifier : Option ClassifierMode
  costQualityThreshold : Option F
  tierBoundaries : Option (TierBoundaries F)
  heuristicWeights : Option (HeuristicWeights F)
  compositeWeights : Option (CompositeWeights F)
  jevTrust : Option (JevTrustOverride F)
  allowUnknownContextWindow : Option Bool
  reservedOutputTokens : Option Nat
  providerOverheadTokens : Option Nat
  contextSafetyMarginTokens : Option Nat
  semanticCache : Option (SmartRoutingSemanticCacheConfig F)

structure RoutingPolicySnapshot where
  enabled : Bool
  classifier : ClassifierMode
  jevTrust : Option (JevTrustOverride F)
  costQualityThreshold : F
  tierBoundaries : TierBoundaries F
  heuristicWeights : Option (HeuristicWeights F)
  compositeWeights : Option (CompositeWeights F)
  semanticCache : SmartRoutingSemanticCacheConfig F

/-- `jev` and `laya` are what `trust_override` reads of the two. -/
structure SmartRoutingConfig where
  enabled : Bool
  classifier : ClassifierMode
  jev : Option (JevTrustOverride F)
  laya : Option (JevTrustOverride F)
  costQualityThreshold : F
  tierBoundaries : TierBoundaries F
  heuristicWeights : Option (HeuristicWeights F)
  compositeWeights : Option (CompositeWeights F)
  modelGroupOverrides : List (String × SmartRoutingOverride F)
  allowUnknownContextWindow : Bool
  reservedOutputTokens : Nat
  providerOverheadTokens : Nat
  contextSafetyMarginTokens : Nat
  semanticCache : SmartRoutingSemanticCacheConfig F
  budgetLimits : List (String × BudgetLimits F)

end

section
variable {F : Type}

def SmartRoutingConfig.effectiveForGroup (config : SmartRoutingConfig F) (modelGroup : String) :
    SmartRoutingConfig F :=
  match Assoc.get config.modelGroupOverrides modelGroup with
  | none => { config with modelGroupOverrides := [] }
  | some o =>
    { config with
      modelGroupOverrides := []
      enabled := o.enabled.getD config.enabled
      classifier := o.classifier.getD config.classifier
      costQualityThreshold := o.costQualityThreshold.getD config.costQualityThreshold
      tierBoundaries := o.tierBoundaries.getD config.tierBoundaries
      heuristicWeights := o.heuristicWeights <|> config.heuristicWeights
      compositeWeights := o.compositeWeights <|> config.compositeWeights
      jev := o.jevTrust <|> config.jev
      laya := o.jevTrust <|> config.laya
      allowUnknownContextWindow := o.allowUnknownContextWindow.getD config.allowUnknownContextWindow
      reservedOutputTokens := o.reservedOutputTokens.getD config.reservedOutputTokens
      providerOverheadTokens := o.providerOverheadTokens.getD config.providerOverheadTokens
      contextSafetyMarginTokens := o.contextSafetyMarginTokens.getD config.contextSafetyMarginTokens
      semanticCache := o.semanticCache.getD config.semanticCache }

def applyPolicySnapshot (config : SmartRoutingConfig F) (policy : RoutingPolicySnapshot F) : SmartRoutingConfig F :=
  { config with
    enabled := policy.enabled
    classifier := policy.classifier
    costQualityThreshold := policy.costQualityThreshold
    tierBoundaries := policy.tierBoundaries
    heuristicWeights := policy.heuristicWeights
    compositeWeights := policy.compositeWeights
    jev := policy.jevTrust <|> config.jev
    semanticCache := policy.semanticCache }

variable (A : Scores F)

def CompositeWeights.default : CompositeWeights F := ⟨A.lit (3 / 10), A.lit (7 / 10)⟩

structure HeuristicAssessment where
  score : ComplexityScore A
  taskType : TaskType
  tokenEstimate : Nat

structure Classification where
  score : ComplexityScore A
  taskType : TaskType
  classifier : ClassifierUsed
  tokenEstimate : Nat
  confidence : Option F
  resolvedModel : Option String
  fallbackReason : Option ClassifierFailure
  blended : Bool
  classifierLatencyMs : Option F

structure ClassifierOutput (F : Type) where
  score : F
  taskType : Option TaskType
  confidence : Option F
  resolvedModel : Option String
  blended : Bool

structure ClassifierInput where
  request : Models.OpenAIRequest
  modelGroup : ModelGroup
  pinnedContext : PinnedRoutingContext
  heuristicScore : ComplexityScore A
  heuristicTaskType : TaskType
  jevTrust : Option (JevTrustOverride F)

/-- What `classify` answers and the milliseconds it took. -/
abbrev OptionalClassifier := ClassifierInput A → Except ClassifierFailure (ClassifierOutput F) × F

structure RoutingDecision where
  score : ComplexityScore A
  adjustedScore : ComplexityScore A
  tier : SmartRoutingTier
  taskType : TaskType
  classifier : ClassifierUsed
  escalated : Bool
  escalationCount : Nat
  cacheHit : Bool
  budgetDowngraded : Bool
  contextFiltered : Bool
  classifierConfidence : Option F
  resolvedModel : Option String

structure SemanticCacheHit where
  entryId : Nat
  similarity : ComplexityScore A
  qualityScore : ComplexityScore A
  decision : RoutingDecision A

abbrev SemanticRoutingCache :=
  Models.OpenAIRequest → ModelGroup → PinnedRoutingContext →
    Except SemanticCacheFailure (Option (SemanticCacheHit A))

/-- `check`, of the classification and the configured limits besides -/
abbrev BudgetPolicy :=
  Models.OpenAIRequest → ModelGroup → PinnedRoutingContext → Classification A → Option (BudgetLimits F) →
    BudgetDecision

structure SmartRouter where
  config : SmartRoutingConfig F
  heuristic : Option (HeuristicWeights F) → List Models.Message → HeuristicAssessment A
  ml : Option (OptionalClassifier A)
  llm : Option (OptionalClassifier A)
  systemone : Option (OptionalClassifier A)
  optimizer : Option (String → TaskType → F → F)
  budget : Option (BudgetPolicy A)
  cache : Option (SemanticRoutingCache A)
  abTest : Option (String → String → Option (RoutingPolicySnapshot F))

structure RoutingDiagnostics (F : Type) where
  classifierConfigured : ClassifierMode
  fallbackReason : Option ClassifierFailure
  blended : Bool
  classifierLatencyMs : Option F
  candidates : Nat
  overflow : Nat

structure CandidatePlan where
  decision : RoutingDecision A
  candidates : List TaggedModel
  overflow : List TaggedModel
  excludedForContext : Nat
  estimatedContextTokens : Nat
  bypassed : Bool
  diagnostics : RoutingDiagnostics F

inductive RoutingPlanOutcome
  | cacheHit (hit : SemanticCacheHit A)
  | route (plan : CandidatePlan A)
  | budgetRejected (reason : BudgetRejectionReason)

inductive RoutingPlanningError
  | disabledForModelGroup
  | noCandidates
  | contextCapacity (excludedCount : Nat) (largestKnownContext : Option Nat) (estimatedRequirement : Nat)

structure TierFilterResult where
  modelGroup : ModelGroup
  appliedTier : Option SmartRoutingTier
  bypassed : Bool

def tierRank : SmartRoutingTier → Nat
  | .fast => 0
  | .balanced => 1
  | .powerful => 2

def tierFallbackOrder : SmartRoutingTier → List SmartRoutingTier
  | .fast => [.fast, .balanced, .powerful]
  | .balanced => [.balanced, .powerful, .fast]
  | .powerful => [.powerful, .balanced, .fast]

def oneStepLower : SmartRoutingTier → SmartRoutingTier
  | .powerful => .balanced
  | .balanced => .fast
  | .fast => .fast

def applyBudgetLimit (selected : SmartRoutingTier) : BudgetDecision → SmartRoutingTier × Bool
  | .downgrade maximumTier =>
    let capped :=
      if tierRank maximumTier < tierRank (oneStepLower selected) then oneStepLower selected
      else if tierRank maximumTier < tierRank selected then maximumTier
      else selected
    (capped, capped ≠ selected)
  | _ => (selected, false)

def ofTier (models : List TaggedModel) (tier : SmartRoutingTier) (taskType : TaskType) : List TaggedModel :=
  let models := models.filter (·.tier = some tier)
  if models.any (taskType ∈ ·.specializations) then models.filter (taskType ∈ ·.specializations) else models

def filterByTier (modelGroup : ModelGroup) (selectedTier : SmartRoutingTier) (taskType : TaskType)
    (pinnedModel : Option String) : TierFilterResult :=
  if pinnedModel.isSome || modelGroup.models.all (·.tier.isNone) then ⟨modelGroup, none, true⟩
  else
    match (tierFallbackOrder selectedTier).find? fun tier => modelGroup.models.any (·.tier = some tier) with
    | none => ⟨modelGroup, none, true⟩
    | some tier => ⟨{ modelGroup with models := ofTier modelGroup.models tier taskType }, some tier, false⟩

/-- A stable sort by the key `(!pinned_match, !specialist)` -/
def preferCandidates (candidates : List TaggedModel) (taskType : TaskType) (pinned : PinnedRoutingContext) :
    List TaggedModel :=
  let pinnedMatch (m : TaggedModel) : Bool :=
    (pinned.provider.isSome || pinned.model.isSome) && pinned.provider.all (· = m.provider) &&
      pinned.model.all (· = m.model)
  let specialist (m : TaggedModel) : Bool := taskType ∈ m.specializations
  SortBy.sortBy (fun a b => (compare (!pinnedMatch a) (!pinnedMatch b)).then
    (compare (!specialist a) (!specialist b))) candidates

end

section
variable {F : Type} {A : Scores F}

def compositeScore (heuristic ml : ComplexityScore A) (weights : CompositeWeights F) : ComplexityScore A :=
  .new A (A.add (A.mul heuristic.value weights.heuristic) (A.mul ml.value weights.ml))

def fallBack (heuristic : Classification A) (reason : ClassifierFailure) (latencyMs : Option F) : Classification A :=
  { heuristic with fallbackReason := some reason, classifierLatencyMs := latencyMs }

def classifyOptional (classifier : Option (OptionalClassifier A)) (classifierUsed : ClassifierUsed)
    (input : SmartRoutingInput) (heuristic : Classification A) (policy : SmartRoutingConfig F) : Classification A :=
  match classifier with
  | none => fallBack heuristic .unavailable none
  | some classify =>
    let answer := classify
      { request := input.request
        modelGroup := input.modelGroup
        pinnedContext := input.pinnedContext
        heuristicScore := heuristic.score
        heuristicTaskType := heuristic.taskType
        jevTrust := policy.jev <|> policy.laya }
    match answer.1 with
    | .error reason => fallBack heuristic reason (some answer.2)
    | .ok output =>
      if A.isFinite output.score && A.inUnit output.score then
        { score := .new A output.score
          taskType := output.taskType.getD heuristic.taskType
          classifier := classifierUsed
          tokenEstimate := heuristic.tokenEstimate
          confidence := output.confidence
          resolvedModel := output.resolvedModel
          fallbackReason := none
          blended := output.blended
          classifierLatencyMs := some answer.2 }
      else fallBack heuristic .invalidOutput (some answer.2)

namespace SmartRouter
variable (router : SmartRouter A) (input : SmartRoutingInput)

def policyFor : SmartRoutingConfig F :=
  let policy := router.config.effectiveForGroup input.modelGroup.name
  match router.abTest.bind fun abTest => abTest input.requestId input.modelGroup.name with
  | none => policy
  | some abPolicy => applyPolicySnapshot policy abPolicy

def heuristicAssessment (policy : SmartRoutingConfig F) : Except ClassifierFailure (HeuristicAssessment A) :=
  .ok (router.heuristic policy.heuristicWeights input.request.messages)

def heuristicClassification (policy : SmartRoutingConfig F) : Classification A :=
  match router.heuristicAssessment input policy with
  | .ok assessment =>
    { score := assessment.score
      taskType := assessment.taskType
      classifier := .heuristic
      tokenEstimate := assessment.tokenEstimate
      confidence := none
      resolvedModel := none
      fallbackReason := none
      blended := false
      classifierLatencyMs := none }
  | .error reason =>
    { score := .new A (A.lit (1 / 2))
      taskType := .general
      classifier := .heuristic
      tokenEstimate := 0
      confidence := none
      resolvedModel := none
      fallbackReason := some reason
      blended := false
      classifierLatencyMs := none }

def classifyWithPolicy (policy : SmartRoutingConfig F) : Classification A :=
  let heuristic := router.heuristicClassification input policy
  match policy.classifier with
  | .heuristic => heuristic
  | .ml => classifyOptional router.ml .ml input heuristic policy
  | .llm => classifyOptional router.llm .llm input heuristic policy
  | .jev => classifyOptional router.systemone .jev input heuristic policy
  | .laya => classifyOptional router.systemone .laya input heuristic policy
  | .composite =>
    let ml := classifyOptional router.ml .ml input heuristic policy
    if ml.fallbackReason.isSome then ml
    else
      { score := compositeScore heuristic.score ml.score (policy.compositeWeights.getD (.default A))
        taskType := heuristic.taskType
        classifier := .composite
        tokenEstimate := heuristic.tokenEstimate
        confidence := ml.confidence
        resolvedModel := ml.resolvedModel
        fallbackReason := none
        blended := ml.blended
        classifierLatencyMs := ml.classifierLatencyMs }

def classify : Classification A := router.classifyWithPolicy input (router.policyFor input)

def cacheLookup (policy : SmartRoutingConfig F) : Option (SemanticCacheHit A) :=
  if policy.semanticCache.enabled && input.pinnedContext.model.isNone then
    match router.cache with
    | none => none
    | some lookup =>
      match lookup input.request input.modelGroup input.pinnedContext with
      | .ok (some hit) =>
        if A.le policy.semanticCache.similarityThreshold hit.similarity.value &&
            A.le policy.semanticCache.minQualityScore hit.qualityScore.value then
          some { hit with decision := { hit.decision with cacheHit := true } }
        else none
      | _ => none
  else none

def checkBudget (classification : Classification A) : BudgetDecision :=
  match router.budget with
  | none => .allow
  | some check =>
    check input.request input.modelGroup input.pinnedContext classification
      (Assoc.get router.config.budgetLimits input.modelGroup.name)

end SmartRouter

def contextRequirement (policy : SmartRoutingConfig F) (input : SmartRoutingInput)
    (classification : Classification A) : ContextRequirement where
  inputTokens := satAdd classification.tokenEstimate input.pinnedContext.additionalInputTokens
  reservedOutputTokens :=
    max ((input.request.maxTokens.map UInt32.toNat).getD policy.reservedOutputTokens)
      input.pinnedContext.reservedOutputTokens
  providerOverheadTokens := max input.pinnedContext.providerOverheadTokens policy.providerOverheadTokens
  safetyMarginTokens := max input.pinnedContext.safetyMarginTokens policy.contextSafetyMarginTokens

def allowUnknown (policy : SmartRoutingConfig F) (input : SmartRoutingInput) : Bool :=
  input.pinnedContext.allowUnknownContextWindow || policy.allowUnknownContextWindow

namespace SmartRouter
variable (router : SmartRouter A) (input : SmartRoutingInput)

def decideTier (policy : SmartRoutingConfig F) (classification : Classification A) : Decision A :=
  let configuredThreshold := policy.costQualityThreshold
  let threshold := match router.optimizer with
    | none => configuredThreshold
    | some optimizer => optimizer input.modelGroup.name classification.taskType configuredThreshold
  DecisionEngine.decide A classification.score policy.tierBoundaries threshold

def candidatePlan (policy : SmartRoutingConfig F) (classification : Classification A)
    (budgetDecision : BudgetDecision) (eligible : EligibleModels) : CandidatePlan A :=
  let selected := router.decideTier input policy classification
  let limited := applyBudgetLimit selected.tier budgetDecision
  let tierFilter := filterByTier { input.modelGroup with models := eligible.models } limited.1
    classification.taskType input.pinnedContext.model
  let candidates :=
    if tierFilter.bypassed && input.pinnedContext.model.isSome then
      preferCandidates tierFilter.modelGroup.models classification.taskType input.pinnedContext
    else tierFilter.modelGroup.models
  let overflow :=
    if tierFilter.bypassed then []
    else Firsts.firsts TaggedModel.key (candidates.map TaggedModel.key) eligible.models
  { decision :=
      { score := selected.score
        adjustedScore := selected.adjustedScore
        tier := tierFilter.appliedTier.getD limited.1
        taskType := classification.taskType
        classifier := classification.classifier
        escalated := false
        escalationCount := 0
        cacheHit := false
        budgetDowngraded := limited.2
        contextFiltered := eligible.excludedCount > 0
        classifierConfidence := classification.confidence
        resolvedModel := classification.resolvedModel }
    candidates := candidates
    overflow := overflow
    excludedForContext := eligible.excludedCount
    estimatedContextTokens := eligible.estimatedRequirement
    bypassed := tierFilter.bypassed
    diagnostics :=
      { classifierConfigured := policy.classifier
        fallbackReason := classification.fallbackReason
        blended := classification.blended
        classifierLatencyMs := classification.classifierLatencyMs
        candidates := candidates.length
        overflow := overflow.length } }

def plan : Except RoutingPlanningError (RoutingPlanOutcome A) :=
  let policy := router.policyFor input
  if !policy.enabled then .error .disabledForModelGroup
  else
    match router.cacheLookup input policy with
    | some hit => .ok (.cacheHit hit)
    | none =>
      let classification := router.classifyWithPolicy input policy
      match router.checkBudget input classification with
      | .reject reason => .ok (.budgetRejected reason)
      | budgetDecision =>
        match filterByContextCapacity input.modelGroup.models (contextRequirement policy input classification)
            (allowUnknown policy input) with
        | .noCandidates _ _ _ => .error .noCandidates
        | .noSafeCandidate error =>
          .error (.contextCapacity error.excludedCount error.largestKnownContext error.estimatedRequirement)
        | .eligible eligible => .ok (.route (router.candidatePlan input policy classification budgetDecision eligible))

end SmartRouter

end

end ObeyGateway.SmartRouting
