import ObeyGateway.Compression.Payload

/-!
# The compression pipeline

`compression/pipeline.rs`: engines are run in order on a payload, each on a copy. What one returns is taken if it counts
no more tokens than what it was given; a panic is skipped. The pipeline ends when the list does, when the budget is met,
or, with the original payload, when an engine is still running at the deadline.
-/

namespace ObeyGateway.Compression

inductive CompressionLevel
  | none | lite | standard | aggressive | ultra | rtk | stacked
deriving DecidableEq

def CompressionLevel.name : CompressionLevel → String
  | .none => "none"
  | .lite => "lite"
  | .standard => "standard"
  | .aggressive => "aggressive"
  | .ultra => "ultra"
  | .rtk => "rtk"
  | .stacked => "stacked"

def engineNamesForLevel : CompressionLevel → List String
  | .none => []
  | .lite => ["lite"]
  | .standard => ["lite", "standard"]
  | .aggressive => ["lite", "standard", "aggressive"]
  | .ultra => ["lite", "standard", "aggressive", "ultra"]
  | .rtk => ["rtk"]
  | .stacked => ["rtk", "standard"]

def knownEngineNames : List String :=
  ["lite", "standard", "aggressive", "ultra", "rtk", "perplexity", "tool_def", "language_pack"]

def toolDef : String := "tool_def"

structure TimeBudgetConfig where
  lite : Nat
  standard : Nat
  aggressive : Nat
  ultra : Nat
  rtk : Nat
  stacked : Nat

def TimeBudgetConfig.forLevel (budget : TimeBudgetConfig) : CompressionLevel → Option Nat
  | .none => none
  | .lite => some budget.lite
  | .standard => some budget.standard
  | .aggressive => some budget.aggressive
  | .ultra => some budget.ultra
  | .rtk => some budget.rtk
  | .stacked => some budget.stacked

/-- `validationErrors` are the texts that `validate` reports about the configuration. -/
structure CompressionConfig where
  compressToolDefinitions : Bool
  timeBudgetMs : TimeBudgetConfig
  customPipelines : List (String × List String)
  validationErrors : List String

structure EffectiveCompressionConfig where
  enabled : Bool
  level : CompressionLevel
  autoThresholdTokens : Nat

structure CompressionContext where
  model : String
  contextWindow : Nat
  targetTokenBudget : Option Nat
  providerName : String
  promptCachingEnabled : Bool

structure CompressionRequestMetadata where
  requestId : String
  customPipeline : Option String

inductive AutoTriggerReason
  | explicitlyDisabled | levelNone | thresholdDisabled | atOrBelowThreshold | thresholdExceeded
deriving DecidableEq

structure AutoTriggerDecision where
  originalTokens : Nat
  thresholdTokens : Nat
  level : CompressionLevel
  shouldCompress : Bool
  autoTriggered : Bool
  reason : AutoTriggerReason
deriving DecidableEq

def decideCompression (originalTokens : Nat) (effective : EffectiveCompressionConfig) :
    AutoTriggerDecision :=
  let (shouldCompress, reason) :=
    if !effective.enabled then (false, .explicitlyDisabled)
    else if effective.level = .none then (false, .levelNone)
    else if effective.autoThresholdTokens = 0 then (false, .thresholdDisabled)
    else if originalTokens > effective.autoThresholdTokens then (true, .thresholdExceeded)
    else (false, .atOrBelowThreshold)
  { originalTokens, thresholdTokens := effective.autoThresholdTokens, level := effective.level
    shouldCompress, autoTriggered := shouldCompress, reason }

structure CacheDowngradeMetadata where
  provider : String
  requestedLevel : CompressionLevel
  actualPrefixLevel : CompressionLevel
  boundaryMessageIndex : Nat
deriving DecidableEq

def requiresCacheDowngrade (level : CompressionLevel) : Bool :=
  level = .aggressive || level = .ultra || level = .rtk || level = .stacked

def cacheDowngradeFor (payload : CompressiblePayload) (context : CompressionContext)
    (requestedLevel : CompressionLevel) : Option CacheDowngradeMetadata :=
  if !context.promptCachingEnabled || !requiresCacheDowngrade requestedLevel then none
  else (rposition CompressibleMessage.cacheProtected payload.messages).map fun boundary =>
    { provider := context.providerName, requestedLevel, actualPrefixLevel := .none
      boundaryMessageIndex := boundary }

inductive CompressionPipelineError
  | unknownCustomPipeline (name : String)
  | invalidCustomPipeline (name reason : String)
  | enginePanicked (engine : String)
  | engineTaskCancelled (engine : String)
deriving DecidableEq

/-! ### Engines -/

structure ToolDefinitionCompressionReport where
  toolDefinitionsTokensSaved : Nat := 0
  cacheHit : Bool := false
deriving DecidableEq

inductive TaskResult
  | completed (candidate : CompressiblePayload) (report : ToolDefinitionCompressionReport)
  | panicked
  | cancelled

/-- A run of an engine: whether it is still going at the deadline, and how it ends if it is waited for. -/
structure EngineRun where
  late : Bool
  result : TaskResult

def Engine := Nat → CompressiblePayload → EngineRun

/-- What is there besides the request: the engines by name, the counter and the configuration. -/
structure CompressionPipeline where
  engines : String → Option Engine
  counter : TokenCounter
  config : CompressionConfig

structure EngineResult where
  engineName : String
  tokensBefore : Nat
  tokensAfter : Nat
  applied : Bool
deriving DecidableEq

structure CompressionPipelineResult where
  payload : CompressiblePayload
  requestId : String
  level : CompressionLevel
  engineResults : List EngineResult
  originalTokens : Nat
  finalTokens : Nat
  enginesApplied : List String
  timedOut : Bool
  error : Bool
  errors : List CompressionPipelineError
  autoTriggered : Bool
  autoTriggerDecision : Option AutoTriggerDecision
  cacheDowngradeApplied : Bool
  cacheDowngrade : Option CacheDowngradeMetadata
  toolDefinitionsTokensSaved : Nat
  toolDefinitionsCompressed : Bool
  toolDefinitionsCacheHit : Bool
deriving DecidableEq

structure Progress where
  current : CompressiblePayload
  currentTokens : Nat
  engineResults : List EngineResult := []
  enginesApplied : List String := []
  errors : List CompressionPipelineError := []
  toolDefinitionsTokensSaved : Nat := 0
  toolDefinitionsCompressed : Bool := false
  toolDefinitionsCacheHit : Bool := false

inductive Next
  | proceed | stop | timedOut
deriving DecidableEq

namespace CompressionPipeline
variable (pipeline : CompressionPipeline)

def resolveEngineNames (level : CompressionLevel) (metadata : CompressionRequestMetadata) :
    Except CompressionPipelineError (List String) :=
  match metadata.customPipeline with
  | none => .ok (engineNamesForLevel level)
  | some customName =>
    match Assoc.get pipeline.config.customPipelines customName with
    | none => .error (.unknownCustomPipeline customName)
    | some names =>
      if pipeline.config.validationErrors ≠ [] then
        .error (.invalidCustomPipeline customName ("; ".intercalate pipeline.config.validationErrors))
      else if names = [] then
        .error (.invalidCustomPipeline customName "engine list must not be empty")
      else
        match names.find? fun engine =>
          engine ∉ knownEngineNames || (pipeline.engines engine).isNone with
        | some engine => .error (.invalidCustomPipeline customName
            ("engine `" ++ engine ++ "` is unknown or unavailable"))
        | none => .ok names

/-- The names with the tool definitions first, when these are compressed and not listed. -/
def withToolDef (names : List String) : List String :=
  if pipeline.config.compressToolDefinitions && !names.isEmpty && toolDef ∉ names then toolDef :: names
  else names

def accept (name : String) (candidate : CompressiblePayload)
    (report : ToolDefinitionCompressionReport) (progress : Progress) : Progress :=
  let candidateTokens := pipeline.counter.countTokens candidate
  let accepted := candidateTokens ≤ progress.currentTokens
  let applied := accepted ∧ candidate ≠ progress.current
  { current := if accepted then candidate else progress.current
    currentTokens := if accepted then candidateTokens else progress.currentTokens
    engineResults := progress.engineResults ++
      [{ engineName := name, tokensBefore := progress.currentTokens
         tokensAfter := if accepted then candidateTokens else progress.currentTokens
         applied := applied }]
    enginesApplied := if applied then progress.enginesApplied ++ [name] else progress.enginesApplied
    errors := progress.errors
    toolDefinitionsTokensSaved := if accepted ∧ name = toolDef then
        satAdd progress.toolDefinitionsTokensSaved report.toolDefinitionsTokensSaved
      else progress.toolDefinitionsTokensSaved
    toolDefinitionsCompressed := if accepted ∧ name = toolDef then
        progress.toolDefinitionsCompressed || applied else progress.toolDefinitionsCompressed
    toolDefinitionsCacheHit := if accepted ∧ name = toolDef then
        progress.toolDefinitionsCacheHit || report.cacheHit else progress.toolDefinitionsCacheHit }

def missingEngine (metadata : CompressionRequestMetadata) (budgetLevel : CompressionLevel)
    (name : String) : CompressionPipelineError :=
  .invalidCustomPipeline (metadata.customPipeline.getD budgetLevel.name)
    ("engine `" ++ name ++ "` is unavailable")

section
variable (metadata : CompressionRequestMetadata) (budgetLevel : CompressionLevel)
  (deadline target : Option Nat)

def runEngine (entry : Nat × String) (progress : Progress) : Next × Progress :=
  match pipeline.engines entry.2 with
  | none =>
    (.proceed, { progress with
      errors := progress.errors ++ [missingEngine metadata budgetLevel entry.2] })
  | some engine =>
    let run := engine entry.1 progress.current
    if deadline.isSome && run.late then (.timedOut, progress)
    else
      match run.result with
      | .panicked =>
        (.proceed, { progress with errors := progress.errors ++ [.enginePanicked entry.2] })
      | .cancelled =>
        (.proceed, { progress with errors := progress.errors ++ [.engineTaskCancelled entry.2] })
      | .completed candidate report =>
        let progress := pipeline.accept entry.2 candidate report progress
        (if target.any (progress.currentTokens ≤ ·) then .stop else .proceed, progress)

/-- The loop; it says whether it was left at the deadline. -/
def runEngines : List (Nat × String) → Progress → Bool × Progress
  | [], progress => (false, progress)
  | entry :: entries, progress =>
    match pipeline.runEngine metadata budgetLevel deadline target entry progress with
    | (.proceed, progress) => runEngines entries progress
    | (.stop, progress) => (false, progress)
    | (.timedOut, progress) => (true, progress)

end

/-- The accumulators after the loop, given up if they count more tokens than the original. -/
def settle (original : CompressiblePayload) (originalTokens : Nat) (progress : Progress) : Progress :=
  if progress.currentTokens > originalTokens then
    { progress with
      current := original
      currentTokens := originalTokens
      enginesApplied := []
      toolDefinitionsTokensSaved := 0
      toolDefinitionsCompressed := false
      toolDefinitionsCacheHit := false }
  else progress

end CompressionPipeline

/-- The engines to run, in order and by position, or the errors for which none is run. -/
inductive Plan
  | unchanged (cacheDowngrade : Option CacheDowngradeMetadata) (errors : List CompressionPipelineError)
  | run (cacheDowngrade : Option CacheDowngradeMetadata) (entries : List (Nat × String))

structure Request where
  payload : CompressiblePayload
  context : CompressionContext
  effective : EffectiveCompressionConfig
  metadata : CompressionRequestMetadata
  autoOnly : Bool

namespace Request
variable (request : Request) (pipeline : CompressionPipeline)

def original : CompressiblePayload := request.payload.refreshMetadata

def originalTokens : Nat := pipeline.counter.countTokens request.original

def decision : Option AutoTriggerDecision :=
  if request.autoOnly then some (decideCompression (request.originalTokens pipeline) request.effective)
  else none

def budgetLevel : CompressionLevel :=
  if request.effective.level = .none then .stacked else request.effective.level

def deadline : Option Nat := pipeline.config.timeBudgetMs.forLevel request.budgetLevel

def plan : Plan :=
  let skip : Bool := match request.decision pipeline with
    | some decision => !decision.shouldCompress
    | none => !request.effective.enabled || request.effective.level = .none
  if skip then .unchanged none []
  else
    let downgrade := cacheDowngradeFor request.original request.context request.effective.level
    match pipeline.resolveEngineNames request.effective.level request.metadata with
    | .error error => .unchanged downgrade [error]
    | .ok names => .run downgrade ((pipeline.withToolDef names).mapIdx fun i name => (i, name))

def start : Progress :=
  { current := request.original, currentTokens := request.originalTokens pipeline }

def loop (entries : List (Nat × String)) : Bool × Progress :=
  pipeline.runEngines request.metadata request.budgetLevel (request.deadline pipeline)
    request.context.targetTokenBudget entries (request.start pipeline)

end Request

def CompressionPipelineResult.of (request : Request) (pipeline : CompressionPipeline)
    (cacheDowngrade : Option CacheDowngradeMetadata) (payload : CompressiblePayload)
    (finalTokens : Nat) (timedOut error : Bool) (progress : Progress) : CompressionPipelineResult where
  payload := payload
  requestId := request.metadata.requestId
  level := request.effective.level
  engineResults := progress.engineResults
  originalTokens := request.originalTokens pipeline
  finalTokens := finalTokens
  enginesApplied := progress.enginesApplied
  timedOut := timedOut
  error := error
  errors := progress.errors
  autoTriggered := (request.decision pipeline).any (·.autoTriggered)
  autoTriggerDecision := request.decision pipeline
  cacheDowngradeApplied := cacheDowngrade.isSome
  cacheDowngrade := cacheDowngrade
  toolDefinitionsTokensSaved := progress.toolDefinitionsTokensSaved
  toolDefinitionsCompressed := progress.toolDefinitionsCompressed
  toolDefinitionsCacheHit := progress.toolDefinitionsCacheHit

def CompressionPipeline.compressWithMode (pipeline : CompressionPipeline) (request : Request) :
    CompressionPipelineResult :=
  match request.plan pipeline with
  | .unchanged downgrade errors =>
    .of request pipeline downgrade request.original (request.originalTokens pipeline) false
      (!errors.isEmpty) { request.start pipeline with errors }
  | .run downgrade entries =>
    match request.loop pipeline entries with
    | (true, progress) =>
      -- at the deadline the original goes out, beside the accumulators as they are
      .of request pipeline downgrade request.original (request.originalTokens pipeline) true false
        progress
    | (false, progress) =>
      let progress := CompressionPipeline.settle request.original (request.originalTokens pipeline)
        progress
      .of request pipeline downgrade progress.current progress.currentTokens false
        (!progress.errors.isEmpty) progress

def transformBy (pipeline : CompressionPipeline) (payload : CompressiblePayload)
    (entry : Nat × String) : CompressiblePayload :=
  match pipeline.engines entry.2 with
  | none => payload
  | some engine =>
    match (engine entry.1 payload).result with
    | .completed candidate _ => candidate
    | _ => payload

/-- The payload is the original transformed, in order, by engines of the given names. -/
def AppliedInOrder (pipeline : CompressionPipeline) (entries : List (Nat × String))
    (original : CompressiblePayload) (names : List String) (payload : CompressiblePayload) : Prop :=
  ∃ chosen : List (Nat × String), chosen.Sublist entries ∧ chosen.map (·.2) = names ∧
    payload = chosen.foldl (transformBy pipeline) original

def Plan.entries : Plan → List (Nat × String)
  | .unchanged _ _ => []
  | .run _ entries => entries

def RollsBack (pipeline : CompressionPipeline) (request : Request) : Prop :=
  ∃ progress, request.loop pipeline (request.plan pipeline).entries = (false, progress) ∧
    request.originalTokens pipeline < progress.currentTokens

structure Accounted (pipeline : CompressionPipeline) (request : Request)
    (result : CompressionPipelineResult) : Prop where
  original : result.originalTokens = pipeline.counter.countTokens request.original
  final : result.finalTokens = pipeline.counter.countTokens result.payload
  final_le : result.finalTokens ≤ result.originalTokens
  shrinks : ∀ e ∈ result.engineResults, e.tokensAfter ≤ e.tokensBefore
  chained : result.engineResults.IsChain fun e e' => e.tokensAfter = e'.tokensBefore
  applied : AppliedInOrder pipeline (request.plan pipeline).entries request.original
    result.enginesApplied result.payload
  restored : result.timedOut = true ∨ RollsBack pipeline request →
    result.enginesApplied = [] ∧ result.toolDefinitionsTokensSaved = 0

/-- What the engine returns counts no more tokens, and is another payload or saves on the tool definitions. -/
def takesEffect (pipeline : CompressionPipeline) (name : String) (payload : CompressiblePayload) :
    TaskResult → Bool
  | .completed candidate report =>
    pipeline.counter.countTokens candidate ≤ pipeline.counter.countTokens payload &&
      (candidate ≠ payload || name = toolDef && report.toolDefinitionsTokensSaved ≠ 0)
  | _ => false

/-- Some engine is late after an earlier one took effect (`seen`). -/
def lateAfterEffect (pipeline : CompressionPipeline) (deadline target : Option Nat) :
    List (Nat × String) → CompressiblePayload → Bool → Bool
  | [], _, _ => false
  | entry :: entries, payload, seen =>
    match pipeline.engines entry.2 with
    | none => lateAfterEffect pipeline deadline target entries payload seen
    | some engine =>
      let run := engine entry.1 payload
      if deadline.isSome && run.late then seen
      else
        match run.result with
        | .completed candidate _ =>
          let taken := if pipeline.counter.countTokens candidate ≤ pipeline.counter.countTokens payload
            then candidate else payload
          if target.any (pipeline.counter.countTokens taken ≤ ·) then false
          else lateAfterEffect pipeline deadline target entries taken
            (seen || takesEffect pipeline entry.2 payload run.result)
        | _ => lateAfterEffect pipeline deadline target entries payload seen

def LateAfterEffect (pipeline : CompressionPipeline) (request : Request) : Prop :=
  lateAfterEffect pipeline (request.deadline pipeline) request.context.targetTokenBudget
    (request.plan pipeline).entries request.original false = true

/-! ### The loop -/

def Linked : Nat → List EngineResult → Nat → Prop
  | a, [], b => a = b
  | a, e :: es, b => e.tokensBefore = a ∧ e.tokensAfter ≤ e.tokensBefore ∧ Linked e.tokensAfter es b

variable {es : List EngineResult}

theorem Linked.concat {a b : Nat} {e : EngineResult} (h : Linked a es b)
    (hbefore : e.tokensBefore = b) (hle : e.tokensAfter ≤ e.tokensBefore) :
    Linked a (es ++ [e]) e.tokensAfter := by
  induction es generalizing a with
  | nil =>
    obtain rfl : a = b := h
    exact ⟨hbefore, hle, rfl⟩
  | cons x es ih => exact ⟨h.1, h.2.1, ih h.2.2⟩

theorem Linked.shrinks {a b : Nat} (h : Linked a es b) : ∀ e ∈ es, e.tokensAfter ≤ e.tokensBefore := by
  induction es generalizing a with
  | nil => exact fun e he => absurd he List.not_mem_nil
  | cons x es ih =>
    rintro e he
    rcases List.mem_cons.1 he with rfl | he
    · exact h.2.1
    · exact ih h.2.2 e he

theorem Linked.chained {a b : Nat} (h : Linked a es b) : es.IsChain fun e e' => e.tokensAfter = e'.tokensBefore := by
  induction es generalizing a with
  | nil => exact .nil
  | cons x es ih =>
    cases es with
    | nil => exact .singleton _
    | cons y es => exact .cons_cons h.2.2.1.symm (ih h.2.2)

/-- The accumulators before the deadline: `done` are the entries that have been run. -/
structure Sound (pipeline : CompressionPipeline) (original : CompressiblePayload)
    (done : List (Nat × String)) (progress : Progress) : Prop where
  tokens : progress.currentTokens = pipeline.counter.countTokens progress.current
  le : progress.currentTokens ≤ pipeline.counter.countTokens original
  linked : Linked (pipeline.counter.countTokens original) progress.engineResults progress.currentTokens
  applied : AppliedInOrder pipeline done original progress.enginesApplied progress.current

def Progress.Touched (progress : Progress) : Prop :=
  progress.enginesApplied ≠ [] ∨ progress.toolDefinitionsTokensSaved ≠ 0

section
variable {pipeline : CompressionPipeline} {original : CompressiblePayload}
  {done entries : List (Nat × String)} {entry : Nat × String} {progress : Progress}

theorem AppliedInOrder.mono {names : List String} {payload : CompressiblePayload}
    (h : AppliedInOrder pipeline done original names payload) (hsub : done.Sublist entries) :
    AppliedInOrder pipeline entries original names payload := by
  obtain ⟨chosen, hchosen, hnames, hpayload⟩ := h
  exact ⟨chosen, hchosen.trans hsub, hnames, hpayload⟩

theorem Sound.mono (h : Sound pipeline original done progress) (hsub : done.Sublist entries) :
    Sound pipeline original entries progress :=
  ⟨h.tokens, h.le, h.linked, h.applied.mono hsub⟩

theorem Sound.skip (h : Sound pipeline original done progress) (errors : List CompressionPipelineError) :
    Sound pipeline original (done ++ [entry]) { progress with errors } :=
  ⟨h.tokens, h.le, h.linked, h.applied.mono (List.sublist_append_left done [entry])⟩

theorem Sound.accept (h : Sound pipeline original done progress) {engine : Engine}
    {candidate : CompressiblePayload} {report : ToolDefinitionCompressionReport}
    (hengine : pipeline.engines entry.2 = some engine)
    (hrun : (engine entry.1 progress.current).result = .completed candidate report) :
    Sound pipeline original (done ++ [entry])
      (pipeline.accept entry.2 candidate report progress) := by
  have hskip := h.applied.mono (List.sublist_append_left done [entry])
  by_cases hle : pipeline.counter.countTokens candidate ≤ progress.currentTokens
  · refine ⟨?_, ?_, ?_, ?_⟩
    · simp [CompressionPipeline.accept, hle]
    · simp only [CompressionPipeline.accept, if_pos hle]
      exact hle.trans h.le
    · simp only [CompressionPipeline.accept, if_pos hle]
      exact h.linked.concat rfl hle
    · by_cases hne : candidate = progress.current
      · simpa [CompressionPipeline.accept, hle, hne] using hskip
      · obtain ⟨chosen, hchosen, hnames, hpayload⟩ := h.applied
        simp only [CompressionPipeline.accept, hle, hne, ne_eq, not_false_eq_true, and_self, if_true]
        refine ⟨chosen ++ [entry], hchosen.append (List.Sublist.refl _), ?_, ?_⟩
        · rw [List.map_append, hnames]
          rfl
        · rw [List.foldl_append, ← hpayload]
          simp [transformBy, hengine, hrun]
  · refine ⟨?_, ?_, ?_, ?_⟩
    · simp only [CompressionPipeline.accept, if_neg hle]
      exact h.tokens
    · simp only [CompressionPipeline.accept, if_neg hle]
      exact h.le
    · simp only [CompressionPipeline.accept, if_neg hle]
      exact h.linked.concat rfl le_rfl
    · simpa [CompressionPipeline.accept, hle] using hskip

theorem satAdd_ne_zero {a b : Nat} : satAdd a b ≠ 0 ↔ a ≠ 0 ∨ b ≠ 0 := by
  unfold satAdd
  omega

theorem touched_accept (h : Sound pipeline original done progress) {name : String}
    {candidate : CompressiblePayload} {report : ToolDefinitionCompressionReport} :
    (pipeline.accept name candidate report progress).Touched ↔ progress.Touched ∨
      takesEffect pipeline name progress.current (.completed candidate report) = true := by
  simp only [Progress.Touched, takesEffect, CompressionPipeline.accept, ← h.tokens,
    Bool.and_eq_true, Bool.or_eq_true, decide_eq_true_eq]
  by_cases hle : pipeline.counter.countTokens candidate ≤ progress.currentTokens
  · by_cases hname : name = toolDef
    · rcases eq_or_ne candidate progress.current with rfl | hne
      · simp [hle, hname, satAdd_ne_zero, or_assoc]
      · simp [hle, hne, hname]
    · rcases eq_or_ne candidate progress.current with rfl | hne
      · simp [hname]
      · simp [hle, hne, hname]
  · simp [hle]

section
variable (metadata : CompressionRequestMetadata) (budgetLevel : CompressionLevel)
  (deadline target : Option Nat) {seen : Bool} (h : Sound pipeline original done progress)
  (hseen : seen = true ↔ progress.Touched)
include h hseen

/-- One round of the loop leaves it or goes on, and the condition follows it. -/
theorem runEngine_cases (entry : Nat × String) :
    (pipeline.runEngine metadata budgetLevel deadline target entry progress = (.timedOut, progress) ∧
      ∀ entries, lateAfterEffect pipeline deadline target (entry :: entries) progress.current seen = seen) ∨
    (∃ progress', pipeline.runEngine metadata budgetLevel deadline target entry progress =
        (.stop, progress') ∧ Sound pipeline original (done ++ [entry]) progress' ∧
      ∀ entries, lateAfterEffect pipeline deadline target (entry :: entries) progress.current seen = false) ∨
    ∃ progress' seen', pipeline.runEngine metadata budgetLevel deadline target entry progress =
        (.proceed, progress') ∧ Sound pipeline original (done ++ [entry]) progress' ∧
      (seen' = true ↔ progress'.Touched) ∧
      ∀ entries, lateAfterEffect pipeline deadline target (entry :: entries) progress.current seen =
        lateAfterEffect pipeline deadline target entries progress'.current seen' := by
  simp only [CompressionPipeline.runEngine, lateAfterEffect]
  rcases hengine : pipeline.engines entry.2 with _ | engine
  · exact .inr (.inr ⟨_, seen, rfl, h.skip _, hseen, fun _ => rfl⟩)
  by_cases hlate : (deadline.isSome && (engine entry.1 progress.current).late) = true
  · simp only [hlate, if_true]
    exact .inl ⟨trivial, fun _ => trivial⟩
  · simp only [hlate]
    cases hrun : (engine entry.1 progress.current).result with
    | panicked | cancelled => exact .inr (.inr ⟨_, seen, rfl, h.skip _, hseen, fun _ => rfl⟩)
    | completed candidate report =>
      have hnext := h.accept hengine hrun
      -- what was taken, as the condition computes it
      have htaken : (pipeline.accept entry.2 candidate report progress).current =
          if pipeline.counter.countTokens candidate ≤
            pipeline.counter.countTokens progress.current then candidate
          else progress.current := by
        rw [← h.tokens]
        rfl
      by_cases hstop : target.any (pipeline.counter.countTokens
          (pipeline.accept entry.2 candidate report progress).current ≤ ·) = true
      · simp only [hnext.tokens, ← htaken, hstop, if_true]
        exact .inr (.inl ⟨_, rfl, hnext, fun _ => rfl⟩)
      · simp only [hnext.tokens, ← htaken, hstop]
        refine .inr (.inr ⟨_, _, rfl, hnext, ?_, fun _ => rfl⟩)
        rw [touched_accept h, Bool.or_eq_true, hseen]

variable {metadata budgetLevel deadline target}

theorem runEngines_spec : Sound pipeline original (done ++ entries)
      (pipeline.runEngines metadata budgetLevel deadline target entries progress).2 ∧
    (lateAfterEffect pipeline deadline target entries progress.current seen = true ↔
      (pipeline.runEngines metadata budgetLevel deadline target entries progress).1 = true ∧
      (pipeline.runEngines metadata budgetLevel deadline target entries progress).2.Touched) := by
  induction entries generalizing done progress seen with
  | nil =>
    rw [List.append_nil]
    exact ⟨h, by simp [lateAfterEffect, CompressionPipeline.runEngines]⟩
  | cons entry entries ih =>
    have hdone : done ++ entry :: entries = done ++ [entry] ++ entries := by simp
    rw [CompressionPipeline.runEngines, hdone]
    rcases runEngine_cases metadata budgetLevel deadline target h hseen entry with
      ⟨hrun, hlate⟩ | ⟨progress', hrun, hsound, hlate⟩ | ⟨progress', seen', hrun, hsound, hseen', hlate⟩
    · rw [hrun, hlate]
      exact ⟨h.mono (by simp), by simp [hseen]⟩
    · rw [hrun, hlate]
      exact ⟨hsound.mono (by simp), by simp⟩
    · rw [hrun, hlate]
      exact ih hsound hseen'

end

end

section
variable (pipeline : CompressionPipeline) (request : Request)

theorem sound_start : Sound pipeline request.original [] (request.start pipeline) :=
  ⟨rfl, le_rfl, rfl, [], List.nil_sublist _, rfl, rfl⟩

theorem loop_spec (entries : List (Nat × String)) :
    Sound pipeline request.original entries (request.loop pipeline entries).2 ∧
    (lateAfterEffect pipeline (request.deadline pipeline) request.context.targetTokenBudget entries
      request.original false = true ↔
      (request.loop pipeline entries).1 = true ∧ (request.loop pipeline entries).2.Touched) :=
  runEngines_spec (sound_start pipeline request) (by simp [Progress.Touched, Request.start])

theorem not_rollsBack : ¬ RollsBack pipeline request := by
  rintro ⟨progress, hloop, hlt⟩
  have hle := (loop_spec pipeline request (request.plan pipeline).entries).1.le
  rw [hloop] at hle
  exact absurd hle (Nat.not_le.2 hlt)

theorem settle_of_sound {original : CompressiblePayload} {entries : List (Nat × String)}
    {progress : Progress} (h : Sound pipeline original entries progress) :
    CompressionPipeline.settle original (pipeline.counter.countTokens original) progress = progress := by
  have hle := h.le
  exact if_neg (by omega)

/-- The result accounts for its payload exactly when no engine is late after one took effect. -/
theorem accounted_iff : Accounted pipeline request (pipeline.compressWithMode request) ↔
    ¬ LateAfterEffect pipeline request := by
  cases hplan : request.plan pipeline with
  | unchanged downgrade errors =>
    have hno : ¬ LateAfterEffect pipeline request := by
      simp [LateAfterEffect, hplan, Plan.entries, lateAfterEffect]
    refine iff_of_true ?_ hno
    rw [CompressionPipeline.compressWithMode, hplan]
    refine ⟨rfl, rfl, le_rfl, fun e he => absurd he List.not_mem_nil, .nil,
      ⟨[], List.nil_sublist _, rfl, rfl⟩, fun _ => ⟨rfl, rfl⟩⟩
  | run downgrade entries =>
    obtain ⟨hsound, hlate⟩ := loop_spec pipeline request entries
    have hentries : (request.plan pipeline).entries = entries := by rw [hplan, Plan.entries]
    rw [LateAfterEffect, hentries, hlate, CompressionPipeline.compressWithMode, hplan]
    rcases hloop : request.loop pipeline entries with ⟨_ | _, progress⟩ <;>
      simp only [hloop] at hsound ⊢
    · -- the list or the budget ended the loop
      simp only [Bool.false_eq_true, false_and, not_false_eq_true, iff_true]
      rw [Request.originalTokens, settle_of_sound pipeline hsound]
      refine ⟨rfl, hsound.tokens, hsound.le, hsound.linked.shrinks, hsound.linked.chained, ?_, ?_⟩
      · rw [hentries]
        exact hsound.applied
      · rintro (htimed | hback)
        · cases htimed
        · exact absurd hback (not_rollsBack pipeline request)
    · -- the deadline did
      rw [true_and]
      constructor
      · intro haccounted htouched
        obtain ⟨happlied, hsaved⟩ := haccounted.restored (.inl rfl)
        rcases htouched with h | h
        · exact h happlied
        · exact h hsaved
      · intro hno
        have happlied : progress.enginesApplied = [] := by
          by_contra hne
          exact hno (.inl hne)
        have hsaved : progress.toolDefinitionsTokensSaved = 0 := by
          by_contra hne
          exact hno (.inr hne)
        refine ⟨rfl, rfl, le_rfl, hsound.linked.shrinks, hsound.linked.chained,
          ⟨[], List.nil_sublist _, happlied.symm, rfl⟩, fun _ => ⟨happlied, hsaved⟩⟩

end

def userMessage (text : String) : CompressibleMessage where
  role := "user"
  content := .string text
  extra := []
  age := 0
  tokenCount := 0
  cacheProtected := false
  originalIndex := 0
  critical := false
  relationships := {}

def plainPayload (text : String) : CompressiblePayload where
  model := "m"
  messages := [userMessage text]
  stream := false
  temperature := none
  maxTokens := none
  toolDefinitions := none
  extra := []

/-- The first engine of the standard level shortens the payload, the second runs past the deadline. -/
def slowSecond : CompressionPipeline where
  engines
    | "lite" => some fun _ payload =>
      ⟨false, .completed { payload with messages := [userMessage "hi"] } {}⟩
    | "standard" => some fun _ _ => ⟨true, .cancelled⟩
    | _ => none
  counter := ⟨Json.wireNumbers, fun _ text => text.length⟩
  config := ⟨false, ⟨50, 100, 200, 300, 100, 100⟩, [], []⟩

def standardRequest : Request where
  payload := plainPayload "hello world"
  context := ⟨"m", 0, none, "p", false⟩
  effective := ⟨true, .standard, 0⟩
  metadata := ⟨"r", none⟩
  autoOnly := false

theorem late_engine_keeps_applied : (slowSecond.compressWithMode standardRequest).timedOut = true ∧
    (slowSecond.compressWithMode standardRequest).payload = standardRequest.original ∧
    (slowSecond.compressWithMode standardRequest).enginesApplied = ["lite"] ∧
    ¬ Accounted slowSecond standardRequest (slowSecond.compressWithMode standardRequest) := by
  have happlied : (slowSecond.compressWithMode standardRequest).enginesApplied = ["lite"] := by
    decide +kernel
  have htimed : (slowSecond.compressWithMode standardRequest).timedOut = true := by decide +kernel
  refine ⟨htimed, by decide +kernel, happlied, fun h => ?_⟩
  have hempty := (h.restored (.inl htimed)).1
  rw [happlied] at hempty
  cases hempty

end ObeyGateway.Compression
