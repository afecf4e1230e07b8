import ObeyGateway.Lib.Keyed
import ObeyGateway.SmartRouting.BudgetPersistence

/-!
# The online optimizer

`smart_routing/online_optimizer.rs`, over exact rationals, all of which are finite. Outcomes move exponential averages of
a tier and of a task type with a tier; an optimization, at most one in an interval, lowers the boundaries of the task
types whose averages call for it and writes the state to two files, the last known good one behind the primary one.
-/

namespace ObeyGateway.SmartRouting
open AtomicFile

def less (a b : ℚ) : Bool := Rat.blt a b

def atMost (a b : ℚ) : Bool := !Rat.blt b a

/-- `f64::max` -/
def larger (a b : ℚ) : ℚ := if less a b then b else a

/-- `f64::min` -/
def smaller (a b : ℚ) : ℚ := if less b a then b else a

/-- `DateTime::<Utc>::MAX_UTC`, in nanoseconds as all instants. -/
def maxUtc : Int := 8210266876799999999999

/-- `add_std_duration`: a duration of whole seconds; `chrono` holds those up to `i64::MAX` milliseconds. -/
def addStdDuration (time : Int) (secs : Nat) : Int :=
  if secs ≤ 9223372036854775 ∧ time + secs * 10 ^ 9 ≤ maxUtc then time + secs * 10 ^ 9 else maxUtc

/-- `STATE_VERSION` -/
def optimizerVersion : Nat := 1

def maxStateBytes : Nat := 1048576

def maxBoundaryMove : ℚ := 1 / 20

def minBoundaryGap : ℚ := 1 / 1000000

def higherTierQuality : ℚ := 7 / 10

def maxOutcomeCostUsd : ℚ := 1000000

def maxOutcomeLatencyMs : ℚ := 86400000

def allTiers : List SmartRoutingTier := [.fast, .balanced, .powerful]

def allTaskTypes : List TaskType :=
  [.codeGeneration, .mathReasoning, .creativeWriting, .factualQA, .toolUse, .summarization, .general]

structure RequestOutcome where
  complexityScore : ℚ
  taskType : TaskType
  tier : SmartRoutingTier
  qualityScore : ℚ
  costUsd : ℚ
  latencyMs : ℚ

inductive OutcomeRejection
  | complexityScore | qualityScore | cost | latency

inductive RecordResult
  | disabled
  | recorded
  | rejected (reason : OutcomeRejection)

inductive OptimizerStateError
  | unsupportedVersion (found expected : Nat)
  | invalidState (detail : String)

def inBound (maximum value : ℚ) : Bool := atMost 0 value && atMost value maximum

def RequestOutcome.validate (outcome : RequestOutcome) : Except OutcomeRejection Unit :=
  if !inBound 1 outcome.complexityScore then .error .complexityScore
  else if !inBound 1 outcome.qualityScore then .error .qualityScore
  else if !inBound maxOutcomeCostUsd outcome.costUsd then .error .cost
  else if !inBound maxOutcomeLatencyMs outcome.latencyMs then .error .latency
  else .ok ()

structure AggregateSnapshot where
  samples : Nat := 0
  complexityScoreEma : Option ℚ := none
  qualityEma : Option ℚ := none
  costUsdEma : Option ℚ := none
  latencyMsEma : Option ℚ := none
deriving DecidableEq

def updateEma (current : Option ℚ) (observed alpha : ℚ) : Option ℚ :=
  match current with
  | some previous => some (alpha * observed + (1 - alpha) * previous)
  | none => some observed

/-- `validate_optional_unit` and `validate_optional_bound` -/
def validateOptional (field : String) (maximumText : String) (maximum : ℚ) (value : Option ℚ) :
    Except OptimizerStateError Unit :=
  if value.all (inBound maximum) then .ok ()
  else .error (.invalidState (field ++ " must be finite and in 0..=" ++ maximumText))

namespace AggregateSnapshot
variable (a : AggregateSnapshot)

/-- The number of samples is a `u64` and saturates. -/
def observe (outcome : RequestOutcome) (alpha : ℚ) : AggregateSnapshot where
  samples := min (a.samples + 1) (2 ^ 64 - 1)
  complexityScoreEma := updateEma a.complexityScoreEma outcome.complexityScore alpha
  qualityEma := updateEma a.qualityEma outcome.qualityScore alpha
  costUsdEma := updateEma a.costUsdEma outcome.costUsd alpha
  latencyMsEma := updateEma a.latencyMsEma outcome.latencyMs alpha

def validate : Except OptimizerStateError Unit := do
  validateOptional "complexity_score_ema" "1" 1 a.complexityScoreEma
  validateOptional "quality_ema" "1" 1 a.qualityEma
  validateOptional "cost_usd_ema" "1000000" maxOutcomeCostUsd a.costUsdEma
  validateOptional "latency_ms_ema" "86400000" maxOutcomeLatencyMs a.latencyMsEma
  if a.samples = 0 ∧ (a.complexityScoreEma.isSome ∨ a.qualityEma.isSome ∨ a.costUsdEma.isSome ∨ a.latencyMsEma.isSome) then
    .error (.invalidState "aggregate with zero samples contains EMA values")
  else if 0 < a.samples ∧
      (a.complexityScoreEma.isNone ∨ a.qualityEma.isNone ∨ a.costUsdEma.isNone ∨ a.latencyMsEma.isNone) then
    .error (.invalidState "aggregate with samples is missing EMA values")
  else .ok ()

end AggregateSnapshot

structure TierAggregateSnapshot where
  tier : SmartRoutingTier
  aggregate : AggregateSnapshot
deriving DecidableEq

structure TaskTierAggregateSnapshot where
  taskType : TaskType
  tier : SmartRoutingTier
  aggregate : AggregateSnapshot
deriving DecidableEq

def TaskTierAggregateSnapshot.key (entry : TaskTierAggregateSnapshot) : TaskType × SmartRoutingTier :=
  (entry.taskType, entry.tier)

structure TaskBoundarySnapshot where
  taskType : TaskType
  boundaries : TierBoundaries ℚ
deriving DecidableEq

structure PersistedOptimizerState where
  version : Nat
  configuredBoundaries : TierBoundaries ℚ
  adjustedBoundaries : List TaskBoundarySnapshot
  tierAggregates : List TierAggregateSnapshot
  taskTierAggregates : List TaskTierAggregateSnapshot
  lastUpdate : Int
deriving DecidableEq

structure OptimizerSnapshot extends PersistedOptimizerState where
  enabled : Bool

def validBoundaries (b : TierBoundaries ℚ) : Bool :=
  less 0 b.fastMax && atMost (b.fastMax + minBoundaryGap) b.balancedMax && less b.balancedMax 1

def validateBoundaries (b : TierBoundaries ℚ) : Except OptimizerStateError Unit :=
  if validBoundaries b then .ok ()
  else .error (.invalidState "tier boundaries must satisfy 0 < fast_max < balanced_max < 1")

def validateTaskBoundaries (entries : List TaskBoundarySnapshot) : Except OptimizerStateError Unit :=
  Keyed.check TaskBoundarySnapshot.taskType allTaskTypes (.invalidState "task boundary cardinality is invalid")
    (.invalidState "task boundary keys are missing or duplicated") (fun entry => validateBoundaries entry.boundaries)
    entries

def validateTierAggregates (entries : List TierAggregateSnapshot) : Except OptimizerStateError Unit :=
  Keyed.check TierAggregateSnapshot.tier allTiers (.invalidState "tier aggregate cardinality is invalid")
    (.invalidState "tier aggregate keys are missing or duplicated") (fun entry => entry.aggregate.validate) entries

def validateTaskTierAggregates (entries : List TaskTierAggregateSnapshot) : Except OptimizerStateError Unit :=
  Keyed.check TaskTierAggregateSnapshot.key (allTaskTypes.flatMap fun task => allTiers.map fun tier => (task, tier))
    (.invalidState "task/tier aggregate cardinality is invalid")
    (.invalidState "task/tier aggregate keys are missing or duplicated") (fun entry => entry.aggregate.validate) entries

def defaultBoundaries : TierBoundaries ℚ := ⟨33 / 100, 66 / 100⟩

namespace PersistedOptimizerState

def defaults (boundaries : TierBoundaries ℚ) (now : Int) : PersistedOptimizerState where
  version := optimizerVersion
  configuredBoundaries := boundaries
  adjustedBoundaries := allTaskTypes.map fun task => ⟨task, boundaries⟩
  tierAggregates := allTiers.map fun tier => ⟨tier, {}⟩
  taskTierAggregates := allTaskTypes.flatMap fun task => allTiers.map fun tier => ⟨task, tier, {}⟩
  lastUpdate := now

variable (state : PersistedOptimizerState)

def validate : Except OptimizerStateError Unit :=
  if state.version ≠ optimizerVersion then .error (.unsupportedVersion state.version optimizerVersion)
  else do
    validateBoundaries state.configuredBoundaries
    validateTaskBoundaries state.adjustedBoundaries
    validateTierAggregates state.tierAggregates
    validateTaskTierAggregates state.taskTierAggregates

def snapshot (enabled : Bool) : OptimizerSnapshot := ⟨state, enabled⟩

def taskQuality (task : TaskType) (tier : SmartRoutingTier) : Option ℚ :=
  (Keyed.find TaskTierAggregateSnapshot.key (task, tier) state.taskTierAggregates).bind fun entry =>
    entry.aggregate.qualityEma

end PersistedOptimizerState

inductive BoundaryKind
  | fastMax | balancedMax
deriving DecidableEq

structure BoundaryMove where
  taskType : TaskType
  boundary : BoundaryKind
  previous : ℚ
  current : ℚ

def callsForMove (quality higher : Option ℚ) (threshold : ℚ) : Bool :=
  quality.any (less · threshold) && higher.any (less higherTierQuality ·)

def lowerFastMax (task : TaskType) (b : TierBoundaries ℚ) : TierBoundaries ℚ × List BoundaryMove :=
  let current := larger (b.fastMax - maxBoundaryMove) minBoundaryGap
  if less current b.fastMax && less (current + minBoundaryGap) b.balancedMax then
    ({ b with fastMax := current }, [⟨task, .fastMax, b.fastMax, current⟩])
  else (b, [])

def lowerBalancedMax (task : TaskType) (b : TierBoundaries ℚ) : TierBoundaries ℚ × List BoundaryMove :=
  let current := larger (b.balancedMax - maxBoundaryMove) (b.fastMax + minBoundaryGap)
  if less current b.balancedMax && less current 1 then
    ({ b with balancedMax := current }, [⟨task, .balancedMax, b.balancedMax, current⟩])
  else (b, [])

def PersistedOptimizerState.adjusted (state : PersistedOptimizerState) (threshold : ℚ) (task : TaskType)
    (b : TierBoundaries ℚ) : TierBoundaries ℚ × List BoundaryMove :=
  let fast := state.taskQuality task .fast
  let balanced := state.taskQuality task .balanced
  let powerful := state.taskQuality task .powerful
  let lower := if callsForMove fast balanced threshold then lowerFastMax task b else (b, [])
  let upper := if callsForMove balanced powerful threshold then lowerBalancedMax task lower.1 else (lower.1, [])
  (upper.1, lower.2 ++ upper.2)

def adjustTask (threshold : ℚ) (task : TaskType) (state : PersistedOptimizerState) :
    PersistedOptimizerState × List BoundaryMove :=
  match Keyed.find TaskBoundarySnapshot.taskType task state.adjustedBoundaries with
  | none => (state, [])
  | some entry =>
    let adjusted := state.adjusted threshold task entry.boundaries
    ({ state with
        adjustedBoundaries := Keyed.modify TaskBoundarySnapshot.taskType task
          (fun e => { e with boundaries := adjusted.1 }) state.adjustedBoundaries },
      adjusted.2)

def adjustTasks (threshold : ℚ) : List TaskType → PersistedOptimizerState → PersistedOptimizerState × List BoundaryMove
  | [], state => (state, [])
  | task :: tasks, state =>
    let first := adjustTask threshold task state
    let rest := adjustTasks threshold tasks first.1
    (rest.1, first.2 ++ rest.2)

def adjustBoundaries (threshold : ℚ) (state : PersistedOptimizerState) : PersistedOptimizerState × List BoundaryMove :=
  adjustTasks threshold allTaskTypes state

structure OnlineOptimizerConfig where
  enabled : Bool
  alpha : ℚ
  intervalSecs : Nat
  qualityThreshold : ℚ

def normalizedBoundaries (b : TierBoundaries ℚ) : TierBoundaries ℚ := if validBoundaries b then b else defaultBoundaries

def normalizedAlpha (alpha : ℚ) : ℚ := if less 0 alpha then smaller alpha 1 else 1 / 100

def normalizedQualityThreshold (threshold : ℚ) : ℚ := smaller (larger threshold 0) 1

theorem less_iff {a b : ℚ} : less a b = true ↔ a < b := Iff.rfl

theorem atMost_iff {a b : ℚ} : atMost a b = true ↔ a ≤ b := by
  rw [atMost, Bool.not_eq_true', ← Bool.not_eq_true]
  exact not_lt (a := b) (b := a)

theorem normalizedAlpha_mem (alpha : ℚ) : 0 < normalizedAlpha alpha ∧ normalizedAlpha alpha ≤ 1 := by
  unfold normalizedAlpha smaller
  split_ifs with hpos hone
  · exact ⟨one_pos, le_refl 1⟩
  · exact ⟨hpos, le_of_not_gt hone⟩
  · norm_num

structure OnlineOptimizer where
  enabled : Bool
  alpha : ℚ
  interval : Nat
  qualityThreshold : ℚ
  state : PersistedOptimizerState
  published : OptimizerSnapshot
  alpha_mem : 0 < alpha ∧ alpha ≤ 1

def OnlineOptimizer.record (o : OnlineOptimizer) (outcome : RequestOutcome) : RecordResult × OnlineOptimizer :=
  if !o.enabled then (.disabled, o)
  else
    match outcome.validate with
    | .error reason => (.rejected reason, o)
    | .ok _ =>
      (.recorded, { o with
        state := { o.state with
          tierAggregates := Keyed.modify TierAggregateSnapshot.tier outcome.tier
            (fun e => { e with aggregate := e.aggregate.observe outcome o.alpha }) o.state.tierAggregates
          taskTierAggregates := Keyed.modify TaskTierAggregateSnapshot.key (outcome.taskType, outcome.tier)
            (fun e => { e with aggregate := e.aggregate.observe outcome o.alpha }) o.state.taskTierAggregates } })

/-- `serde_json` on the state: what is printed is read back, and the text of a valid state is short. -/
structure OptimizerText where
  toVecPretty : PersistedOptimizerState → Option (List UInt8)
  fromSlice : List UInt8 → Option PersistedOptimizerState
  fromSlice_toVecPretty : ∀ {state bytes}, toVecPretty state = some bytes → fromSlice bytes = some state
  length_le : ∀ {state bytes}, state.validate = .ok () → toVecPretty state = some bytes → bytes.length ≤ maxStateBytes

inductive OptimizerPersistenceFailure
  | serialize | primary | lastKnownGood

inductive OptimizationStatus
  | disabled | intervalPending | completed
deriving DecidableEq

structure OptimizationReport where
  status : OptimizationStatus
  attemptedAt : Int
  nextEligibleAt : Int
  boundaryMoves : List BoundaryMove
  primaryPersisted : Bool
  lastKnownGoodPersisted : Bool
  persistenceFailure : Option OptimizerPersistenceFailure
  snapshot : OptimizerSnapshot

structure OptimizerFiles where
  primary : Disk
  lkg : Disk

structure OptimizeConditions where
  isUnix : Bool
  primaryTrouble : Option Trouble
  primaryTemporary : String
  lkgTrouble : Option Trouble
  lkgTemporary : String

section
variable (T : OptimizerText) (c : OptimizeConditions)

/-- The outcomes of the two replacements; the second one comes only behind the first. -/
def OptimizerFiles.persist (files : OptimizerFiles) (bytes : List UInt8) : Outcome × Outcome × OptimizerFiles :=
  match atomicReplace c.isUnix c.primaryTrouble c.primaryTemporary bytes files.primary with
  | (.done, primary) =>
    let lkg := atomicReplace c.isUnix c.lkgTrouble c.lkgTemporary bytes files.lkg
    (.done, lkg.1, ⟨primary, lkg.2⟩)
  | (outcome, primary) => (outcome, .failed, ⟨primary, files.lkg⟩)

def OnlineOptimizer.next (o : OnlineOptimizer) (now : Int) : PersistedOptimizerState × List BoundaryMove :=
  let adjusted := adjustBoundaries o.qualityThreshold o.state
  ({ adjusted.1 with lastUpdate := now }, adjusted.2)

def OnlineOptimizer.nextEligibleAt (o : OnlineOptimizer) : Int := addStdDuration o.state.lastUpdate o.interval

/-- Without a report the process has stopped. -/
def OnlineOptimizer.optimizeAt (o : OnlineOptimizer) (files : OptimizerFiles) (now : Int) :
    Option OptimizationReport × OnlineOptimizer × OptimizerFiles :=
  if !o.enabled then
    (some ⟨.disabled, now, o.published.lastUpdate, [], false, false, none, o.published⟩, o, files)
  else if now < o.nextEligibleAt then
    let snapshot := o.state.snapshot true
    (some ⟨.intervalPending, now, o.nextEligibleAt, [], false, false, none, snapshot⟩, { o with published := snapshot },
      files)
  else
    let next := o.next now
    let snapshot := next.1.snapshot true
    let report := fun primary lkg failure =>
      OptimizationReport.mk .completed now (addStdDuration now o.interval) next.2 primary lkg failure snapshot
    let advanced := { o with state := next.1, published := snapshot }
    match T.toVecPretty next.1 with
    | none => (some (report false false (some .serialize)), advanced, files)
    | some bytes =>
      match files.persist c bytes with
      | (.stopped, _, files) | (_, .stopped, files) => (none, o, files)
      | (.done, .done, files) => (some (report true true none), advanced, files)
      | (.done, _, files) => (some (report true false (some .lastKnownGood)), advanced, files)
      | (_, _, files) => (some (report false false (some .primary)), advanced, files)

inductive CandidateState
  | missing
  | valid (state : PersistedOptimizerState)
  | invalid

def loadCandidate (fails : Bool) (disk : Disk) : CandidateState :=
  if fails then .invalid
  else
    match disk.file with
    | none => .missing
    | some bytes =>
      if maxStateBytes < bytes.length then .invalid
      else
        match T.fromSlice bytes with
        | none => .invalid
        | some state =>
          match state.validate with
          | .ok _ => .valid state
          | .error _ => .invalid

inductive OptimizerStateSource
  | disabledDefaults | primary | lastKnownGood | defaults
deriving DecidableEq

structure OptimizerLoadReport where
  source : OptimizerStateSource
  primaryQuarantined : Bool
  lkgQuarantined : Bool
  primaryRestored : Bool

structure LoadConditions where
  primaryFails : Bool
  lkgFails : Bool
  primaryRenames : Bool
  lkgRenames : Bool
  isUnix : Bool
  trouble : Option Trouble
  temporary : String

def quarantineIfPresent (renames : Bool) (disk : Disk) : Bool × Disk :=
  if disk.file.isSome && renames then (true, { disk with file := none }) else (false, disk)

def recoverLkgOrDefaults (l : LoadConditions) (boundaries : TierBoundaries ℚ) (now : Int) (files : OptimizerFiles) :
    Option (PersistedOptimizerState × OptimizerStateSource × Bool × Bool) × OptimizerFiles :=
  match loadCandidate T l.lkgFails files.lkg with
  | .valid state =>
    match T.toVecPretty state with
    | none => (some (state, .lastKnownGood, false, false), files)
    | some bytes =>
      match atomicReplace l.isUnix l.trouble l.temporary bytes files.primary with
      | (.stopped, primary) => (none, { files with primary := primary })
      | (outcome, primary) => (some (state, .lastKnownGood, outcome.isDone, false), { files with primary := primary })
  | .invalid =>
    let quarantined := quarantineIfPresent l.lkgRenames files.lkg
    (some (.defaults boundaries now, .defaults, false, quarantined.1), { files with lkg := quarantined.2 })
  | .missing => (some (.defaults boundaries now, .defaults, false, false), files)

def PersistedOptimizerState.adopt (state : PersistedOptimizerState) (boundaries : TierBoundaries ℚ) (now : Int) :
    PersistedOptimizerState :=
  let state := { state with configuredBoundaries := boundaries }
  let state := if now < state.lastUpdate then { state with lastUpdate := now } else state
  match validateTaskBoundaries state.adjustedBoundaries with
  | .ok _ => state
  | .error _ => { state with adjustedBoundaries := (defaults boundaries now).adjustedBoundaries }

def OnlineOptimizer.new (config : OnlineOptimizerConfig) (state : PersistedOptimizerState) : OnlineOptimizer where
  enabled := config.enabled
  alpha := normalizedAlpha config.alpha
  interval := max config.intervalSecs 1
  qualityThreshold := normalizedQualityThreshold config.qualityThreshold
  state := state
  published := state.snapshot config.enabled
  alpha_mem := normalizedAlpha_mem config.alpha

def OnlineOptimizer.loadAt (config : OnlineOptimizerConfig) (boundaries : TierBoundaries ℚ) (now : Int) (l : LoadConditions)
    (files : OptimizerFiles) : Option (OnlineOptimizer × OptimizerLoadReport) × OptimizerFiles :=
  let boundaries := normalizedBoundaries boundaries
  if !config.enabled then
    (some (.new config (.defaults boundaries now), ⟨.disabledDefaults, false, false, false⟩), files)
  else
    let recover := fun quarantined files =>
      match recoverLkgOrDefaults T l boundaries now files with
      | (none, files) => (none, files)
      | (some (state, source, restored, lkgQuarantined), files) =>
        (some (.new config (state.adopt boundaries now), ⟨source, quarantined, lkgQuarantined, restored⟩), files)
    match loadCandidate T l.primaryFails files.primary with
    | .valid state => (some (.new config (state.adopt boundaries now), ⟨.primary, false, false, false⟩), files)
    | .missing => recover false files
    | .invalid =>
      let quarantined := quarantineIfPresent l.primaryRenames files.primary
      recover quarantined.1 { files with primary := quarantined.2 }

end

end ObeyGateway.SmartRouting
