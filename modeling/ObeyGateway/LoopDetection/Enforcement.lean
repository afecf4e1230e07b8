import Mathlib.Algebra.Group.Nat.Defs
import Mathlib.Data.Rat.Defs
import Mathlib.Algebra.Order.Ring.Unbundled.Rat
import ObeyGateway.Lib.Run

/-!
# The enforcement ladder (`loop_detection/enforcement.rs`)

A session climbs `None`, `Warn`, `Throttle`, `Inject`, `HardStop` one level at a time while its confidence stays high,
and is meant to come down one level after five low evaluations in a row. Coming down is only written for `Inject` and
`HardStop` (`deEscalates_iff`).
-/

namespace ObeyGateway.LoopDetection

/-- An `f32`; the finite ones are rational numbers. -/
inductive F32
  | nan
  | negInfinity
  | finite (q : ℚ)
  | infinity
deriving DecidableEq

namespace F32

def lt : F32 → F32 → Bool
  | nan, _ => false
  | _, nan => false
  | _, negInfinity => false
  | negInfinity, _ => true
  | infinity, _ => false
  | _, infinity => true
  | finite p, finite q => p < q

def le : F32 → F32 → Bool
  | nan, _ => false
  | _, nan => false
  | a, b => !lt b a

def isFinite : F32 → Bool
  | finite _ => true
  | _ => false

def max (a b : F32) : F32 := if a.lt b then b else a

/-- `NaN` counts as 0; everything else is clamped to `0.0..=1.0`. -/
def sanitize : F32 → F32
  | nan => finite 0
  | negInfinity => finite 0
  | infinity => finite 1
  | finite q => finite (Max.max 0 (min q 1))

end F32

structure ThresholdConfig where
  warnConfidence : F32
  throttleConfidence : F32
  injectConfidence : F32
  hardstopConfidence : F32

structure ConsecutiveCountConfig where
  warn : Nat
  throttle : Nat
  inject : Nat
  hardstop : Nat

structure LoopDetectionConfig where
  thresholds : ThresholdConfig
  consecutiveCounts : ConsecutiveCountConfig

inductive FieldValue
  | float (v : F32)
  | int (n : Nat)
deriving DecidableEq

inductive LoopDetectionConfigError
  | invalidRange (field : String) (value : FieldValue) (expected : String)
  | thresholdOrder (warn throttle inject hardstop : F32)
  | consecutiveCountOrder (warn throttle inject hardstop : Nat)
deriving DecidableEq

def validateU32Range (field : String) (value lo hi : Nat) : List LoopDetectionConfigError :=
  if lo ≤ value ∧ value ≤ hi then []
  else [.invalidRange field (.int value) s!"a value in {lo}..={hi}"]

/-- `validate_f32_range` for the range `0.0..=1.0` of the thresholds. -/
def validateF32Range (field : String) (value : F32) : List LoopDetectionConfigError :=
  if value.isFinite && (F32.finite 0).le value && value.le (F32.finite 1) then []
  else [.invalidRange field (.float value) "a finite value in 0..=1"]

def ThresholdConfig.validate (t : ThresholdConfig) : List LoopDetectionConfigError :=
  validateF32Range "thresholds.warn_confidence" t.warnConfidence ++
    validateF32Range "thresholds.throttle_confidence" t.throttleConfidence ++
    validateF32Range "thresholds.inject_confidence" t.injectConfidence ++
    validateF32Range "thresholds.hardstop_confidence" t.hardstopConfidence ++
    if t.warnConfidence.lt t.throttleConfidence && t.throttleConfidence.lt t.injectConfidence &&
      t.injectConfidence.lt t.hardstopConfidence then []
    else [.thresholdOrder t.warnConfidence t.throttleConfidence t.injectConfidence t.hardstopConfidence]

def ConsecutiveCountConfig.validate (c : ConsecutiveCountConfig) : List LoopDetectionConfigError :=
  validateU32Range "consecutive_counts.warn" c.warn 1 100 ++
    validateU32Range "consecutive_counts.throttle" c.throttle 1 100 ++
    validateU32Range "consecutive_counts.inject" c.inject 1 100 ++
    validateU32Range "consecutive_counts.hardstop" c.hardstop 1 100 ++
    if c.warn ≤ c.throttle ∧ c.throttle ≤ c.inject ∧ c.inject ≤ c.hardstop then []
    else [.consecutiveCountOrder c.warn c.throttle c.inject c.hardstop]

/-- The part of `validate` that is about what the enforcement reads. -/
def LoopDetectionConfig.validate (config : LoopDetectionConfig) :
    Except (List LoopDetectionConfigError) Unit :=
  match config.thresholds.validate ++ config.consecutiveCounts.validate with
  | [] => .ok ()
  | errors => .error errors

/-- A configuration that passed `validate`. -/
structure ValidConfig extends LoopDetectionConfig where
  valid : toLoopDetectionConfig.validate = .ok ()

def LoopDetectionConfig.default : LoopDetectionConfig where
  thresholds := ⟨.finite (3 / 10), .finite (1 / 2), .finite (7 / 10), .finite (9 / 10)⟩
  consecutiveCounts := ⟨3, 5, 7, 10⟩

inductive EnforcementLevel
  | none
  | warn
  | throttle
  | inject
  | hardStop
deriving DecidableEq, Repr

namespace EnforcementLevel

def next : EnforcementLevel → EnforcementLevel
  | none => warn
  | warn => throttle
  | throttle => inject
  | inject => hardStop
  | hardStop => hardStop

def previous : EnforcementLevel → EnforcementLevel
  | none => none
  | warn => none
  | throttle => warn
  | inject => throttle
  | hardStop => inject

/-- The place of a level in the derived order. -/
def rank : EnforcementLevel → Nat
  | none => 0
  | warn => 1
  | throttle => 2
  | inject => 3
  | hardStop => 4

end EnforcementLevel

structure EscalationEvent where
  timestamp : Int
  fromLevel : EnforcementLevel
  toLevel : EnforcementLevel
  confidence : F32

structure SessionState where
  enforcementLevel : EnforcementLevel
  consecutiveHigh : Nat
  consecutiveLow : Nat
  smoothedConfidence : F32
  injectedAtLevel : Bool
  peakConfidence : F32
  escalationHistory : List EscalationEvent
  dominantSignal : String

def SessionState.new : SessionState where
  enforcementLevel := .none
  consecutiveHigh := 0
  consecutiveLow := 0
  smoothedConfidence := .finite 0
  injectedAtLevel := false
  peakConfidence := .finite 0
  escalationHistory := []
  dominantSignal := "none"

structure EnforcementDecision where
  level : EnforcementLevel
  transitioned : Bool
  dominantSignal : String
  shouldWarn : Bool
  shouldThrottle : Bool
  shouldInject : Bool
  shouldHardStop : Bool

def thresholdFor (level : EnforcementLevel) (config : LoopDetectionConfig) : F32 :=
  match level with
  | .none => .finite 0
  | .warn => config.thresholds.warnConfidence
  | .throttle => config.thresholds.throttleConfidence
  | .inject => config.thresholds.injectConfidence
  | .hardStop => config.thresholds.hardstopConfidence

def consecutiveCountFor (level : EnforcementLevel) (config : LoopDetectionConfig) : Nat :=
  match level with
  | .none => 0
  | .warn => config.consecutiveCounts.warn
  | .throttle => config.consecutiveCounts.throttle
  | .inject => config.consecutiveCounts.inject
  | .hardStop => config.consecutiveCounts.hardstop

/-- `u32::saturating_add(1)` -/
def saturatingSucc (n : Nat) : Nat := min (n + 1) (2 ^ 32 - 1)

/-- The branch below `warn_confidence`. -/
def evaluateLow (session : SessionState) : SessionState :=
  let session := { session with
    consecutiveHigh := 0
    consecutiveLow := saturatingSucc session.consecutiveLow }
  if 5 ≤ session.consecutiveLow ∧
      (session.enforcementLevel = .inject ∨ session.enforcementLevel = .hardStop) then
    { session with
      enforcementLevel := session.enforcementLevel.previous
      consecutiveLow := 0
      injectedAtLevel := false }
  else session

def evaluateHigh (confidence : F32) (session : SessionState) (config : LoopDetectionConfig) :
    SessionState :=
  let session := { session with
    consecutiveLow := 0
    consecutiveHigh := saturatingSucc session.consecutiveHigh }
  let nextLevel := session.enforcementLevel.next
  if nextLevel ≠ session.enforcementLevel ∧ (thresholdFor nextLevel config).le confidence ∧
      consecutiveCountFor nextLevel config ≤ session.consecutiveHigh then
    { session with enforcementLevel := nextLevel, injectedAtLevel := false }
  else session

/-- Both branches that change the level set `transitioned`, and both change it to another one. -/
def evaluate (confidence : F32) (session : SessionState) (config : LoopDetectionConfig) (now : Int) :
    EnforcementDecision × SessionState :=
  let confidence := confidence.sanitize
  let previousLevel := session.enforcementLevel
  let session :=
    if confidence.lt config.thresholds.warnConfidence then evaluateLow session
    else evaluateHigh confidence session config
  let level := session.enforcementLevel
  let transitioned := level ≠ previousLevel
  let session := { session with
    smoothedConfidence := confidence
    peakConfidence := session.peakConfidence.max confidence
    escalationHistory :=
      if transitioned then session.escalationHistory ++ [⟨now, previousLevel, level, confidence⟩]
      else session.escalationHistory }
  ({ level, transitioned
     dominantSignal := session.dominantSignal
     shouldWarn := EnforcementLevel.warn.rank ≤ level.rank
     shouldThrottle := EnforcementLevel.throttle.rank ≤ level.rank
     shouldInject := transitioned ∧ level = .inject
     shouldHardStop := level = .hardStop }, session)

structure Evaluation where
  confidence : F32
  now : Int

namespace ValidConfig

variable (config : ValidConfig)

def evaluateStep (session : SessionState) (e : Evaluation) : SessionState :=
  (evaluate e.confidence session config.toLoopDetectionConfig e.now).2

def session (es : List Evaluation) : SessionState := Run.run config.evaluateStep .new es

def level (es : List Evaluation) : EnforcementLevel := (config.session es).enforcementLevel

/-- Below `warn_confidence`. -/
def Low (e : Evaluation) : Prop :=
  e.confidence.sanitize.lt config.thresholds.warnConfidence = true

instance (e : Evaluation) : Decidable (config.Low e) := inferInstanceAs (Decidable (_ = true))

/-- The last `n` evaluations were all at least `warn_confidence`. -/
def LastHigh (n : Nat) (es : List Evaluation) : Prop :=
  n ≤ es.length ∧ ∀ e ∈ es.drop (es.length - n),
    config.thresholds.warnConfidence.le e.confidence.sanitize = true

variable {config}

theorem finite_of_valid (config : ValidConfig) : ∃ q, config.thresholds.warnConfidence = .finite q := by
  have hvalid := config.valid
  simp only [LoopDetectionConfig.validate] at hvalid
  split at hvalid
  · rename_i hnil
    simp only [List.append_eq_nil_iff, ThresholdConfig.validate, validateF32Range] at hnil
    have hwarn := hnil.1.1.1.1.1
    cases hq : config.thresholds.warnConfidence with
    | finite q => exact ⟨q, rfl⟩
    | _ => simp [hq, F32.isFinite] at hwarn
  · cases hvalid

theorem sanitize_finite (c : F32) : ∃ q, c.sanitize = .finite q := by
  cases c <;> exact ⟨_, rfl⟩

variable {e : Evaluation}

theorem high_of_not_low (h : ¬ config.Low e) : config.thresholds.warnConfidence.le e.confidence.sanitize = true := by
  obtain ⟨w, hw⟩ := finite_of_valid config
  obtain ⟨q, hq⟩ := sanitize_finite e.confidence
  simp only [Low, hw, hq, F32.lt, decide_eq_true_eq, not_lt] at h
  simpa [hw, hq, F32.le, F32.lt] using h

variable {s : SessionState}

variable {es : List Evaluation}

theorem LastHigh.mono {n k : Nat} (h : config.LastHigh n es) (hk : k ≤ n) : config.LastHigh k es := by
  refine ⟨hk.trans h.1, fun e he => h.2 e ?_⟩
  have hdrop : es.drop (es.length - k) = (es.drop (es.length - n)).drop (n - k) := by
    rw [List.drop_drop]
    congr 1
    have := h.1
    omega
  rw [hdrop] at he
  exact List.mem_of_mem_drop he

theorem LastHigh.concat {n : Nat} (h : config.LastHigh n es)
    (he : ¬ config.Low e) : config.LastHigh (n + 1) (es ++ [e]) := by
  have hlen : (es ++ [e]).length - (n + 1) = es.length - n := by simp
  refine ⟨by simpa using h.1, fun x hx => ?_⟩
  rw [hlen, List.drop_append_of_le_length (Nat.sub_le _ _)] at hx
  rcases List.mem_append.1 hx with hx | hx
  · exact h.2 x hx
  · rw [List.mem_singleton.1 hx]
    exact high_of_not_low he

end ValidConfig

/-! ### The law of the ladder -/

namespace ValidConfig

variable (config : ValidConfig)

/-- The evaluations `lows`, all low, come in the run right after `es`. -/
def LowRun (run es lows : List Evaluation) : Prop :=
  es ++ lows <+: run ∧ ∀ e ∈ lows, config.Low e

variable {config}

theorem LowRun.split {run es lows : List Evaluation} {n : Nat} (h : config.LowRun run es lows) :
    config.LowRun run es (lows.take n) ∧ config.LowRun run (es ++ lows.take n) (lows.drop n) := by
  have hall : es ++ lows.take n ++ lows.drop n = es ++ lows := by
    rw [List.append_assoc, List.take_append_drop]
  refine ⟨⟨?_, fun e he => h.2 e (List.mem_of_mem_take he)⟩, ?_, fun e he => h.2 e (List.mem_of_mem_drop he)⟩
  · exact List.IsPrefix.trans ⟨lows.drop n, hall⟩ h.1
  · rw [hall]
    exact h.1

end ValidConfig

end ObeyGateway.LoopDetection
