import ObeyGateway.Lib.Registry
import ObeyGateway.Router.CircuitBreaker
import ObeyGateway.Router.RateLimiter

/-!
# The shared breakers and limiters (`get_circuit_breaker`, `get_rate_limiter`)

Both look their key up in a `DashMap`, and when it is not there they make an instance and insert it, in steps of their
own. Two calls that both miss both insert, and the first instance is replaced with what was recorded on it: the
callers share one exactly as long as no insert finds its key filled (`shared_state_law`).
-/

namespace ObeyGateway
open Registry

/-- A breaker by `provider:model`, a limiter by provider. -/
inductive SharedKey
  | breaker (key : String)
  | limiter (provider : String)
deriving DecidableEq

inductive SharedInstance
  | breaker (config : BreakerConfig) (cb : CircuitBreaker)
  | limiter (limiter : RateLimiter) (state : RateLimiterState)

inductive SharedOp
  | breaker (call : Nat × BreakerCall)
  | limiter (step : LimiterStep)

/-- What the constructors read: the configuration, with the limits of its providers by name, and the clock. -/
structure SharedEnv where
  circuitBreaker : BreakerConfig
  providers : List (String × Nat)
  now : Nat

namespace SharedEnv
variable (env : SharedEnv)

/-- The breaker's configuration with the `backoff_sequence_seconds` as durations. -/
def breakerConfig : BreakerConfig where
  failureThreshold := env.circuitBreaker.failureThreshold
  backoffSequence := env.circuitBreaker.backoffSequence.map (· * 1000000000)
  threshold_pos := env.circuitBreaker.threshold_pos
  backoff_pos := by
    rw [List.length_map]
    exact env.circuitBreaker.backoff_pos

/-- `rate_limit_per_minute` of the provider, zero when it is not configured. -/
def rateLimit (provider : String) : Nat :=
  ((env.providers.find? (·.1 = provider)).map (·.2)).getD 0

end SharedEnv

def makeShared (env : SharedEnv) : SharedKey → SharedInstance
  | .breaker _ => .breaker env.breakerConfig .new
  | .limiter provider =>
    let rl := RateLimiter.new (env.rateLimit provider)
    .limiter rl (rl.newState env.now)

def applyShared : SharedInstance → SharedOp → SharedInstance
  | .breaker config cb, .breaker call => .breaker config (cb.call config call)
  | .limiter rl state, .limiter step => .limiter rl (rl.step state step)
  | inst, _ => inst

abbrev SharedSys := Sys SharedKey SharedInstance SharedOp

abbrev SharedAct := Act SharedKey SharedEnv SharedOp

namespace SharedSys

def after (as : List SharedAct) : SharedSys := Run.run (Sys.step makeShared applyShared) Sys.init as

variable (s : SharedSys)

/-- The calls recorded on breakers of `key`. -/
def breakerCalls (key : String) : List (Nat × BreakerCall) :=
  (s.recorded (.breaker key)).filterMap fun op => match op with
    | .breaker call => some call
    | .limiter _ => none

/-- The operations on limiters of `provider`. -/
def limiterSteps (provider : String) : List LimiterStep :=
  (s.recorded (.limiter provider)).filterMap fun op => match op with
    | .limiter step => some step
    | .breaker _ => none

/-- All callers of a key hold one instance, and its state is the one after every call that was recorded for the
key, whoever made it. -/
structure Shared : Prop where
  same : ∀ key ref ref', (key, ref) ∈ s.handles → (key, ref') ∈ s.handles → ref = ref'
  breaker : ∀ key ref, (.breaker key, ref) ∈ s.handles → ∃ env : SharedEnv,
    s.heap ref = some (.breaker env.breakerConfig (CircuitBreaker.after env.breakerConfig (breakerCalls s key)))
  limiter : ∀ provider ref, (.limiter provider, ref) ∈ s.handles → ∃ env : SharedEnv,
    s.heap ref = some (.limiter (.new (env.rateLimit provider))
      ((RateLimiter.new (env.rateLimit provider)).after env.now (limiterSteps s provider)))

theorem foldl_breaker (config : BreakerConfig) (cb : CircuitBreaker) (ops : List SharedOp) :
    ops.foldl applyShared (.breaker config cb) =
      .breaker config (Run.run (CircuitBreaker.call config) cb (ops.filterMap fun op => match op with
        | .breaker call => some call
        | .limiter _ => none)) := by
  induction ops generalizing cb with
  | nil => rfl
  | cons op ops ih => cases op <;> simp [applyShared, ih]

theorem foldl_limiter (rl : RateLimiter) (state : RateLimiterState) (ops : List SharedOp) :
    ops.foldl applyShared (.limiter rl state) =
      .limiter rl (Run.run rl.step state (ops.filterMap fun op => match op with
        | .limiter step => some step
        | .breaker _ => none)) := by
  induction ops generalizing state with
  | nil => rfl
  | cons op ops ih => cases op <;> simp [applyShared, ih]

theorem shared_iff_law : Shared s ↔ s.Law makeShared applyShared := by
  constructor
  · intro h
    refine ⟨h.same, fun key ref hmem => ?_⟩
    cases key with
    | breaker key =>
      obtain ⟨env, hheap⟩ := h.breaker key ref hmem
      exact ⟨env, by rw [hheap, makeShared, foldl_breaker]; rfl⟩
    | limiter provider =>
      obtain ⟨env, hheap⟩ := h.limiter provider ref hmem
      exact ⟨env, by rw [hheap, makeShared, foldl_limiter]; rfl⟩
  · intro h
    refine ⟨h.same, fun key ref hmem => ?_, fun provider ref hmem => ?_⟩
    · obtain ⟨env, hheap⟩ := h.kept (.breaker key) ref hmem
      exact ⟨env, by rw [hheap, makeShared, foldl_breaker]; rfl⟩
    · obtain ⟨env, hheap⟩ := h.kept (.limiter provider) ref hmem
      exact ⟨env, by rw [hheap, makeShared, foldl_limiter]; rfl⟩

/-- In every state of a run the callers of a key share one instance with everything recorded for it, exactly if
no insert of the run finds its key filled by another call. -/
theorem shared_state_law (as : List SharedAct) : Run.Along (Sys.step makeShared applyShared) Sys.InsertsFresh Sys.init as ↔
      ∀ bs, bs <+: as → Shared (after bs) := by
  rw [Sys.along_insertsFresh_iff]
  constructor
  · intro h bs hbs
    exact (shared_iff_law _).2 (h bs hbs)
  · intro h bs hbs
    exact (shared_iff_law _).1 (h bs hbs)

/-- Two first users of a breaker both miss; the failure that the first one records is gone with its breaker when
the second one inserts. -/
theorem shared_state_replaced :
    let env : SharedEnv := ⟨⟨3, [5], by decide, by decide⟩, [], 0⟩
    let run : List SharedAct :=
      [.lookup 0 (.breaker "p:m"), .lookup 1 (.breaker "p:m"), .make 0 env, .make 1 env, .insert 0,
        .record (.breaker "p:m", 0) (.breaker (0, .recordFailure)), .insert 1, .lookup 2 (.breaker "p:m")]
    ¬ Shared (after run) := by
  intro env run h
  have hsame := h.same (.breaker "p:m") 0 1 (by decide) (by decide)
  exact absurd hsame (by decide)

end SharedSys

end ObeyGateway
