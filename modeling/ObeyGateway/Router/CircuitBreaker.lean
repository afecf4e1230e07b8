import ObeyGateway.Lib.Run

/-!
# The circuit breaker (`router/circuit_breaker.rs`)

`CircuitBreaker` with its three calls, each taking the instant at which `Instant::now()` is read.
`opened_at.elapsed()` is the saturating `now - openedAt`.
The part of `record_failure` that runs under the write lock is `failureLocked`, and the concurrent
model (`CircuitBreakerConc.lean`) takes it as one atomic step.
-/

namespace ObeyGateway

inductive CircuitState
  | closed
  | «open» (openedAt : Nat) (retryAfter : Nat)
  | halfOpen
deriving DecidableEq, Repr

/-- What `with_backoff_sequence` is built from: a positive threshold and at least one backoff. -/
structure BreakerConfig where
  failureThreshold : Nat
  backoffSequence : List Nat
  threshold_pos : 1 ≤ failureThreshold
  backoff_pos : 0 < backoffSequence.length

namespace BreakerConfig

/-- `backoff_sequence[index.min(len - 1)]` -/
def backoff (cfg : BreakerConfig) (index : Nat) : Nat :=
  cfg.backoffSequence.get ⟨min index (cfg.backoffSequence.length - 1), by
    have := cfg.backoff_pos; omega⟩

/-- `(backoff_index + 1).min(len - 1)` -/
def nextIndex (cfg : BreakerConfig) (index : Nat) : Nat :=
  min (index + 1) (cfg.backoffSequence.length - 1)

end BreakerConfig

structure CircuitBreaker where
  state : CircuitState
  currentBackoffIndex : Nat
  consecutiveFailures : Nat
deriving DecidableEq, Repr

namespace CircuitBreaker

/-- `with_backoff_sequence` -/
def new : CircuitBreaker := ⟨.closed, 0, 0⟩

def isAvailable (cb : CircuitBreaker) (now : Nat) : Bool × CircuitBreaker :=
  match cb.state with
  | .closed => (true, cb)
  | .halfOpen => (true, cb)
  | .open openedAt retryAfter =>
    if retryAfter ≤ now - openedAt then (true, { cb with state := .halfOpen }) else (false, cb)

def recordSuccess (cb : CircuitBreaker) : CircuitBreaker :=
  { cb with consecutiveFailures := 0, currentBackoffIndex := 0, state := .closed }

/-- The critical section of `record_failure`, entered with the backoff index loaded before it. -/
def failureLocked (cfg : BreakerConfig) (cb : CircuitBreaker) (backoffIndex : Nat) (now : Nat) :
    CircuitBreaker :=
  match cb.state with
  | .halfOpen =>
    { cb with
      currentBackoffIndex := cfg.nextIndex backoffIndex
      state := .open now (cfg.backoff (cfg.nextIndex backoffIndex)) }
  | .open _ _ => cb
  | .closed => { cb with state := .open now (cfg.backoff backoffIndex) }

def recordFailure (cfg : BreakerConfig) (cb : CircuitBreaker) (now : Nat) : CircuitBreaker :=
  let failures := cb.consecutiveFailures + 1
  let cb := { cb with consecutiveFailures := failures }
  if cfg.failureThreshold ≤ failures then cb.failureLocked cfg cb.currentBackoffIndex now else cb

end CircuitBreaker

inductive BreakerCall
  | isAvailable
  | recordSuccess
  | recordFailure
deriving DecidableEq, Repr

namespace CircuitBreaker

def call (cfg : BreakerConfig) (cb : CircuitBreaker) (c : Nat × BreakerCall) : CircuitBreaker :=
  match c.2 with
  | .isAvailable => (cb.isAvailable c.1).2
  | .recordSuccess => cb.recordSuccess
  | .recordFailure => cb.recordFailure cfg c.1

/-- The breaker after the calls `cs`, one after the other. -/
def after (cfg : BreakerConfig) (cs : List (Nat × BreakerCall)) : CircuitBreaker :=
  Run.run (call cfg) new cs

end CircuitBreaker

def failuresSinceSuccess (cs : List (Nat × BreakerCall)) : Nat :=
  cs.foldl (fun n c => match c.2 with
    | .recordSuccess => 0
    | .recordFailure => n + 1
    | .isAvailable => n) 0

/-- Failures recorded in `HalfOpen` since the last success. -/
def halfOpenFailures (cfg : BreakerConfig) (cs : List (Nat × BreakerCall)) : Nat :=
  (cs.foldl (fun (p : CircuitBreaker × Nat) c => (p.1.call cfg c, match c.2 with
    | .recordSuccess => 0
    | .recordFailure => if p.1.state = .halfOpen then p.2 + 1 else p.2
    | .isAvailable => p.2)) (.new, 0)).2

section History
variable (cfg : BreakerConfig) (cs : List (Nat × BreakerCall)) (now : Nat)

@[simp] theorem failuresSinceSuccess_isAvailable :
    failuresSinceSuccess (cs ++ [(now, .isAvailable)]) = failuresSinceSuccess cs := by
  simp [failuresSinceSuccess]

@[simp] theorem failuresSinceSuccess_recordSuccess : failuresSinceSuccess (cs ++ [(now, .recordSuccess)]) = 0 := by
  simp [failuresSinceSuccess]

@[simp] theorem failuresSinceSuccess_recordFailure :
    failuresSinceSuccess (cs ++ [(now, .recordFailure)]) = failuresSinceSuccess cs + 1 := by
  simp [failuresSinceSuccess]

theorem halfOpenFailures_fold_fst (p : CircuitBreaker × Nat) :
    (cs.foldl (fun (p : CircuitBreaker × Nat) c => (p.1.call cfg c, match c.2 with
      | .recordSuccess => 0
      | .recordFailure => if p.1.state = .halfOpen then p.2 + 1 else p.2
      | .isAvailable => p.2)) p).1 = Run.run (CircuitBreaker.call cfg) p.1 cs := by
  induction cs generalizing p with
  | nil => rfl
  | cons c cs ih => simpa using ih _

@[simp] theorem halfOpenFailures_isAvailable :
    halfOpenFailures cfg (cs ++ [(now, .isAvailable)]) = halfOpenFailures cfg cs := by
  simp [halfOpenFailures]

@[simp] theorem halfOpenFailures_recordSuccess : halfOpenFailures cfg (cs ++ [(now, .recordSuccess)]) = 0 := by
  simp [halfOpenFailures]

theorem halfOpenFailures_recordFailure : halfOpenFailures cfg (cs ++ [(now, .recordFailure)]) =
      if (CircuitBreaker.after cfg cs).state = .halfOpen then halfOpenFailures cfg cs + 1
      else halfOpenFailures cfg cs := by
  have h := halfOpenFailures_fold_fst cfg cs (.new, 0)
  simp only [halfOpenFailures, List.foldl_append, List.foldl_cons, List.foldl_nil]
  rw [h]
  rfl

end History

/-! ### The invariant of sequential runs -/

namespace CircuitBreaker
variable {cfg : BreakerConfig} {cb : CircuitBreaker} {cs : List (Nat × BreakerCall)}

/-- The counters after the calls `cs`: failures since the last success, `HalfOpen` failures up to the last backoff. -/
structure Tracks (cfg : BreakerConfig) (cs : List (Nat × BreakerCall)) (cb : CircuitBreaker) :
    Prop where
  failures : cb.consecutiveFailures = failuresSinceSuccess cs
  index : cb.currentBackoffIndex = min (halfOpenFailures cfg cs) (cfg.backoffSequence.length - 1)
  closed : cb.state = .closed →
    cb.consecutiveFailures < cfg.failureThreshold ∧ halfOpenFailures cfg cs = 0
  tripped : cb.state ≠ .closed → cfg.failureThreshold ≤ cb.consecutiveFailures

theorem Tracks.init : Tracks cfg [] .new := by
  refine ⟨rfl, by simp [new, halfOpenFailures], fun _ => ⟨?_, rfl⟩, fun h => absurd rfl h⟩
  exact cfg.threshold_pos

theorem isAvailable_frame (cb : CircuitBreaker) (now : Nat) :
    (cb.isAvailable now).2.consecutiveFailures = cb.consecutiveFailures ∧
      (cb.isAvailable now).2.currentBackoffIndex = cb.currentBackoffIndex ∧
      ((cb.isAvailable now).2.state = .closed ↔ cb.state = .closed) := by
  unfold isAvailable
  split
  · simp
  · simp
  · split <;> simp_all

theorem Tracks.isAvailable (h : Tracks cfg cs cb) (now : Nat) :
    Tracks cfg (cs ++ [(now, .isAvailable)]) (cb.isAvailable now).2 := by
  obtain ⟨hf, hi, hs⟩ := cb.isAvailable_frame now
  refine ⟨?_, ?_, fun hc => ?_, fun hc => ?_⟩
  · rw [hf, h.failures, failuresSinceSuccess_isAvailable]
  · rw [hi, h.index, halfOpenFailures_isAvailable]
  · rw [hf, halfOpenFailures_isAvailable]; exact h.closed (hs.1 hc)
  · rw [hf]; exact h.tripped (fun h' => hc (hs.2 h'))

theorem Tracks.recordSuccess (_ : Tracks cfg cs cb) (now : Nat) :
    Tracks cfg (cs ++ [(now, .recordSuccess)]) cb.recordSuccess := by
  refine ⟨by simp [CircuitBreaker.recordSuccess], by simp [CircuitBreaker.recordSuccess],
    fun _ => ⟨cfg.threshold_pos, by simp⟩, fun hc => absurd rfl hc⟩

theorem recordFailure_cases (cfg : BreakerConfig) (cb : CircuitBreaker) (now : Nat)
    (h : cb.state ≠ .closed → cfg.failureThreshold ≤ cb.consecutiveFailures) :
    (cb.state = .closed ∧ cb.consecutiveFailures + 1 < cfg.failureThreshold ∧
      cb.recordFailure cfg now = { cb with consecutiveFailures := cb.consecutiveFailures + 1 }) ∨
    (cb.state = .closed ∧ cfg.failureThreshold ≤ cb.consecutiveFailures + 1 ∧
      cb.recordFailure cfg now =
        ⟨.open now (cfg.backoff cb.currentBackoffIndex), cb.currentBackoffIndex,
          cb.consecutiveFailures + 1⟩) ∨
    (cb.state = .halfOpen ∧ cb.recordFailure cfg now =
        ⟨.open now (cfg.backoff (cfg.nextIndex cb.currentBackoffIndex)),
          cfg.nextIndex cb.currentBackoffIndex, cb.consecutiveFailures + 1⟩) ∨
    ((∃ o r, cb.state = .open o r) ∧
      cb.recordFailure cfg now = { cb with consecutiveFailures := cb.consecutiveFailures + 1 }) := by
  obtain ⟨st, idx, f⟩ := cb
  cases st with
  | closed =>
    by_cases hf : cfg.failureThreshold ≤ f + 1
    · exact .inr (.inl ⟨rfl, hf, by simp [recordFailure, failureLocked, hf]⟩)
    · exact .inl ⟨rfl, by simpa using hf, by simp [recordFailure, hf]⟩
  | halfOpen =>
    have hf : cfg.failureThreshold ≤ f + 1 := Nat.le_succ_of_le (h (by simp))
    exact .inr (.inr (.inl ⟨rfl, by simp [recordFailure, failureLocked, hf]⟩))
  | «open» o r => exact .inr (.inr (.inr ⟨⟨o, r, rfl⟩, by simp [recordFailure, failureLocked]⟩))

theorem Tracks.recordFailure (h : Tracks cfg cs cb) (hcb : cb = after cfg cs) (now : Nat) :
    Tracks cfg (cs ++ [(now, .recordFailure)]) (cb.recordFailure cfg now) := by
  have hk := halfOpenFailures_recordFailure cfg cs now
  rw [← hcb] at hk
  rcases recordFailure_cases cfg cb now h.tripped with
    ⟨hs, hlt, heq⟩ | ⟨hs, hle, heq⟩ | ⟨hs, heq⟩ | ⟨⟨o, r, hs⟩, heq⟩
  · rw [hs, if_neg (by simp)] at hk
    rw [heq]
    exact ⟨by simp [h.failures], by simp [h.index, hk],
      fun _ => ⟨hlt, by rw [hk]; exact (h.closed hs).2⟩, fun hc => absurd hs hc⟩
  · rw [hs, if_neg (by simp)] at hk
    rw [heq]
    exact ⟨by simp [h.failures], by simp [h.index, hk], fun hc => by simp at hc, fun _ => hle⟩
  · rw [hs, if_pos rfl] at hk
    rw [heq]
    refine ⟨by simp [h.failures], ?_, fun hc => by simp at hc, fun _ => ?_⟩
    · simp only [BreakerConfig.nextIndex, h.index, hk]
      omega
    · exact Nat.le_succ_of_le (h.tripped (by simp [hs]))
  · rw [hs, if_neg (by simp)] at hk
    rw [heq]
    refine ⟨by simp [h.failures], by simp [h.index, hk], fun hc => ?_, fun _ => ?_⟩
    · rw [show cb.state = .closed from hc] at hs; simp at hs
    · exact Nat.le_succ_of_le (h.tripped (by simp [hs]))

theorem tracks_after (cfg : BreakerConfig) (cs : List (Nat × BreakerCall)) : Tracks cfg cs (after cfg cs) := by
  have hI : Tracks cfg cs (after cfg cs) ∧ after cfg cs = after cfg cs := by
    refine Run.invariant_hist (P := fun _ _ => True)
      (I := fun cs cb => Tracks cfg cs cb ∧ cb = after cfg cs) ?_ ⟨Tracks.init, rfl⟩
      (Run.along_of_forall fun _ _ _ => trivial)
    rintro cs cb ⟨now, c⟩ ⟨h, hcb⟩ -
    refine ⟨?_, by rw [hcb]; exact Run.run_concat.symm⟩
    cases c with
    | isAvailable => exact h.isAvailable now
    | recordSuccess => exact h.recordSuccess now
    | recordFailure => exact h.recordFailure hcb now
  exact hI.1

theorem backoff_min (cfg : BreakerConfig) (k : Nat) :
    cfg.backoff (min k (cfg.backoffSequence.length - 1)) = cfg.backoff k := by
  simp [BreakerConfig.backoff]

theorem backoff_nextIndex (cfg : BreakerConfig) (k : Nat) :
    cfg.backoff (cfg.nextIndex (min k (cfg.backoffSequence.length - 1))) = cfg.backoff (k + 1) := by
  rw [← backoff_min cfg (k + 1), BreakerConfig.nextIndex]
  congr 1
  omega

theorem isAvailable_eq_false_iff (cb : CircuitBreaker) (now : Nat) : (cb.isAvailable now).1 = false ↔
      ∃ openedAt retryAfter, cb.state = .open openedAt retryAfter ∧ now - openedAt < retryAfter := by
  unfold isAvailable
  split
  · simp_all
  · simp_all
  · rename_i o r hs
    split <;> simp_all

theorem call_opens (cfg : BreakerConfig) (cb : CircuitBreaker) (now : Nat) (c : BreakerCall)
    {o : Nat} {r : Nat} (h : (cb.call cfg (now, c)).state = .open o r)
    (hne : cb.state ≠ .open o r) : c = .recordFailure := by
  cases c with
  | recordFailure => rfl
  | recordSuccess => simp [call, recordSuccess] at h
  | isAvailable =>
    simp only [call, isAvailable] at h
    split at h
    · exact absurd h hne
    · exact absurd h hne
    · split at h
      · simp at h
      · exact absurd h hne

/-- While `Closed` exactly the failure that completes `failureThreshold` consecutive ones opens the breaker; a failure
in `HalfOpen` re-opens it for `b[min k (len - 1)]`, one while `Open` keeps the window; no other call opens it;
`isAvailable` refuses exactly inside an open window. -/
theorem backoff_law (cfg : BreakerConfig) (cs : List (Nat × BreakerCall)) (now : Nat) :
    let cb := after cfg cs
    let b := cfg.backoffSequence
    (cb.state = .closed →
      (cb.recordFailure cfg now).state =
        if failuresSinceSuccess cs + 1 = cfg.failureThreshold then
          .open now (b.get ⟨0, cfg.backoff_pos⟩) else .closed) ∧
    (cb.state = .halfOpen →
      (cb.recordFailure cfg now).state =
        .open now (cfg.backoff (halfOpenFailures cfg (cs ++ [(now, .recordFailure)])))) ∧
    (∀ o r, cb.state = .open o r → (cb.recordFailure cfg now).state = .open o r) ∧
    (∀ c o r, (cb.call cfg (now, c)).state = .open o r → cb.state ≠ .open o r →
      c = .recordFailure) ∧
    ((cb.isAvailable now).1 = false ↔
      ∃ openedAt retryAfter, cb.state = .open openedAt retryAfter ∧
        now - openedAt < retryAfter) := by
  intro cb b
  have h : Tracks cfg cs cb := tracks_after cfg cs
  have hk := halfOpenFailures_recordFailure cfg cs now
  refine ⟨fun hs => ?_, fun hs => ?_, fun o r hs => ?_,
    fun c o r => call_opens cfg cb now c, isAvailable_eq_false_iff cb now⟩
  · obtain ⟨hlt, hk0⟩ := h.closed hs
    rcases recordFailure_cases cfg cb now h.tripped with
      ⟨-, hlt', heq⟩ | ⟨-, hle, heq⟩ | ⟨hs', -⟩ | ⟨⟨o, r, hs'⟩, -⟩
    · rw [if_neg (by rw [← h.failures]; omega), heq]; exact hs
    · rw [if_pos (by rw [← h.failures]; omega), heq, h.index, hk0]
      simp [BreakerConfig.backoff, b]
    · rw [hs] at hs'; simp at hs'
    · rw [hs] at hs'; simp at hs'
  · rcases recordFailure_cases cfg cb now h.tripped with
      ⟨hs', -⟩ | ⟨hs', -⟩ | ⟨-, heq⟩ | ⟨⟨o, r, hs'⟩, -⟩
    · rw [hs] at hs'; simp at hs'
    · rw [hs] at hs'; simp at hs'
    · rw [heq, hk, if_pos hs, h.index, backoff_nextIndex]
    · rw [hs] at hs'; simp at hs'
  · rcases recordFailure_cases cfg cb now h.tripped with
      ⟨hs', -⟩ | ⟨hs', -⟩ | ⟨hs', -⟩ | ⟨-, heq⟩
    · rw [hs] at hs'; simp at hs'
    · rw [hs] at hs'; simp at hs'
    · rw [hs] at hs'; simp at hs'
    · rw [heq]; exact hs

end CircuitBreaker
end ObeyGateway
