import ObeyGateway.Router.CircuitBreaker
import Mathlib.Logic.Function.Basic

/-!
# The circuit breaker under concurrent calls

Each access to a counter outside the lock is one step and each critical section is one. The counters are written before
the lock is taken, so a success and a failure can pass each other: `counter_covers_iff` says exactly which steps let
the state be `Open` or `HalfOpen` with a failure counter below the threshold.
-/

namespace ObeyGateway
open CircuitBreaker

inductive BreakerPc
  | idle
  /-- `record_success` after `consecutive_failures.store(0)` -/
  | successIndex
  /-- `record_success` after `current_backoff_index.store(0)` -/
  | successLock
  /-- `record_failure` after a `fetch_add` that reached the threshold -/
  | failureIndex
  /-- `record_failure` after loading the backoff index -/
  | failureLock (backoffIndex : Nat)
deriving DecidableEq, Repr

/-- `t` is inside a `record_failure` that has passed the threshold check. -/
def BreakerPc.Failing : BreakerPc → Prop
  | .failureIndex => True
  | .failureLock _ => True
  | _ => False

structure BreakerSys where
  breaker : CircuitBreaker
  pc : Nat → BreakerPc

/-- The scheduler runs `task` for one step; `call` is the call it begins when it is idle. -/
structure BreakerStep where
  task : Nat
  call : BreakerCall
  now : Nat

namespace BreakerSys

def init : BreakerSys := ⟨.new, fun _ => .idle⟩

def step (cfg : BreakerConfig) (s : BreakerSys) (a : BreakerStep) : BreakerSys :=
  match s.pc a.task with
  | .idle =>
    match a.call with
    | .isAvailable => { s with breaker := (s.breaker.isAvailable a.now).2 }
    | .recordSuccess =>
      ⟨{ s.breaker with consecutiveFailures := 0 }, Function.update s.pc a.task .successIndex⟩
    | .recordFailure =>
      let failures := s.breaker.consecutiveFailures + 1
      ⟨{ s.breaker with consecutiveFailures := failures },
        Function.update s.pc a.task
          (if cfg.failureThreshold ≤ failures then .failureIndex else .idle)⟩
  | .successIndex =>
    ⟨{ s.breaker with currentBackoffIndex := 0 }, Function.update s.pc a.task .successLock⟩
  | .successLock => ⟨{ s.breaker with state := .closed }, Function.update s.pc a.task .idle⟩
  | .failureIndex =>
    { s with pc := Function.update s.pc a.task (.failureLock s.breaker.currentBackoffIndex) }
  | .failureLock backoffIndex =>
    ⟨s.breaker.failureLocked cfg backoffIndex a.now, Function.update s.pc a.task .idle⟩

/-- The system after the steps `as`, in the order the scheduler takes them. -/
def after (cfg : BreakerConfig) (as : List BreakerStep) : BreakerSys := Run.run (step cfg) init as

variable (cfg : BreakerConfig)

theorem steps_alone (s : BreakerSys) (t : Nat) (now : Nat) (c : BreakerCall) (h : s.pc t = .idle) :
    ∃ n, (Run.run (step cfg) s (List.replicate (n + 1) ⟨t, c, now⟩)).breaker =
        s.breaker.call cfg (now, c) ∧
      (Run.run (step cfg) s (List.replicate (n + 1) ⟨t, c, now⟩)).pc = s.pc := by
  have hidle : Function.update s.pc t .idle = s.pc := by rw [← h]; exact Function.update_eq_self t s.pc
  cases c with
  | isAvailable => exact ⟨0, by simp [step, h, call]⟩
  | recordSuccess => exact ⟨2, by simp [List.replicate, step, h, call, recordSuccess, hidle]⟩
  | recordFailure =>
    by_cases hf : cfg.failureThreshold ≤ s.breaker.consecutiveFailures + 1
    · exact ⟨2, by simp [List.replicate, step, h, call, recordFailure, hf, hidle]⟩
    · exact ⟨0, by simp [step, h, call, recordFailure, hf, hidle]⟩

/-- Calls that do not overlap are a run of the system, and leave the breaker of the calls one after the other. -/
theorem serial_calls (cs : List BreakerStep) : ∃ ns : List Nat, ns.length = cs.length ∧
    let s := after cfg ((cs.zip ns).flatMap fun p => List.replicate (p.2 + 1) p.1)
    s.breaker = CircuitBreaker.after cfg (cs.map fun c => (c.now, c.call)) ∧ ∀ t, s.pc t = .idle := by
  induction cs using List.reverseRecOn with
  | nil => exact ⟨[], rfl, rfl, fun _ => rfl⟩
  | append_singleton cs c ih =>
    obtain ⟨ns, hlength, hbreaker, hidle⟩ := ih
    obtain ⟨n, halone, hpc⟩ := steps_alone cfg _ c.task c.now c.call (hidle c.task)
    refine ⟨ns ++ [n], by simp [hlength], ?_⟩
    have hsteps : ((cs ++ [c]).zip (ns ++ [n])).flatMap (fun p => List.replicate (p.2 + 1) p.1) =
        ((cs.zip ns).flatMap fun p => List.replicate (p.2 + 1) p.1) ++ List.replicate (n + 1) c := by
      rw [List.zip_append hlength.symm, List.flatMap_append]
      simp
    rw [after, hsteps, Run.run_append, CircuitBreaker.after, List.map_append, List.map_singleton, Run.run_concat]
    exact ⟨halone.trans (congrArg (CircuitBreaker.call cfg · _) hbreaker), fun t => (congrFun hpc t).trans (hidle t)⟩

/-- Whenever the breaker is not `Closed`, the failure counter has reached the threshold. -/
def CounterCovers (cfg : BreakerConfig) (s : BreakerSys) : Prop :=
  s.breaker.state ≠ .closed → cfg.failureThreshold ≤ s.breaker.consecutiveFailures

/-- The step clears no failure counter of a breaker that is not `Closed`, and opens none whose counter has fallen
since. -/
def KeepsCounter (cfg : BreakerConfig) (s : BreakerSys) (a : BreakerStep) : Prop :=
  (s.pc a.task = .idle → a.call = .recordSuccess → s.breaker.state = .closed) ∧
  (∀ i, s.pc a.task = .failureLock i → s.breaker.state = .closed →
    cfg.failureThreshold ≤ s.breaker.consecutiveFailures)

theorem failureLocked_failures (cb : CircuitBreaker) (i : Nat) (now : Nat) :
    (cb.failureLocked cfg i now).consecutiveFailures = cb.consecutiveFailures := by
  unfold failureLocked; split <;> rfl

theorem failureLocked_ne_closed (cb : CircuitBreaker) (i : Nat)
    (now : Nat) : (cb.failureLocked cfg i now).state ≠ .closed := by
  unfold failureLocked; split <;> simp_all

/-- One step: the steps that keep `CounterCovers` are those of `KeepsCounter`. -/
theorem step_counterCovers (s : BreakerSys) (a : BreakerStep)
    (h : CounterCovers cfg s) : CounterCovers cfg (step cfg s a) ↔ KeepsCounter cfg s a := by
  have hpos := cfg.threshold_pos
  unfold CounterCovers at h
  cases hpc : s.pc a.task with
  | idle =>
    cases hc : a.call with
    | isAvailable =>
      obtain ⟨hf, -, hs⟩ := s.breaker.isAvailable_frame a.now
      simp only [CounterCovers, KeepsCounter, step, hpc, hc, hf, ne_eq, hs]
      simpa using h
    | recordSuccess =>
      simp only [CounterCovers, KeepsCounter, step, hpc, hc]
      constructor
      · intro h0
        refine ⟨fun _ _ => ?_, by simp⟩
        by_contra hne
        exact absurd (h0 hne) (by simp; omega)
      · rintro ⟨h0, -⟩ hne
        exact absurd (h0 trivial trivial) hne
    | recordFailure =>
      simp only [CounterCovers, KeepsCounter, step, hpc, hc]
      simp only [reduceCtorEq, false_imp_iff, imp_true_iff, and_true, iff_true]
      exact fun hne => Nat.le_succ_of_le (h hne)
  | successIndex => simpa [CounterCovers, KeepsCounter, step, hpc] using h
  | successLock => simp [CounterCovers, KeepsCounter, step, hpc]
  | failureIndex => simpa [CounterCovers, KeepsCounter, step, hpc] using h
  | failureLock i =>
    simp only [CounterCovers, KeepsCounter, step, hpc, failureLocked_failures]
    constructor
    · intro h0
      exact ⟨by simp, fun _ _ _ => h0 (failureLocked_ne_closed cfg _ i a.now)⟩
    · rintro ⟨-, h0⟩ -
      by_cases hs : s.breaker.state = .closed
      · exact h0 i rfl hs
      · exact h hs

/-- Every run: the counter covers the state all along exactly when every step keeps it. -/
theorem counter_covers_iff (as : List BreakerStep) : Run.Along (step cfg) (KeepsCounter cfg) init as ↔
      ∀ bs, bs <+: as → CounterCovers cfg (after cfg bs) :=
  Run.along_iff_invariant (step_counterCovers cfg) (fun h => absurd rfl h)

/-- `a :: as` are the steps from the first to the last of a `record_failure` of `t`, with the breaker `HalfOpen`
before each. -/
structure FailureInHalfOpen (cfg : BreakerConfig) (s : BreakerSys) (t : Nat) (a : BreakerStep)
    (as : List BreakerStep) : Prop where
  idle : s.pc t = .idle
  task : a.task = t
  call : a.call = .recordFailure
  inside : ∀ bs, bs <+: as → bs ≠ as → (Run.run (step cfg) (step cfg s a) bs).pc t ≠ .idle
  returns : (Run.run (step cfg) (step cfg s a) as).pc t = .idle
  halfOpen : s.breaker.state = .halfOpen
  stays : ∀ bs, bs <+: as → bs ≠ as →
    (Run.run (step cfg) (step cfg s a) bs).breaker.state = .halfOpen

variable {t : Nat}

theorem pc_of_ne (s : BreakerSys) (a : BreakerStep)
    (h : a.task ≠ t) : (step cfg s a).pc t = s.pc t := by
  unfold step
  split
  · split <;> simp [Function.update_of_ne h.symm]
  all_goals simp [Function.update_of_ne h.symm]

variable {cfg : BreakerConfig} {s : BreakerSys} {a : BreakerStep}

theorem failing_step (h : (s.pc t).Failing) (hne : (step cfg s a).pc t ≠ .idle) : ((step cfg s a).pc t).Failing := by
  by_cases ht : a.task = t
  · subst ht
    cases hpc : s.pc a.task <;> simp_all [BreakerPc.Failing, step]
  · rw [pc_of_ne cfg s a ht]; exact h

theorem failing_run {as : List BreakerStep} (h : (s.pc t).Failing)
    (hin : ∀ bs, bs <+: as → (Run.run (step cfg) s bs).pc t ≠ .idle) :
    ((Run.run (step cfg) s as).pc t).Failing := by
  induction as using List.reverseRecOn with
  | nil => exact h
  | append_singleton as a ih =>
    have ih := ih fun bs hb => hin bs (hb.trans (List.prefix_append _ _))
    have hne := hin _ (List.prefix_refl _)
    rw [Run.run_concat] at hne ⊢
    exact failing_step ih hne

theorem failing_return (h : (s.pc t).Failing) (hret : (step cfg s a).pc t = .idle) :
    ∃ i, (step cfg s a).breaker = s.breaker.failureLocked cfg i a.now := by
  by_cases ht : a.task = t
  · subst ht
    cases hpc : s.pc a.task with
    | failureLock i => exact ⟨i, by simp [step, hpc]⟩
    | failureIndex => simp [step, hpc] at hret
    | _ => simp [hpc, BreakerPc.Failing] at h
  · rw [pc_of_ne cfg s a ht] at hret
    simp [hret, BreakerPc.Failing] at h

theorem FailureInHalfOpen.reopens {as : List BreakerStep} (hc : FailureInHalfOpen cfg s t a as) (hs : CounterCovers cfg s) :
    ∃ o r, (Run.run (step cfg) (step cfg s a) as).breaker.state = .open o r := by
  have hge : cfg.failureThreshold ≤ s.breaker.consecutiveFailures + 1 :=
    Nat.le_succ_of_le (hs (by simp [hc.halfOpen]))
  have hpc : ((step cfg s a).pc t) = .failureIndex := by
    have hidle := hc.idle
    rw [← hc.task] at hidle ⊢
    simp [step, hidle, hc.call, hge]
  have hF : ((step cfg s a).pc t).Failing := by rw [hpc]; trivial
  rcases List.eq_nil_or_concat as with rfl | ⟨as, b, rfl⟩
  · -- the call cannot return at its first step: the counter is past the threshold
    have hret := hc.returns
    rw [Run.run_nil, hpc] at hret
    simp at hret
  · rw [List.concat_eq_append] at hc ⊢
    have hlt : ∀ bs, bs <+: as → bs ≠ as ++ [b] := by
      intro bs hb he
      have := hb.length_le
      rw [he, List.length_append, List.length_singleton] at this
      omega
    have hF' := failing_run hF fun bs hb => hc.inside bs (hb.trans (List.prefix_append _ _)) (hlt bs hb)
    have hret := hc.returns
    rw [Run.run_concat] at hret ⊢
    obtain ⟨i, hb⟩ := failing_return hF' hret
    have hhalf := hc.stays as (List.prefix_append _ _) (hlt as (List.prefix_refl _))
    rw [hb]
    simp [failureLocked, hhalf]

/-- The failure counter is at least the threshold in every `Open` or `HalfOpen` state of a run
exactly when every step of the run keeps it so, and then every `record_failure` that runs from
start to end in `HalfOpen` re-opens the breaker. -/
theorem half_open_failure_reopens (cfg : BreakerConfig) (as : List BreakerStep) :
    (Run.Along (step cfg) (KeepsCounter cfg) init as ↔
      ∀ bs, bs <+: as → CounterCovers cfg (after cfg bs)) ∧
    (Run.Along (step cfg) (KeepsCounter cfg) init as →
      ∀ pre t a call, pre ++ a :: call <+: as → FailureInHalfOpen cfg (after cfg pre) t a call →
        ∃ o r, (after cfg (pre ++ a :: call)).breaker.state = .open o r) := by
  refine ⟨counter_covers_iff cfg as, fun h pre t a call hp hc => ?_⟩
  have hcov := (counter_covers_iff cfg as).1 h pre ((List.prefix_append _ _).trans hp)
  have := hc.reopens hcov
  rwa [after, Run.run_append]

def raceConfig : BreakerConfig := ⟨2, [1000000000], by decide, by decide⟩

/-- Task 0 fails; task 1 fails and stops before the lock; task 2 succeeds; task 1 opens the breaker; the window
passes. -/
def raceRun : List BreakerStep :=
  [⟨0, .recordFailure, 0⟩, ⟨1, .recordFailure, 1⟩, ⟨1, .recordFailure, 1⟩, ⟨2, .recordSuccess, 2⟩,
   ⟨2, .recordSuccess, 2⟩, ⟨2, .recordSuccess, 2⟩, ⟨1, .recordFailure, 3⟩,
   ⟨3, .isAvailable, 1000000003⟩]

/-- After the race the breaker is `HalfOpen` with its failure counter at zero and no call in
flight, and the next failure, alone and inside `HalfOpen`, does not re-open it. -/
theorem race_leaves_half_open : (∀ t, (after raceConfig raceRun).pc t = .idle) ∧
    ¬ CounterCovers raceConfig (after raceConfig raceRun) ∧
    FailureInHalfOpen raceConfig (after raceConfig raceRun) 4 ⟨4, .recordFailure, 1000000004⟩ [] ∧
    (after raceConfig (raceRun ++ [⟨4, .recordFailure, 1000000004⟩])).breaker.state = .halfOpen := by
  have hpc : ∀ t, (after raceConfig raceRun).pc t = .idle := by
    intro t
    by_cases h0 : t = 0
    · subst h0; rfl
    by_cases h1 : t = 1
    · subst h1; rfl
    by_cases h2 : t = 2
    · subst h2; rfl
    show Function.update (Function.update (Function.update (Function.update (Function.update
      (Function.update (Function.update (fun _ => BreakerPc.idle) 0 _) 1 _) 1 _) 2 _) 2 _) 2 _) 1 _ t
      = .idle
    simp [h0, h1, h2]
  refine ⟨hpc, fun h => absurd (h (by decide)) (by decide), ?_, by decide⟩
  exact ⟨hpc 4, rfl, rfl, fun bs hb hne => absurd (List.prefix_nil.1 hb) hne, by decide, by decide,
    fun bs hb hne => absurd (List.prefix_nil.1 hb) hne⟩

end BreakerSys
end ObeyGateway
