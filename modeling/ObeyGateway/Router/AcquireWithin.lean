import ObeyGateway.Router.RateLimiterAccounting

/-!
# Waiting for a token (`RateLimiter::acquire_within`)

The loop of `acquire_within`, with the clock moving in its sleeps only. A round that does not end the
call makes the time since the start grow by a millisecond at least, and it only sleeps while that time
is within the budget; so the number of rounds is bounded whatever the others do.
-/

namespace ObeyGateway.RateLimiter

def millis : Nat := 1000000

/-- A `try_acquire` of the loop: what it finds and when. -/
structure Attempt where
  state : RateLimiterState
  now : Nat

structure Acquisition where
  result : Except RateLimitShortfall Nat
  state : RateLimiterState
  attempts : List Attempt

/-- The loop from its round `round` on, at `now`; `none` when `fuel` rounds do not end it. -/
def acquireFrom (l : RateLimiter) (rivals : Nat → List LimiterStep) (started maxWait : Nat) :
    (fuel round : Nat) → RateLimiterState → (now : Nat) → Option Acquisition
  | 0, _, _, _ => none
  | fuel + 1, round, st, now =>
    match l.tryAcquire st now with
    -- zero when granted without sleeping
    | (.ok (), st') => some ⟨.ok (if round = 0 then 0 else now - started), st', [⟨st, now⟩]⟩
    | (.error shortfall, st') =>
      if shortfall.cooldown = true ∨ maxWait < now - started + shortfall.retryIn then
        some ⟨.error shortfall, st', [⟨st, now⟩]⟩
      else
        (l.acquireFrom rivals started maxWait fuel (round + 1) (Run.run l.step st' (rivals round))
          (now + shortfall.retryIn + millis)).map fun end_ => { end_ with attempts := ⟨st, now⟩ :: end_.attempts }

def acquireWithin (l : RateLimiter) (rivals : Nat → List LimiterStep) (maxWait fuel : Nat)
    (st : RateLimiterState) (started : Nat) : Option Acquisition :=
  l.acquireFrom rivals started maxWait fuel 0 st started

variable {l : RateLimiter} {rivals : Nat → List LimiterStep} {st : RateLimiterState}
  {started maxWait now round fuel : Nat}

/-- The attempt takes nothing: it is refused, and every later operation finds the same tokens. -/
def Attempt.Harmless (l : RateLimiter) (a : Attempt) : Prop :=
  ¬ l.Granted a.state ⟨a.now, .tryAcquire⟩ ∧
    ∀ u, a.now ≤ u → l.balance (l.tryAcquire a.state a.now).2 u = l.balance a.state u

theorem balance_refill (hl : 1 ≤ l.requestsPerMinute) (st : RateLimiterState) {u : Nat} (hu : now ≤ u) :
    l.balance (l.refillTokensInternal st now) u = l.balance st u := by
  unfold refillTokensInternal
  by_cases hd : 0 < now - st.lastRefill
  · have hadd : 0 < asSecs (now - st.lastRefill) * l.tokensPerSecond :=
      mul_pos (asSecs_pos hd) (tokensPerSecond_pos hl)
    have hsplit : u - st.lastRefill = (now - st.lastRefill) + (u - now) := by omega
    have hmint := l.minted_nonneg (u - now)
    rw [if_pos hadd, balance_eq, balance_eq, hsplit, minted_add]
    show min _ (min (st.tokens + l.minted (now - st.lastRefill)) l.capacity + _) = _
    rcases le_total (st.tokens + l.minted (now - st.lastRefill)) (l.capacity : ℚ) with hc | hc
    · rw [min_eq_left hc, add_assoc]
    · rw [min_eq_right hc, min_eq_left (by linarith), min_eq_left (by linarith)]
  · have hz : now - st.lastRefill = 0 := by omega
    rw [if_neg (by simp [hz])]

theorem tryAcquire_error (hl : 1 ≤ l.requestsPerMinute) {s : RateLimitShortfall} {st' : RateLimiterState}
    (h : l.tryAcquire st now = (.error s, st')) :
    (s.cooldown = true ↔ ∃ d, inCooldown st now = some d) ∧ Attempt.Harmless l ⟨st, now⟩ := by
  have hno : ¬ l.Granted st ⟨now, .tryAcquire⟩ := fun hg => by
    have hok := hg.2
    rw [h] at hok
    cases hok
  rcases tryAcquire_cases hl st now with ⟨d, hd, -, heq⟩ | ⟨hd, ⟨-, hok, -⟩ | ⟨-, heq⟩⟩
  · have hs : s.cooldown = true := by
      have hanswer : l.tryAcquire st now = (.error ⟨l.requestsPerMinute, st.tokens, d - now, true⟩, st) := by
        simp [tryAcquire, hd]
      rw [hanswer] at h
      cases h
      rfl
    exact ⟨iff_of_true hs ⟨d, hd⟩, hno, fun u _ => by rw [heq]⟩
  · rw [h] at hok
    cases hok
  · refine ⟨iff_of_false ?_ (by simp [hd]), hno, fun u hu => ?_⟩
    · have hl0 : l.requestsPerMinute ≠ 0 := by omega
      simp only [tryAcquire, hd, hl0, if_false] at h
      split at h
      · cases h
      · cases h
        simp
    · show l.balance (l.tryAcquire st now).2 u = l.balance st u
      rw [heq, balance_refill hl _ hu]
      rfl

/-! ### The loop -/

/-- A call that ends stays within its budget, takes a token exactly when it is let in, and never sleeps through a
cooldown. -/
structure Lawful (l : RateLimiter) (maxWait : Nat) (end_ : Acquisition) : Prop where
  wait : ∀ w, end_.result = .ok w → w ≤ maxWait + millis
  granted : ∀ w, end_.result = .ok w → ∃ before a, end_.attempts = before ++ [a] ∧
    l.Granted a.state ⟨a.now, .tryAcquire⟩ ∧ ∀ b ∈ before, b.Harmless l
  refused : ∀ s, end_.result = .error s → ∀ a ∈ end_.attempts, a.Harmless l
  cooldown : ∀ before a rest d, end_.attempts = before ++ a :: rest → inCooldown a.state a.now = some d →
    rest = [] ∧ ∃ s, end_.result = .error s ∧ s.cooldown = true

theorem Lawful.cons {end_ : Acquisition} (h : Lawful l maxWait end_) {a : Attempt} (ha : a.Harmless l)
    (hcool : ∀ d, inCooldown a.state a.now ≠ some d) :
    Lawful l maxWait { end_ with attempts := a :: end_.attempts } where
  wait := h.wait
  granted w hw := by
    obtain ⟨before, b, heq, hb, hbefore⟩ := h.granted w hw
    refine ⟨a :: before, b, by rw [heq]; rfl, hb, fun c hc => ?_⟩
    rcases List.mem_cons.1 hc with rfl | hc
    · exact ha
    · exact hbefore c hc
  refused s hs c hc := by
    rcases List.mem_cons.1 hc with rfl | hc
    · exact ha
    · exact h.refused s hs c hc
  cooldown before b rest d heq hd := by
    cases before with
    | nil =>
      obtain ⟨rfl, -⟩ := List.cons.inj heq
      exact absurd hd (hcool d)
    | cons c before => exact h.cooldown before b rest d (List.cons.inj heq).2 hd

/-- The round that starts at `now` ends the call. -/
def Ends (l : RateLimiter) (started maxWait : Nat) (st : RateLimiterState) (now : Nat) : Prop :=
  ∀ s st', l.tryAcquire st now = (.error s, st') → s.cooldown = true ∨ maxWait < now - started + s.retryIn

theorem eq_of_singleton {a b : Attempt} {before rest : List Attempt} (h : [a] = before ++ b :: rest) :
    b = a ∧ rest = [] := by
  cases before with
  | nil =>
    obtain ⟨rfl, hrest⟩ := List.cons.inj h
    exact ⟨rfl, hrest.symm⟩
  | cons c before => simp at h

theorem acquireFrom_end (rivals : Nat → List LimiterStep) (round : Nat) (hl : 1 ≤ l.requestsPerMinute) (hnow : now - started ≤ maxWait + millis)
    (hends : Ends l started maxWait st now) :
    ∃ end_, (∀ fuel, l.acquireFrom rivals started maxWait (fuel + 1) round st now = some end_) ∧
      end_.attempts.length = 1 ∧ Lawful l maxWait end_ := by
  obtain ⟨answer, st', htry⟩ : ∃ answer st', l.tryAcquire st now = (answer, st') := ⟨_, _, rfl⟩
  cases answer with
  | ok u =>
    have hg : l.Granted st ⟨now, .tryAcquire⟩ := ⟨rfl, by rw [htry]; rfl⟩
    refine ⟨_, fun fuel => by rw [acquireFrom, htry], rfl, ?_⟩
    refine ⟨fun w hw => ?_, fun w _ => ⟨[], _, rfl, hg, by simp⟩, fun s hs => (by cases hs), ?_⟩
    · cases hw
      split
      · exact Nat.zero_le _
      · exact hnow
    · intro before a rest d heq hd
      obtain ⟨rfl, -⟩ := eq_of_singleton heq
      have hno := hg.not_inCooldown
      rw [show inCooldown st now = some d from hd] at hno
      cases hno
  | error s =>
    obtain ⟨hcool, hharm⟩ := tryAcquire_error hl htry
    refine ⟨_, fun fuel => by rw [acquireFrom, htry]; exact if_pos (hends s st' htry), rfl, ?_⟩
    refine ⟨fun w hw => (by cases hw), fun w hw => (by cases hw), fun _ _ a ha => ?_, ?_⟩
    · rw [List.mem_singleton.1 ha]
      exact hharm
    · intro before a rest d heq hd
      obtain ⟨rfl, hrest⟩ := eq_of_singleton heq
      exact ⟨hrest, s, rfl, hcool.2 ⟨d, hd⟩⟩

theorem acquireFrom_law (rivals : Nat → List LimiterStep) (round : Nat) (st : RateLimiterState) (hl : 1 ≤ l.requestsPerMinute) (hstart : started ≤ now)
    (hnow : now - started ≤ maxWait + millis) {rounds : Nat}
    (hrounds : maxWait < now - started + rounds * millis) :
    ∃ end_, (∀ fuel, rounds < fuel → l.acquireFrom rivals started maxWait fuel round st now = some end_) ∧
      end_.attempts.length ≤ rounds + 1 ∧ Lawful l maxWait end_ := by
  induction rounds generalizing round st now with
  | zero =>
    -- the budget is used up: whatever the attempt answers, the round is the last
    have hends : Ends l started maxWait st now := fun s st' _ => .inr (by omega)
    obtain ⟨end_, hrun, hlen, hlaw⟩ := acquireFrom_end rivals round hl hnow hends
    refine ⟨end_, fun fuel hf => ?_, hlen.le, hlaw⟩
    obtain ⟨fuel, rfl⟩ : ∃ k, fuel = k + 1 := ⟨fuel - 1, by omega⟩
    exact hrun fuel
  | succ rounds ih =>
    by_cases hends : Ends l started maxWait st now
    · obtain ⟨end_, hrun, hlen, hlaw⟩ := acquireFrom_end rivals round hl hnow hends
      refine ⟨end_, fun fuel hf => ?_, by omega, hlaw⟩
      obtain ⟨fuel, rfl⟩ : ∃ k, fuel = k + 1 := ⟨fuel - 1, by omega⟩
      exact hrun fuel
    · simp only [Ends, not_forall, not_or, Nat.not_lt] at hends
      obtain ⟨s, st', htry, hno, hbudget⟩ := hends
      obtain ⟨hcool, hharm⟩ := tryAcquire_error hl htry
      have hslept : now + s.retryIn + millis - started = now - started + s.retryIn + millis := by omega
      obtain ⟨end_, hrun, hlen, hlaw⟩ := ih (round + 1) (Run.run l.step st' (rivals round))
        (hstart.trans (by omega : now ≤ now + s.retryIn + millis)) (by omega) (by rw [Nat.succ_mul] at hrounds; omega)
      refine ⟨{ end_ with attempts := ⟨st, now⟩ :: end_.attempts }, fun fuel hf => ?_, by simpa using hlen, ?_⟩
      · obtain ⟨fuel, rfl⟩ : ∃ k, fuel = k + 1 := ⟨fuel - 1, by omega⟩
        rw [acquireFrom, htry]
        have hsleep : ¬ (s.cooldown = true ∨ maxWait < now - started + s.retryIn) := by
          rw [not_or]
          exact ⟨hno, by omega⟩
        simp only [if_neg hsleep, hrun fuel (by omega), Option.map_some]
      · exact hlaw.cons hharm fun d hd => hno (hcool.2 ⟨d, hd⟩)

/-- The law of `acquire_within` on a limiter of `rpm` requests per minute, in any state and against any
use of the limiter by others while it sleeps: the call ends after a bounded number of attempts. -/
theorem acquire_within_law (rpm : Nat) (hrpm : 1 ≤ rpm) (maxWait : Nat) (rivals : Nat → List LimiterStep)
    (st : RateLimiterState) (started : Nat) :
    let l := RateLimiter.new rpm
    ∃ end_, (∀ fuel, maxWait / millis + 2 ≤ fuel → l.acquireWithin rivals maxWait fuel st started = some end_) ∧
      end_.attempts.length ≤ maxWait / millis + 2 ∧ Lawful l maxWait end_ := by
  intro l
  have hsome : maxWait < started - started + (maxWait / millis + 1) * millis := by
    have hlt := Nat.lt_div_mul_add (a := maxWait) (b := millis) (by decide)
    rw [Nat.succ_mul]
    omega
  obtain ⟨end_, hrun, hlen, hlaw⟩ := acquireFrom_law rivals 0 st (show 1 ≤ l.requestsPerMinute from hrpm)
    (le_refl started) (by omega) hsome
  exact ⟨end_, fun fuel hf => hrun fuel (by omega), by omega, hlaw⟩

/-- A rival takes the refilled token first; the second sleep is over within the budget and a millisecond. -/
theorem acquire_within_law_rival :
    let l := RateLimiter.new 60
    let rivals : Nat → List LimiterStep := fun k => if k = 0 then [⟨1001000000, .tryAcquire⟩] else []
    ∃ end_, l.acquireWithin rivals 2500000000 4000 ⟨0, 0, none⟩ 0 = some end_ ∧ Lawful l 2500000000 end_ := by
  intro l rivals
  obtain ⟨end_, hrun, -, hlaw⟩ := acquire_within_law 60 (by decide) 2500000000 rivals ⟨0, 0, none⟩ 0
  exact ⟨end_, hrun 4000 (by decide), hlaw⟩

end ObeyGateway.RateLimiter
