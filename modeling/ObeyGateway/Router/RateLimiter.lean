import ObeyGateway.Lib.Run
import ObeyGateway.Time

/-!
# The provider rate limiter (`router/rate_limiter.rs`)

A token bucket with an upstream-driven cooldown. Token balances, `f64` in the source, are exact
rationals. Every operation runs under the one mutex, so a run is a list of operations, each at the
instant its critical section reads the clock; `apply_cooldown` reads the clock before it takes the
mutex, `waited` nanoseconds earlier.
-/

namespace ObeyGateway

/-- `MAX_COOLDOWN`: seven days. -/
def maxCooldown : Nat := 7 * 24 * 60 * 60 * 1000000000

structure RateLimiterState where
  tokens : ℚ
  lastRefill : Nat
  cooldownUntil : Option Nat
deriving DecidableEq, Repr

structure RateLimitShortfall where
  requestsPerMinute : Nat
  tokensAvailable : ℚ
  retryIn : Nat
  cooldown : Bool
deriving DecidableEq, Repr

structure RateLimiter where
  capacity : Nat
  requestsPerMinute : Nat
deriving DecidableEq, Repr

namespace RateLimiter

def new (requestsPerMinute : Nat) : RateLimiter := ⟨requestsPerMinute, requestsPerMinute⟩

/-- The state `new` puts behind the mutex. -/
def newState (l : RateLimiter) (now : Nat) : RateLimiterState :=
  ⟨l.requestsPerMinute, now, none⟩

def cooldownRemaining (st : RateLimiterState) (now : Nat) : Option Nat :=
  match st.cooldownUntil with
  | some deadline => if now < deadline then some (deadline - now) else none
  | none => none

/-- `Instant::now() + duration.min(MAX_COOLDOWN)` -/
def cooldownDeadline (calledAt : Nat) (duration : Nat) : Nat :=
  calledAt + min duration maxCooldown

def applyCooldown (st : RateLimiterState) (calledAt : Nat) (duration : Nat) :
    RateLimiterState :=
  let newDeadline := cooldownDeadline calledAt duration
  match st.cooldownUntil with
  | some existing =>
    if newDeadline ≤ existing then st else { st with cooldownUntil := some newDeadline }
  | none => { st with cooldownUntil := some newDeadline }

def clearCooldown (st : RateLimiterState) : RateLimiterState := { st with cooldownUntil := none }

def tokensPerSecond (l : RateLimiter) : ℚ := (l.requestsPerMinute : ℚ) / 60

def refillTokensInternal (l : RateLimiter) (st : RateLimiterState) (now : Nat) :
    RateLimiterState :=
  let tokensToAdd := asSecs (now - st.lastRefill) * l.tokensPerSecond
  if 0 < tokensToAdd then
    { st with tokens := min (st.tokens + tokensToAdd) l.capacity, lastRefill := now }
  else st

/-- The deadline that refuses a request at `now`. -/
def inCooldown (st : RateLimiterState) (now : Nat) : Option Nat :=
  st.cooldownUntil.filter (now < ·)

def checkAvailable (l : RateLimiter) (st : RateLimiterState) (now : Nat) :
    Bool × RateLimiterState :=
  match inCooldown st now with
  | some _ => (false, st)
  | none =>
    -- a deadline that has passed is cleared on the way
    let st := clearCooldown st
    if l.requestsPerMinute = 0 then (true, st)
    else
      let st := l.refillTokensInternal st now
      (decide (1 ≤ st.tokens), st)

def tryAcquire (l : RateLimiter) (st : RateLimiterState) (now : Nat) :
    Except RateLimitShortfall Unit × RateLimiterState :=
  match inCooldown st now with
  | some deadline => (.error ⟨l.requestsPerMinute, st.tokens, deadline - now, true⟩, st)
  | none =>
    let st := clearCooldown st
    if l.requestsPerMinute = 0 then (.ok (), st)
    else
      let st := l.refillTokensInternal st now
      if 1 ≤ st.tokens then (.ok (), { st with tokens := st.tokens - 1 })
      else
        (.error ⟨l.requestsPerMinute, st.tokens,
          fromSecs ((1 - st.tokens) / l.tokensPerSecond), false⟩, st)

def debit (l : RateLimiter) (st : RateLimiterState) (now : Nat) : RateLimiterState :=
  if l.requestsPerMinute = 0 then st
  else
    let st := l.refillTokensInternal st now
    { st with tokens := st.tokens - 1 }

def refund (l : RateLimiter) (st : RateLimiterState) (now : Nat) : RateLimiterState :=
  if l.requestsPerMinute = 0 then st
  else
    let st := l.refillTokensInternal st now
    { st with tokens := min (st.tokens + 1) l.capacity }

end RateLimiter

inductive LimiterOp
  | tryAcquire
  | debit
  | refund
  | applyCooldown (waited duration : Nat)
  | clearCooldown
  | checkAvailable
deriving DecidableEq, Repr

structure LimiterStep where
  instant : Nat
  op : LimiterOp
deriving DecidableEq, Repr

namespace RateLimiter

def step (l : RateLimiter) (st : RateLimiterState) (a : LimiterStep) : RateLimiterState :=
  match a.op with
  | .tryAcquire => (l.tryAcquire st a.instant).2
  | .debit => l.debit st a.instant
  | .refund => l.refund st a.instant
  | .applyCooldown waited duration => applyCooldown st (a.instant - waited) duration
  | .clearCooldown => clearCooldown st
  | .checkAvailable => (l.checkAvailable st a.instant).2

/-- The step is a `try_acquire` that is granted. -/
def Granted (l : RateLimiter) (st : RateLimiterState) (a : LimiterStep) : Prop :=
  a.op = .tryAcquire ∧ (l.tryAcquire st a.instant).1.isOk = true

instance (l : RateLimiter) (st : RateLimiterState) (a : LimiterStep) : Decidable (l.Granted st a) :=
  inferInstanceAs (Decidable (_ ∧ _))

/-- The number of granted `try_acquire`s along the run from `st`. -/
def grants (l : RateLimiter) : RateLimiterState → List LimiterStep → Nat
  | _, [] => 0
  | st, a :: as => (if l.Granted st a then 1 else 0) + l.grants (l.step st a) as

def debits (as : List LimiterStep) : Nat := as.countP (·.op = .debit)

def refunds (as : List LimiterStep) : Nat := as.countP (·.op = .refund)

/-- Instants do not decrease along the run, which starts at `t`. -/
def InOrder : Nat → List LimiterStep → Prop
  | _, [] => True
  | t, a :: as => t ≤ a.instant ∧ InOrder a.instant as

/-- The instant of the last step, `t` when there is none. -/
def lastInstant (t : Nat) (as : List LimiterStep) : Nat :=
  as.foldl (fun _ a => a.instant) t

structure AppliedDeadline where
  deadline : Nat
  appliedAt : Nat
deriving DecidableEq, Repr

/-- The deadlines applied since the last `clear_cooldown`. -/
def deadlines (as : List LimiterStep) : List AppliedDeadline :=
  as.foldl (fun ds a => match a.op with
    | .applyCooldown waited duration =>
      ds ++ [⟨cooldownDeadline (a.instant - waited) duration, a.instant⟩]
    | .clearCooldown => []
    | _ => ds) []

/-- The state after the steps `as` of a limiter made at `t`. -/
def after (l : RateLimiter) (t : Nat) (as : List LimiterStep) : RateLimiterState :=
  Run.run l.step (l.newState t) as

end RateLimiter
end ObeyGateway
