import ObeyGateway.Lib.TokenBucket
import ObeyGateway.Time
import Mathlib.Algebra.Group.Nat.Defs

/-!
# Per-key rate limits (`virtual_keys/rate_limiter.rs`)

A token bucket over requests and a rolling 60-second window over tokens, either of which may be
absent. Balances, `f64` in the source, are exact rationals; token counts are `u64`s held as natural
numbers, with the sums saturating where the source's do.
-/

namespace ObeyGateway.VirtualKeys

/-- `TPM_WINDOW`: 60 seconds. -/
def tpmWindow : Nat := 60 * 1000000000

def u64Max : Nat := 2 ^ 64 - 1

def u32Max : Nat := 2 ^ 32 - 1

/-- `seconds.ceil() as u32`, which saturates. -/
def ceilSecs (seconds : ℚ) : Nat :=
  if seconds ≤ 0 then 0 else min ⌈seconds⌉.toNat u32Max

structure RpmBucket where
  capacity : ℚ
  tokens : ℚ
  refillPerSec : ℚ
  lastRefill : Nat
deriving DecidableEq, Repr

namespace RpmBucket

def new (rpm now : Nat) : RpmBucket := ⟨rpm, rpm, (rpm : ℚ) / 60, now⟩

def refill (b : RpmBucket) (now : Nat) : RpmBucket :=
  if now ≤ b.lastRefill then b
  else
    let added := asSecs (now - b.lastRefill) * b.refillPerSec
    if 0 < added then { b with tokens := min (b.tokens + added) b.capacity, lastRefill := now }
    else b

def check (b : RpmBucket) (now : Nat) : Except Nat Unit × RpmBucket :=
  let b := b.refill now
  if 1 ≤ b.tokens then (.ok (), b)
  -- without a refill rate the quotient is infinite
  else if b.refillPerSec = 0 then (.error u32Max, b)
  else (.error (max (ceilSecs ((1 - b.tokens) / b.refillPerSec)) 1), b)

def consume (b : RpmBucket) (now : Nat) : RpmBucket :=
  let b := b.refill now
  { b with tokens := max (b.tokens - 1) 0 }

end RpmBucket

structure TpmWindow where
  limit : Nat
  /-- Instant and token count, oldest first. -/
  entries : List (Nat × Nat)
  currentSum : Nat
deriving DecidableEq, Repr

namespace TpmWindow

def new (limit : Nat) : TpmWindow := ⟨limit, [], 0⟩

/-- The loop of `prune` over the entries and their running sum. -/
def pruneFrom (now : Nat) : List (Nat × Nat) → Nat → List (Nat × Nat) × Nat
  | [], sum => ([], sum)
  | (ts, tokens) :: rest, sum =>
    if tpmWindow ≤ now - ts then pruneFrom now rest (sum - tokens) else ((ts, tokens) :: rest, sum)

def prune (w : TpmWindow) (now : Nat) : TpmWindow :=
  let pruned := pruneFrom now w.entries w.currentSum
  { w with entries := pruned.1, currentSum := pruned.2 }

/-- The wait until the entry of `ts` is out of the window. -/
def waitFor (now ts : Nat) : Nat := max (ceilSecs (asSecs (ts + tpmWindow - now))) 1

/-- The walk of `check`: the instant of the first entry without which, and without those before it,
the sum is below the limit. -/
def walk (limit : Nat) : Nat → List (Nat × Nat) → Option Nat
  | _, [] => none
  | remaining, (ts, tokens) :: rest =>
    if remaining - tokens < limit then some ts else walk limit (remaining - tokens) rest

def check (w : TpmWindow) (now : Nat) : Except Nat Unit × TpmWindow :=
  let w := w.prune now
  if w.currentSum < w.limit then (.ok (), w)
  else
    match walk w.limit w.currentSum w.entries with
    | some ts => (.error (waitFor now ts), w)
    | none =>
      match w.entries.getLast? with
      | some entry => (.error (waitFor now entry.1), w)
      | none => (.error (max (ceilSecs 0) 1), w)

def record (w : TpmWindow) (now tokens : Nat) : TpmWindow :=
  let w := w.prune now
  if tokens = 0 then w
  else { w with
    entries := w.entries ++ [(now, tokens)]
    currentSum := min (w.currentSum + tokens) u64Max }

end TpmWindow

inductive RateLimitError
  | rpmExceeded (retryAfterSeconds : Nat)
  | tpmExceeded (retryAfterSeconds : Nat)
deriving DecidableEq, Repr

structure PerKeyRateLimiter where
  rpmBucket : Option RpmBucket
  tpmWindow : Option TpmWindow
deriving DecidableEq, Repr

/-- The clock readings of one `check_rate_limit`. -/
structure CheckInstants where
  rpmAt : Nat
  tpmAt : Nat
  consumeAt : Nat
  rpm_le : rpmAt ≤ tpmAt
  tpm_le : tpmAt ≤ consumeAt

namespace PerKeyRateLimiter

def newAt (rpm tpm : Option Nat) (now : Nat) : PerKeyRateLimiter :=
  ⟨rpm.map (RpmBucket.new · now), tpm.map TpmWindow.new⟩

def checkRpmAt (l : PerKeyRateLimiter) (now : Nat) : Except Nat Unit × PerKeyRateLimiter :=
  match l.rpmBucket with
  | some bucket => ((bucket.check now).1, { l with rpmBucket := some (bucket.check now).2 })
  | none => (.ok (), l)

def consumeRpmAt (l : PerKeyRateLimiter) (now : Nat) : PerKeyRateLimiter :=
  { l with rpmBucket := l.rpmBucket.map (·.consume now) }

def checkTpmAt (l : PerKeyRateLimiter) (now : Nat) : Except Nat Unit × PerKeyRateLimiter :=
  match l.tpmWindow with
  | some window => ((window.check now).1, { l with tpmWindow := some (window.check now).2 })
  | none => (.ok (), l)

def recordTpmAt (l : PerKeyRateLimiter) (now tokens : Nat) : PerKeyRateLimiter :=
  { l with tpmWindow := l.tpmWindow.map (·.record now tokens) }

/-- `check_rate_limit` on the limiter of the key. -/
def checkRateLimit (l : PerKeyRateLimiter) (t : CheckInstants) :
    Except RateLimitError Unit × PerKeyRateLimiter :=
  match l.checkRpmAt t.rpmAt with
  | (.error retry, l) => (.error (.rpmExceeded retry), l)
  | (.ok (), l) =>
    match l.checkTpmAt t.tpmAt with
    | (.error retry, l) => (.error (.tpmExceeded retry), l)
    | (.ok (), l) => (.ok (), l.consumeRpmAt t.consumeAt)

end PerKeyRateLimiter

/-- The calls on the limiter of a key, in the order in which they take its lock. -/
inductive LimiterCall
  | checkRateLimit (t : CheckInstants)
  | checkRpm (now : Nat)
  | checkTpm (now : Nat)
  | recordTpm (now tokens : Nat)

namespace LimiterCall

def first : LimiterCall → Nat
  | .checkRateLimit t => t.rpmAt
  | .checkRpm now | .checkTpm now | .recordTpm now _ => now

def last : LimiterCall → Nat
  | .checkRateLimit t => t.consumeAt
  | .checkRpm now | .checkTpm now | .recordTpm now _ => now

end LimiterCall

namespace PerKeyRateLimiter

def step (l : PerKeyRateLimiter) : LimiterCall → PerKeyRateLimiter
  | .checkRateLimit t => (l.checkRateLimit t).2
  | .checkRpm now => (l.checkRpmAt now).2
  | .checkTpm now => (l.checkTpmAt now).2
  | .recordTpm now tokens => l.recordTpmAt now tokens

/-- The call is a `check_rate_limit` that lets the request in. -/
def Admits (l : PerKeyRateLimiter) : LimiterCall → Bool
  | .checkRateLimit t => (l.checkRateLimit t).1.isOk
  | _ => false

/-- Clock readings do not decrease along the calls, which come after `t`. -/
def InOrder (t : Nat) (cs : List LimiterCall) : Prop :=
  TokenBucket.InOrder LimiterCall.first LimiterCall.last t cs

/-- The last clock reading of the calls, `t` when there is none. -/
def lastInstant (t : Nat) (cs : List LimiterCall) : Nat :=
  TokenBucket.lastInstant LimiterCall.last t cs

/-- The limiter after the calls `cs` on a new one. -/
def after (rpm tpm : Option Nat) (t : Nat) (cs : List LimiterCall) : PerKeyRateLimiter :=
  Run.run step (newAt rpm tpm t) cs

/-- The instants of the requests that the calls from `l` on let in. -/
def admissions : PerKeyRateLimiter → List LimiterCall → List Nat
  | _, [] => []
  | l, c :: cs => (if l.Admits c then [c.last] else []) ++ (l.step c).admissions cs

def recorded (cs : List LimiterCall) : List (Nat × Nat) :=
  cs.filterMap fun c => match c with
    | .recordTpm now tokens => some (now, tokens)
    | _ => none

/-- The tokens recorded less than 60 seconds before `now`. -/
def windowSum (records : List (Nat × Nat)) (now : Nat) : Nat :=
  ((records.filter fun e => now - e.1 < VirtualKeys.tpmWindow).map (·.2)).sum

end PerKeyRateLimiter

end ObeyGateway.VirtualKeys
