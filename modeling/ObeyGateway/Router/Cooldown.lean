import ObeyGateway.Lib.JsonPrint
import ObeyGateway.Lib.Text
import ObeyGateway.Router.RateLimiter

/-!
# How long a rate limit lasts (`compute_rate_limit_cooldown`)

The first place of the response that names a duration decides: headers, fields of the body, phrases in its text; caps
bound it. Everything there is the provider's; `none` is a panic or an overflow, which happens exactly if the first
duration that is named has no place in a `Duration` (`cooldown_law_iff`).
-/

namespace ObeyGateway

open Text

/-- `u64` seconds and nanoseconds below a second -/
@[ext] structure Duration where
  nanos : Nat
  fits : nanos < 2 ^ 64 * 10 ^ 9
deriving DecidableEq

/-- A moment of `chrono`, whose years are between -262143 and 262142. -/
structure DateTime where
  nanos : Int
  inRange : nanos.natAbs < 2 ^ 43 * 10 ^ 9

namespace Duration

theorem fits_fromSecs (secs : UInt64) : secs.toNat * 10 ^ 9 < 2 ^ 64 * 10 ^ 9 :=
  Nat.mul_lt_mul_of_pos_right secs.toNat_lt (by decide)

theorem fits_fromMillis (millis : UInt64) : millis.toNat * 10 ^ 6 < 2 ^ 64 * 10 ^ 9 :=
  Nat.mul_lt_mul_of_lt_of_le millis.toNat_lt (by decide) (by decide)

def fromSecs (secs : UInt64) : Duration := ⟨secs.toNat * 10 ^ 9, fits_fromSecs secs⟩

def fromMillis (millis : UInt64) : Duration := ⟨millis.toNat * 10 ^ 6, fits_fromMillis millis⟩

def min (d cap : Duration) : Duration := if d.nanos ≤ cap.nanos then d else cap

def ofNanos (nanos : Nat) : Option Duration := if h : nanos < 2 ^ 64 * 10 ^ 9 then some ⟨nanos, h⟩ else none

/-- The nearest nanosecond to a finite `f64` that is not negative, ties to even. -/
def nanosOfF64 (bits : UInt64) : Nat :=
  let exponent := bits.toNat / 2 ^ 52 % 2 ^ 11
  let mantissa := bits.toNat % 2 ^ 52
  -- in units of 2 ^ -1074
  let units := if exponent = 0 then mantissa else (2 ^ 52 + mantissa) * 2 ^ (exponent - 1)
  let low := units * 10 ^ 9 / 2 ^ 1074
  let rest := 2 * (units * 10 ^ 9 % 2 ^ 1074)
  if rest < 2 ^ 1074 then low else if 2 ^ 1074 < rest then low + 1 else low + low % 2

/-- It panics if the number is too large. -/
def fromSecsF64 (bits : UInt64) : Option Duration := ofNanos (nanosOfF64 bits)

end Duration

namespace DateTime

theorem fits_since (later earlier : DateTime) : (later.nanos - earlier.nanos).toNat < 2 ^ 64 * 10 ^ 9 := by
  have h := later.inRange
  have h' := earlier.inRange
  omega

/-- The time from `earlier`, and zero if it is negative. -/
def since (later earlier : DateTime) : Duration := ⟨(later.nanos - earlier.nanos).toNat, fits_since later earlier⟩

/-- `timestamp() as u64` -/
def epochSecs (t : DateTime) : Nat := (t.nanos / 10 ^ 9 % 2 ^ 64).toNat

end DateTime

/-- `str::parse::<u64>` -/
def parseU64 (text : List Char) : Option UInt64 :=
  let digits := match text with
    | '+' :: rest => rest
    | _ => text
  if digits.isEmpty || !digits.all Char.isDigit then none
  else
    let value := Nat.ofDigitChars 10 digits 0
    if value < 2 ^ 64 then some (UInt64.ofNat value) else none

/-- `str::parse::<f64>` of digits and dots -/
def parseF64 (text : List Char) : Option Float :=
  let whole := text.takeWhile Char.isDigit
  match text.dropWhile Char.isDigit with
  | [] => if whole.isEmpty then none else some (Float.ofScientific (Nat.ofDigitChars 10 whole 0) false 0)
  | c :: fraction =>
    if c = '.' && fraction.all Char.isDigit && !(whole ++ fraction).isEmpty then
      some (Float.ofScientific (Nat.ofDigitChars 10 (whole ++ fraction) 0) true fraction.length)
    else none

/-- `num.ceil() as u64`; from 2 ^ 53 on every number is whole. -/
def ceilToU64 (num : Float) : Nat :=
  let whole := num.toUInt64
  if num < 9007199254740992 && whole.toFloat < num then whole.toNat + 1 else whole.toNat

/-- `total_secs += secs` -/
def addSecs (total secs : Nat) : Option Nat := if total + secs < 2 ^ 64 then some (total + secs) else none

/-- Milliseconds, at least a second. -/
def msSecs (num : Float) : Nat := max (ceilToU64 (num / 1000)) 1

def unitSecs (unit : Char) (num : Float) : Nat :=
  if unit = 'd' then (num * 86400).toUInt64.toNat
  else if unit = 'h' then (num * 3600).toUInt64.toNat
  else if unit = 'm' then (num * 60).toUInt64.toNat
  else if unit = 's' then num.toUInt64.toNat
  else 0

/-- The loop of `parse_go_duration`, with the digits read last. -/
def goLoop : Nat → List Char → List Char → Option Nat
  | total, currentNum, [] => addSecs total (((parseU64 currentNum).map UInt64.toNat).getD 0)
  | total, currentNum, 'm' :: 's' :: chars =>
    (addSecs total (((parseF64 currentNum).map msSecs).getD 0)).bind fun total => goLoop total [] chars
  | total, currentNum, c :: chars =>
    if c.isDigit || c = '.' then goLoop total (currentNum ++ [c]) chars
    else (addSecs total (((parseF64 currentNum).map (unitSecs c)).getD 0)).bind fun total => goLoop total [] chars

/-- The outer `none` is the panic; the inner one is a place that names no duration. -/
abbrev Reading := Option (Option Duration)

def parseGoDuration (text : List Char) : Reading :=
  let text := trim text
  if text.isEmpty then some none
  else (goLoop 0 [] text).map fun total =>
    if 0 < total then some (Duration.fromSecs (UInt64.ofNat total)) else none

/-! ### Places -/

structure CooldownEnv where
  now : DateTime
  parseFromRfc2822 : List Char → Option DateTime
  parseFromRfc3339 : List Char → Option DateTime
  fromStr : List Char → Option Json

/-- The values of each name in the order in which they came; names are in lower case. -/
abbrev HeaderMap := List (String × List UInt8)

/-- `HeaderValue::to_str`: only visible characters, blanks and tabs. -/
def toAscii (value : List UInt8) : Option (List Char) :=
  if value.all fun b => (32 ≤ b && b < 127) || b = 9 then some (value.map fun b => Char.ofNat b.toNat) else none

def headerText (headers : HeaderMap) (name : String) : Option (List Char) := (Assoc.get headers name).bind toAscii

def firstOf : List Reading → Reading
  | [] => some none
  | none :: _ => none
  | some none :: places => firstOf places
  | some (some d) :: _ => some (some d)

section
variable (env : CooldownEnv)

def epochOrRelative (secs : UInt64) : Duration :=
  let nowEpoch := env.now.epochSecs
  if nowEpoch - 60 * 60 * 24 < secs.toNat ∧ secs.toNat < min (nowEpoch + 60 * 60 * 24 * 365) (2 ^ 64 - 1) then
    Duration.fromSecs (UInt64.ofNat (secs.toNat - nowEpoch))
  else Duration.fromSecs secs

def durationUntilEpochOrRelative (text : List Char) : Reading :=
  match parseU64 text with
  | some secs => some (some (epochOrRelative env secs))
  | none => parseGoDuration text

def readMillis (text : List Char) : Reading := some ((parseU64 (trim text)).map Duration.fromMillis)

def readRetryAfter (text : List Char) : Reading :=
  let trimmed := trim text
  match parseU64 trimmed with
  | some secs => some (some (Duration.fromSecs secs))
  | none => some ((env.parseFromRfc2822 trimmed).map fun reset => reset.since env.now)

def readRelative (text : List Char) : Reading :=
  some (((parseU64 (trim text)).filter (·.toNat < 1000000000)).map Duration.fromSecs)

def readReset (text : List Char) : Reading := durationUntilEpochOrRelative env (trim text)

def readRfc3339 (text : List Char) : Reading := some ((env.parseFromRfc3339 text).map fun reset => reset.since env.now)

def headerReaders : List (String × (List Char → Reading)) :=
  ("retry-after-ms", readMillis) :: ("retry-after", readRetryAfter env) ::
    ["x-ratelimit-reset-after", "ratelimit-reset"].map (fun name => (name, readRelative)) ++
    ["x-ratelimit-reset", "x-rate-limit-reset", "x-ratelimit-reset-requests", "x-ratelimit-reset-tokens"].map
      (fun name => (name, readReset env)) ++
    ["anthropic-ratelimit-requests-reset", "anthropic-ratelimit-tokens-reset",
      "anthropic-ratelimit-input-tokens-reset", "anthropic-ratelimit-output-tokens-reset"].map
      fun name => (name, fun text => readRfc3339 env (trim text))

def readHeader (headers : HeaderMap) (name : String) (read : List Char → Reading) : Reading :=
  match headerText headers name with
  | some text => read text
  | none => some none

def cooldownFromHeaders (headers : HeaderMap) : Reading :=
  firstOf ((headerReaders env).map fun (name, read) => readHeader headers name read)

def bracedSpan (body : List Char) : Option (List Char) :=
  match body.idxOf? '{', body.reverse.idxOf? '}' with
  | some start, some fromEnd =>
    let stop := body.length - fromEnd
    if start ≤ stop then some ((body.take stop).drop start) else none
  | _, _ => none

def bodyJson (body : List Char) : Option Json := (env.fromStr body).or ((bracedSpan body).bind env.fromStr)

def fieldSecs (err : Json) (field : String) : Reading :=
  some (((err.get field).bind (·.asU64)).map Duration.fromSecs)

def fieldMillis (err : Json) (field : String) : Reading :=
  some (((err.get field).bind (·.asU64)).map Duration.fromMillis)

/-- `v.as_f64()` of a number that is no `u64`, if it is finite and not negative. A negative integer is negative. -/
def fractionalSecs : Json → Option UInt64
  | .number (.float bits) => if 0 ≤ Float.ofBits bits.1 then some bits.1 else none
  | _ => none

def fieldRetryAfter (err : Json) (field : String) : Reading :=
  match (err.get field).bind (·.asU64) with
  | some secs => some (some (Duration.fromSecs secs))
  | none =>
    match (err.get field).bind fractionalSecs with
    | some secs => (Duration.fromSecsF64 secs).map some
    | none => some none

/-- Epoch seconds or a date. -/
def fieldResetAt (err : Json) (field : String) : Reading :=
  match (err.get field).bind (·.asU64) with
  | some secs => durationUntilEpochOrRelative env (Json.digits secs.toNat)
  | none =>
    match (err.get field).bind (·.asStr) with
    | some text => readRfc3339 env text.toList
    | none => some none

def cooldownFromBody (body : List Char) : Reading :=
  match bodyJson env body with
  | none => some none
  | some json =>
    let err := (json.get "error").getD json
    firstOf (fieldSecs err "resets_in_seconds" ::
      ["retry_after_ms", "retry-after-ms"].map (fieldMillis err) ++
      ["retry_after", "retry-after"].map (fieldRetryAfter err) ++
      ["reset_at", "resets_at", "reset"].map (fieldResetAt env err))

def periodMarkers : List (List String × UInt64) :=
  [(["per month", "monthly limit", "monthly quota"], 30 * (24 * (60 * 60))),
    (["per week", "weekly limit", "weekly quota"], 7 * (24 * (60 * 60))),
    (["per day", "daily limit", "daily quota"], 24 * (60 * 60)),
    (["per hour", "hourly limit", "hourly quota"], 60 * 60)]

def cooldownFromPeriodMarker (body : List Char) : Option Duration :=
  let lower := toAsciiLowercase body
  (periodMarkers.find? fun (phrases, _) => phrases.any (contains lower ·)).map fun (_, secs) => Duration.fromSecs secs

/-- The provider's cap goes before the global one, and the limiter's stands above both. -/
def cooldownCap (providerCapSecs : Option UInt64) (globalCapSecs : UInt64) : Duration :=
  Duration.fromSecs (min (providerCapSecs.getD globalCapSecs) (UInt64.ofNat (maxCooldown / 10 ^ 9)))

/-- `none` is a panic or an overflow. -/
def computeRateLimitCooldown (headers : Option HeaderMap) (body : List Char) (defaultCooldown : Duration)
    (providerCapSecs : Option UInt64) (globalCapSecs : UInt64) : Option Duration :=
  let cap := cooldownCap providerCapSecs globalCapSecs
  (firstOf [(headers.map (cooldownFromHeaders env)).getD (some none), cooldownFromBody env body,
    some (cooldownFromPeriodMarker body)]).map fun named => (named.getD defaultCooldown).min cap

end

def goSecs : List Char → List Char → Nat
  | currentNum, [] => ((parseU64 currentNum).map UInt64.toNat).getD 0
  | currentNum, 'm' :: 's' :: chars => ((parseF64 currentNum).map msSecs).getD 0 + goSecs [] chars
  | currentNum, c :: chars =>
    if c.isDigit || c = '.' then goSecs (currentNum ++ [c]) chars
    else ((parseF64 currentNum).map (unitSecs c)).getD 0 + goSecs [] chars

/-- In nanoseconds. -/
def namedGo (text : List Char) : Option Nat :=
  let secs := goSecs [] (trim text)
  if 0 < secs then some (secs * 10 ^ 9) else none

def namedSecs (secs : Option UInt64) : Option Nat := secs.map fun secs => secs.toNat * 10 ^ 9

section
variable (env : CooldownEnv)

def namedMoment (reset : Option DateTime) : Option Nat := reset.map fun reset => (reset.nanos - env.now.nanos).toNat

def namedReset (text : List Char) : Option Nat :=
  match parseU64 (trim text) with
  | some secs => some (epochOrRelative env secs).nanos
  | none => namedGo (trim text)

def headerPlaces : List (String × (List Char → Option Nat)) :=
  ("retry-after-ms", fun text => (parseU64 (trim text)).map fun millis => millis.toNat * 10 ^ 6) ::
    ("retry-after", fun text => (namedSecs (parseU64 (trim text))).or (namedMoment env (env.parseFromRfc2822 (trim text)))) ::
    ["x-ratelimit-reset-after", "ratelimit-reset"].map
      (fun name => (name, fun text => namedSecs ((parseU64 (trim text)).filter (·.toNat < 1000000000)))) ++
    ["x-ratelimit-reset", "x-rate-limit-reset", "x-ratelimit-reset-requests", "x-ratelimit-reset-tokens"].map
      (fun name => (name, namedReset env)) ++
    ["anthropic-ratelimit-requests-reset", "anthropic-ratelimit-tokens-reset",
      "anthropic-ratelimit-input-tokens-reset", "anthropic-ratelimit-output-tokens-reset"].map
      fun name => (name, fun text => namedMoment env (env.parseFromRfc3339 (trim text)))

def namedHeader (headers : HeaderMap) : Option Nat :=
  (headerPlaces env).findSome? fun (name, named) => (headerText headers name).bind named

def fieldPlaces (err : Json) : List (Option Nat) :=
  namedSecs ((err.get "resets_in_seconds").bind (·.asU64)) ::
    ["retry_after_ms", "retry-after-ms"].map
      (fun field => ((err.get field).bind (·.asU64)).map fun millis => millis.toNat * 10 ^ 6) ++
    ["retry_after", "retry-after"].map
      (fun field => (namedSecs ((err.get field).bind (·.asU64))).or
        (((err.get field).bind fractionalSecs).map Duration.nanosOfF64)) ++
    ["reset_at", "resets_at", "reset"].map
      fun field => (((err.get field).bind (·.asU64)).map fun secs => (epochOrRelative env secs).nanos).or
        (namedMoment env (((err.get field).bind (·.asStr)).bind fun text => env.parseFromRfc3339 text.toList))

def namedBody (body : List Char) : Option Nat :=
  (bodyJson env body).bind fun json => (fieldPlaces env ((json.get "error").getD json)).findSome? id

def namedMarker (body : List Char) : Option Nat :=
  namedSecs ((periodMarkers.find? fun (phrases, _) => phrases.any (contains (toAsciiLowercase body) ·)).map (·.2))

/-- The headers go before the body, and its fields before its phrases. -/
def firstNamed (headers : Option HeaderMap) (body : List Char) : Option Nat :=
  ((headers.bind (namedHeader env)).or (namedBody env body)).or (namedMarker body)

/-- The cooldown is there, it is below the caps, and it is the duration that is named first, or the default. -/
structure CooldownLaw (headers : Option HeaderMap) (body : List Char) (defaultCooldown : Duration)
    (providerCapSecs : Option UInt64) (globalCapSecs : UInt64) (out : Option Duration) : Prop where
  returns : out ≠ none
  capped : ∀ d ∈ out, d.nanos ≤ min ((providerCapSecs.getD globalCapSecs).toNat * 10 ^ 9) maxCooldown
  source : ∀ d ∈ out, d.nanos = min ((firstNamed env headers body).getD defaultCooldown.nanos)
    (min ((providerCapSecs.getD globalCapSecs).toNat * 10 ^ 9) maxCooldown)

end

/-! ### Readings of what is named -/

def checked : Option Nat → Reading
  | none => some none
  | some nanos => (Duration.ofNanos nanos).map some

variable {env : CooldownEnv} {text currentNum chars : List Char} {total : Nat}

theorem Duration.ofNanos_nanos (d : Duration) : ofNanos d.nanos = some d := dif_pos d.fits

theorem checked_some (d : Option Duration) : checked (d.map (·.nanos)) = some d := by
  rcases d with _ | d
  · rfl
  rw [Option.map_some, checked, d.ofNanos_nanos]
  rfl

theorem checked_eq_none {named : Option Nat} : checked named = none ↔ ∃ nanos ∈ named, ¬ nanos < 2 ^ 64 * 10 ^ 9 := by
  cases named with
  | none => simp [checked]
  | some nanos => simp [checked, Duration.ofNanos]

theorem firstOf_checked (places : List (Option Nat)) : firstOf (places.map checked) = checked (places.findSome? id) := by
  induction places with
  | nil => rfl
  | cons named places ih =>
    rw [List.map_cons, List.findSome?_cons]
    rcases named with _ | nanos
    · exact ih
    rw [checked]
    cases h : Duration.ofNanos nanos with
    | none | some => simp [firstOf, checked, h]

theorem addSecs_bind {total more secs : Nat} {next : Nat → Option Nat} (hmore : total + more ≤ secs)
    (h : total + more < 2 ^ 64 → next (total + more) = if secs < 2 ^ 64 then some secs else none) :
    (addSecs total more).bind next = if secs < 2 ^ 64 then some secs else none := by
  rw [addSecs]
  by_cases hfits : total + more < 2 ^ 64
  · rw [if_pos hfits]
    exact h hfits
  · rw [if_neg hfits, if_neg (by omega)]
    rfl

theorem goLoop_eq : total < 2 ^ 64 → goLoop total currentNum chars =
    if total + goSecs currentNum chars < 2 ^ 64 then some (total + goSecs currentNum chars) else none := by
  induction total, currentNum, chars using goLoop.induct with
  | case1 total currentNum =>
    intro _
    rw [goLoop, goSecs, addSecs]
  | case2 total currentNum chars ih =>
    intro _
    rw [goLoop, goSecs]
    refine addSecs_bind (by omega) fun hfits => ?_
    rw [ih _ hfits, Nat.add_assoc]
  | case3 total currentNum c chars hms hdigit ih =>
    intro htotal
    rw [goLoop, goSecs, if_pos hdigit, if_pos hdigit]
    · exact ih htotal
    · exact hms
    · exact hms
  | case4 total currentNum c chars hms hdigit ih =>
    intro _
    rw [goLoop, goSecs, if_neg hdigit, if_neg hdigit]
    · refine addSecs_bind (by omega) fun hfits => ?_
      rw [ih _ hfits, Nat.add_assoc]
    · exact hms
    · exact hms

theorem fromSecs_ofNat {secs : Nat} (h : secs < 2 ^ 64) : (Duration.fromSecs (UInt64.ofNat secs)).nanos = secs * 10 ^ 9 := by
  show (UInt64.ofNat secs).toNat * 10 ^ 9 = secs * 10 ^ 9
  rw [UInt64.toNat_ofNat', Nat.mod_eq_of_lt h]

theorem parseGoDuration_eq (text : List Char) : parseGoDuration text = checked (namedGo text) := by
  rw [parseGoDuration, namedGo]
  rcases htext : trim text with _ | ⟨c, chars⟩
  · rfl
  rw [List.isEmpty_cons, if_neg Bool.false_ne_true, goLoop_eq (by decide), Nat.zero_add]
  generalize goSecs [] (c :: chars) = secs
  by_cases hzero : 0 < secs
  · rw [if_pos hzero, checked, Duration.ofNanos]
    by_cases hfits : secs < 2 ^ 64
    · rw [if_pos hfits, dif_pos (Nat.mul_lt_mul_of_pos_right hfits (by decide)), Option.map_some, if_pos hzero,
        Option.map_some]
      exact congrArg (some ∘ some) (Duration.ext (fromSecs_ofNat hfits))
    · rw [if_neg hfits, dif_neg fun h => hfits (Nat.lt_of_mul_lt_mul_right h)]
      rfl
  · obtain rfl : secs = 0 := by omega
    rfl

theorem checked_secs (secs : Option UInt64) : checked (namedSecs secs) = some (secs.map Duration.fromSecs) := by
  rw [← checked_some, Option.map_map]
  rfl

theorem checked_millis (millis : Option UInt64) :
    checked (millis.map fun millis => millis.toNat * 10 ^ 6) = some (millis.map Duration.fromMillis) := by
  rw [← checked_some, Option.map_map]
  rfl

theorem checked_moment (reset : Option DateTime) :
    checked (namedMoment env reset) = some (reset.map fun reset => reset.since env.now) := by
  rw [← checked_some, Option.map_map]
  rfl

theorem readRetryAfter_eq (text : List Char) : readRetryAfter env text =
    checked ((namedSecs (parseU64 (trim text))).or (namedMoment env (env.parseFromRfc2822 (trim text)))) := by
  rw [readRetryAfter]
  cases hsecs : parseU64 (trim text) with
  | none => exact (checked_moment _).symm
  | some secs => exact (checked_secs (some secs)).symm

theorem readReset_eq (text : List Char) : readReset env text = checked (namedReset env text) := by
  rw [readReset, durationUntilEpochOrRelative, namedReset]
  cases hsecs : parseU64 (trim text) with
  | none => exact parseGoDuration_eq _
  | some secs => exact (checked_some (some (epochOrRelative env secs))).symm

theorem parseU64_digits (secs : UInt64) : parseU64 (Json.digits secs.toNat) = some secs := by
  have hdigits : ∀ c ∈ Json.digits secs.toNat, c.isDigit = true := fun c hc => Json.isDigit_of_mem_digits hc
  have hvalue : Nat.ofDigitChars 10 (Json.digits secs.toNat) 0 = secs.toNat := Nat.ofDigitChars_ten_toDigits
  have hne : (Json.digits secs.toNat).isEmpty = false := List.isEmpty_eq_false_iff.2 Nat.toDigits_ne_nil
  unfold parseU64
  split
  · rename_i rest hrest
    exact absurd (hdigits '+' (by rw [hrest]; exact List.mem_cons_self)) (by decide)
  · dsimp only
    rw [hne, List.all_eq_true.2 hdigits, hvalue, if_neg (by decide), if_pos secs.toNat_lt, UInt64.ofNat_toNat]

theorem fieldRetryAfter_eq (err : Json) (field : String) : fieldRetryAfter err field =
    checked ((namedSecs ((err.get field).bind (·.asU64))).or
      (((err.get field).bind fractionalSecs).map Duration.nanosOfF64)) := by
  rw [fieldRetryAfter]
  cases hsecs : (err.get field).bind (·.asU64) with
  | some secs => exact (checked_secs (some secs)).symm
  | none =>
    dsimp only
    cases hfraction : (err.get field).bind fractionalSecs <;> rfl

theorem fieldResetAt_eq (err : Json) (field : String) : fieldResetAt env err field =
    checked ((((err.get field).bind (·.asU64)).map fun secs => (epochOrRelative env secs).nanos).or
      (namedMoment env (((err.get field).bind (·.asStr)).bind fun text => env.parseFromRfc3339 text.toList))) := by
  rw [fieldResetAt]
  cases hsecs : (err.get field).bind (·.asU64) with
  | some secs =>
    dsimp only
    rw [durationUntilEpochOrRelative, parseU64_digits]
    exact (checked_some (some (epochOrRelative env secs))).symm
  | none =>
    dsimp only
    cases htext : (err.get field).bind (·.asStr) with
    | none => rfl
    | some text => exact (checked_moment _).symm

theorem readHeader_eq {read : List Char → Reading} {named : List Char → Option Nat}
    (h : ∀ text, read text = checked (named text)) (headers : HeaderMap) (name : String) :
    readHeader headers name read = checked ((headerText headers name).bind named) := by
  rw [readHeader]
  cases headerText headers name with
  | none => rfl
  | some text => exact h text

theorem cooldownFromHeaders_eq (headers : HeaderMap) :
    cooldownFromHeaders env headers = checked (namedHeader env headers) := by
  have hread : (headerReaders env).map (fun (name, read) => readHeader headers name read) =
      ((headerPlaces env).map fun (name, named) => (headerText headers name).bind named).map checked := by
    have hmillis := readHeader_eq (fun text => (checked_millis (parseU64 (trim text))).symm) headers
    have hretry := readHeader_eq (@readRetryAfter_eq env) headers
    have hrelative := readHeader_eq
      (fun text => (checked_secs ((parseU64 (trim text)).filter (·.toNat < 1000000000))).symm) headers
    have hreset := readHeader_eq (@readReset_eq env) headers
    have hdate := readHeader_eq
      (fun text => (@checked_moment env (env.parseFromRfc3339 (trim text))).symm) headers
    simp only [headerReaders, headerPlaces, List.map_append, List.map_cons, List.map_nil, ← hmillis, ← hretry,
      ← hrelative, ← hreset, ← hdate]
    rfl
  rw [cooldownFromHeaders, hread, firstOf_checked, namedHeader, List.findSome?_map]
  rfl

theorem cooldownFromBody_eq (body : List Char) : cooldownFromBody env body = checked (namedBody env body) := by
  rw [cooldownFromBody, namedBody]
  rcases bodyJson env body with _ | json
  · rfl
  rw [Option.bind_some, ← firstOf_checked]
  refine congrArg firstOf ?_
  simp only [fieldPlaces, List.map_append, List.map_cons, List.map_nil, checked_secs, checked_millis,
    ← fieldRetryAfter_eq, ← fieldResetAt_eq]
  rfl

theorem cooldownFromPeriodMarker_eq (body : List Char) :
    (some (cooldownFromPeriodMarker body) : Reading) = checked (namedMarker body) := by
  rw [namedMarker, checked_secs, Option.map_map]
  rfl

theorem nanos_fromSecs_min (a b : UInt64) :
    (Duration.fromSecs (min a b)).nanos = min (a.toNat * 10 ^ 9) (b.toNat * 10 ^ 9) := by
  show (if a ≤ b then a else b).toNat * 10 ^ 9 = _
  by_cases h : a ≤ b
  · rw [if_pos h, min_eq_left (Nat.mul_le_mul_right _ (UInt64.le_iff_toNat_le.1 h))]
  · rw [if_neg h]
    rw [UInt64.not_le, UInt64.lt_iff_toNat_lt] at h
    rw [min_eq_right (Nat.mul_le_mul_right _ (Nat.le_of_lt h))]

theorem nanos_cooldownCap (providerCapSecs : Option UInt64) (globalCapSecs : UInt64) :
    (cooldownCap providerCapSecs globalCapSecs).nanos =
      min ((providerCapSecs.getD globalCapSecs).toNat * 10 ^ 9) maxCooldown := by
  have hbackstop : (UInt64.ofNat (maxCooldown / 10 ^ 9)).toNat * 10 ^ 9 = maxCooldown := by decide +kernel
  rw [cooldownCap, nanos_fromSecs_min, hbackstop]

theorem Duration.nanos_min (d cap : Duration) : (d.min cap).nanos = Min.min d.nanos cap.nanos := by
  rw [Duration.min]
  split_ifs <;> omega

/-- A cooldown comes out exactly if the duration that is named first is below 2 ^ 64 seconds. -/
theorem cooldown_law_iff (env : CooldownEnv) (headers : Option HeaderMap) (body : List Char) (defaultCooldown : Duration)
    (providerCapSecs : Option UInt64) (globalCapSecs : UInt64) :
    CooldownLaw env headers body defaultCooldown providerCapSecs globalCapSecs
        (computeRateLimitCooldown env headers body defaultCooldown providerCapSecs globalCapSecs) ↔
      ∀ nanos ∈ firstNamed env headers body, nanos < 2 ^ 64 * 10 ^ 9 := by
  have hplaces : firstOf [(headers.map (cooldownFromHeaders env)).getD (some none), cooldownFromBody env body,
      some (cooldownFromPeriodMarker body)] = checked (firstNamed env headers body) := by
    have hheaders : (headers.map (cooldownFromHeaders env)).getD (some none) =
        checked (headers.bind (namedHeader env)) := by
      cases headers with
      | none => rfl
      | some headers => exact cooldownFromHeaders_eq headers
    rw [hheaders, cooldownFromBody_eq, cooldownFromPeriodMarker_eq]
    exact (firstOf_checked [_, _, _]).trans (congrArg checked (by
      rw [firstNamed]
      cases headers.bind (namedHeader env) <;> cases namedBody env body <;> cases namedMarker body <;> rfl))
  rw [computeRateLimitCooldown, hplaces]
  constructor
  · intro law nanos hnanos
    by_contra hbig
    exact law.returns (by rw [checked_eq_none.2 ⟨nanos, hnanos, hbig⟩]; rfl)
  · intro hfits
    obtain ⟨d, hd, hchecked⟩ : ∃ d : Option Duration, d.map (·.nanos) = firstNamed env headers body ∧
        checked (firstNamed env headers body) = some d := by
      cases hnamed : firstNamed env headers body with
      | none => exact ⟨none, rfl, rfl⟩
      | some nanos => exact ⟨some ⟨nanos, hfits nanos hnamed⟩, rfl, checked_some (some ⟨nanos, hfits nanos hnamed⟩)⟩
    have hsource : ((d.getD defaultCooldown).min (cooldownCap providerCapSecs globalCapSecs)).nanos =
        min ((firstNamed env headers body).getD defaultCooldown.nanos)
          (min ((providerCapSecs.getD globalCapSecs).toNat * 10 ^ 9) maxCooldown) := by
      rw [Duration.nanos_min, nanos_cooldownCap, ← hd]
      cases d <;> rfl
    rw [hchecked, Option.map_some]
    refine ⟨by simp, fun d' hd' => ?_, fun d' hd' => ?_⟩
    · cases hd'
      rw [hsource]
      exact min_le_right _ _
    · cases hd'
      exact hsource

def bodyEnv (json : Json) : CooldownEnv := ⟨⟨0, by decide⟩, fun _ => none, fun _ => none, fun _ => some json⟩

def hugeBody : List Char := "\x7b\x22retry_after\x22: 1e20\x7d".toList

def hugeRetryAfter : Json := .object [("retry_after", .number (.float ⟨4906019910204099648, by decide⟩))]

/-- The seconds are the largest `u64`, and one more. -/
def hugeGoHeaders : HeaderMap := [("x-ratelimit-reset", "18446744073709551615s1".toUTF8.toList)]

theorem cooldown_panics : computeRateLimitCooldown (bodyEnv hugeRetryAfter) none hugeBody (.fromSecs 30) none 86400 = none ∧
    computeRateLimitCooldown (bodyEnv .null) (some hugeGoHeaders) [] (.fromSecs 30) none 86400 = none ∧
    ¬ CooldownLaw (bodyEnv .null) (some hugeGoHeaders) [] (.fromSecs 30) none 86400
      (computeRateLimitCooldown (bodyEnv .null) (some hugeGoHeaders) [] (.fromSecs 30) none 86400) := by
  have hbody : computeRateLimitCooldown (bodyEnv hugeRetryAfter) none hugeBody (.fromSecs 30) none 86400 = none := by
    decide +kernel
  have hheader : computeRateLimitCooldown (bodyEnv .null) (some hugeGoHeaders) [] (.fromSecs 30) none 86400 = none := by
    decide +kernel
  exact ⟨hbody, hheader, fun law => law.returns hheader⟩

end ObeyGateway
