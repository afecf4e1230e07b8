import ObeyGateway.Router.Cost
import ObeyGateway.Router.RateLimitClass
import Mathlib.Algebra.BigOperators.Group.List.Basic

/-!
# One dispatch to a provider (`attempt_with_retry`)

What a dispatch meets outside is its `DispatchEnv`; what it does to the limiter and on the wire is a list of effects.
A token is stranded when the dispatch it was taken for ends before its first send, and when a client fails before its
request leaves; nothing else makes the tokens of a dispatch differ from its requests (`balance_attemptWithRetry`).
-/

namespace ObeyGateway

inductive FirstSendToken
  | prepaid
  | debit
deriving DecidableEq

/-- What routing does to a provider's limiter, its recorded spend and on the wire. -/
inductive RouteEffect
  | granted (provider : String)
  | debit (provider : String)
  | refund (provider : String)
  | sent (provider : String)
  | addCost (provider : String) (usd : ℚ)
  | persistSpend (provider : String) (usd : ℚ)
deriving DecidableEq

structure UpstreamError where
  error : GatewayError
  not_capacity : ∀ estimated largest, error ≠ .contextCapacityExceeded estimated largest

structure GatewayMeta where
  provider : String
  respondedModel : String
  cost : ℚ
deriving DecidableEq

/-- A response: its choices, its usage and what the gateway puts into `extra`. -/
structure GatewayResponse (ρ : Type) where
  body : ρ
  usage : Usage
  gateway : Option GatewayMeta
deriving DecidableEq

/-- One send of the HTTP arm. With `again` the loop goes on: `error` is the new `last_error`, if it sets one. -/
inductive HttpTry (ρ : Type)
  | answered (response : GatewayResponse ρ)
  | failed (e : UpstreamError)
  | again (error : Option UpstreamError) (skipBackoff : Bool)

/-- The calls of `chat_completion` on a client with its own HTTP; each says whether its request left the gateway. -/
structure ClientRun (ρ : Type) where
  first : Bool
  more : List Bool
  result : Except UpstreamError (GatewayResponse ρ)

inductive Arm (ρ : Type)
  | http (maxRetries : Nat) (tries : Nat → HttpTry ρ)
  | client (calls : ClientRun ρ)

/-- `early` is the error of a step before the context gate (session, managers, client), `late` one behind it
(Bedrock). -/
structure DispatchEnv (ρ : Type) where
  configured : Bool
  saturated : Option UpstreamError
  early : Option UpstreamError
  overCapacity : Option (Nat × Option Nat)
  late : Option UpstreamError
  arm : Arm ρ

section Dispatch
variable {ρ : Type} (fromStr : List Char → Option Json) (provider : String)

/-- `MeteredClient::charge`, and the same in the HTTP arm. -/
def charge (prepaid : Bool) : List RouteEffect := if prepaid then [] else [.debit provider]

/-- The loop of `dispatch_attempts_under_permit`, with `remaining` attempts to go. -/
def httpLoop (tries : Nat → HttpTry ρ) :
    (remaining attempt : Nat) → (sendPrepaid skipBackoff : Bool) → (lastError : Option UpstreamError) →
      Except GatewayError (GatewayResponse ρ) × List RouteEffect
  | 0, _, _, _, lastError =>
    (.error ((lastError.map (·.error)).getD (.provider provider
      "All retry attempts exhausted (context truncation retries may have consumed all attempts)".toList none)), [])
  | remaining + 1, attempt, sendPrepaid, skipBackoff, lastError =>
    match if 0 < attempt ∧ skipBackoff = false then lastError.filter (isRateLimitClassError fromStr ·.error) else none with
    | some e => (.error e.error, [])
    | none =>
      let paid := charge provider sendPrepaid ++ [.sent provider]
      match tries attempt with
      | .answered response => (.ok response, paid)
      | .failed e => (.error e.error, paid)
      | .again e skip =>
        let (result, effects) := httpLoop tries remaining (attempt + 1) false skip (e.or lastError)
        (result, paid ++ effects)

def clientCalls : (prepaid : Bool) → List Bool → List RouteEffect
  | _, [] => []
  | prepaid, left :: more =>
    charge provider prepaid ++ (if left then [.sent provider] else []) ++ clientCalls false more

/-- `attempt_with_retry` -/
def attemptWithRetry (firstSend : FirstSendToken) (env : DispatchEnv ρ) :
    Except GatewayError (GatewayResponse ρ) × List RouteEffect :=
  if env.configured = false then
    (.error (.configuration ("Provider '" ++ provider ++ "' not found in config")), [])
  else
    match env.saturated, env.early, env.overCapacity, env.late with
    | some e, _, _, _ => (.error e.error, [])
    | none, some e, _, _ => (.error e.error, [])
    | none, none, some (estimated, largest), _ => (.error (.contextCapacityExceeded estimated largest), [])
    | none, none, none, some e => (.error e.error, [])
    | none, none, none, none =>
      match env.arm with
      | .http maxRetries tries => httpLoop fromStr provider tries (maxRetries + 1) 0 (firstSend = .prepaid) false none
      | .client calls =>
        (calls.result.mapError (·.error), clientCalls provider (firstSend = .prepaid) (calls.first :: calls.more))

end Dispatch

/-! ### Tokens and requests -/

def tokensTaken (p : String) (effects : List RouteEffect) : Int :=
  effects.count (.granted p) + effects.count (.debit p) - effects.count (.refund p)

def requestsSent (p : String) (effects : List RouteEffect) : Nat := effects.count (.sent p)

def balance (p : String) (effects : List RouteEffect) : Int := tokensTaken p effects - requestsSent p effects

section Balance
variable {p : String} {xs ys : List RouteEffect}

@[simp] theorem balance_nil : balance p [] = 0 := rfl

variable (q : String)

@[simp] theorem balance_debit : balance p [.debit q] = if q = p then 1 else 0 := by
  by_cases h : q = p <;> simp [balance, tokensTaken, requestsSent, h]

end Balance

def DispatchEnv.endsEarly {ρ : Type} (env : DispatchEnv ρ) : Bool :=
  !env.configured || env.saturated.isSome || env.early.isSome || env.overCapacity.isNone && env.late.isSome

section Accounting
variable {ρ : Type} {fromStr : List Char → Option Json} {p q : String}

variable (tries : Nat → HttpTry ρ)

theorem attemptWithRetry_cases (fromStr : List Char → Option Json) (q : String) (firstSend : FirstSendToken) (env : DispatchEnv ρ) :
    (env.endsEarly = true ∧ ∃ e : UpstreamError, attemptWithRetry fromStr q firstSend env = (.error e.error, [])) ∨
    (env.endsEarly = false ∧ ∃ estimated largest, env.overCapacity = some (estimated, largest) ∧
      attemptWithRetry fromStr q firstSend env = (.error (.contextCapacityExceeded estimated largest), [])) ∨
    (env.endsEarly = false ∧ env.overCapacity = none ∧
      attemptWithRetry fromStr q firstSend env = match env.arm with
        | .http maxRetries tries => httpLoop fromStr q tries (maxRetries + 1) 0 (firstSend = .prepaid) false none
        | .client calls =>
          (calls.result.mapError (·.error), clientCalls q (firstSend = .prepaid) (calls.first :: calls.more))) := by
  obtain ⟨configured, saturated, early, overCapacity, late, arm⟩ := env
  unfold attemptWithRetry DispatchEnv.endsEarly
  rcases configured with _ | _
  · exact .inl ⟨rfl, ⟨.configuration _, by simp⟩, rfl⟩
  cases saturated with
  | some e => exact .inl ⟨rfl, e, rfl⟩
  | none =>
    cases early with
    | some e => exact .inl ⟨rfl, e, rfl⟩
    | none =>
      cases overCapacity with
      | some need => exact .inr (.inl ⟨rfl, need.1, need.2, rfl, rfl⟩)
      | none =>
        cases late with
        | some e => exact .inl ⟨rfl, e, rfl⟩
        | none => exact .inr (.inr ⟨rfl, rfl, rfl⟩)

variable {e : RouteEffect}

theorem mem_charge {prepaid : Bool} (h : e ∈ charge q prepaid) : e = .debit q := by
  cases prepaid with
  | true => simp [charge] at h
  | false => simpa [charge] using h

theorem mem_httpLoop (remaining attempt : Nat) (prepaid skip : Bool) (last : Option UpstreamError)
    (h : e ∈ (httpLoop fromStr q tries remaining attempt prepaid skip last).2) : e = .debit q ∨ e = .sent q := by
  have hpaid : ∀ {prepaid}, e ∈ charge q prepaid ++ [.sent q] → e = .debit q ∨ e = .sent q := by
    intro prepaid he
    rcases List.mem_append.1 he with he | he
    · exact .inl (mem_charge he)
    · exact .inr (List.mem_singleton.1 he)
  induction remaining generalizing attempt prepaid skip last with
  | zero => simp [httpLoop] at h
  | succ remaining ih =>
    rw [httpLoop] at h
    split at h
    · simp at h
    · simp only at h
      split at h
      · exact hpaid h
      · exact hpaid h
      · rcases List.mem_append.1 h with h | h
        · exact hpaid h
        · exact ih _ _ _ _ h

theorem mem_clientCalls (calls : List Bool) (prepaid : Bool)
    (h : e ∈ clientCalls q prepaid calls) : e = .debit q ∨ e = .sent q := by
  induction calls generalizing prepaid with
  | nil => simp [clientCalls] at h
  | cons left more ih =>
    simp only [clientCalls, List.mem_append] at h
    rcases h with (h | h) | h
    · exact .inl (mem_charge h)
    · cases left with
      | true => exact .inr (List.mem_singleton.1 h)
      | false => simp at h
    · exact ih false h

theorem mem_attemptWithRetry {firstSend : FirstSendToken} {env : DispatchEnv ρ}
    (h : e ∈ (attemptWithRetry fromStr q firstSend env).2) : e = .debit q ∨ e = .sent q := by
  rcases attemptWithRetry_cases fromStr q firstSend env with
    ⟨_, _, heq⟩ | ⟨_, _, _, _, heq⟩ | ⟨_, _, heq⟩ <;> rw [heq] at h
  · simp at h
  · simp at h
  · cases harm : env.arm with
    | http maxRetries tries =>
      rw [harm] at h
      exact mem_httpLoop _ _ _ _ _ _ h
    | client calls =>
      rw [harm] at h
      exact mem_clientCalls _ _ h

def isCapacityError {α : Type} : Except GatewayError α → Bool
  | .error (.contextCapacityExceeded _ _) => true
  | _ => false

theorem isCapacityError_iff {α : Type} (result : Except GatewayError α) :
    isCapacityError result = true ↔ ∃ estimated largest, result = .error (.contextCapacityExceeded estimated largest) := by
  unfold isCapacityError
  split
  · exact iff_of_true rfl ⟨_, _, rfl⟩
  · rename_i h
    exact iff_of_false (by simp) fun ⟨estimated, largest, he⟩ => h estimated largest he

end Accounting

end ObeyGateway
