import ObeyGateway.Router.RateLimiter

/-!
# The errors of routing (`error/mod.rs`)

`GatewayError` with the variants that routing a request produces, and the attempts it aggregates: why a candidate
was passed over, with the status and the class under which it is recorded.
-/

namespace ObeyGateway

/-- Why a candidate was passed over, with what the text of the attempt says. -/
inductive AttemptError
  | budgetExhausted (spentUsd limitUsd : ℚ)
  | circuitOpen
  | cooldown (remainingSecs : Nat)
  | copilotIneligible (reason : String)
  | rateLimited (shortfall : RateLimitShortfall)
  | reasoningOnly
  | emptyResponse
  | truncated (completionTokens maxTokens : Nat)
  | contextRejected (estimatedRequirement : Nat)
  | contextSkipped (estimatedRequirement : Nat)
  /-- the dispatch ended with an error -/
  | failed (text : String) (statusCode : Option Nat) (errorClass : String)
deriving DecidableEq

namespace AttemptError

def statusCode : AttemptError → Option Nat
  | .budgetExhausted _ _ => some 402
  | .circuitOpen => some 503
  | .cooldown _ => some 429
  | .copilotIneligible _ => some 401
  | .rateLimited _ => some 429
  | .reasoningOnly | .emptyResponse | .truncated _ _ => some 200
  | .contextRejected _ | .contextSkipped _ => some 413
  | .failed _ statusCode _ => statusCode

/-- `CONTEXT_WINDOW_EXCEEDED_CLASS` -/
def contextWindowExceededClass : String := "context_window_exceeded"

def errorClass : AttemptError → String
  | .budgetExhausted _ _ => "budget_skip"
  | .circuitOpen => "circuit_open_skip"
  | .cooldown _ => "cooldown_skip"
  | .copilotIneligible _ => "copilot_auth_skip"
  | .rateLimited _ => "rate_limit_skip"
  | .reasoningOnly => "reasoning_only"
  | .emptyResponse => "empty_response"
  | .truncated _ _ => "truncated_response"
  | .contextRejected _ | .contextSkipped _ => contextWindowExceededClass
  | .failed _ _ errorClass => errorClass

end AttemptError

structure ProviderAttempt where
  provider : String
  model : String
  error : AttemptError
deriving DecidableEq

inductive GatewayError
  | configuration (message : String)
  | provider (provider : String) (message : List Char) (statusCode : Option Nat)
  | allProvidersFailed (attempts : List ProviderAttempt)
  | ttfbTimeout (secs : Nat)
  | totalTimeout (secs : Nat)
  | chunkTimeout (secs : Nat)
  | invalidRequest (message : String)
  | contextCapacityExceeded (estimatedRequirement : Nat) (largestSupportedContext : Option Nat)
deriving DecidableEq

namespace GatewayError

/-- `Display` -/
def toText : GatewayError → String
  | .configuration message => "Configuration error: " ++ message
  | .provider name message _ => "Provider error: " ++ name ++ " - " ++ String.ofList message
  | .allProvidersFailed _ => "All providers failed"
  | .ttfbTimeout secs => "Request timeout after " ++ toString secs ++ "s waiting for first byte from provider"
  | .totalTimeout secs => "Request timeout after " ++ toString secs ++ "s total round-trip time"
  | .chunkTimeout secs => "Provider stopped sending data for " ++ toString secs ++ "s"
  | .invalidRequest message => "Invalid request: " ++ message
  | .contextCapacityExceeded estimated largest =>
    "Request context requires " ++ toString estimated ++ " tokens, but the largest declared model context is " ++
      (match largest with
        | some window => "Some(" ++ toString window ++ ")"
        | none => "None")

/-- `error_class_for` -/
def errorClassFor : GatewayError → String
  | .ttfbTimeout _ => "ttfb_timeout"
  | .totalTimeout _ => "total_timeout"
  | .chunkTimeout _ => "chunk_timeout"
  | .contextCapacityExceeded _ _ => AttemptError.contextWindowExceededClass
  | .allProvidersFailed attempts => (attempts.getLast?.map (·.error.errorClass)).getD "other"
  | .provider _ message statusCode =>
    if "Failed to read response body".toList <+: message then "body_read_error"
    else if "Error in 200 response".toList <+: message then "error_in_200"
    else if "Upstream stream ended before completion".toList <+: message then "stream_truncated"
    else match statusCode with
      | some code => "upstream_http_" ++ toString code
      | none => "other"
  | .configuration _ | .invalidRequest _ => "other"

def asAttempt (e : GatewayError) : AttemptError :=
  let attemptStatus := match e with
    | .provider _ _ statusCode => statusCode
    | _ => none
  .failed e.toText attemptStatus e.errorClassFor

end GatewayError

end ObeyGateway
