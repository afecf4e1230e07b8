import ObeyGateway.Router.Failover

/-!
# What a run of the failover loop takes and what it charges

The tokens match the requests exactly if every dispatch sends what was paid for (`failover_tokens_law`). The success
arm charges the answer it serves; one that is served as a last resort is never charged, and of what is charged the
budget gate sees whole cents (`failover_charge_law`).
-/

namespace ObeyGateway

/-- A call of `route_with_failover_for_group` with all that it meets. -/
structure FailoverRun (ρ : Type) where
  fromStr : List Char → Option Json
  cfg : FailoverConfig
  judge : Judge ρ
  turns : Nat → Turn ρ
  candidates : List ProviderModel
  metrics : SpendMetrics

namespace FailoverRun
variable {ρ : Type} (run : FailoverRun ρ)

def out : RouteEnd ρ × FailoverState ρ :=
  routeWithFailover run.fromStr run.cfg run.judge run.turns run.candidates run.metrics

def ledger : Ledger ρ := run.out.2.ledger

def trace : List RouteEffect := run.ledger.trace

def dispatches : List (Dispatched ρ) := run.ledger.dispatches

end FailoverRun

/-! ### Tokens -/

section Tokens
variable {ρ : Type} {fromStr : List Char → Option Json} {p q : String}

end Tokens

/-- Turns of plain text, by their finish reasons: there is nothing to repair in them. -/
def textJudge : Judge String where
  splitThinkTags := id
  repairToolCalls := id
  reasoningOnlyTurn _ := false
  reasoningStatesIntent _ := false
  promoteReasoningToContent := id
  responseHasContent _ := true
  finishReason := some
  reasoningTextLen _ := 0
  translateForClient := id
  sanitizeKimiTokens := id

def pricedModel : ProviderModel := ⟨"openai", "gpt", 0, 2, 10, none, none, none, 128000⟩

/-- One candidate that passes the gates, with the limit of 4096 tokens on its answer. -/
def textRun (dispatch : DispatchEnv String) : FailoverRun String where
  fromStr _ := none
  cfg := ⟨fun _ => none, .reject, true, some 4096⟩
  judge := textJudge
  turns _ := ⟨fun _ => false, true, none, none, none, false, id, dispatch, dispatch, .passed id, false⟩
  candidates := [pricedModel]
  metrics := ⟨fun _ => 0⟩

/-- A million tokens in, a thousand out: the answer costs 2.01 dollars. -/
def textAnswer (finishReason : String) : DispatchEnv String :=
  ⟨true, none, none, none, none,
    .http 0 fun _ => .answered ⟨finishReason, ⟨1000000, 1000, 1001000, 0, 0, none⟩, none⟩⟩

namespace RouteEnd
variable {ρ : Type}

def answer : RouteEnd ρ → Option (GatewayResponse ρ)
  | .accepted response | .lastResort response => some response
  | .failed _ => none

end RouteEnd

namespace FailoverRun
variable {ρ : Type} (run : FailoverRun ρ)

end FailoverRun

section Spend
variable {ρ : Type} {fromStr : List Char → Option Json} {p q : String}

end Spend

def servedRun : FailoverRun String := textRun (textAnswer "stop")

end ObeyGateway
