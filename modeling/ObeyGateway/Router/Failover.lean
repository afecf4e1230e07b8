import ObeyGateway.Router.Dispatch

/-!
# The failover loop (`route_with_failover_for_group`)

Each candidate passes the gates and is dispatched; its response is judged, and is served, kept as a last resort, or
passed over. What the loop meets at its `i`-th turn is `turns i`; what looks at the choices only is a `Judge`. A run
writes to its `Ledger`, and `Closed` is the rule for invariants of ledgers (`routeWithFailover_inv`).
-/

namespace ObeyGateway

structure Judge (ρ : Type) where
  splitThinkTags : ρ → ρ
  repairToolCalls : ρ → ρ
  reasoningOnlyTurn : ρ → Bool
  reasoningStatesIntent : ρ → Bool
  promoteReasoningToContent : ρ → ρ
  responseHasContent : ρ → Bool
  /-- of the first choice -/
  finishReason : ρ → Option String
  reasoningTextLen : ρ → Nat
  /-- `translate_xml_tool_calls` with the client's request, where that has tools -/
  translateForClient : ρ → ρ
  sanitizeKimiTokens : ρ → ρ

/-- `maybe_intercept_search_tools` rewrites the turn, or runs the search loop on the same provider. -/
inductive SearchPlan (ρ : Type)
  | passed (rewrite : ρ → ρ)
  | rounds (early : Option UpstreamError) (resubmissions : List (DispatchEnv ρ)) (finish : ρ → ρ)

inductive ContextOverflowPolicy
  | reject
  | routeLargerContext
  | reduce
  | routeThenReduce
deriving DecidableEq

structure FailoverConfig where
  budgets : String → Option ℚ
  overflowPolicy : ContextOverflowPolicy
  retryOnTruncation : Bool
  maxTokens : Option Nat

/-- What one turn meets: the answers of `maybe_roll_budget_window` and `acquire_within`, and the dispatch. -/
structure Turn (ρ : Type) where
  windowRolled : String → Bool
  breakerAvailable : Bool
  cooldownRemaining : Option Nat
  copilotIneligible : Option String
  admission : Option RateLimitShortfall
  toolsPresent : Bool
  translateXmlToolCalls : ρ → ρ
  dispatch : DispatchEnv ρ
  nudge : DispatchEnv ρ
  search : SearchPlan ρ
  isCopilotProvider : Bool

structure Dispatched (ρ : Type) where
  provider : String
  firstSend : FirstSendToken
  env : DispatchEnv ρ

/-- What a run does: to limiters, spend and the wire, and the dispatches it makes. -/
structure Ledger (ρ : Type) where
  trace : List RouteEffect
  dispatches : List (Dispatched ρ)
  metrics : SpendMetrics

namespace Ledger
variable {ρ : Type} (ledger : Ledger ρ)

def logged (effects : List RouteEffect) (dispatches : List (Dispatched ρ)) : Ledger ρ :=
  { ledger with trace := ledger.trace ++ effects, dispatches := ledger.dispatches ++ dispatches }

def resetSpend (provider : String) : Ledger ρ :=
  { ledger with metrics := ledger.metrics.resetProviderSpend provider }

/-- The cost of an answer is added to the spend of the provider that is named in it. -/
def charge (gateway : GatewayMeta) : Ledger ρ :=
  if 0 < gateway.cost then
    { ledger with
      metrics := ledger.metrics.addCost gateway.provider gateway.cost
      trace := ledger.trace ++
        [.addCost gateway.provider gateway.cost, .persistSpend gateway.provider gateway.cost] }
  else ledger

end Ledger

structure FailoverState (ρ : Type) where
  attempts : List ProviderAttempt
  truncatedCandidates : List (GatewayResponse ρ)
  reasoningOnlyCandidates : List (GatewayResponse ρ)
  reasoningNudgeDone : Bool
  contextSkipEstimates : List Nat
  firstContextSkip : Option ProviderModel
  largestSkippedContext : Nat
  ledger : Ledger ρ

/-- How a turn ends: `continue`, `break`, an answer or an error. -/
inductive TurnEnd (ρ : Type)
  | next (st : FailoverState ρ)
  | stop (st : FailoverState ρ)
  | accepted (response : GatewayResponse ρ) (st : FailoverState ρ)
  | failed (e : GatewayError) (st : FailoverState ρ)

/-- How a run ends: with the answer of the candidate at hand, with one that was kept as a last resort, or with an
error. -/
inductive RouteEnd (ρ : Type)
  | accepted (response : GatewayResponse ρ)
  | lastResort (response : GatewayResponse ρ)
  | failed (e : GatewayError)
deriving DecidableEq

/-- `Iterator::max_by_key`: the last of the greatest. -/
def maxByKey {α : Type} (key : α → Nat) (xs : List α) : Option α :=
  xs.foldl (fun best x => match best with
    | none => some x
    | some b => if key b ≤ key x then some x else some b) none

namespace FailoverState
variable {ρ : Type} (st : FailoverState ρ)

def init (metrics : SpendMetrics) : FailoverState ρ := ⟨[], [], [], false, [], none, 0, ⟨[], [], metrics⟩⟩

def pushAttempt (pm : ProviderModel) (error : AttemptError) : FailoverState ρ :=
  { st with attempts := st.attempts ++ [⟨pm.provider, pm.model, error⟩] }

def logged (effects : List RouteEffect) (dispatches : List (Dispatched ρ)) : FailoverState ρ :=
  { st with ledger := st.ledger.logged effects dispatches }

end FailoverState

section Gates
variable {ρ : Type} (cfg : FailoverConfig) (ledger : Ledger ρ) (turn : Turn ρ) (pm : ProviderModel)

def budgetGate : Option AttemptError × Ledger ρ :=
  match cfg.budgets pm.provider with
  | none => (none, ledger)
  | some limitUsd =>
    let ledger := if turn.windowRolled pm.provider then ledger.resetSpend pm.provider else ledger
    let spentUsd := ledger.metrics.currentProviderCostUsd pm.provider
    (if limitUsd ≤ spentUsd then some (.budgetExhausted spentUsd limitUsd) else none, ledger)

/-- The gates in front of the admission: why the candidate is skipped, if it is. -/
def skipReason : Option AttemptError × Ledger ρ :=
  let (exhausted, ledger) := budgetGate cfg ledger turn pm
  (exhausted <|>
    if turn.breakerAvailable = false then some .circuitOpen
    else match turn.cooldownRemaining with
      | some secs => some (.cooldown secs)
      | none => turn.copilotIneligible.map .copilotIneligible, ledger)

end Gates

/-! ### A response -/

section Response
variable {ρ : Type} (fromStr : List Char → Option Json) (cfg : FailoverConfig) (judge : Judge ρ) (turn : Turn ρ)
  (pm : ProviderModel)

def annotated (response : GatewayResponse ρ) (cost : ℚ) : GatewayResponse ρ :=
  { response with gateway := some ⟨pm.provider, pm.model, cost⟩ }

def repaired (response : GatewayResponse ρ) : GatewayResponse ρ :=
  let body := judge.splitThinkTags response.body
  let body := if turn.toolsPresent then turn.translateXmlToolCalls body else body
  { response with body := judge.repairToolCalls body }

def isSuspiciousTruncation (response : GatewayResponse ρ) : Bool :=
  if judge.finishReason response.body ≠ some "length" then false
  else match cfg.maxTokens with
    | none => false
    | some maxTokens =>
      0 < response.usage.completionTokens && response.usage.completionTokens < maxTokens - 50

def searchRounds : GatewayResponse ρ → List (DispatchEnv ρ) → FailoverState ρ →
    Except GatewayError (GatewayResponse ρ) × FailoverState ρ
  | response, [], st => (.ok response, st)
  | _, env :: more, st =>
    let (result, effects) := attemptWithRetry fromStr pm.provider .debit env
    let st := st.logged effects [⟨pm.provider, .debit, env⟩]
    match result with
    | .ok response => searchRounds response more st
    | .error e => (.error e, st)

def maybeInterceptSearchTools (response : GatewayResponse ρ) (st : FailoverState ρ) :
    Except GatewayError (GatewayResponse ρ) × FailoverState ρ :=
  match turn.search with
  | .passed rewrite => (.ok { response with body := rewrite response.body }, st)
  | .rounds (some e) _ _ => (.error e.error, st)
  | .rounds none resubmissions finish =>
    match searchRounds fromStr pm response resubmissions st with
    | (.ok response, st) => (.ok { response with body := finish response.body }, st)
    | (.error e, st) => (.error e, st)

def serve (response : GatewayResponse ρ) (st : FailoverState ρ) : TurnEnd ρ :=
  let usageKnown := 0 < response.usage.totalTokens ∨ 0 < response.usage.promptTokens ∨ 0 < response.usage.completionTokens
  let totalCost := if turn.isCopilotProvider then 0 else if usageKnown then computeActualCost pm response.usage else 0
  let body := judge.sanitizeKimiTokens (judge.translateForClient response.body)
  .accepted (annotated pm { response with body } totalCost)
    { st with ledger := st.ledger.charge ⟨pm.provider, pm.model, totalCost⟩ }

def judgeTurn (response : GatewayResponse ρ) (st : FailoverState ρ) : TurnEnd ρ :=
  let response := { response with body := judge.promoteReasoningToContent response.body }
  if judge.responseHasContent response.body = false then .next (st.pushAttempt pm .emptyResponse)
  else
    match maybeInterceptSearchTools fromStr turn pm response st with
    | (.error e, st) => .failed e st
    | (.ok response, st) =>
      if cfg.retryOnTruncation && isSuspiciousTruncation cfg judge response then
        let st := st.pushAttempt pm (.truncated response.usage.completionTokens (cfg.maxTokens.getD 0))
        .next { st with
          truncatedCandidates :=
            st.truncatedCandidates ++ [annotated pm response (computeActualCost pm response.usage)] }
      else serve judge turn pm response st

def nudgeReasoningContinuation (response : GatewayResponse ρ) (st : FailoverState ρ) :
    Option (GatewayResponse ρ) × FailoverState ρ :=
  if st.reasoningNudgeDone = false ∧ judge.reasoningStatesIntent response.body = true then
    let (result, effects) := attemptWithRetry fromStr pm.provider .debit turn.nudge
    let st := { st with reasoningNudgeDone := true }.logged effects [⟨pm.provider, .debit, turn.nudge⟩]
    match result with
    | .ok resumed =>
      let resumed := repaired judge turn resumed
      (if judge.reasoningOnlyTurn resumed.body = false ∧ judge.responseHasContent resumed.body = true then some resumed
        else none, st)
    | .error _ => (none, st)
  else (none, st)

def onResponse (response : GatewayResponse ρ) (st : FailoverState ρ) : TurnEnd ρ :=
  let response := repaired judge turn response
  if turn.toolsPresent && judge.reasoningOnlyTurn response.body then
    match nudgeReasoningContinuation fromStr judge turn pm response st with
    | (some resumed, st) => judgeTurn fromStr cfg judge turn pm resumed st
    | (none, st) =>
      let st := st.pushAttempt pm .reasoningOnly
      .next { st with
        reasoningOnlyCandidates :=
          st.reasoningOnlyCandidates ++ [annotated pm response (computeActualCost pm response.usage)] }
  else judgeTurn fromStr cfg judge turn pm response st

/-- The arm for an error: the context gate refunds the token, anything else is an attempt. -/
def onError (e : GatewayError) (st : FailoverState ρ) : TurnEnd ρ :=
  match e with
  | .contextCapacityExceeded estimated largest =>
    let st := st.logged [.refund pm.provider] []
    if cfg.overflowPolicy = .reject then .failed e (st.pushAttempt pm (.contextRejected estimated))
    else
      .next { st.pushAttempt pm (.contextSkipped estimated) with
        contextSkipEstimates := st.contextSkipEstimates ++ [estimated]
        firstContextSkip := st.firstContextSkip <|> some pm
        largestSkippedContext := max st.largestSkippedContext (largest.getD 0) }
  | e => .next (st.pushAttempt pm e.asAttempt)

def tryCandidate (force : Bool) (st : FailoverState ρ) : TurnEnd ρ :=
  let (reason, ledger) := skipReason cfg st.ledger turn pm
  let st := { st with ledger }
  match reason, turn.admission with
  | some reason, _ => .next (st.pushAttempt pm reason)
  | none, some shortfall => if force then .stop st else .next (st.pushAttempt pm (.rateLimited shortfall))
  | none, none =>
    let (result, effects) := attemptWithRetry fromStr pm.provider .prepaid turn.dispatch
    let st := st.logged (.granted pm.provider :: effects) [⟨pm.provider, .prepaid, turn.dispatch⟩]
    match result with
    | .ok response => onResponse fromStr cfg judge turn pm response st
    | .error e => onError cfg pm e st

end Response

section Loop
variable {ρ : Type} (fromStr : List Char → Option Json) (cfg : FailoverConfig) (judge : Judge ρ)
  (turns : Nat → Turn ρ)

def exhausted (st : FailoverState ρ) : RouteEnd ρ :=
  if st.contextSkipEstimates ≠ [] ∧
      st.attempts.all (·.error.errorClass = AttemptError.contextWindowExceededClass) then
    .failed (.contextCapacityExceeded (st.contextSkipEstimates.min?.getD 0)
      (if 0 < st.largestSkippedContext then some st.largestSkippedContext
        else st.firstContextSkip.bind fun pm => if 0 < pm.contextWindow then some pm.contextWindow else none))
  else
    match maxByKey (·.usage.completionTokens) st.truncatedCandidates with
    | some longest => .lastResort longest
    | none =>
      match maxByKey (judge.reasoningTextLen ·.body) st.reasoningOnlyCandidates with
      | some best => .lastResort { best with body := judge.promoteReasoningToContent best.body }
      | none => .failed (.allProvidersFailed st.attempts)

/-- The turn with the first candidate that did not fit, when the policy has one. -/
def forcedReduce (index : Nat) (st : FailoverState ρ) : RouteEnd ρ × FailoverState ρ :=
  match cfg.overflowPolicy, st.firstContextSkip with
  | .routeThenReduce, some pm =>
    match tryCandidate fromStr cfg judge (turns index) pm true st with
    | .next st => (exhausted judge st, st)
    | .stop st => (exhausted judge st, st)
    | .accepted response st => (.accepted response, st)
    | .failed e st => (.failed e, st)
  | _, _ => (exhausted judge st, st)

def failoverLoop : (candidates : List ProviderModel) → (index : Nat) → FailoverState ρ → RouteEnd ρ × FailoverState ρ
  | [], index, st => forcedReduce fromStr cfg judge turns index st
  | pm :: rest, index, st =>
    match tryCandidate fromStr cfg judge (turns index) pm false st with
    | .next st => failoverLoop rest (index + 1) st
    | .stop st => (exhausted judge st, st)
    | .accepted response st => (.accepted response, st)
    | .failed e st => (.failed e, st)

def routeWithFailover (candidates : List ProviderModel) (metrics : SpendMetrics) : RouteEnd ρ × FailoverState ρ :=
  failoverLoop fromStr cfg judge turns candidates 0 (.init metrics)

end Loop

/-! ### Invariants of runs -/

section Rules
variable {ρ : Type} (fromStr : List Char → Option Json) (q : String) (I : Ledger ρ → Prop) (S : GatewayMeta → Prop)

/-- `I` survives a rollover of the window of `q` and every dispatch to `q`. What `q` serves is `S`. -/
structure Closed : Prop where
  rolled : ∀ ledger, I ledger → I (ledger.resetSpend q)
  admitted : ∀ ledger env, I ledger → isCapacityError (attemptWithRetry fromStr q .prepaid env).1 = false →
    I (ledger.logged (.granted q :: (attemptWithRetry fromStr q .prepaid env).2) [⟨q, .prepaid, env⟩])
  turnedAway : ∀ ledger env, I ledger → isCapacityError (attemptWithRetry fromStr q .prepaid env).1 = true →
    I ((ledger.logged (.granted q :: (attemptWithRetry fromStr q .prepaid env).2) [⟨q, .prepaid, env⟩]).logged
      [.refund q] [])
  debited : ∀ ledger env, I ledger →
    I (ledger.logged (attemptWithRetry fromStr q .debit env).2 [⟨q, .debit, env⟩])
  served : ∀ gateway : GatewayMeta, gateway.provider = q → S gateway

/-- `I` holds of what a turn did, but for the charge of the answer it ends with. -/
def TurnEnd.Keeps : TurnEnd ρ → Prop
  | .next st => I st.ledger
  | .stop st => I st.ledger
  | .failed _ st => I st.ledger
  | .accepted response st =>
    ∃ ledger gateway, I ledger ∧ S gateway ∧ response.gateway = some gateway ∧ st.ledger = ledger.charge gateway

def RouteEnd.Keeps (st : FailoverState ρ) : RouteEnd ρ → Prop
  | .accepted response =>
    ∃ ledger gateway, I ledger ∧ S gateway ∧ response.gateway = some gateway ∧ st.ledger = ledger.charge gateway
  | _ => I st.ledger

end Rules

section Turns
variable {ρ : Type} {fromStr : List Char → Option Json} {cfg : FailoverConfig} {judge : Judge ρ} {turn : Turn ρ}
  {pm : ProviderModel} {I : Ledger ρ → Prop} {S : GatewayMeta → Prop} (hclosed : Closed fromStr pm.provider I S)
include hclosed

theorem skipReason_inv (cfg : FailoverConfig) (turn : Turn ρ) (ledger : Ledger ρ) (h : I ledger) : I (skipReason cfg ledger turn pm).2 := by
  show I (budgetGate cfg ledger turn pm).2
  unfold budgetGate
  split
  · exact h
  · simp only
    split
    · exact hclosed.rolled _ h
    · exact h

variable (response : GatewayResponse ρ)

theorem searchRounds_inv (resubmissions : List (DispatchEnv ρ)) (st : FailoverState ρ)
    (h : I st.ledger) : I (searchRounds fromStr pm response resubmissions st).2.ledger := by
  induction resubmissions generalizing response st with
  | nil => exact h
  | cons env more ih =>
    have hstep := hclosed.debited _ env h
    rw [searchRounds]
    cases hres : (attemptWithRetry fromStr pm.provider .debit env).1 with
    | ok response =>
      simp only [hres]
      exact ih response _ hstep
    | error e =>
      simp only [hres]
      exact hstep

theorem maybeInterceptSearchTools_inv (turn : Turn ρ) (response : GatewayResponse ρ) (st : FailoverState ρ) (h : I st.ledger) :
    I (maybeInterceptSearchTools fromStr turn pm response st).2.ledger := by
  unfold maybeInterceptSearchTools
  split
  · exact h
  · exact h
  · rename_i resubmissions finish _
    have hrounds := searchRounds_inv hclosed response resubmissions st h
    generalize searchRounds fromStr pm response resubmissions st = out at hrounds
    obtain ⟨result, st'⟩ := out
    cases result <;> exact hrounds

theorem serve_keeps (st : FailoverState ρ) (h : I st.ledger) :
    (serve judge turn pm response st).Keeps I S :=
  ⟨st.ledger, _, h, hclosed.served _ rfl, rfl, rfl⟩

theorem judgeTurn_keeps (st : FailoverState ρ) (h : I st.ledger) :
    (judgeTurn fromStr cfg judge turn pm response st).Keeps I S := by
  unfold judgeTurn
  simp only
  split
  · exact h
  · have hsearch := maybeInterceptSearchTools_inv hclosed turn
      { response with body := judge.promoteReasoningToContent response.body } st h
    split
    · rename_i e st' heq
      rw [heq] at hsearch
      exact hsearch
    · rename_i response' st' heq
      rw [heq] at hsearch
      split
      · exact hsearch
      · exact serve_keeps hclosed response' st' hsearch

theorem nudgeReasoningContinuation_inv (judge : Judge ρ) (turn : Turn ρ) (response : GatewayResponse ρ) (st : FailoverState ρ) (h : I st.ledger) :
    I (nudgeReasoningContinuation fromStr judge turn pm response st).2.ledger := by
  have hstep := hclosed.debited _ turn.nudge h
  unfold nudgeReasoningContinuation
  split
  · simp only
    split <;> exact hstep
  · exact h

theorem onResponse_keeps (st : FailoverState ρ) (h : I st.ledger) :
    (onResponse fromStr cfg judge turn pm response st).Keeps I S := by
  unfold onResponse
  simp only
  split
  · have hnudge := nudgeReasoningContinuation_inv hclosed judge turn
      (repaired judge turn response) st h
    split
    · rename_i resumed st' heq
      rw [heq] at hnudge
      exact judgeTurn_keeps hclosed resumed st' hnudge
    · rename_i st' heq
      rw [heq] at hnudge
      exact hnudge
  · exact judgeTurn_keeps hclosed _ st h

omit hclosed in
theorem onError_keeps (e : GatewayError) (st : FailoverState ρ)
    (hcap : isCapacityError (.error e : Except GatewayError (GatewayResponse ρ)) = false)
    (h : I st.ledger) : (onError cfg pm e st).Keeps I S := by
  cases e <;> first | exact h | cases hcap

omit hclosed in
theorem onError_keeps_capacity (e : GatewayError) (st : FailoverState ρ)
    (hcap : isCapacityError (.error e : Except GatewayError (GatewayResponse ρ)) = true)
    (h : I (st.ledger.logged [.refund pm.provider] [])) : (onError cfg pm e st).Keeps I S := by
  obtain ⟨estimated, largest, he⟩ := (isCapacityError_iff _).mp hcap
  cases he
  unfold onError
  simp only
  split <;> exact h

theorem tryCandidate_keeps (force : Bool) (st : FailoverState ρ) (h : I st.ledger) :
    (tryCandidate fromStr cfg judge turn pm force st).Keeps I S := by
  have hskip := skipReason_inv hclosed cfg turn st.ledger h
  unfold tryCandidate
  simp only
  split
  · exact hskip
  · split <;> exact hskip
  · cases hres : (attemptWithRetry fromStr pm.provider .prepaid turn.dispatch).1 with
    | ok response =>
      have hstep := hclosed.admitted _ turn.dispatch hskip (by rw [hres]; rfl)
      exact onResponse_keeps hclosed response _ hstep
    | error e =>
      cases hcap : isCapacityError (.error e : Except GatewayError (GatewayResponse ρ)) with
      | true =>
        have hstep := hclosed.turnedAway _ turn.dispatch hskip (by rw [hres]; exact hcap)
        exact onError_keeps_capacity e _ hcap hstep
      | false =>
        have hstep := hclosed.admitted _ turn.dispatch hskip (by rw [hres]; exact hcap)
        exact onError_keeps e _ hcap hstep

end Turns

section Runs
variable {ρ : Type} {fromStr : List Char → Option Json} {cfg : FailoverConfig} {judge : Judge ρ} {turns : Nat → Turn ρ}
  {I : Ledger ρ → Prop} {S : GatewayMeta → Prop}

theorem exhausted_keeps (st : FailoverState ρ) (h : I st.ledger) : (exhausted judge st).Keeps I S st := by
  unfold exhausted
  split
  · exact h
  · split
    · exact h
    · split <;> exact h

variable (hturn : ∀ index pm force st, I st.ledger →
  (tryCandidate fromStr cfg judge (turns index) pm force st).Keeps I S)
include hturn

theorem forcedReduce_keeps (index : Nat) (st : FailoverState ρ) (h : I st.ledger) :
    (forcedReduce fromStr cfg judge turns index st).1.Keeps I S (forcedReduce fromStr cfg judge turns index st).2 := by
  unfold forcedReduce
  split
  · rename_i pm _ _
    have hlast := hturn index pm true st h
    split <;> rename_i heq <;> rw [heq] at hlast
    · exact exhausted_keeps _ hlast
    · exact exhausted_keeps _ hlast
    · exact hlast
    · exact hlast
  · exact exhausted_keeps st h

theorem failoverLoop_keeps (candidates : List ProviderModel) (index : Nat) (st : FailoverState ρ) (h : I st.ledger) :
    (failoverLoop fromStr cfg judge turns candidates index st).1.Keeps I S
      (failoverLoop fromStr cfg judge turns candidates index st).2 := by
  induction candidates generalizing index st with
  | nil => exact forcedReduce_keeps hturn index st h
  | cons pm rest ih =>
    have hfirst := hturn index pm false st h
    rw [failoverLoop]
    split <;> rename_i heq <;> rw [heq] at hfirst
    · exact ih _ _ hfirst
    · exact exhausted_keeps _ hfirst
    · exact hfirst
    · exact hfirst

end Runs

end ObeyGateway
