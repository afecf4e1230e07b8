import ObeyGateway.Router.FailoverAccounts

/-!
# The two ways of a request to a provider

`route_request_with_exclusions` and `route_request_streaming_excluding`. Only the loop turns away a provider whose
budget is spent: `provider_budget_gate_law` says when a spent provider is sent to.
-/

namespace ObeyGateway
open Text

/-- A round of the quality cascade: whether the answer at hand calls for it, and what its failover loop meets. -/
structure CascadeRound (ρ : Type) where
  isFailureSignal : GatewayResponse ρ → Bool
  /-- the candidates of the next tier; there are none when the tier is bypassed -/
  providers : Except GatewayError (List ProviderModel)
  turns : Nat → Turn ρ

structure BufferedEnv (ρ : Type) where
  fromStr : List Char → Option Json
  cfg : FailoverConfig
  judge : Judge ρ
  routed : Except GatewayError (List ProviderModel)
  turns : Nat → Turn ρ
  cascade : List (CascadeRound ρ)

def RouteEnd.result {ρ : Type} : RouteEnd ρ → Except GatewayError (GatewayResponse ρ)
  | .accepted response | .lastResort response => .ok response
  | .failed e => .error e

def Ledger.followedBy {ρ : Type} (first second : Ledger ρ) : Ledger ρ :=
  ⟨first.trace ++ second.trace, first.dispatches ++ second.dispatches, second.metrics⟩

def ProviderModel.key (pm : ProviderModel) : String := pm.provider ++ ":" ++ pm.model

def noAvailableProviders : GatewayError := .invalidRequest "No available providers for model"

namespace BufferedEnv
variable {ρ : Type} (env : BufferedEnv ρ)

def failover (turns : Nat → Turn ρ) (candidates : List ProviderModel) (ledger : Ledger ρ) :
    Except GatewayError (GatewayResponse ρ) × Ledger ρ :=
  let (end', st) := routeWithFailover env.fromStr env.cfg env.judge turns candidates ledger.metrics
  (end'.result, ledger.followedBy st.ledger)

def cascadeLoop : List (CascadeRound ρ) → GatewayResponse ρ → Ledger ρ →
    Except GatewayError (GatewayResponse ρ) × Ledger ρ
  | [], response, ledger => (.ok response, ledger)
  | round :: more, response, ledger =>
    if round.isFailureSignal response = false then (.ok response, ledger)
    else
      match round.providers with
      | .error e => (.error e, ledger)
      | .ok [] => (.ok response, ledger)
      | .ok candidates =>
        match env.failover round.turns candidates ledger with
        | (.error e, ledger) => (.error e, ledger)
        | (.ok response, ledger) => cascadeLoop more response ledger

def routeRequestWithExclusions (exclude : List String) (ledger : Ledger ρ) :
    Except GatewayError (GatewayResponse ρ) × Ledger ρ :=
  match env.routed with
  | .error e => (.error e, ledger)
  | .ok providers =>
    match providers.filter (·.key ∉ exclude) with
    | [] => (.error noAvailableProviders, ledger)
    | candidates =>
      match env.failover env.turns candidates ledger with
      | (.error e, ledger) => (.error e, ledger)
      | (.ok response, ledger) => env.cascadeLoop env.cascade response ledger

end BufferedEnv

/-! ### The streaming path -/

structure StreamingConfig where
  passthroughEnabled : Bool
  emitEarlyEvent : Bool
  keepaliveIntervalSeconds : Nat

def StreamingConfig.reliabilityEnabled (streaming : StreamingConfig) : Bool :=
  streaming.emitEarlyEvent || 0 < streaming.keepaliveIntervalSeconds

def streamingRequiresBuffering (streaming : StreamingConfig) (smartRoutingApplied : Bool) : Bool :=
  !streaming.passthroughEnabled || smartRoutingApplied && !streaming.reliabilityEnabled

/-- The fields of a configured provider that the streaming path reads; `nameLower` is its name in lower case. -/
structure StreamProvider where
  nameLower : List Char
  providerType : String
  authMethod : Option String

namespace StreamProvider
variable (provider : StreamProvider)

def isOauth : Bool := provider.authMethod = some "oauth"

def needsTransformation : Bool :=
  provider.providerType = "bedrock" || contains provider.nameLower "kimi" ||
    contains provider.nameLower "nano-gpt"

end StreamProvider

structure StreamCandidate where
  pm : ProviderModel
  breakerAvailable : Bool
  cooldownRemaining : Option Nat
  provider : Option StreamProvider
  slotFree : Bool

/-- A status other than success: whether the request could be truncated, and how many image fields removed. -/
structure StreamRefusal where
  statusCode : Nat
  message : List Char
  rateLimited : Bool
  contextLengthError : Bool
  truncated : Bool
  unsupportedImageError : Bool
  imagesRemoved : Nat

inductive StreamOutcome
  | streaming
  /-- a network error, or no headers within the timeout -/
  | failed (e : UpstreamError)
  | refused (refusal : StreamRefusal)

inductive StreamingResponse (ρ : Type)
  | passThrough (pm : ProviderModel)
  | buffered (response : GatewayResponse ρ)

/-- What a call meets: `contextOverBudget` is the answer of the context gate, `consumed` that of `consume`. -/
structure StreamingCall (ρ : Type) where
  streaming : StreamingConfig
  smartRoutingApplied : Bool
  exclude : List String
  routed : Except GatewayError (List StreamCandidate)
  codexSearchReady : Bool
  provider : Option StreamProvider
  toolsPresent : Bool
  xmlToolCombo : Bool
  degenerateStreamCombo : Bool
  accessToken : Option String
  contextOverBudget : Bool
  consumed : Bool
  httpClientError : Option UpstreamError
  outcome : StreamOutcome
  buffered : BufferedEnv ρ
  metrics : SpendMetrics

namespace StreamingCall
variable {ρ : Type} (call : StreamingCall ρ)

/-- Not tried before, its breaker closed, no cooldown, configured, and with a free slot. -/
def eligible (c : StreamCandidate) : Bool :=
  c.pm.key ∉ call.exclude && c.breakerAvailable && c.cooldownRemaining.isNone && c.provider.isSome && c.slotFree

/-- Codex, Copilot and Bedrock have a dispatch of their own; the others need the whole response. -/
def mustBuffer (provider : StreamProvider) : Bool :=
  provider.isOauth && provider.providerType = "openai" || provider.providerType = "github-copilot" ||
    provider.providerType = "bedrock" || provider.needsTransformation ||
    call.toolsPresent && call.xmlToolCombo || call.toolsPresent && call.degenerateStreamCombo

def start : Ledger ρ := ⟨[], [], call.metrics⟩

def bufferedFrom (exclude : List String) (ledger : Ledger ρ) :
    Except GatewayError (StreamingResponse ρ) × Ledger ρ :=
  let (result, ledger) := call.buffered.routeRequestWithExclusions exclude ledger
  (result.map .buffered, ledger)

/-- `exclude` with the candidate that failed. -/
def excluding (pm : ProviderModel) : List String :=
  if pm.key ∈ call.exclude then call.exclude else call.exclude ++ [pm.key]

def passthroughFallbackExcluding (pm : ProviderModel) (failure : GatewayError) (ledger : Ledger ρ) :
    Except GatewayError (StreamingResponse ρ) × Ledger ρ :=
  match call.bufferedFrom (call.excluding pm) ledger with
  | (.error e, ledger) => (.error (if e = noAvailableProviders then failure else e), ledger)
  | (.ok response, ledger) => (.ok response, ledger)

def afterSend (pm : ProviderModel) (ledger : Ledger ρ) : Except GatewayError (StreamingResponse ρ) × Ledger ρ :=
  match call.outcome with
  | .streaming => (.ok (.passThrough pm), ledger)
  | .failed e => call.passthroughFallbackExcluding pm e.error ledger
  | .refused refusal =>
    if refusal.rateLimited then call.bufferedFrom (call.excluding pm) ledger
    else if refusal.contextLengthError && refusal.truncated then call.bufferedFrom [] ledger
    else if refusal.unsupportedImageError && 0 < refusal.imagesRemoved then call.bufferedFrom [] ledger
    else if 500 ≤ refusal.statusCode && refusal.statusCode < 600 then
      call.passthroughFallbackExcluding pm (.provider pm.provider refusal.message (some refusal.statusCode)) ledger
    else call.bufferedFrom [] ledger

/-- `route_request_streaming_excluding` -/
def routeRequestStreamingExcluding : Except GatewayError (StreamingResponse ρ) × Ledger ρ :=
  match call.routed with
  | .error e => (.error e, call.start)
  | .ok [] => (.error noAvailableProviders, call.start)
  | .ok candidates =>
    if streamingRequiresBuffering call.streaming call.smartRoutingApplied then call.bufferedFrom [] call.start
    else
      match candidates.find? call.eligible with
      | none => call.bufferedFrom [] call.start
      | some c =>
        if call.codexSearchReady then call.bufferedFrom [] call.start
        else
          match call.provider with
          | none => (.error (.configuration ("Provider '" ++ c.pm.provider ++ "' not found in config")), call.start)
          | some provider =>
            if call.mustBuffer provider then call.bufferedFrom [] call.start
            else if provider.isOauth && call.accessToken.isNone then call.bufferedFrom [] call.start
            else if call.contextOverBudget || !call.consumed then call.bufferedFrom call.exclude call.start
            else
              match call.httpClientError with
              | some e => (.error e.error, call.start.logged [.granted c.pm.provider] [])
              | none => call.afterSend c.pm (call.start.logged [.granted c.pm.provider, .sent c.pm.provider] [])

def ledger : Ledger ρ := call.routeRequestStreamingExcluding.2

def trace : List RouteEffect := call.ledger.trace

end StreamingCall

/-! ### The budget gate -/

/-- The recorded spend of `p` has reached its limit. -/
def BudgetSpent (cfg : FailoverConfig) (p : String) (metrics : SpendMetrics) : Prop :=
  ∃ limitUsd, cfg.budgets p = some limitUsd ∧ limitUsd ≤ metrics.currentProviderCostUsd p

/-- The window that the recorded spend of `p` belongs to is the current one at every turn. -/
def WindowCurrent {ρ : Type} (p : String) (turns : Nat → Turn ρ) : Prop := ∀ i, (turns i).windowRolled p = false

/-- The budget of `p` is spent, and nothing was sent to `p`. -/
def Barred {ρ : Type} (cfg : FailoverConfig) (p : String) (ledger : Ledger ρ) : Prop :=
  BudgetSpent cfg p ledger.metrics ∧ .sent p ∉ ledger.trace

section Budget
variable {ρ : Type} {fromStr : List Char → Option Json} {cfg : FailoverConfig} {judge : Judge ρ} {p q : String}

theorem currentProviderCostUsd_addCost (metrics : SpendMetrics) (usd : ℚ) (h : q ≠ p) :
    (metrics.addCost q usd).currentProviderCostUsd p = metrics.currentProviderCostUsd p := by
  simp [SpendMetrics.currentProviderCostUsd, SpendMetrics.addCost, h.symm]

theorem currentProviderCostUsd_reset (metrics : SpendMetrics) (h : q ≠ p) :
    (metrics.resetProviderSpend q).currentProviderCostUsd p = metrics.currentProviderCostUsd p := by
  simp [SpendMetrics.currentProviderCostUsd, SpendMetrics.resetProviderSpend, h.symm]

theorem Barred.logged {ledger : Ledger ρ} {effects : List RouteEffect} {dispatches : List (Dispatched ρ)}
    (h : Barred cfg p ledger) (hsent : .sent p ∉ effects) : Barred cfg p (ledger.logged effects dispatches) := by
  refine ⟨h.1, fun hmem => ?_⟩
  rcases List.mem_append.1 hmem with hmem | hmem
  · exact h.2 hmem
  · exact hsent hmem

theorem Barred.charge {ledger : Ledger ρ} (h : Barred cfg p ledger) {gateway : GatewayMeta} (hg : gateway.provider ≠ p) :
    Barred cfg p (ledger.charge gateway) := by
  unfold Ledger.charge
  split
  · obtain ⟨⟨limitUsd, hlimit, hspent⟩, hsent⟩ := h
    refine ⟨⟨limitUsd, hlimit, ?_⟩, by simpa using hsent⟩
    rw [currentProviderCostUsd_addCost _ _ hg]
    exact hspent
  · exact h

theorem barred_closed (hq : q ≠ p) : Closed fromStr q (fun ledger : Ledger ρ => Barred cfg p ledger) (·.provider ≠ p) := by
  have hdispatch : ∀ (firstSend : FirstSendToken) (env : DispatchEnv ρ),
      .sent p ∉ (attemptWithRetry fromStr q firstSend env).2 := by
    intro firstSend env hmem
    rcases mem_attemptWithRetry hmem with h | h
    · cases h
    · exact hq (RouteEffect.sent.inj h).symm
  have hgranted : ∀ env : DispatchEnv ρ, .sent p ∉ .granted q :: (attemptWithRetry fromStr q .prepaid env).2 := by
    intro env hmem
    rcases List.mem_cons.1 hmem with h | h
    · cases h
    · exact hdispatch _ env h
  constructor
  case rolled =>
    rintro ledger ⟨⟨limitUsd, hlimit, hspent⟩, hsent⟩
    refine ⟨⟨limitUsd, hlimit, ?_⟩, hsent⟩
    rw [Ledger.resetSpend, currentProviderCostUsd_reset _ hq]
    exact hspent
  case admitted => exact fun ledger env h _ => h.logged (hgranted env)
  case turnedAway => exact fun ledger env h _ => (h.logged (hgranted env)).logged (by simp)
  case debited => exact fun ledger env h => h.logged (hdispatch .debit env)
  case served =>
    rintro gateway rfl
    exact hq

theorem tryCandidate_spent (fromStr : List Char → Option Json) (judge : Judge ρ) {turn : Turn ρ} {pm : ProviderModel} (hp : pm.provider = p) {st : FailoverState ρ}
    (hspent : BudgetSpent cfg p st.ledger.metrics) (hwindow : turn.windowRolled p = false) (force : Bool) :
    ∃ reason, tryCandidate fromStr cfg judge turn pm force st = .next (st.pushAttempt pm reason) := by
  obtain ⟨limitUsd, hlimit, hle⟩ := hspent
  subst hp
  refine ⟨.budgetExhausted (st.ledger.metrics.currentProviderCostUsd pm.provider) limitUsd, ?_⟩
  simp [tryCandidate, skipReason, budgetGate, hlimit, hwindow, hle]

theorem routeWithFailover_barred (fromStr : List Char → Option Json) (judge : Judge ρ) {turns : Nat → Turn ρ} (hwindow : WindowCurrent p turns)
    (candidates : List ProviderModel) (metrics : SpendMetrics) (hspent : BudgetSpent cfg p metrics) :
    Barred cfg p (routeWithFailover fromStr cfg judge turns candidates metrics).2.ledger := by
  have hturn : ∀ index pm force (st : FailoverState ρ), Barred cfg p st.ledger →
      (tryCandidate fromStr cfg judge (turns index) pm force st).Keeps (Barred cfg p) (·.provider ≠ p) := by
    intro index pm force st h
    by_cases hp : pm.provider = p
    · obtain ⟨reason, hnext⟩ := tryCandidate_spent fromStr judge hp h.1 (hwindow index) force
      rw [hnext]
      exact h
    · exact tryCandidate_keeps (barred_closed hp) force st h
  have h := failoverLoop_keeps hturn candidates 0 (.init metrics) ⟨hspent, by simp [FailoverState.init]⟩
  change RouteEnd.Keeps _ _ (routeWithFailover fromStr cfg judge turns candidates metrics).2
    (routeWithFailover fromStr cfg judge turns candidates metrics).1 at h
  generalize routeWithFailover fromStr cfg judge turns candidates metrics = out at h
  obtain ⟨end', st⟩ := out
  cases end' with
  | accepted response =>
    obtain ⟨ledger, gateway, hbarred, hprovider, -, hledger⟩ := h
    rw [hledger]
    exact hbarred.charge hprovider
  | lastResort | failed => exact h

end Budget

namespace BufferedEnv
variable {ρ : Type} {env : BufferedEnv ρ} {p : String}

def WindowsCurrent (env : BufferedEnv ρ) (p : String) : Prop :=
  WindowCurrent p env.turns ∧ ∀ round ∈ env.cascade, WindowCurrent p round.turns

variable {ledger : Ledger ρ}

theorem failover_barred (env : BufferedEnv ρ) {turns : Nat → Turn ρ} (hwindow : WindowCurrent p turns) (candidates : List ProviderModel) (h : Barred env.cfg p ledger) : Barred env.cfg p (env.failover turns candidates ledger).2 := by
  obtain ⟨hspent, hsent⟩ := routeWithFailover_barred env.fromStr env.judge hwindow candidates
    ledger.metrics h.1
  exact ⟨hspent, fun hmem => (List.mem_append.1 hmem).elim h.2 hsent⟩

theorem cascadeLoop_barred (rounds : List (CascadeRound ρ)) (hwindow : ∀ round ∈ rounds, WindowCurrent p round.turns)
    (response : GatewayResponse ρ) (h : Barred env.cfg p ledger) :
    Barred env.cfg p (env.cascadeLoop rounds response ledger).2 := by
  induction rounds generalizing response ledger with
  | nil => exact h
  | cons round more ih =>
    rw [cascadeLoop]
    split
    · exact h
    · split
      · exact h
      · exact h
      · rename_i candidates _ _
        have hround := failover_barred env (hwindow round List.mem_cons_self) candidates h
        split <;> rename_i heq <;> rw [heq] at hround
        · exact hround
        · exact ih (fun r hr => hwindow r (List.mem_cons_of_mem _ hr)) _ hround

theorem routeRequestWithExclusions_barred (hwindow : env.WindowsCurrent p) (exclude : List String)
    (h : Barred env.cfg p ledger) : Barred env.cfg p (env.routeRequestWithExclusions exclude ledger).2 := by
  unfold routeRequestWithExclusions
  split
  · exact h
  · rename_i providers _
    split
    · exact h
    · have hfirst := failover_barred env hwindow.1 (providers.filter (·.key ∉ exclude)) h
      split <;> rename_i heq <;> rw [heq] at hfirst
      · exact hfirst
      · exact cascadeLoop_barred _ hwindow.2 _ hfirst

variable {e : RouteEffect}

theorem mem_failover {turns : Nat → Turn ρ} {candidates : List ProviderModel}
    (h : e ∈ ledger.trace) : e ∈ (env.failover turns candidates ledger).2.trace :=
  List.mem_append_left _ h

theorem mem_cascadeLoop (rounds : List (CascadeRound ρ)) (response : GatewayResponse ρ) (h : e ∈ ledger.trace) : e ∈ (env.cascadeLoop rounds response ledger).2.trace := by
  induction rounds generalizing response ledger with
  | nil => exact h
  | cons round more ih =>
    rw [cascadeLoop]
    split
    · exact h
    · split
      · exact h
      · exact h
      · rename_i candidates _ _
        have hround : e ∈ (env.failover round.turns candidates ledger).2.trace := mem_failover h
        split <;> rename_i heq <;> rw [heq] at hround
        · exact hround
        · exact ih _ hround

theorem mem_routeRequestWithExclusions (exclude : List String)
    (h : e ∈ ledger.trace) : e ∈ (env.routeRequestWithExclusions exclude ledger).2.trace := by
  unfold routeRequestWithExclusions
  split
  · exact h
  · rename_i providers _
    split
    · exact h
    · have hfirst : e ∈ (env.failover env.turns (providers.filter (·.key ∉ exclude)) ledger).2.trace := mem_failover h
      split <;> rename_i heq <;> rw [heq] at hfirst
      · exact hfirst
      · exact mem_cascadeLoop _ _ hfirst

end BufferedEnv

namespace StreamingCall
variable {ρ : Type} {call : StreamingCall ρ} {p : String}

/-- The request is passed through to `pm`: the selection finds it, and no check behind the selection sends the
request to the buffered path. -/
def PassesThroughTo (call : StreamingCall ρ) (pm : ProviderModel) : Prop :=
  ∃ candidates c provider,
    call.routed = .ok candidates ∧ streamingRequiresBuffering call.streaming call.smartRoutingApplied = false ∧
    candidates.find? call.eligible = some c ∧ c.pm = pm ∧ call.codexSearchReady = false ∧
    call.provider = some provider ∧ call.mustBuffer provider = false ∧
    (provider.isOauth && call.accessToken.isNone) = false ∧ (call.contextOverBudget || !call.consumed) = false ∧
    call.httpClientError = none

theorem bufferedFrom_barred (hwindow : call.buffered.WindowsCurrent p) (exclude : List String) {ledger : Ledger ρ}
    (h : Barred call.buffered.cfg p ledger) : Barred call.buffered.cfg p (call.bufferedFrom exclude ledger).2 :=
  BufferedEnv.routeRequestWithExclusions_barred hwindow exclude h

theorem mem_bufferedFrom (exclude : List String) {ledger : Ledger ρ} {e : RouteEffect} (h : e ∈ ledger.trace) :
    e ∈ (call.bufferedFrom exclude ledger).2.trace :=
  BufferedEnv.mem_routeRequestWithExclusions exclude h

theorem afterSend_cases (call : StreamingCall ρ) (pm : ProviderModel) (ledger : Ledger ρ) :
    (call.afterSend pm ledger).2 = ledger ∨
      ∃ exclude, (call.afterSend pm ledger).2 = (call.bufferedFrom exclude ledger).2 := by
  have hfallback : ∀ failure, (call.passthroughFallbackExcluding pm failure ledger).2 =
      (call.bufferedFrom (call.excluding pm) ledger).2 := by
    intro failure
    unfold passthroughFallbackExcluding
    split <;> rename_i heq <;> rw [heq]
  unfold afterSend
  split
  · exact .inl rfl
  · exact .inr ⟨_, hfallback _⟩
  · split
    · exact .inr ⟨_, rfl⟩
    · split
      · exact .inr ⟨_, rfl⟩
      · split
        · exact .inr ⟨_, rfl⟩
        · split
          · exact .inr ⟨_, hfallback _⟩
          · exact .inr ⟨_, rfl⟩

theorem route_of_passesThroughTo {pm : ProviderModel} (h : call.PassesThroughTo pm) : call.routeRequestStreamingExcluding =
      call.afterSend pm (call.start.logged [.granted pm.provider, .sent pm.provider] []) := by
  obtain ⟨candidates, c, provider, hrouted, hbuffering, hfind, rfl, hsearch, hprovider, hmust, hauth, hgate, hclient⟩ := h
  unfold routeRequestStreamingExcluding
  cases candidates with
  | nil => simp at hfind
  | cons first rest => simp [hrouted, hbuffering, hfind, hsearch, hprovider, hmust, hauth, hgate, hclient]

/-- A request that is passed through to no one ends with an error or on the buffered path. -/
theorem route_of_not_passesThroughTo (h : ∀ pm, ¬ call.PassesThroughTo pm) :
    (∃ exclude, call.ledger = (call.bufferedFrom exclude call.start).2) ∨
      ∃ effects, call.ledger = call.start.logged effects [] ∧ ∀ q, .sent q ∉ effects := by
  unfold ledger routeRequestStreamingExcluding
  split
  · exact .inr ⟨[], by simp [Ledger.logged], by simp⟩
  · exact .inr ⟨[], by simp [Ledger.logged], by simp⟩
  · rename_i candidates hne hrouted
    split
    · exact .inl ⟨_, rfl⟩
    · rename_i hbuffering
      split
      · exact .inl ⟨_, rfl⟩
      · rename_i c hfind
        split
        · exact .inl ⟨_, rfl⟩
        · rename_i hsearch
          split
          · exact .inr ⟨[], by simp [Ledger.logged], by simp⟩
          · rename_i provider hprovider
            split
            · exact .inl ⟨_, rfl⟩
            · rename_i hmust
              split
              · exact .inl ⟨_, rfl⟩
              · rename_i hauth
                split
                · exact .inl ⟨_, rfl⟩
                · rename_i hgate
                  split
                  · exact .inr ⟨_, rfl, by simp⟩
                  · rename_i hclient
                    exact absurd ⟨candidates, c, provider, hrouted, Bool.eq_false_of_not_eq_true hbuffering, hfind, rfl,
                      Bool.eq_false_of_not_eq_true hsearch, hprovider, Bool.eq_false_of_not_eq_true hmust,
                      Bool.eq_false_of_not_eq_true hauth, Bool.eq_false_of_not_eq_true hgate, hclient⟩ (h c.pm)

theorem ledger_barred (hspent : BudgetSpent call.buffered.cfg p call.metrics)
    (hwindow : call.buffered.WindowsCurrent p) (h : ∀ pm, call.PassesThroughTo pm → pm.provider ≠ p) :
    Barred call.buffered.cfg p call.ledger := by
  have hstart : Barred call.buffered.cfg p call.start := ⟨hspent, by simp [start]⟩
  by_cases hpass : ∃ pm, call.PassesThroughTo pm
  · obtain ⟨pm, hpm⟩ := hpass
    have hsend : Barred call.buffered.cfg p (call.start.logged [.granted pm.provider, .sent pm.provider] []) :=
      hstart.logged (by simp [(h pm hpm).symm])
    rw [ledger, route_of_passesThroughTo hpm]
    rcases afterSend_cases call pm (call.start.logged [.granted pm.provider, .sent pm.provider] []) with
      heq | ⟨exclude, heq⟩ <;> rw [heq]
    · exact hsend
    · exact bufferedFrom_barred hwindow exclude hsend
  · rcases route_of_not_passesThroughTo (not_exists.1 hpass) with ⟨exclude, heq⟩ | ⟨effects, heq, hsent⟩ <;> rw [heq]
    · exact bufferedFrom_barred hwindow exclude hstart
    · exact hstart.logged (hsent p)

theorem sent_of_passesThroughTo {pm : ProviderModel} (h : call.PassesThroughTo pm) : .sent pm.provider ∈ call.trace := by
  have hsend : .sent pm.provider ∈ (call.start.logged [.granted pm.provider, .sent pm.provider] []).trace := by
    simp [Ledger.logged]
  rw [trace, ledger, route_of_passesThroughTo h]
  rcases afterSend_cases call pm (call.start.logged [.granted pm.provider, .sent pm.provider] []) with
    heq | ⟨exclude, heq⟩ <;> rw [heq]
  · exact hsend
  · exact mem_bufferedFrom exclude hsend

end StreamingCall

/-- While the budget of `p` is spent, the failover loop sends nothing to `p`, and the streaming path exactly if the
request is not passed through to `p`. -/
theorem provider_budget_gate_law {ρ : Type} (p : String) :
    (∀ run : FailoverRun ρ, BudgetSpent run.cfg p run.metrics → WindowCurrent p run.turns → .sent p ∉ run.trace) ∧
    (∀ call : StreamingCall ρ, BudgetSpent call.buffered.cfg p call.metrics → call.buffered.WindowsCurrent p →
      (.sent p ∉ call.trace ↔ ∀ pm, call.PassesThroughTo pm → pm.provider ≠ p)) := by
  constructor
  · intro run hspent hwindow
    exact (routeWithFailover_barred run.fromStr run.judge hwindow run.candidates run.metrics
      hspent).2
  · intro call hspent hwindow
    constructor
    · rintro hsent pm hpass rfl
      exact hsent (StreamingCall.sent_of_passesThroughTo hpass)
    · intro h
      exact (StreamingCall.ledger_barred hspent hwindow h).2

def spentRun : FailoverRun String :=
  { servedRun with
    cfg := { servedRun.cfg with budgets := fun _ => some 10 }
    metrics := ⟨fun _ => 1000⟩ }

def spentCall (exclude : List String) : StreamingCall String where
  streaming := ⟨true, true, 5⟩
  smartRoutingApplied := false
  exclude
  routed := .ok [⟨pricedModel, true, none, some ⟨"openai".toList, "openai", none⟩, true⟩]
  codexSearchReady := false
  provider := some ⟨"openai".toList, "openai", none⟩
  toolsPresent := false
  xmlToolCombo := false
  degenerateStreamCombo := false
  accessToken := none
  contextOverBudget := false
  consumed := true
  httpClientError := none
  outcome := .streaming
  buffered := ⟨spentRun.fromStr, spentRun.cfg, spentRun.judge, .ok spentRun.candidates, spentRun.turns, []⟩
  metrics := spentRun.metrics

theorem spentRun_budgetSpent : BudgetSpent spentRun.cfg "openai" spentRun.metrics :=
  ⟨10, rfl, by simp [spentRun, SpendMetrics.currentProviderCostUsd]; norm_num⟩

theorem spentCall_windowsCurrent (exclude : List String) : (spentCall exclude).buffered.WindowsCurrent "openai" :=
  ⟨fun _ => rfl, by simp [spentCall]⟩

theorem provider_budget_gate_law_excluded :
    .sent "openai" ∉ spentRun.trace ∧ .sent "openai" ∉ (spentCall ["openai:gpt"]).trace := by
  refine ⟨(provider_budget_gate_law "openai").1 spentRun spentRun_budgetSpent fun _ => rfl, ?_⟩
  refine ((provider_budget_gate_law "openai").2 (spentCall ["openai:gpt"]) spentRun_budgetSpent
    (spentCall_windowsCurrent _)).2 ?_
  rintro pm ⟨candidates, c, provider, hrouted, -, hfind, -⟩
  cases hrouted
  exact absurd hfind (by simp [spentCall, StreamingCall.eligible, ProviderModel.key, pricedModel])

theorem provider_budget_gate_streaming : BudgetSpent (spentCall []).buffered.cfg "openai" (spentCall []).metrics ∧
      (spentCall []).buffered.WindowsCurrent "openai" ∧ .sent "openai" ∈ (spentCall []).trace := by
  refine ⟨spentRun_budgetSpent, spentCall_windowsCurrent [], ?_⟩
  decide +kernel

end ObeyGateway
