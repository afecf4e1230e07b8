import ObeyGateway.OAuth.Manager

/-!
# The Copilot session

`oauth/github_copilot/manager.rs`: the calls for a token with their exchange, the background loop, the
login task and the logout. A task that is aborted does not go on from its next wait. A login is followed
from the step that publishes it in the login slot; how callers come to that step is the subject of the
slot's own module.
-/

namespace ObeyGateway.OAuth.Copilot

open Tasks

def copilotOauthScope : String := "read:user"

structure CopilotStoredCredentials where
  githubAccessToken : String
  copilotToken : Option String
  copilotExpiresAt : Option Nat
  apiBase : String
  machineId : String
  sku : Option String
  scopes : String
  updatedAt : Nat
deriving DecidableEq

structure CopilotCredentialCache where
  githubAccessToken : String
  copilotToken : String
  copilotExpiresAt : Nat
  apiBase : String
  machineId : String
  sku : Option String
  scopes : String
deriving DecidableEq

/-- The answer of the exchange; `apiBase` is what `api_base()` gives. -/
structure CopilotToken where
  token : String
  expiresAt : Nat
  apiBase : String
  sku : Option String
deriving DecidableEq

inductive ExchangeError
  | copilotEntitlementMissing
  | copilotTokenNetwork
  | other
deriving DecidableEq

inductive CopilotSessionState
  | unauthenticated
  | pending
  | authenticated (expiresAt : Nat)
  | expired
  | error
deriving DecidableEq

def CopilotToken.credentials (copilot : CopilotToken) (githubToken machineId scopes : String) : CopilotCredentialCache where
  githubAccessToken := githubToken
  copilotToken := copilot.token
  copilotExpiresAt := copilot.expiresAt
  apiBase := copilot.apiBase
  machineId
  sku := copilot.sku
  scopes

def CopilotCredentialCache.toStored (creds : CopilotCredentialCache) (updatedAt : Nat) : CopilotStoredCredentials where
  githubAccessToken := creds.githubAccessToken
  copilotToken := some creds.copilotToken
  copilotExpiresAt := some creds.copilotExpiresAt
  apiBase := creds.apiBase
  machineId := creds.machineId
  sku := creds.sku
  scopes := creds.scopes
  updatedAt

/-- `login` is the task of the published login, `refreshTask` the one of the loop. -/
structure CopilotTokenManager where
  store : Option CopilotStoredCredentials
  sessionState : CopilotSessionState
  cache : Option CopilotCredentialCache
  login : Option Nat
  refreshTask : Option Nat
  exchangeLock : Option Nat
  aborted : Nat → Bool

inductive Purpose
  | inline
  | refreshLoop
  | login
deriving DecidableEq

inductive Task
  | idle
  /-- `get_copilot_token` behind the look at the state -/
  | readCache
  /-- `force_refresh` behind the look at the state -/
  | expireCache
  /-- `refresh_single_flight`, `refresh_once` -/
  | awaitLock
  | recheck
  | readCredentials
  | exchanging (githubToken machineId scopes : String)
  /-- `apply_exchanged_token`, `exchange_and_persist` -/
  | save (purpose : Purpose) (creds : CopilotCredentialCache)
  | cache (purpose : Purpose) (creds : CopilotCredentialCache)
  | authenticate (purpose : Purpose) (creds : CopilotCredentialCache)
  /-- a refresh that has failed -/
  | reject (purpose : Purpose) (state : CopilotSessionState)
  | loopTick
  | loopWaiting (githubToken : String) (attempt : Nat)
  | loopMachineId (githubToken : String) (copilot : CopilotToken)
  | loopLoadMachineId (githubToken : String) (copilot : CopilotToken)
  | loopScopes (githubToken : String) (copilot : CopilotToken) (machineId : String)
  /-- `run_login` -/
  | polling
  | loginExchanging (githubToken : String)
  | loginMachineId (githubToken : String) (copilot : CopilotToken)
  | loginLoad
  | loginReset (stored : Option CopilotStoredCredentials)
  | loginRestart
  | loginEnd
  /-- `complete_logout` -/
  | logoutStop
  | logoutTake
  | logoutAwait (loginTask : Nat)
  | logoutDelete
  | logoutCache
  | logoutState
deriving DecidableEq

inductive Call
  | getCopilotToken
  | forceRefresh
  | startLoop
  | login
  | logout
deriving DecidableEq

/-- As in `Manager.lean`, with a new machine id. -/
structure Choice where
  call : Call
  now : Nat
  readable : Bool
  deleted : Bool
  outcome : SaveOutcome
  machineId : String
  reply : Except ExchangeError CopilotToken
  polled : Option String

/-- The points of the loop and of the login task from which an aborted task does not go on. -/
def Task.awaits : Task → Bool
  | .cache purpose _ | .authenticate purpose _ | .reject purpose _ => purpose ≠ .inline
  | .loopTick | .loopWaiting _ _ | .loopMachineId _ _ | .loopScopes _ _ _ => true
  | .polling | .loginExchanging _ | .loginReset _ | .loginRestart | .loginEnd => true
  | _ => false

namespace CopilotTokenManager

variable (m : CopilotTokenManager) (c : Choice)

/-- `store.load()` -/
def load : Option CopilotStoredCredentials := if c.readable then m.store else none

def abort : Option Nat → CopilotTokenManager
  | some task => { m with aborted := Function.update m.aborted task true }
  | none => m

def unlock : CopilotTokenManager := { m with exchangeLock := none }

def cached : Option CopilotCredentialCache := m.cache.filter (c.now < ·.copilotExpiresAt)

/-- The lines of a call up to its first wait; `finished` says which tasks have ended. -/
def begin (finished : Nat → Bool) (t : Nat) : CopilotTokenManager × Task :=
  let m := { m with aborted := Function.update m.aborted t false }
  match c.call with
  | .getCopilotToken =>
    match m.sessionState with
    | .authenticated _ | .error => (m, .readCache)
    | _ => (m, .idle)
  | .forceRefresh =>
    match m.sessionState with
    | .authenticated _ | .error => (m, .expireCache)
    | _ => (m, .idle)
  | .startLoop => ({ m with refreshTask := some t }, .loopTick)
  | .login =>
    if m.login.all finished then ({ m with sessionState := .pending, login := some t }, .polling) else (m, .idle)
  | .logout => (m, .logoutStop)

/-- `run_refresh_loop`: the answer to one attempt of `attempt_exchange_with_backoff` -/
def loopReply (githubToken : String) (attempt : Nat) : Except ExchangeError CopilotToken → Task
  | .ok copilot => .loopMachineId githubToken copilot
  | .error .copilotEntitlementMissing => .reject .refreshLoop .expired
  | .error .copilotTokenNetwork =>
    if attempt + 1 < backoffMaxAttempts then .loopWaiting githubToken (attempt + 1) else .reject .refreshLoop .error
  | .error .other => .reject .refreshLoop .error

/-- `refresh_once`: the answer of the exchange -/
def onceReply (githubToken machineId scopes : String) : Except ExchangeError CopilotToken → CopilotTokenManager × Task
  | .ok copilot => (m, .save .inline (copilot.credentials githubToken machineId scopes))
  | .error .copilotEntitlementMissing => (m, .reject .inline .expired)
  | .error _ => (m.unlock, .idle)

def stored : Purpose → CopilotTokenManager × Task
  | .inline => (m.unlock, .idle)
  | .refreshLoop => (m, .loopTick)
  | .login => (m, .loginRestart)

def onSaveError : Purpose → CopilotTokenManager × Task
  | .inline => (m.unlock, .idle)
  | .refreshLoop => (m, .reject .refreshLoop .error)
  | .login => (m, .loginEnd)

def save (purpose : Purpose) (creds : CopilotCredentialCache) : CopilotTokenManager × Task :=
  let m := { m with store := c.outcome.store m.store (creds.toStored c.now) }
  if c.outcome = .saved then (m, .cache purpose creds) else m.onSaveError purpose

/-- `reset_login_state` -/
def resetLoginState (stored : Option CopilotStoredCredentials) : CopilotTokenManager :=
  match stored with
  | some creds =>
    match creds.copilotExpiresAt.filter (c.now < ·) with
    | some expiresAt => { m with sessionState := .authenticated expiresAt }
    | none => { m with cache := none, sessionState := .expired }
  | none => { m with cache := none, sessionState := .unauthenticated }

def proceed (finished : Nat → Bool) (t : Nat) : Task → CopilotTokenManager × Task
  | .idle => m.begin c finished t
  | .readCache => if (m.cached c).isSome then (m, .idle) else (m, .awaitLock)
  | .expireCache => ({ m with cache := m.cache.map ({ · with copilotExpiresAt := 0 }) }, .awaitLock)
  | .awaitLock => if m.exchangeLock = none then ({ m with exchangeLock := some t }, .recheck) else (m, .awaitLock)
  | .recheck => if (m.cached c).isSome then (m.unlock, .idle) else (m, .readCredentials)
  | .readCredentials =>
    match m.cache, m.load c with
    | some creds, _ => (m, .exchanging creds.githubAccessToken creds.machineId creds.scopes)
    | none, some stored => (m, .exchanging stored.githubAccessToken stored.machineId stored.scopes)
    | none, none => (m.unlock, .idle)
  | .exchanging githubToken machineId scopes => m.onceReply githubToken machineId scopes c.reply
  | .save purpose creds => m.save c purpose creds
  | .cache purpose creds => ({ m with cache := some creds }, .authenticate purpose creds)
  | .authenticate purpose creds => { m with sessionState := .authenticated creds.copilotExpiresAt }.stored purpose
  | .reject purpose state => { m with sessionState := state }.stored purpose
  | .loopTick =>
    match m.cache with
    | some creds =>
      (m, if creds.copilotExpiresAt - c.now ≤ refreshWindowSecs then .loopWaiting creds.githubAccessToken 0 else .loopTick)
    | none => (m, .loopTick)
  | .loopWaiting githubToken attempt => (m, loopReply githubToken attempt c.reply)
  | .loopMachineId githubToken copilot =>
    match m.cache with
    | some creds => (m, .loopScopes githubToken copilot creds.machineId)
    | none => (m, .loopLoadMachineId githubToken copilot)
  | .loopLoadMachineId githubToken copilot =>
    (m, .loopScopes githubToken copilot (((m.load c).map (·.machineId)).getD c.machineId))
  | .loopScopes githubToken copilot machineId =>
    (m, .save .refreshLoop (copilot.credentials githubToken machineId ((m.cache.map (·.scopes)).getD copilotOauthScope)))
  | .polling => (m, (c.polled.map .loginExchanging).getD .loginLoad)
  | .loginExchanging githubToken =>
    match c.reply with
    | .ok copilot => (m, .loginMachineId githubToken copilot)
    | .error _ => (m, .loginEnd)
  | .loginMachineId githubToken copilot =>
    (m, .save .login (copilot.credentials githubToken (((m.load c).map (·.machineId)).getD c.machineId) copilotOauthScope))
  | .loginLoad => (m, .loginReset (m.load c))
  | .loginReset stored => (m.resetLoginState c stored, .idle)
  | .loginRestart => ({ m.abort m.refreshTask with refreshTask := none }, .loginEnd)
  | .loginEnd => ({ m.abort m.login with login := none }, .idle)
  | .logoutStop => ({ m.abort m.refreshTask with refreshTask := none }, .logoutTake)
  | .logoutTake => ({ m.abort m.login with login := none }, (m.login.map .logoutAwait).getD .logoutDelete)
  | .logoutAwait loginTask => (m, if finished loginTask then .logoutDelete else .logoutAwait loginTask)
  | .logoutDelete => if c.deleted then ({ m with store := none }, .logoutCache) else (m, .idle)
  | .logoutCache => ({ m with cache := none }, .logoutState)
  | .logoutState => ({ m with sessionState := .unauthenticated }, .idle)

end CopilotTokenManager

abbrev System := Sys CopilotTokenManager Task

def dropped (s : System) (t : Nat) : Bool := s.shared.aborted t && (s.task t).awaits

def next (s : System) (t : Nat) (c : Choice) : CopilotTokenManager × Task :=
  if dropped s t then (s.shared, .idle) else s.shared.proceed c (fun u => s.task u = .idle) t (s.task t)

/-- The token that `get_copilot_token` or `force_refresh` returns at this step, if one does. -/
def handsOut (s : System) (a : Act Choice) : Option String :=
  match s.task a.task with
  | .readCache | .recheck => (s.shared.cached a.event).map (·.copilotToken)
  | .authenticate .inline creds => some creds.copilotToken
  | _ => none

end ObeyGateway.OAuth.Copilot
