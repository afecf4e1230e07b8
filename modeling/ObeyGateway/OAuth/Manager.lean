import ObeyGateway.Lib.Tasks
import Mathlib.Algebra.GroupWithZero.Nat

/-!
# The OAuth session

`oauth/manager.rs`. The tokens are stored on disk and cached, and the session has a state; calls of
requests, the background loop and logins read and write them without a lock around the whole of what they
do. A task is at one of the points where another can come between: before a lock section, a store access
or the reply of the network.
-/

namespace ObeyGateway.OAuth

open Tasks

def backoffMaxAttempts : Nat := 3

def refreshWindowSecs : Nat := 300

structure StoredTokens where
  accessToken : String
  refreshToken : String
  expiresAt : Nat
  scopes : String
deriving DecidableEq

def StoredTokens.isExpired (tokens : StoredTokens) (now : Nat) : Bool := tokens.expiresAt ≤ now

def StoredTokens.needsRefresh (tokens : StoredTokens) (now windowSecs : Nat) : Bool :=
  tokens.expiresAt - now ≤ windowSecs

structure TokenResponse where
  accessToken : String
  refreshToken : Option String
  expiresIn : Nat
  scope : Option String
deriving DecidableEq

/-- What `attempt_refresh_with_backoff` tells apart. -/
inductive RefreshError
  | sessionExpired
  | tokenRefreshNetwork
  | other
deriving DecidableEq

inductive OAuthSessionState
  | unauthenticated
  | authenticated (expiresAt : Nat) (scopes : String)
  | expired
  | refreshing
deriving DecidableEq

/-- A write ends with success, or with an error that left the file alone, has written it, or left nothing to be read. -/
inductive SaveOutcome
  | saved
  | refused
  | written
  | torn
deriving DecidableEq

def SaveOutcome.store {α : Type} (old : Option α) (new : α) : SaveOutcome → Option α
  | .saved | .written => some new
  | .refused => old
  | .torn => none

structure OAuthManager where
  store : Option StoredTokens
  sessionState : OAuthSessionState
  tokenCache : Option StoredTokens
deriving DecidableEq

inductive Caller
  | forced
  | refreshLoop
deriving DecidableEq

inductive Task
  | idle
  /-- `get_access_token` behind the look at the state -/
  | readCache
  | loadStore
  | fillCache (tokens : StoredTokens)
  /-- a refresh that has loaded the tokens -/
  | refreshing (caller : Caller) (previous : StoredTokens)
  | waiting (caller : Caller) (previous : StoredTokens) (attempt : Nat)
  /-- `apply_refreshed_tokens` -/
  | apply (caller : Caller) (previous : StoredTokens) (response : TokenResponse)
  /-- `store_tokens` and the logins, behind the write of the file -/
  | cache (tokens : StoredTokens)
  | authenticate (tokens : StoredTokens)
  | expire
  /-- a login, up to the answer of the exchange -/
  | exchanging
  | storeLogin (tokens : StoredTokens)
  | logoutCache
  | logoutState
deriving DecidableEq

inductive Call
  | getAccessToken
  | forceRefresh
  | tick
  | login
  | logout
deriving DecidableEq

/-- What a step finds: the call that an idle task begins, the clock, the outcomes of file accesses, the network's
answers. -/
structure Choice where
  call : Call
  now : Nat
  readable : Bool
  deleted : Bool
  outcome : SaveOutcome
  reply : Except RefreshError TokenResponse
  exchanged : Option TokenResponse

/-- `u64::saturating_add` -/
def expiresAt (now expiresIn : Nat) : Nat := min (now + expiresIn) (2 ^ 64 - 1)

/-- The tokens that `apply_refreshed_tokens` stores. -/
def refreshedTokens (previous : StoredTokens) (response : TokenResponse) (now : Nat) : StoredTokens where
  accessToken := response.accessToken
  refreshToken := response.refreshToken.getD previous.refreshToken
  expiresAt := expiresAt now response.expiresIn
  scopes := response.scope.getD previous.scopes

def loginScope : String := "openid profile email offline_access"

def loginTokens (response : TokenResponse) (now : Nat) : StoredTokens where
  accessToken := response.accessToken
  refreshToken := response.refreshToken.getD ""
  expiresAt := expiresAt now response.expiresIn
  scopes := response.scope.getD loginScope

namespace OAuthManager

/-- `attempt_refresh_with_backoff`: the reply to one attempt -/
def reply (caller : Caller) (previous : StoredTokens) (attempt : Nat) : Except RefreshError TokenResponse → Task
  | .ok response => .apply caller previous response
  | .error .tokenRefreshNetwork =>
    if attempt + 1 < backoffMaxAttempts then .waiting caller previous (attempt + 1) else .expire
  | .error _ => .expire

/-- What the caller of `apply_refreshed_tokens` does with an error. -/
def onSaveError : Caller → Task
  | .forced => .idle
  | .refreshLoop => .expire

variable (m : OAuthManager) (c : Choice)

/-- `store.load()` -/
def load : Option StoredTokens := if c.readable then m.store else none

def save (tokens : StoredTokens) (onError : Task) : OAuthManager × Task :=
  ({ m with store := c.outcome.store m.store tokens }, if c.outcome = .saved then .cache tokens else onError)

def begin : Call → OAuthManager × Task
  | .getAccessToken =>
    match m.sessionState with
    | .authenticated _ _ | .refreshing => (m, .readCache)
    | _ => (m, .idle)
  | .forceRefresh =>
    match m.load c with
    | some tokens => (m, .refreshing .forced tokens)
    | none => (m, .idle)
  | .tick =>
    match m.load c with
    | some tokens => (m, if tokens.needsRefresh c.now refreshWindowSecs then .refreshing .refreshLoop tokens else .idle)
    | none => (m, .idle)
  | .login => (m, .exchanging)
  | .logout => if c.deleted then ({ m with store := none }, .logoutCache) else (m, .idle)

def proceed : Task → OAuthManager × Task
  | .idle => m.begin c c.call
  | .readCache =>
    match m.tokenCache with
    | some tokens => (m, if tokens.isExpired c.now then .loadStore else .idle)
    | none => (m, .loadStore)
  | .loadStore =>
    match m.load c with
    | some tokens => (m, if tokens.isExpired c.now then .idle else .fillCache tokens)
    | none => (m, .idle)
  | .fillCache tokens => ({ m with tokenCache := some tokens }, .idle)
  | .refreshing caller previous => ({ m with sessionState := .refreshing }, .waiting caller previous 0)
  | .waiting caller previous attempt => (m, reply caller previous attempt c.reply)
  | .apply caller previous response => m.save c (refreshedTokens previous response c.now) (onSaveError caller)
  | .cache tokens => ({ m with tokenCache := some tokens }, .authenticate tokens)
  | .authenticate tokens => ({ m with sessionState := .authenticated tokens.expiresAt tokens.scopes }, .idle)
  | .expire => ({ m with sessionState := .expired }, .idle)
  | .exchanging => (m, (c.exchanged.map fun response => .storeLogin (loginTokens response c.now)).getD .idle)
  | .storeLogin tokens => m.save c tokens .idle
  | .logoutCache => ({ m with tokenCache := none }, .logoutState)
  | .logoutState => ({ m with sessionState := .unauthenticated }, .idle)

end OAuthManager

abbrev System := Sys OAuthManager Task

def next (s : System) (t : Nat) (c : Choice) : OAuthManager × Task := s.shared.proceed c (s.task t)

/-- The token that `get_access_token` returns at this step, if it does. -/
def handsOut (s : System) (a : Act Choice) : Option String :=
  match s.task a.task with
  | .readCache =>
    match s.shared.tokenCache with
    | some tokens => if tokens.isExpired a.event.now then none else some tokens.accessToken
    | none => none
  | .fillCache tokens => some tokens.accessToken
  | _ => none

end ObeyGateway.OAuth
