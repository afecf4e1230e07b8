import Mathlib.Logic.Function.Basic
import ObeyGateway.Lib.Calendar
import ObeyGateway.Lib.Run
import ObeyGateway.VirtualKeys.Store

/-!
# The key manager (`virtual_keys/{mod,auth,budget,usage,lifecycle,admin}.rs`)

`VirtualKeyManager` over the key store and the `DashMap` of authenticated keys. Each operation runs without interruption
here; the interleaved steps are in `Revocation.lean`. `Env` is what an operation takes from outside: `Utc::now()` and
which of its store statements succeed. What is not the manager's is a parameter (`Deps`).
-/

namespace ObeyGateway.VirtualKeys

variable {L : Type}

structure Deps (L : Type) where
  sha256Hex : String → String
  encryptProviderSecret : String → Except String String
  loopErrors : L → List String

structure Env where
  now : Int
  io : Nat → Bool

structure AuthenticatedKey (L : Type) where
  id : String
  name : Option String
  status : KeyStatus
  budgetLimitUsd : Option ℚ
  tokenBudget : Option Nat
  budgetWindow : Option BudgetWindow
  currentSpendUsd : ℚ
  currentTokensUsed : Nat
  windowStart : Option Int
  requestsPerMinute : Option Nat
  tokensPerMinute : Option Nat
  modelAccess : Option (List String)
  expiresAt : Option Int
  loopDetection : Option L

structure Manager (L : Type) where
  store : KeyDb L
  cache : String → Option (AuthenticatedKey L)

inductive AuthError
  | invalidKey
  | expired
  | revoked
deriving DecidableEq, Repr

inductive BudgetError
  | budgetExhausted
  | tokenBudgetExhausted
deriving DecidableEq, Repr

structure FieldError where
  field : String
  message : String
deriving DecidableEq, Repr

inductive KeyError
  | notFound (id : String)
  | keyRevoked
  | validation (errors : List FieldError)
  | store (e : KeyStoreError)
  | encryption (message : String)
deriving DecidableEq, Repr

def dayNanos : Int := 86400 * 10 ^ 9

/-- `date_naive()` as a day number. -/
def dateNaive (t : Int) : Int := t / dayNanos

def mondayOfWeek (date : Int) : Int := date - Calendar.numDaysFromMonday date

def windowExpired (window : BudgetWindow) (windowStart now : Int) : Bool :=
  match window with
  | .daily => dateNaive now ≠ dateNaive windowStart
  | .weekly =>
    let nextMonday := mondayOfWeek (dateNaive windowStart) + 7
    nextMonday * dayNanos ≤ now
  | .monthly =>
    (Calendar.year (dateNaive now), Calendar.month (dateNaive now)) ≠
      (Calendar.year (dateNaive windowStart), Calendar.month (dateNaive windowStart))

inductive ExpiresIn
  | never
  | oneYear
  | sixMonths
  | threeMonths
  | oneMonth
  | twoWeeks
  | oneWeek
  | threeDays
  | oneDay
deriving DecidableEq, Repr

def ExpiresIn.toDuration : ExpiresIn → Option Int
  | .never => none
  | .oneYear => some (365 * dayNanos)
  | .sixMonths => some (182 * dayNanos)
  | .threeMonths => some (91 * dayNanos)
  | .oneMonth => some (30 * dayNanos)
  | .twoWeeks => some (14 * dayNanos)
  | .oneWeek => some (7 * dayNanos)
  | .threeDays => some (3 * dayNanos)
  | .oneDay => some dayNanos

structure CreateKeyParams (L : Type) where
  name : Option String := none
  budgetLimitUsd : Option ℚ := none
  tokenBudget : Option Nat := none
  budgetWindow : Option BudgetWindow := none
  requestsPerMinute : Option Nat := none
  tokensPerMinute : Option Nat := none
  modelAccess : Option (List String) := none
  expiresIn : Option ExpiresIn := none
  loopDetection : Option L := none

structure UpdateKeyParams (L : Type) where
  name : Option (Option String) := none
  budgetLimitUsd : Option (Option ℚ) := none
  tokenBudget : Option (Option Nat) := none
  budgetWindow : Option (Option BudgetWindow) := none
  requestsPerMinute : Option (Option Nat) := none
  tokensPerMinute : Option (Option Nat) := none
  modelAccess : Option (Option (List String)) := none
  expiresIn : Option ExpiresIn := none
  loopDetection : Option (Option L) := none

def fieldError {α : Type} (value : Option α) (valid : α → Bool) (field message : String) :
    List FieldError :=
  match value with
  | some v => if valid v then [] else [⟨field, message⟩]
  | none => []

/-- Both validations of the source: they differ in the ceiling of `tokens_per_minute`. -/
def constraintErrors (D : Deps L) (tpmMax : Nat) (tpmMessage : String) (name : Option String)
    (budgetLimitUsd : Option ℚ) (tokenBudget requestsPerMinute tokensPerMinute : Option Nat)
    (modelAccess : Option (List String)) (loopDetection : Option L) : List FieldError :=
  fieldError name (fun n => 1 ≤ n.length && n.length ≤ 128)
      "name" "name must be between 1 and 128 characters" ++
  fieldError budgetLimitUsd (fun b => 1 / 100 ≤ b && b ≤ 99999999999 / 100)
      "budget_limit_usd" "budget must be between 0.01 and 999999999.99" ++
  fieldError tokenBudget (fun b => 1 ≤ b && b ≤ 999999999)
      "token_budget" "token_budget must be between 1 and 999999999" ++
  fieldError requestsPerMinute (fun n => 1 ≤ n && n ≤ 100000)
      "requests_per_minute" "requests_per_minute must be between 1 and 100000" ++
  fieldError tokensPerMinute (fun n => 1 ≤ n && n ≤ tpmMax) "tokens_per_minute" tpmMessage ++
  fieldError modelAccess (fun l => !l.isEmpty)
      "model_access" "model_access must be a non-empty list" ++
  (loopDetection.elim [] D.loopErrors).map fun text => ⟨"loop_detection", text⟩

def validateCreateParams (D : Deps L) (p : CreateKeyParams L) : List FieldError :=
  constraintErrors D 10000000 "tokens_per_minute must be between 1 and 10000000" p.name
    p.budgetLimitUsd p.tokenBudget p.requestsPerMinute p.tokensPerMinute p.modelAccess
    p.loopDetection

/-- Only `Some(Some(v))` is checked. -/
def validateUpdateParams (D : Deps L) (p : UpdateKeyParams L) : List FieldError :=
  constraintErrors D 100000000 "tokens_per_minute must be between 1 and 100000000" p.name.join
    p.budgetLimitUsd.join p.tokenBudget.join p.requestsPerMinute.join p.tokensPerMinute.join
    p.modelAccess.join p.loopDetection.join

def storedToAuthenticated (k : StoredVirtualKey L) : AuthenticatedKey L where
  id := k.id
  name := k.name
  status := k.status
  budgetLimitUsd := k.budgetLimitUsd
  tokenBudget := k.tokenBudget
  budgetWindow := k.budgetWindow
  currentSpendUsd := k.currentSpendUsd
  currentTokensUsed := k.currentTokensUsed
  windowStart := k.windowStart
  requestsPerMinute := k.requestsPerMinute
  tokensPerMinute := k.tokensPerMinute
  modelAccess := k.modelAccessList
  expiresAt := k.expiresAt
  loopDetection := k.loopDetection

/-- The masked view: everything of the stored key but its hash, its encrypted value and the window
start. -/
structure VirtualKeyInfo (L : Type) where
  id : String
  keyPrefix : String
  name : Option String
  status : KeyStatus
  budgetLimitUsd : Option ℚ
  tokenBudget : Option Nat
  budgetWindow : Option BudgetWindow
  currentSpendUsd : ℚ
  currentTokensUsed : Nat
  requestsPerMinute : Option Nat
  tokensPerMinute : Option Nat
  modelAccess : Option (List String)
  loopDetection : Option L
  requestCount : Nat
  createdAt : Int
  expiresAt : Option Int
  lastUsedAt : Option Int

def storedToInfo (k : StoredVirtualKey L) : VirtualKeyInfo L where
  id := k.id
  keyPrefix := k.keyPrefix
  name := k.name
  status := k.status
  budgetLimitUsd := k.budgetLimitUsd
  tokenBudget := k.tokenBudget
  budgetWindow := k.budgetWindow
  currentSpendUsd := k.currentSpendUsd
  currentTokensUsed := k.currentTokensUsed
  requestsPerMinute := k.requestsPerMinute
  tokensPerMinute := k.tokensPerMinute
  modelAccess := k.modelAccessList
  loopDetection := k.loopDetection
  requestCount := k.requestCount
  createdAt := k.createdAt
  expiresAt := k.expiresAt
  lastUsedAt := k.lastUsedAt

structure CreateKeyResponse where
  id : String
  key : String
  name : Option String
  status : KeyStatus
  createdAt : Int
  expiresAt : Option Int

/-! ### The operations -/

def validateStatus (key : AuthenticatedKey L) (now : Int) :
    Except AuthError (AuthenticatedKey L) :=
  if key.status = .revoked then .error .revoked
  else if key.status = .expired then .error .expired
  else
    match key.expiresAt with
    | some expiresAt => if expiresAt ≤ now then .error .expired else .ok key
    | none => .ok key

/-- Steps 3 and 4 of `check_budget_at`: the limits against effective counters. -/
def evaluateLimits (key : AuthenticatedKey L) (effectiveSpend : ℚ) (effectiveTokens : Nat) :
    Except BudgetError Unit :=
  if key.budgetLimitUsd.any (· ≤ effectiveSpend) then .error .budgetExhausted
  else if key.tokenBudget.any (· ≤ effectiveTokens) then .error .tokenBudgetExhausted
  else .ok ()

/-- Whether the key's own window has run out at `now`; a key without a window start never resets. -/
def needsReset (key : AuthenticatedKey L) (now : Int) : Bool :=
  match key.budgetWindow, key.windowStart with
  | some window, some windowStart => windowExpired window windowStart now
  | _, _ => false

/-- `input_tokens.saturating_add(output_tokens) as i64` -/
def tokensDelta (record : UsageRecord) : Int :=
  asI64 (min (record.inputTokens.toNat + record.outputTokens.toNat) (2 ^ 64 - 1))

/-- The key that `create_key` inserts, from its random draws. -/
def newKey (D : Deps L) (env : Env) (fullKey uuid encryptedKey : String) (p : CreateKeyParams L) :
    StoredVirtualKey L where
  id := uuid
  keyHash := D.sha256Hex fullKey
  keyPrefix := String.ofList (fullKey.toList.take 8)
  encryptedKey := encryptedKey
  name := p.name
  status := .active
  budgetLimitUsd := p.budgetLimitUsd
  tokenBudget := p.tokenBudget
  budgetWindow := p.budgetWindow
  currentSpendUsd := 0
  currentTokensUsed := 0
  windowStart := p.budgetWindow.map fun _ => env.now
  requestsPerMinute := p.requestsPerMinute
  tokensPerMinute := p.tokensPerMinute
  modelAccessList := p.modelAccess
  loopDetection := p.loopDetection
  expiresAt := (p.expiresIn.bind ExpiresIn.toDuration).map (env.now + ·)
  createdAt := env.now
  lastUsedAt := none
  requestCount := 0

/-- Step 4 of `update_key`: the store-level update. -/
def keyUpdates (env : Env) (p : UpdateKeyParams L) : KeyUpdates L where
  name := p.name
  budgetLimitUsd := p.budgetLimitUsd
  tokenBudget := p.tokenBudget
  budgetWindow := p.budgetWindow
  requestsPerMinute := p.requestsPerMinute
  tokensPerMinute := p.tokensPerMinute
  modelAccessList := p.modelAccess
  loopDetection := p.loopDetection
  expiresAt := p.expiresIn.map fun e => e.toDuration.map (env.now + ·)

namespace Manager

/-- `VirtualKeyManager::new` on an existing database: the cache starts empty. -/
def new (db : KeyDb L) : Manager L := ⟨db, fun _ => none⟩

def invalidateCache (m : Manager L) (keyHash : String) : Manager L :=
  { m with cache := Function.update m.cache keyHash none }

@[simp] theorem invalidateCache_store (m : Manager L) (keyHash : String) :
    (m.invalidateCache keyHash).store = m.store := rfl

def createKey (D : Deps L) (env : Env) (m : Manager L) (fullKey uuid : String)
    (p : CreateKeyParams L) : Except KeyError CreateKeyResponse × Manager L :=
  match validateCreateParams D p with
  | e :: es => (.error (.validation (e :: es)), m)
  | [] =>
    match D.encryptProviderSecret fullKey with
    | .error message => (.error (.encryption message), m)
    | .ok encryptedKey =>
      let stored := newKey D env fullKey uuid encryptedKey p
      match m.store.createKey (env.io 0) stored with
      | .error e => (.error (.store e), m)
      | .ok db =>
        (.ok ⟨stored.id, fullKey, stored.name, .active, env.now, stored.expiresAt⟩,
          { m with store := db })

def authenticate (D : Deps L) (env : Env) (m : Manager L) (rawKey : String) :
    Except AuthError (AuthenticatedKey L) × Manager L :=
  let keyHash := D.sha256Hex rawKey
  match m.cache keyHash with
  | some cached => (validateStatus cached env.now, m)
  | none =>
    match m.store.getKeyByHash (env.io 0) keyHash with
    | .ok (some stored) =>
      let authenticated := storedToAuthenticated stored
      (validateStatus authenticated env.now,
        { m with cache := Function.update m.cache keyHash (some authenticated) })
    | .ok none => (.error .invalidKey, m)
    | .error _ => (.error .invalidKey, m)

def checkBudgetAt (env : Env) (m : Manager L) (key : AuthenticatedKey L) (now : Int) :
    Except BudgetError Unit × Manager L :=
  if needsReset key now then
    -- a failed reset is ignored: the decision is made on zero counters all the same
    (evaluateLimits key 0 0,
      match m.store.resetWindowCounters (env.io 0) env.now key.id with
      | .ok db => { m with store := db }
      | .error _ => m)
  else (evaluateLimits key key.currentSpendUsd key.currentTokensUsed, m)

/-- `UsageTracker::record` -/
def record (env : Env) (m : Manager L) (record : UsageRecord) :
    Except KeyStoreError Unit × Manager L :=
  match m.store.insertUsageRecord (env.io 0) record with
  | .error e => (.error e, m)
  | .ok db =>
    match db.updateUsageCounters (env.io 1) env.now record.keyId record.costUsd
        (tokensDelta record) with
    | .error e => (.error e, { m with store := db })
    | .ok db => (.ok (), { m with store := db })

/-- The final reload of `update_key` and `revoke_key`. -/
def reload (m : Manager L) (ok : Bool) (id : String) : Except KeyError (VirtualKeyInfo L) :=
  match m.store.getKeyById ok id with
  | .error e => .error (.store e)
  | .ok none => .error (.notFound id)
  | .ok (some updated) => .ok (storedToInfo updated)

def updateKey (D : Deps L) (env : Env) (m : Manager L) (id : String) (p : UpdateKeyParams L) :
    Except KeyError (VirtualKeyInfo L) × Manager L :=
  match m.store.getKeyById (env.io 0) id with
  | .error e => (.error (.store e), m)
  | .ok none => (.error (.notFound id), m)
  | .ok (some stored) =>
    if stored.status = .revoked then (.error .keyRevoked, m)
    else
      match validateUpdateParams D p with
      | e :: es => (.error (.validation (e :: es)), m)
      | [] =>
        match m.store.updateKey (env.io 1) id (keyUpdates env p) with
        | .error e => (.error (.store e), m)
        | .ok db =>
          let m := { m with store := db }.invalidateCache stored.keyHash
          (m.reload (env.io 2) id, m)

def revokeKey (env : Env) (m : Manager L) (id : String) :
    Except KeyError (VirtualKeyInfo L) × Manager L :=
  match m.store.getKeyById (env.io 0) id with
  | .error e => (.error (.store e), m)
  | .ok none => (.error (.notFound id), m)
  | .ok (some stored) =>
    if stored.status = .revoked ∨ stored.status = .expired then (.ok (storedToInfo stored), m)
    else
      match m.store.updateKey (env.io 1) id { status := some .revoked } with
      | .error e => (.error (.store e), m)
      | .ok db =>
        let m := { m with store := db }.invalidateCache stored.keyHash
        (m.reload (env.io 2) id, m)

def deleteKey (env : Env) (m : Manager L) (id : String) : Except KeyError Unit × Manager L :=
  match m.store.getKeyById (env.io 0) id with
  | .error e => (.error (.store e), m)
  | .ok none => (.error (.notFound id), m)
  | .ok (some stored) =>
    match m.store.deleteKey (env.io 1) id with
    | .error e => (.error (.store e), m)
    | .ok db => (.ok (), { m with store := db }.invalidateCache stored.keyHash)

/-- The admin endpoint `POST /{id}/reset`, with the previous counters it reports. -/
def resetKeyWindow (env : Env) (m : Manager L) (id : String) :
    Except KeyError (ℚ × Nat) × Manager L :=
  match m.store.getKeyById (env.io 0) id with
  | .error e => (.error (.store e), m)
  | .ok none => (.error (.notFound id), m)
  | .ok (some stored) =>
    match m.store.resetWindowCountersWithPrevious (env.io 1) env.now id with
    | .error e => (.error (.store e), m)
    | .ok (previous, db) => (.ok previous, { m with store := db }.invalidateCache stored.keyHash)

end Manager

end ObeyGateway.VirtualKeys
