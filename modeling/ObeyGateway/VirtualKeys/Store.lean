import Mathlib.Algebra.Group.Nat.Defs
import Mathlib.Algebra.Order.Ring.Unbundled.Rat
import Mathlib.Data.List.Nodup

/-!
# The key store (`virtual_keys/models.rs`, `virtual_keys/store.rs`)

The two tables of `keys.db` with the statements `KeyStore` runs on them; `KeyDb` carries what the schema enforces. A
`DateTime<Utc>` is a count of nanoseconds, a column holds whole seconds, money is rational in place of `f64`. Every
statement is given whether SQLite carries it out; one that fails leaves the tables as they are.
-/

namespace ObeyGateway.VirtualKeys

inductive BudgetWindow
  | daily
  | weekly
  | monthly
deriving DecidableEq, Repr

inductive KeyStatus
  | active
  | expired
  | revoked
deriving DecidableEq, Repr

/-- `timestamp()` -/
def toEpochSecs (t : Int) : Int := t / 10 ^ 9

/-- `DateTime::from_timestamp(secs, 0)` -/
def fromEpochSecs (secs : Int) : Int := secs * 10 ^ 9

/-- `v as u64` of an `i64`. -/
def asU64 (v : Int) : Nat := (v % 2 ^ 64).toNat

/-- `v as i64` of a `u64`. -/
def asI64 (v : Nat) : Int := Int.bmod v (2 ^ 64)

/-- An `INTEGER` column that left this range has become `REAL` and no longer reads as an `i64`. -/
def isI64 (v : Int) : Bool := -2 ^ 63 ≤ v ∧ v < 2 ^ 63

/-- The columns that rows and loaded keys hold alike. -/
structure KeyFields (L : Type) where
  id : String
  keyHash : String
  keyPrefix : String
  encryptedKey : String
  name : Option String
  status : KeyStatus
  budgetLimitUsd : Option ℚ
  tokenBudget : Option Nat
  budgetWindow : Option BudgetWindow
  currentSpendUsd : ℚ
  requestsPerMinute : Option Nat
  tokensPerMinute : Option Nat
  modelAccessList : Option (List String)
  loopDetection : Option L

/-- A row of `virtual_keys`. -/
structure KeyRow (L : Type) extends KeyFields L where
  currentTokensUsed : Int
  windowStartTimestamp : Option Int
  expiresAt : Option Int
  createdAt : Int
  lastUsedAt : Option Int
  requestCount : Int

structure StoredVirtualKey (L : Type) extends KeyFields L where
  currentTokensUsed : Nat
  windowStart : Option Int
  expiresAt : Option Int
  createdAt : Int
  lastUsedAt : Option Int
  requestCount : Nat

structure UsageRecord where
  keyId : String
  modelGroup : String
  model : String
  inputTokens : UInt64
  outputTokens : UInt64
  costUsd : ℚ
  timestamp : Int

/-- A row of `virtual_key_usage`. -/
structure UsageRow where
  keyId : String
  modelGroup : String
  model : String
  inputTokens : Int
  outputTokens : Int
  costUsd : ℚ
  timestamp : Int

structure KeyUpdates (L : Type) where
  name : Option (Option String) := none
  status : Option KeyStatus := none
  budgetLimitUsd : Option (Option ℚ) := none
  tokenBudget : Option (Option Nat) := none
  budgetWindow : Option (Option BudgetWindow) := none
  requestsPerMinute : Option (Option Nat) := none
  tokensPerMinute : Option (Option Nat) := none
  modelAccessList : Option (Option (List String)) := none
  loopDetection : Option (Option L) := none
  expiresAt : Option (Option Int) := none
  windowStart : Option (Option Int) := none
  currentSpendUsd : Option ℚ := none
  currentTokensUsed : Option Nat := none
  lastUsedAt : Option (Option Int) := none
  requestCount : Option Nat := none

/-- An error of `rusqlite`, a failed conversion of a column among them. -/
inductive KeyStoreError
  | database
deriving DecidableEq, Repr

variable {L : Type}

namespace KeyUpdates

def isEmpty (u : KeyUpdates L) : Bool :=
  u.name.isNone && u.status.isNone && u.budgetLimitUsd.isNone && u.tokenBudget.isNone
    && u.budgetWindow.isNone && u.requestsPerMinute.isNone && u.tokensPerMinute.isNone
    && u.modelAccessList.isNone && u.loopDetection.isNone && u.expiresAt.isNone
    && u.windowStart.isNone && u.currentSpendUsd.isNone && u.currentTokensUsed.isNone
    && u.lastUsedAt.isNone && u.requestCount.isNone

/-- The assignments of the `UPDATE` on one row. -/
def apply (u : KeyUpdates L) (r : KeyRow L) : KeyRow L where
  id := r.id
  keyHash := r.keyHash
  keyPrefix := r.keyPrefix
  encryptedKey := r.encryptedKey
  name := u.name.getD r.name
  status := u.status.getD r.status
  budgetLimitUsd := u.budgetLimitUsd.getD r.budgetLimitUsd
  tokenBudget := u.tokenBudget.getD r.tokenBudget
  budgetWindow := u.budgetWindow.getD r.budgetWindow
  currentSpendUsd := u.currentSpendUsd.getD r.currentSpendUsd
  requestsPerMinute := u.requestsPerMinute.getD r.requestsPerMinute
  tokensPerMinute := u.tokensPerMinute.getD r.tokensPerMinute
  modelAccessList := u.modelAccessList.getD r.modelAccessList
  loopDetection := u.loopDetection.getD r.loopDetection
  currentTokensUsed := (u.currentTokensUsed.map asI64).getD r.currentTokensUsed
  windowStartTimestamp := (u.windowStart.map (·.map toEpochSecs)).getD r.windowStartTimestamp
  expiresAt := (u.expiresAt.map (·.map toEpochSecs)).getD r.expiresAt
  createdAt := r.createdAt
  lastUsedAt := (u.lastUsedAt.map (·.map toEpochSecs)).getD r.lastUsedAt
  requestCount := (u.requestCount.map asI64).getD r.requestCount

end KeyUpdates

/-- `row_to_stored_key` -/
def rowToStoredKey (r : KeyRow L) : Except KeyStoreError (StoredVirtualKey L) :=
  if isI64 r.currentTokensUsed && isI64 r.requestCount then
    .ok {
      r.toKeyFields with
      currentTokensUsed := asU64 r.currentTokensUsed
      windowStart := r.windowStartTimestamp.map fromEpochSecs
      expiresAt := r.expiresAt.map fromEpochSecs
      createdAt := fromEpochSecs r.createdAt
      lastUsedAt := r.lastUsedAt.map fromEpochSecs
      requestCount := asU64 r.requestCount }
  else .error .database

/-- The values the `INSERT` binds. -/
def storedKeyToRow (k : StoredVirtualKey L) : KeyRow L :=
  { k.toKeyFields with
    currentTokensUsed := asI64 k.currentTokensUsed
    windowStartTimestamp := k.windowStart.map toEpochSecs
    expiresAt := k.expiresAt.map toEpochSecs
    createdAt := toEpochSecs k.createdAt
    lastUsedAt := k.lastUsedAt.map toEpochSecs
    requestCount := asI64 k.requestCount }

/-- The rows with `f` applied to the one with the given id. -/
def modifyRows (id : String) (f : KeyRow L → KeyRow L) (rows : List (KeyRow L)) :
    List (KeyRow L) :=
  rows.map fun r => if r.id = id then f r else r

theorem mem_modifyRows {id : String} {f : KeyRow L → KeyRow L} {rows : List (KeyRow L)} {r : KeyRow L} :
    r ∈ modifyRows id f rows ↔ ∃ r₀ ∈ rows, r = if r₀.id = id then f r₀ else r₀ := by
  simp only [modifyRows, List.mem_map, eq_comm]

theorem map_modifyRows {β : Type} (g : KeyRow L → β) {rows : List (KeyRow L)} {id : String}
    {f : KeyRow L → KeyRow L} (hg : ∀ r, g (f r) = g r) :
    (modifyRows id f rows).map g = rows.map g := by
  rw [modifyRows, List.map_map]
  refine List.map_congr_left fun r _ => ?_
  simp only [Function.comp]
  split
  · exact hg r
  · rfl

/-- The database, with the constraints of its schema. -/
structure KeyDb (L : Type) where
  rows : List (KeyRow L)
  usage : List UsageRow
  ids_nodup : (rows.map (·.id)).Nodup
  hashes_nodup : (rows.map (·.keyHash)).Nodup
  usage_keys : ∀ u ∈ usage, u.keyId ∈ rows.map (·.id)

namespace KeyDb

def empty : KeyDb L := ⟨[], [], by simp, by simp, by simp⟩

/-- `UPDATE virtual_keys SET … WHERE id = …`, with assignments that leave id and hash alone. -/
def modify (db : KeyDb L) (id : String) (f : KeyRow L → KeyRow L) (hid : ∀ r, (f r).id = r.id)
    (hhash : ∀ r, (f r).keyHash = r.keyHash) : KeyDb L where
  rows := modifyRows id f db.rows
  usage := db.usage
  ids_nodup := by rw [map_modifyRows (·.id) hid]; exact db.ids_nodup
  hashes_nodup := by rw [map_modifyRows (·.keyHash) hhash]; exact db.hashes_nodup
  usage_keys := by rw [map_modifyRows (·.id) hid]; exact db.usage_keys

def createKey (db : KeyDb L) (ok : Bool) (key : StoredVirtualKey L) :
    Except KeyStoreError (KeyDb L) :=
  if h : ok = true ∧ key.id ∉ db.rows.map (·.id) ∧ key.keyHash ∉ db.rows.map (·.keyHash) then
    .ok {
      rows := db.rows ++ [storedKeyToRow key]
      usage := db.usage
      ids_nodup := by
        rw [List.map_append]
        exact List.Nodup.append db.ids_nodup (by simp) (by simpa [storedKeyToRow] using h.2.1)
      hashes_nodup := by
        rw [List.map_append]
        exact List.Nodup.append db.hashes_nodup (by simp) (by simpa [storedKeyToRow] using h.2.2)
      usage_keys := fun u hu => by
        rw [List.map_append]
        exact List.mem_append_left _ (db.usage_keys u hu) }
  else .error .database

/-- `SELECT … FROM virtual_keys WHERE …`, the condition naming at most one row. -/
def getKey (db : KeyDb L) (ok : Bool) (p : KeyRow L → Bool) :
    Except KeyStoreError (Option (StoredVirtualKey L)) :=
  if ok then
    match db.rows.find? p with
    | some row => (rowToStoredKey row).map some
    | none => .ok none
  else .error .database

def getKeyByHash (db : KeyDb L) (ok : Bool) (keyHash : String) :
    Except KeyStoreError (Option (StoredVirtualKey L)) :=
  db.getKey ok (·.keyHash == keyHash)

def getKeyById (db : KeyDb L) (ok : Bool) (id : String) :
    Except KeyStoreError (Option (StoredVirtualKey L)) :=
  db.getKey ok (·.id == id)

def updateKey (db : KeyDb L) (ok : Bool) (id : String) (updates : KeyUpdates L) :
    Except KeyStoreError (KeyDb L) :=
  if updates.isEmpty then .ok db
  else if ok then .ok (db.modify id updates.apply (fun _ => rfl) (fun _ => rfl))
  else .error .database

def deleteKey (db : KeyDb L) (ok : Bool) (id : String) : Except KeyStoreError (KeyDb L) :=
  if ok then
    .ok {
      rows := db.rows.filter (·.id ≠ id)
      usage := db.usage.filter (·.keyId ≠ id)
      ids_nodup := db.ids_nodup.sublist (List.filter_sublist.map _)
      hashes_nodup := db.hashes_nodup.sublist (List.filter_sublist.map _)
      usage_keys := fun u hu => by
        obtain ⟨hu, hne⟩ := List.mem_filter.1 hu
        obtain ⟨r, hr, he⟩ := List.mem_map.1 (db.usage_keys u hu)
        exact List.mem_map.2 ⟨r, List.mem_filter.2 ⟨hr, by simpa [he] using hne⟩, he⟩ }
  else .error .database

/-- The assignments of `update_usage_counters` at the wall-clock time `now`. -/
def addUsage (spendDelta : ℚ) (tokensDelta : Int) (now : Int) (r : KeyRow L) : KeyRow L :=
  { r with
    currentSpendUsd := r.currentSpendUsd + spendDelta
    currentTokensUsed := r.currentTokensUsed + tokensDelta
    requestCount := r.requestCount + 1
    lastUsedAt := some (toEpochSecs now) }

def updateUsageCounters (db : KeyDb L) (ok : Bool) (now : Int) (id : String) (spendDelta : ℚ)
    (tokensDelta : Int) : Except KeyStoreError (KeyDb L) :=
  if ok then .ok (db.modify id (addUsage spendDelta tokensDelta now) (fun _ => rfl) (fun _ => rfl))
  else .error .database

/-- The assignments of the window reset at the wall-clock time `now`. -/
def zeroCounters (now : Int) (r : KeyRow L) : KeyRow L :=
  { r with
    currentSpendUsd := 0
    currentTokensUsed := 0
    windowStartTimestamp := some (toEpochSecs now) }

def resetWindowCountersWithPrevious (db : KeyDb L) (ok : Bool) (now : Int) (id : String) :
    Except KeyStoreError ((ℚ × Nat) × KeyDb L) :=
  let db' := db.modify id (zeroCounters now) (fun _ => rfl) (fun _ => rfl)
  if ok then
    match db.rows.find? (·.id == id) with
    | some row =>
      if isI64 row.currentTokensUsed then
        .ok ((row.currentSpendUsd, asU64 row.currentTokensUsed), db')
      else .error .database
    | none => .ok ((0, 0), db')
  else .error .database

def resetWindowCounters (db : KeyDb L) (ok : Bool) (now : Int) (id : String) :
    Except KeyStoreError (KeyDb L) :=
  (db.resetWindowCountersWithPrevious ok now id).map (·.2)

def insertUsageRecord (db : KeyDb L) (ok : Bool) (record : UsageRecord) :
    Except KeyStoreError (KeyDb L) :=
  if h : ok = true ∧ record.keyId ∈ db.rows.map (·.id) then
    .ok { db with
      usage := db.usage ++ [{
        keyId := record.keyId
        modelGroup := record.modelGroup
        model := record.model
        inputTokens := asI64 record.inputTokens.toNat
        outputTokens := asI64 record.outputTokens.toNat
        costUsd := record.costUsd
        timestamp := toEpochSecs record.timestamp }]
      usage_keys := fun u hu => by
        rcases List.mem_append.1 hu with hu | hu
        · exact db.usage_keys u hu
        · rw [List.mem_singleton.1 hu]; exact h.2 }
  else .error .database

theorem eq_of_id_eq (db : KeyDb L) {r r' : KeyRow L} (hr : r ∈ db.rows) (hr' : r' ∈ db.rows) (h : r.id = r'.id) : r = r' :=
  List.inj_on_of_nodup_map db.ids_nodup hr hr' h

theorem eq_of_hash_eq (db : KeyDb L) {r r' : KeyRow L} (hr : r ∈ db.rows) (hr' : r' ∈ db.rows)
    (h : r.keyHash = r'.keyHash) : r = r' :=
  List.inj_on_of_nodup_map db.hashes_nodup hr hr' h

theorem find_hash (db : KeyDb L) {r : KeyRow L} (hr : r ∈ db.rows) : db.rows.find? (·.keyHash == r.keyHash) = some r := by
  cases hf : db.rows.find? (·.keyHash == r.keyHash) with
  | none => simpa using List.find?_eq_none.1 hf r hr
  | some r' =>
    rw [db.eq_of_hash_eq (List.mem_of_find?_eq_some hf) hr (by simpa using List.find?_some hf)]

theorem find_id (db : KeyDb L) {r : KeyRow L} (hr : r ∈ db.rows) : db.rows.find? (·.id == r.id) = some r := by
  cases hf : db.rows.find? (·.id == r.id) with
  | none => simpa using List.find?_eq_none.1 hf r hr
  | some r' =>
    rw [db.eq_of_id_eq (List.mem_of_find?_eq_some hf) hr (by simpa using List.find?_some hf)]

theorem getKey_some {db : KeyDb L} {ok : Bool} {p : KeyRow L → Bool} {k : StoredVirtualKey L}
    (h : db.getKey ok p = .ok (some k)) :
    ∃ r ∈ db.rows, p r = true ∧ rowToStoredKey r = .ok k := by
  unfold getKey at h
  split at h
  · split at h
    · rename_i r hf
      refine ⟨r, List.mem_of_find?_eq_some hf, List.find?_some hf, ?_⟩
      cases hk : rowToStoredKey r with
      | error e => rw [hk] at h; simp [Except.map] at h
      | ok k' => rw [hk] at h; simpa [Except.map] using h
    · simp at h
  · simp at h

end KeyDb

theorem rowToStoredKey_fields {r : KeyRow L} {k : StoredVirtualKey L} (h : rowToStoredKey r = .ok k) :
    k.toKeyFields = r.toKeyFields ∧ k.currentTokensUsed = asU64 r.currentTokensUsed ∧
      k.windowStart = r.windowStartTimestamp.map fromEpochSecs ∧
      k.expiresAt = r.expiresAt.map fromEpochSecs := by
  unfold rowToStoredKey at h
  split at h
  · cases h
    exact ⟨rfl, rfl, rfl, rfl⟩
  · cases h

end ObeyGateway.VirtualKeys
