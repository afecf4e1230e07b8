import Mathlib.Data.List.Dedup
import Mathlib.Data.List.Sort

/-!
# The delivery ledger

`webhooks/ledger.rs`: the tables `alert_events` and `deliveries`, rows in the order of their `rowid`. `insert_event`
keeps the newest events, and those that have an attempt on the wire.
-/

namespace ObeyGateway.Webhooks

def eventRetentionLimit : Nat := 500

inductive Outcome
  | inflight | success | failed | parked | skippedNoEndpoints
deriving DecidableEq

structure AlertEventRow where
  id : String
  eventType : String
  scope : String
  scopeLabel : String
  payloadJson : String
  createdAt : Int
deriving DecidableEq

structure DeliveryRow where
  eventId : String
  endpointUrl : String
  attempt : Int
  outcome : Outcome
  statusCode : Option Int := none
  error : Option String := none
  attemptedAt : Int
deriving DecidableEq

abbrev ChainKey := String × String

def DeliveryRow.key (row : DeliveryRow) : ChainKey := (row.eventId, row.endpointUrl)

structure Ledger where
  events : List AlertEventRow := []
  deliveries : List DeliveryRow := []

inductive LedgerError
  | primaryKey | foreignKey
deriving DecidableEq

/-- The last attempt of a group, when it is on the wire: `MAX(attempt)`, with the `HAVING` of the query. -/
def unfinishedAttempt (rows : List DeliveryRow) : Option Int :=
  let maxAttempt := (rows.map (·.attempt)).max?
  if maxAttempt = (rows.map fun r => if r.outcome = .inflight then r.attempt else -1).max? then maxAttempt else none

namespace Ledger
variable (ledger : Ledger)

def eventIds : List String := ledger.events.map (·.id)

def rowsOf (key : ChainKey) : List DeliveryRow := ledger.deliveries.filter fun row => row.key = key

def recordAttempt (row : DeliveryRow) : Except LedgerError Ledger :=
  if row.eventId ∈ ledger.eventIds then .ok { ledger with deliveries := ledger.deliveries ++ [row] }
  else .error .foreignKey

def recordInflightAttempt (key : ChainKey) (attempt attemptedAt : Int) : Except LedgerError Ledger :=
  ledger.recordAttempt { eventId := key.1, endpointUrl := key.2, attempt, outcome := .inflight, attemptedAt }

/-- The row that `finish_inflight_attempt` overwrites. -/
def isMarker (key : ChainKey) (attempt : Int) (row : DeliveryRow) : Bool :=
  row.key = key && row.attempt = attempt && row.outcome = .inflight

def finishInflightAttempt (key : ChainKey) (attempt : Int) (outcome : Outcome) (statusCode : Option Int)
    (error : Option String) (attemptedAt : Int) : Ledger :=
  { ledger with
    deliveries := ledger.deliveries.map fun row =>
      if isMarker key attempt row then { row with outcome, statusCode, error, attemptedAt } else row }

/-- `record_undelivered` -/
def recordUndelivered (eventId : String) (attemptedAt : Int) : Except LedgerError Ledger :=
  ledger.recordAttempt { eventId, endpointUrl := "", attempt := 1, outcome := .skippedNoEndpoints, attemptedAt }

/-- The events, newest first: `ORDER BY created_at DESC, rowid DESC` -/
def newestFirst : List AlertEventRow :=
  ledger.events.reverse.insertionSort fun e e' => e'.createdAt ≤ e.createdAt

def hasInflight (eventId : String) : Bool :=
  ledger.deliveries.any fun row => row.eventId = eventId && row.outcome = .inflight

def prunedIds : List String :=
  ((ledger.newestFirst.drop eventRetentionLimit).filter fun e => !ledger.hasInflight e.id).map (·.id)

def deleteDeliveries (eventIds : List String) : Ledger :=
  { ledger with deliveries := ledger.deliveries.filter fun row => row.eventId ∉ eventIds }

def deleteEvents (eventIds : List String) : Except LedgerError Ledger :=
  if ledger.deliveries.any fun row => row.eventId ∈ eventIds then .error .foreignKey
  else .ok { ledger with events := ledger.events.filter fun e => e.id ∉ eventIds }

def inserted (event : AlertEventRow) : Ledger := { ledger with events := ledger.events ++ [event] }

/-- `insert_event_with_retention`, one transaction -/
def insertEvent (event : AlertEventRow) : Except LedgerError Ledger :=
  if event.id ∈ ledger.eventIds then .error .primaryKey
  else
    let inserted := ledger.inserted event
    let cleared := inserted.deleteDeliveries inserted.prunedIds
    cleared.deleteEvents cleared.prunedIds

def unfinishedChains : List (ChainKey × Int) :=
  (ledger.deliveries.map (·.key)).dedup.filterMap fun key =>
    (unfinishedAttempt (ledger.rowsOf key)).map fun attempt => (key, attempt)

def parkedRow (now : Int) (chain : ChainKey × Int) : DeliveryRow where
  eventId := chain.1.1
  endpointUrl := chain.1.2
  attempt := min (chain.2 + 1) 4
  outcome := .parked
  attemptedAt := now

def parkUnfinishedChains (now : Int) : Ledger :=
  { ledger with deliveries := ledger.deliveries ++ ledger.unfinishedChains.map (parkedRow now) }

structure WF : Prop where
  ids : ledger.eventIds.Nodup
  foreign : ∀ row ∈ ledger.deliveries, row.eventId ∈ ledger.eventIds

variable {ledger : Ledger} {key key' : ChainKey}

theorem key_of_mem_rowsOf {row : DeliveryRow} (h : row ∈ ledger.rowsOf key) : row.key = key := by
  simpa using (List.mem_filter.1 h).2

theorem recordAttempt_ok (row : DeliveryRow) (h : row.eventId ∈ ledger.eventIds) :
    ledger.recordAttempt row = .ok { ledger with deliveries := ledger.deliveries ++ [row] } := if_pos h

theorem rowsOf_append (rows : List DeliveryRow) : rowsOf { ledger with deliveries := ledger.deliveries ++ rows } key =
      ledger.rowsOf key ++ rows.filter fun row => row.key = key := List.filter_append _ _

theorem rowsOf_map {f : DeliveryRow → DeliveryRow} (hf : ∀ row, (f row).key = row.key) :
    rowsOf { ledger with deliveries := ledger.deliveries.map f } key = (ledger.rowsOf key).map f := by
  unfold rowsOf
  rw [List.filter_map]
  congr 1
  refine List.filter_congr fun row _ => ?_
  simp [hf]

theorem rowsOf_finish_of_ne {attempt : Int} {outcome : Outcome} {statusCode : Option Int} {error : Option String}
    {attemptedAt : Int} (h : key' ≠ key) :
    (ledger.finishInflightAttempt key attempt outcome statusCode error attemptedAt).rowsOf key' = ledger.rowsOf key' := by
  refine (rowsOf_map fun row => by split <;> rfl).trans (Eq.trans (List.map_congr_left fun row hrow => ?_) (List.map_id _))
  have hkey := key_of_mem_rowsOf hrow
  rw [if_neg]
  · rfl
  · simp [isMarker, hkey, h]

theorem rowsOf_finish {attempt : Int} {outcome : Outcome} {statusCode : Option Int} {error : Option String}
    {attemptedAt : Int} {before : List DeliveryRow} {row : DeliveryRow} (hrows : ledger.rowsOf key = before ++ [row])
    (hbefore : ∀ r ∈ before, r.attempt ≠ attempt) (hattempt : row.attempt = attempt) (hrow : row.outcome = .inflight) :
    (ledger.finishInflightAttempt key attempt outcome statusCode error attemptedAt).rowsOf key =
      before ++ [{ row with outcome, statusCode, error, attemptedAt }] := by
  have hmem : row ∈ ledger.rowsOf key := by simp [hrows]
  have hkey : row.key = key := key_of_mem_rowsOf hmem
  refine (rowsOf_map fun row => by split <;> rfl).trans ?_
  rw [hrows, List.map_append, List.map_singleton, if_pos (by simp [isMarker, hkey, hattempt, hrow])]
  congr 1
  refine Eq.trans (List.map_congr_left fun r hr => ?_) (List.map_id _)
  rw [if_neg]
  · rfl
  · simp [isMarker, hbefore r hr]

theorem unfinishedAttempt_eq_some_iff {rows : List DeliveryRow} {m : Int} (h : ∀ r ∈ rows, 0 ≤ r.attempt) :
    unfinishedAttempt rows = some m ↔
      (∃ r ∈ rows, r.outcome = .inflight ∧ r.attempt = m) ∧ ∀ r ∈ rows, r.attempt ≤ m := by
  have hmax : ∀ {f : DeliveryRow → Int} {n : Int},
      (rows.map f).max? = some n ↔ (∃ r ∈ rows, f r = n) ∧ ∀ r ∈ rows, f r ≤ n := by
    intro f n
    rw [List.max?_eq_some_iff]
    simp
  unfold unfinishedAttempt
  dsimp only
  constructor
  · intro hsome
    split at hsome
    · rename_i hlast
      have hle := (hmax.1 hsome).2
      obtain ⟨⟨r, hr, heq⟩, -⟩ := hmax.1 (hlast.symm.trans hsome)
      refine ⟨⟨r, hr, ?_⟩, hle⟩
      split at heq
      · rename_i hinflight
        exact ⟨hinflight, heq⟩
      · have hneg := hle r hr
        have hpos := h r hr
        omega
    · cases hsome
  · rintro ⟨⟨r, hr, hinflight, heq⟩, hle⟩
    have hlast : (rows.map (·.attempt)).max? = some m := hmax.2 ⟨⟨r, hr, heq⟩, hle⟩
    have hwire : (rows.map fun r => if r.outcome = .inflight then r.attempt else -1).max? = some m := by
      refine hmax.2 ⟨⟨r, hr, by rw [if_pos hinflight, heq]⟩, fun r' hr' => ?_⟩
      have hle' := hle r' hr'
      have hpos := h r' hr'
      split <;> omega
    rw [hlast, hwire, if_pos rfl]

theorem unfinishedAttempt_nil : unfinishedAttempt [] = none := rfl

theorem filter_filterMap_key {keys : List ChainKey} (hnodup : keys.Nodup) (f : ChainKey → Option Int) (now : Int) :
    ((keys.filterMap fun k => (f k).map fun m => (k, m)).map (parkedRow now)).filter (fun row => row.key = key) =
      if key ∈ keys then ((f key).map fun m => parkedRow now (key, m)).toList else [] := by
  induction keys with
  | nil => rfl
  | cons k keys ih =>
    obtain ⟨hnot, hnodup⟩ := List.nodup_cons.1 hnodup
    have hkey : ∀ m, (parkedRow now (k, m)).key = k := fun _ => rfl
    by_cases hk : k = key
    · subst hk
      rw [if_neg hnot] at ih
      cases hf : f k with
      | none => simp [hf, ih hnodup]
      | some m => simp [hf, ih hnodup, hkey]
    · cases hf : f k with
      | none => simp [hf, ih hnodup, Ne.symm hk]
      | some m => simp [hf, ih hnodup, hkey, hk, Ne.symm hk]

theorem rowsOf_park (ledger : Ledger) (key : ChainKey) (now : Int) : (ledger.parkUnfinishedChains now).rowsOf key = ledger.rowsOf key ++
    ((unfinishedAttempt (ledger.rowsOf key)).map fun m => parkedRow now (key, m)).toList := by
  refine (rowsOf_append _).trans ?_
  rw [unfinishedChains, filter_filterMap_key (List.nodup_dedup _)]
  split
  · rfl
  · rename_i hnone
    have hempty : ledger.rowsOf key = [] := List.filter_eq_nil_iff.2 fun row hrow hkey =>
      hnone (List.mem_dedup.2 (List.mem_map.2 ⟨row, hrow, by simpa using hkey⟩))
    simp [hempty, unfinishedAttempt_nil]

def Quiet (ledger : Ledger) : Prop := ∀ key, unfinishedAttempt (ledger.rowsOf key) = none

theorem park_eq_self_iff (now : Int) : ledger.parkUnfinishedChains now = ledger ↔ ledger.Quiet := by
  constructor
  · intro h key
    have hrows := rowsOf_park ledger key now
    rw [h] at hrows
    simpa using List.self_eq_append_right.1 hrows
  · intro h
    have hnone : ledger.unfinishedChains = [] := by
      unfold unfinishedChains
      simp [h _]
    simp [parkUnfinishedChains, hnone]

end Ledger

end ObeyGateway.Webhooks
