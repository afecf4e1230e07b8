import ObeyGateway.Webhooks.Ledger

/-!
# Delivery chains

`deliver_with_retries` of `webhooks/delivery.rs`: at most four attempts for an event at an endpoint, with waits between
them. An attempt that reaches the network writes its row before and overwrites it after. The stage of a chain is what
is left of it between two writes, and it says what rows the chain has (`ChainStage.Rows`).
-/

namespace ObeyGateway.Webhooks

def maxAttempts : Nat := 4

/-- Before an attempt, whether the chain sleeps or not; with the attempt on the wire; returned. -/
inductive ChainStage
  | waiting (attempt : Nat)
  | flying (attempt : Nat)
  | ended
deriving DecidableEq

structure Chain where
  key : ChainKey
  stage : ChainStage := .waiting 1
deriving DecidableEq

inductive Preflight
  | invalidUrl
  | disabled
  /-- The guard against requests to private hosts. -/
  | blocked (reason : String)
  | send

inductive Reply
  | success (statusCode : Int)
  | status (statusCode : Int)
  | transport (errorClass : String)

/-- The writes of a chain are not checked: after an error it goes on. -/
def Ledger.write (ledger : Ledger) : Except LedgerError Ledger → Ledger
  | .ok ledger' => ledger'
  | .error _ => ledger

section
variable (ledger : Ledger) (key : ChainKey) (attempt : Nat)

def recordAttemptRow (outcome : Outcome) (error : String) (now : Int) : Except LedgerError Ledger :=
  ledger.recordAttempt
    { eventId := key.1, endpointUrl := key.2, attempt, outcome, error := some error, attemptedAt := now }

def startAttempt (now : Int) : Preflight → Except LedgerError Ledger × ChainStage
  | .invalidUrl => (recordAttemptRow ledger key attempt .failed "invalid_url" now, .ended)
  | .disabled =>
    (recordAttemptRow ledger key attempt (if attempt = maxAttempts then .parked else .failed) "delivery_disabled" now,
      .ended)
  | .blocked reason =>
    (recordAttemptRow ledger key attempt (if attempt = 1 then .failed else .parked) ("ssrf: " ++ reason) now, .ended)
  | .send => (ledger.recordInflightAttempt key attempt now, .flying attempt)

/-- An attempt that was not delivered: the last one ends the chain. -/
def finishFailed (statusCode : Option Int) (error : Option String) (now : Int) : Ledger × ChainStage :=
  if attempt = maxAttempts then
    (ledger.finishInflightAttempt key attempt .parked statusCode error now, .ended)
  else (ledger.finishInflightAttempt key attempt .failed statusCode error now, .waiting (attempt + 1))

def finishAttempt (now : Int) : Reply → Ledger × ChainStage
  | .success statusCode =>
    (ledger.finishInflightAttempt key attempt .success (some statusCode) none now, .ended)
  | .status statusCode => finishFailed ledger key attempt (some statusCode) none now
  | .transport errorClass => finishFailed ledger key attempt none (some errorClass) now

end

section
variable {chains : List Chain} {i : Nat} {key : ChainKey} {stage stage' : ChainStage}

theorem keys_set (h : chains[i]? = some ⟨key, stage⟩) : (chains.set i ⟨key, stage'⟩).map (·.key) = chains.map (·.key) := by
  obtain ⟨hi, hget⟩ := List.getElem?_eq_some_iff.1 h
  have hi' : i < (chains.map (·.key)).length := by simpa using hi
  rw [List.map_set]
  have hkey : key = (chains.map (·.key))[i] := by simp [hget]
  exact (congrArg _ hkey).trans (List.set_getElem_self _)

theorem mem_set_chain (hnodup : (chains.map (·.key)).Nodup) (h : chains[i]? = some ⟨key, stage⟩) {c : Chain}
    (hc : c ∈ chains.set i ⟨key, stage'⟩) : c = ⟨key, stage'⟩ ∨ (c ∈ chains ∧ c.key ≠ key) := by
  obtain ⟨hi, hget⟩ := List.getElem?_eq_some_iff.1 h
  obtain ⟨j, hj⟩ := List.mem_iff_getElem?.1 hc
  by_cases hij : i = j
  · subst hij
    rw [List.getElem?_set_self hi] at hj
    exact .inl (Option.some.inj hj).symm
  · rw [List.getElem?_set_ne hij] at hj
    refine .inr ⟨List.mem_of_getElem? hj, fun heq => hij ?_⟩
    obtain ⟨hj', hget'⟩ := List.getElem?_eq_some_iff.1 hj
    have hi' : i < (chains.map (·.key)).length := by simpa using hi
    have hj'' : j < (chains.map (·.key)).length := by simpa using hj'
    have hkeys : (chains.map (·.key))[i] = (chains.map (·.key))[j] := by simp [hget, hget', heq]
    exact (List.Nodup.getElem_inj_iff hnodup).1 hkeys

end

/-! ### The rows of a chain -/

/-- Attempts that failed, all before `attempt`. -/
def Failed (attempt : Nat) (rows : List DeliveryRow) : Prop :=
  ∀ r ∈ rows, r.outcome = .failed ∧ 0 ≤ r.attempt ∧ r.attempt < attempt

def ChainStage.Rows (rows : List DeliveryRow) : ChainStage → Prop
  | .waiting attempt => (1 ≤ attempt ∧ attempt ≤ maxAttempts) ∧ Failed attempt rows
  | .flying attempt => (1 ≤ attempt ∧ attempt ≤ maxAttempts) ∧ ∃ (before : List DeliveryRow) (row : DeliveryRow),
    rows = before ++ [row] ∧ Failed attempt before ∧ row.attempt = (attempt : Int) ∧ row.outcome = .inflight
  | .ended => unfinishedAttempt rows = none

section
variable {ledger : Ledger} {key key' : ChainKey} {attempt : Nat} {rows : List DeliveryRow}

theorem unfinishedAttempt_eq_none (h : ∀ r ∈ rows, r.outcome ≠ .inflight ∧ 0 ≤ r.attempt) :
    unfinishedAttempt rows = none := by
  refine Option.eq_none_iff_forall_ne_some.2 fun m hm => ?_
  obtain ⟨⟨r, hr, hinflight, -⟩, -⟩ := (Ledger.unfinishedAttempt_eq_some_iff fun r hr => (h r hr).2).1 hm
  exact (h r hr).1 hinflight

theorem Failed.mono {attempt' : Nat} (h : Failed attempt rows) (hle : attempt ≤ attempt') : Failed attempt' rows :=
  fun r hr => ⟨(h r hr).1, (h r hr).2.1, lt_of_lt_of_le (h r hr).2.2 (by exact_mod_cast hle)⟩

theorem Failed.concat {row : DeliveryRow} (h : Failed attempt rows) (hrow : row.outcome = .failed)
    (hattempt : row.attempt = attempt) : Failed (attempt + 1) (rows ++ [row]) := by
  intro r hr
  rcases List.mem_append.1 hr with hr | hr
  · exact h.mono (Nat.le_succ _) r hr
  · rw [List.mem_singleton.1 hr, hattempt]
    exact ⟨hrow, Int.natCast_nonneg _, by push_cast; omega⟩

theorem Failed.ended {row : DeliveryRow} (h : Failed attempt rows) (hrow : row.outcome ≠ .inflight)
    (hattempt : row.attempt = attempt) : ChainStage.ended.Rows (rows ++ [row]) := by
  refine unfinishedAttempt_eq_none fun r hr => ?_
  rcases List.mem_append.1 hr with hr | hr
  · rw [(h r hr).1]
    exact ⟨by decide, (h r hr).2.1⟩
  · rw [List.mem_singleton.1 hr, hattempt]
    exact ⟨hrow, Int.natCast_nonneg _⟩

/-- What a write of a chain does: it keeps the events and the rows of the other chains. -/
structure Writes (key : ChainKey) (ledger ledger' : Ledger) : Prop where
  events : ledger'.events = ledger.events
  others : ∀ key', key' ≠ key → ledger'.rowsOf key' = ledger.rowsOf key'

theorem Writes.eventIds {ledger' : Ledger} (h : Writes key ledger ledger') : ledger'.eventIds = ledger.eventIds := by
  rw [Ledger.eventIds, h.events, Ledger.eventIds]

theorem writes_recordAttempt (row : DeliveryRow) (hevent : row.eventId ∈ ledger.eventIds) (hkey : row.key = key) :
    Writes key ledger (ledger.write (ledger.recordAttempt row)) ∧
      (ledger.write (ledger.recordAttempt row)).rowsOf key = ledger.rowsOf key ++ [row] := by
  rw [Ledger.recordAttempt_ok row hevent]
  refine ⟨⟨rfl, fun key' hne => ?_⟩, ?_⟩
  · refine (Ledger.rowsOf_append [row]).trans ?_
    rw [List.filter_cons_of_neg (by simpa [hkey] using hne.symm), List.filter_nil, List.append_nil]
  · refine (Ledger.rowsOf_append [row]).trans ?_
    rw [List.filter_cons_of_pos (by simpa using hkey), List.filter_nil]

theorem writes_finish {outcome : Outcome} {statusCode : Option Int} {error : Option String} {now : Int} :
    Writes key ledger (ledger.finishInflightAttempt key attempt outcome statusCode error now) where
  events := rfl
  others _ hne := Ledger.rowsOf_finish_of_ne hne

theorem startAttempt_spec (hevent : key.1 ∈ ledger.eventIds)
    (h : (ChainStage.waiting attempt).Rows (ledger.rowsOf key)) (now : Int) (pre : Preflight) :
    Writes key ledger (ledger.write (startAttempt ledger key attempt now pre).1) ∧
      (startAttempt ledger key attempt now pre).2.Rows
        ((ledger.write (startAttempt ledger key attempt now pre).1).rowsOf key) := by
  obtain ⟨hattempt, hfailed⟩ := h
  have hrecord : ∀ {outcome : Outcome} {error : String}, outcome ≠ .inflight →
      Writes key ledger (ledger.write (recordAttemptRow ledger key attempt outcome error now)) ∧
        ChainStage.ended.Rows ((ledger.write (recordAttemptRow ledger key attempt outcome error now)).rowsOf key) := by
    intro outcome error houtcome
    obtain ⟨hwrites, hrows⟩ := writes_recordAttempt
      { eventId := key.1, endpointUrl := key.2, attempt, outcome, error := some error, attemptedAt := now } hevent (show _ = key from rfl)
    refine ⟨hwrites, ?_⟩
    rw [recordAttemptRow, hrows]
    exact hfailed.ended houtcome rfl
  cases pre with
  | invalidUrl => exact hrecord (by decide)
  | disabled | blocked => exact hrecord (by split <;> decide)
  | send =>
    obtain ⟨hwrites, hrows⟩ := writes_recordAttempt
      { eventId := key.1, endpointUrl := key.2, attempt, outcome := .inflight, attemptedAt := now } hevent (show _ = key from rfl)
    exact ⟨hwrites, hattempt, ledger.rowsOf key, _, hrows, hfailed, rfl, rfl⟩

theorem finishAttempt_spec (h : (ChainStage.flying attempt).Rows (ledger.rowsOf key)) (now : Int) (reply : Reply) :
    Writes key ledger (finishAttempt ledger key attempt now reply).1 ∧
      (finishAttempt ledger key attempt now reply).2.Rows ((finishAttempt ledger key attempt now reply).1.rowsOf key) := by
  obtain ⟨hattempt, before, row, hrows, hfailed, hnumber, hinflight⟩ := h
  have hfinish : ∀ {outcome : Outcome} {statusCode : Option Int} {error : Option String},
      (ledger.finishInflightAttempt key attempt outcome statusCode error now).rowsOf key =
        before ++ [{ row with outcome, statusCode, error, attemptedAt := now }] := by
    intro outcome statusCode error
    exact Ledger.rowsOf_finish hrows (fun r hr => ne_of_lt (hfailed r hr).2.2) hnumber hinflight
  have hnext : ∀ (statusCode : Option Int) (error : Option String),
      Writes key ledger (finishFailed ledger key attempt statusCode error now).1 ∧
        (finishFailed ledger key attempt statusCode error now).2.Rows
          ((finishFailed ledger key attempt statusCode error now).1.rowsOf key) := by
    intro statusCode error
    unfold finishFailed
    split
    · refine ⟨writes_finish, ?_⟩
      rw [hfinish]
      exact hfailed.ended (by simp) hnumber
    · rename_i hlast
      refine ⟨writes_finish, ?_⟩
      rw [hfinish]
      exact ⟨⟨by omega, by omega⟩, hfailed.concat rfl hnumber⟩
  cases reply with
  | success statusCode =>
    refine ⟨writes_finish, ?_⟩
    simp only [finishAttempt, hfinish]
    exact hfailed.ended (by simp) hnumber
  | status | transport => exact hnext _ _

end

end ObeyGateway.Webhooks
