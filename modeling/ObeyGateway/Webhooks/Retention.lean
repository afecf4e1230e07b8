import ObeyGateway.Webhooks.Parking

/-!
# Retention under running chains

`insert_event` while delivery chains run. What keeps the event of a chain from being pruned is an attempt on the wire.
Runs in which the events past the limit that have an attempt on the wire are exactly those of the running chains keep
their law (`law_of_kept`).
-/

namespace ObeyGateway.Webhooks

inductive EmitAction
  /-- `insert_event`, and a chain for each endpoint. -/
  | emit (event : AlertEventRow) (urls : { urls : List String // urls.Nodup })
  | undelivered (eventId : String) (now : Int)
  | attempt (i : Nat) (pre : Preflight) (now : Int)
  | reply (i : Nat) (reply : Reply) (now : Int)

namespace DeliveryState
variable (s : DeliveryState)

def FreshId (eventId : String) : Prop := eventId ∉ s.ledger.eventIds ∧ ∀ c ∈ s.chains, c.key.1 ≠ eventId

instance (eventId : String) : Decidable (s.FreshId eventId) := inferInstanceAs (Decidable (_ ∧ _))

def emit (event : AlertEventRow) (urls : List String) : DeliveryState where
  ledger := s.ledger.write (s.ledger.insertEvent event)
  chains := s.chains ++ urls.map fun url => { key := (event.id, url) }

def emitStep : EmitAction → DeliveryState
  | .emit event urls => if s.FreshId event.id then s.emit event urls else s
  | .undelivered eventId now => { s with ledger := s.ledger.write (s.ledger.recordUndelivered eventId now) }
  | .attempt i pre now => s.step (.attempt i pre now)
  | .reply i reply now => s.step (.reply i reply now)

def Runs (eventId : String) : Prop := ∃ c ∈ s.chains, c.key.1 = eventId ∧ c.stage ≠ .ended

instance (eventId : String) : Decidable (s.Runs eventId) :=
  inferInstanceAs (Decidable (∃ c ∈ s.chains, c.key.1 = eventId ∧ c.stage ≠ .ended))

end DeliveryState

/-- After an `insert_event` that took `s` to `s'`. -/
structure InsertLaw (s s' : DeliveryState) (event : AlertEventRow) : Prop where
  bounded : (s'.ledger.events.filter fun e => ¬ s'.Runs e.id).length ≤ eventRetentionLimit
  foreign : ∀ row ∈ s'.ledger.deliveries, row.eventId ∈ s'.ledger.eventIds
  newest : ∀ e ∈ (s.ledger.inserted event).newestFirst.take eventRetentionLimit, e ∈ s'.ledger.events

def RetentionLaw (s : DeliveryState) : EmitAction → Prop
  | .emit event urls => s.FreshId event.id → InsertLaw s (s.emit event urls) event
  | .undelivered _ _ => True
  -- the writes of a running chain find its event
  | .attempt i _ _ => ∀ key attempt, s.chains[i]? = some ⟨key, .waiting attempt⟩ → key.1 ∈ s.ledger.eventIds
  -- and the row of its attempt
  | .reply i _ _ => ∀ key attempt, s.chains[i]? = some ⟨key, .flying attempt⟩ →
    key.1 ∈ s.ledger.eventIds ∧ ∃ row ∈ s.ledger.deliveries, Ledger.isMarker key attempt row = true

/-- Past the limit, the events with an attempt on the wire are those of the running chains. -/
def Kept (s : DeliveryState) : EmitAction → Prop
  | .emit event urls => s.FreshId event.id →
    ∀ e ∈ (s.ledger.inserted event).newestFirst.drop eventRetentionLimit,
      s.ledger.hasInflight e.id = true ↔ (s.emit event urls).Runs e.id
  | _ => True

instance (s : DeliveryState) : ∀ a, Decidable (Kept s a)
  | .emit event urls => inferInstanceAs (Decidable (s.FreshId event.id →
      ∀ e ∈ (s.ledger.inserted event).newestFirst.drop eventRetentionLimit,
        s.ledger.hasInflight e.id = true ↔ (s.emit event urls).Runs e.id))
  | .undelivered _ _ | .attempt _ _ _ | .reply _ _ _ => isTrue trivial

namespace Ledger
variable {ledger : Ledger}

theorem newestFirst_perm (ledger : Ledger) : ledger.newestFirst.Perm ledger.events :=
  (List.perm_insertionSort _ _).trans (List.reverse_perm _)

theorem mem_prunedIds {eventId : String} : eventId ∈ ledger.prunedIds ↔
    ∃ e ∈ ledger.newestFirst.drop eventRetentionLimit, ledger.hasInflight e.id = false ∧ e.id = eventId := by
  simp [prunedIds, and_assoc]

theorem prunedIds_deleteDeliveries (ledger : Ledger) :
    (ledger.deleteDeliveries ledger.prunedIds).prunedIds = ledger.prunedIds := by
  unfold prunedIds
  congr 1
  refine List.filter_congr fun e he => ?_
  congr 1
  rw [Bool.eq_iff_iff]
  simp only [hasInflight, deleteDeliveries, List.any_eq_true, List.mem_filter, Bool.and_eq_true, decide_eq_true_eq]
  constructor
  · rintro ⟨row, ⟨hrow, -⟩, h⟩
    exact ⟨row, hrow, h⟩
  · rintro ⟨row, hrow, hid, hinflight⟩
    refine ⟨row, ⟨hrow, decide_eq_true fun hpruned => ?_⟩, hid, hinflight⟩
    obtain ⟨e', -, hnone, heq⟩ := mem_prunedIds.1 hpruned
    rw [hasInflight, List.any_eq_false] at hnone
    exact hnone row hrow (by simp [heq, hinflight])

theorem insertEvent_ok {event : AlertEventRow} (h : event.id ∉ ledger.eventIds) : ledger.insertEvent event = .ok
    { events := (ledger.inserted event).events.filter fun e => e.id ∉ (ledger.inserted event).prunedIds
      deliveries := ledger.deliveries.filter fun row => row.eventId ∉ (ledger.inserted event).prunedIds } := by
  unfold insertEvent
  rw [if_neg h]
  dsimp only
  rw [prunedIds_deleteDeliveries, deleteEvents, if_neg]
  · rfl
  · simp [deleteDeliveries]

theorem WF.inserted {event : AlertEventRow} (hwf : ledger.WF) (h : event.id ∉ ledger.eventIds) :
    (ledger.inserted event).WF where
  ids := by
    unfold eventIds Ledger.inserted
    rw [List.map_append, List.nodup_append]
    refine ⟨hwf.ids, List.nodup_singleton _, fun a ha b hb => ?_⟩
    rw [List.mem_singleton.1 hb]
    rintro rfl
    exact h ha
  foreign row hrow := by
    unfold eventIds Ledger.inserted
    rw [List.map_append]
    exact List.mem_append_left _ (hwf.foreign row hrow)

theorem WF.delete (hwf : ledger.WF) (eventIds : List String) :
    WF { events := ledger.events.filter fun e => e.id ∉ eventIds
         deliveries := ledger.deliveries.filter fun row => row.eventId ∉ eventIds } where
  ids := List.Nodup.sublist (List.filter_sublist.map _) hwf.ids
  foreign row hrow := by
    obtain ⟨hrow, hkept⟩ := List.mem_filter.1 hrow
    obtain ⟨e, he, heq⟩ := List.mem_map.1 (hwf.foreign row hrow)
    refine List.mem_map.2 ⟨e, List.mem_filter.2 ⟨he, ?_⟩, heq⟩
    rwa [heq]

theorem newest_not_pruned (hwf : ledger.WF) {e : AlertEventRow}
    (he : e ∈ ledger.newestFirst.take eventRetentionLimit) : e.id ∉ ledger.prunedIds := by
  intro hpruned
  obtain ⟨e', he', -, heq⟩ := mem_prunedIds.1 hpruned
  have hnodup : (ledger.newestFirst.map (·.id)).Nodup := ((newestFirst_perm ledger).map _).nodup_iff.2 hwf.ids
  rw [← List.take_append_drop eventRetentionLimit ledger.newestFirst, List.map_append] at hnodup
  exact (List.nodup_append.1 hnodup).2.2 _ (List.mem_map_of_mem he) _ (List.mem_map_of_mem he') heq.symm

end Ledger

structure RetentionInv (s : DeliveryState) : Prop where
  wf : s.ledger.WF
  keys : (s.chains.map (·.key)).Nodup
  listed : ∀ c ∈ s.chains, c.stage ≠ .ended → c.key.1 ∈ s.ledger.eventIds
  marker : ∀ c ∈ s.chains, ∀ attempt, c.stage = .flying attempt →
    ∃ row ∈ s.ledger.deliveries, Ledger.isMarker c.key attempt row = true

section
variable {s : DeliveryState}

variable {event : AlertEventRow}

theorem Kept.not_pruned {urls : { urls : List String // urls.Nodup }}
    (h : Kept s (.emit event urls)) (hfresh : s.FreshId event.id) {eventId : String}
    (hruns : (s.emit event urls).Runs eventId) : eventId ∉ (s.ledger.inserted event).prunedIds := by
  intro hpruned
  obtain ⟨e, he, hnone, rfl⟩ := Ledger.mem_prunedIds.1 hpruned
  have hinflight : s.ledger.hasInflight e.id = true := (h hfresh e he).2 hruns
  have hnone : s.ledger.hasInflight e.id = false := hnone
  rw [hinflight] at hnone
  cases hnone

theorem mem_emit {urls : List String} {c : Chain} (hc : c ∈ (s.emit event urls).chains) :
    c ∈ s.chains ∨ (c.key.1 = event.id ∧ c.stage = .waiting 1) := by
  rcases List.mem_append.1 hc with hc | hc
  · exact .inl hc
  · obtain ⟨url, -, rfl⟩ := List.mem_map.1 hc
    exact .inr ⟨rfl, rfl⟩

theorem emit_ledger (hfresh : s.FreshId event.id) (urls : List String) : (s.emit event urls).ledger =
      { events := (s.ledger.inserted event).events.filter fun e => e.id ∉ (s.ledger.inserted event).prunedIds
        deliveries := s.ledger.deliveries.filter fun row => row.eventId ∉ (s.ledger.inserted event).prunedIds } := by
  unfold DeliveryState.emit
  rw [Ledger.insertEvent_ok hfresh.1]
  rfl

theorem RetentionInv.emit (h : RetentionInv s) {urls : { urls : List String // urls.Nodup }}
    (hfresh : s.FreshId event.id) (hkept : Kept s (.emit event urls)) : RetentionInv (s.emit event urls) := by
  have hwf := h.wf.inserted hfresh.1
  have hledger := emit_ledger hfresh urls.1
  refine ⟨?_, ?_, fun c hc hrunning => ?_, fun c hc attempt hflying => ?_⟩
  · rw [hledger]
    exact hwf.delete _
  · unfold DeliveryState.emit
    rw [List.map_append, List.nodup_append]
    refine ⟨h.keys, ?_, fun k hk k' hk' => ?_⟩
    · rw [List.map_map]
      exact urls.2.map fun url url' heq => by simpa using heq
    · obtain ⟨c, hc, rfl⟩ := List.mem_map.1 hk
      obtain ⟨c', hc', rfl⟩ := List.mem_map.1 hk'
      obtain ⟨url, -, rfl⟩ := List.mem_map.1 hc'
      exact fun heq => hfresh.2 c hc (congrArg Prod.fst heq)
  · have hlisted : c.key.1 ∈ (s.ledger.inserted event).eventIds := by
      unfold Ledger.eventIds Ledger.inserted
      rw [List.map_append]
      rcases mem_emit hc with hold | ⟨hnew, -⟩
      · exact List.mem_append_left _ (h.listed c hold hrunning)
      · exact List.mem_append_right _ (by simp [hnew])
    have hpruned := hkept.not_pruned hfresh ⟨c, hc, rfl, hrunning⟩
    obtain ⟨e, he, heq⟩ := List.mem_map.1 hlisted
    rw [hledger]
    refine List.mem_map.2 ⟨e, List.mem_filter.2 ⟨he, ?_⟩, heq⟩
    simpa [heq] using hpruned
  · rcases mem_emit hc with hold | ⟨-, hnew⟩
    · obtain ⟨row, hrow, hmarker⟩ := h.marker c hold attempt hflying
      have hpruned := hkept.not_pruned hfresh ⟨c, hc, rfl, by simp [hflying]⟩
      have hid : row.eventId = c.key.1 := by
        simp only [Ledger.isMarker, Bool.and_eq_true, decide_eq_true_eq] at hmarker
        exact congrArg Prod.fst hmarker.1.1
      rw [hledger]
      refine ⟨row, List.mem_filter.2 ⟨hrow, ?_⟩, hmarker⟩
      simpa [hid] using hpruned
    · rw [hnew] at hflying
      cases hflying

theorem RetentionInv.insertLaw (h : RetentionInv s)
    {urls : { urls : List String // urls.Nodup }} (hfresh : s.FreshId event.id) (hkept : Kept s (.emit event urls)) :
    InsertLaw s (s.emit event urls) event := by
  have hwf := h.wf.inserted hfresh.1
  have hledger := emit_ledger hfresh urls.1
  have hperm := Ledger.newestFirst_perm (s.ledger.inserted event)
  refine ⟨?_, (h.emit hfresh hkept).wf.foreign, fun e he => ?_⟩
  · have hnodup : (s.emit event urls).ledger.events.Nodup := List.Nodup.of_map _ (h.emit hfresh hkept).wf.ids
    have hlength : ((s.ledger.inserted event).newestFirst.take eventRetentionLimit).length ≤ eventRetentionLimit :=
      List.length_take_le _ _
    refine le_trans (List.subperm_of_subset (hnodup.filter _) fun e he => ?_).length_le hlength
    obtain ⟨he, hidle⟩ := List.mem_filter.1 he
    rw [hledger] at he
    obtain ⟨he, hpruned⟩ := List.mem_filter.1 he
    have hmem := hperm.mem_iff.2 he
    rw [← List.take_append_drop eventRetentionLimit (s.ledger.inserted event).newestFirst] at hmem
    rcases List.mem_append.1 hmem with hnew | hold
    · exact hnew
    · -- past the limit only an attempt on the wire keeps an event
      cases hinflight : s.ledger.hasInflight e.id with
      | true => exact absurd ((hkept hfresh e hold).1 hinflight) (by simpa using hidle)
      | false => exact absurd (Ledger.mem_prunedIds.2 ⟨e, hold, hinflight, rfl⟩) (by simpa using hpruned)
  · rw [hledger]
    refine List.mem_filter.2 ⟨hperm.mem_iff.1 (List.mem_of_mem_take he), ?_⟩
    simpa using Ledger.newest_not_pruned hwf he

/-! ### The writes of a chain -/

theorem write_recordAttempt (ledger : Ledger) (row : DeliveryRow) :
    ledger.write (ledger.recordAttempt row) = ledger ∨ (row.eventId ∈ ledger.eventIds ∧
      ledger.write (ledger.recordAttempt row) = { ledger with deliveries := ledger.deliveries ++ [row] }) := by
  by_cases h : row.eventId ∈ ledger.eventIds
  · exact .inr ⟨h, by rw [Ledger.recordAttempt_ok row h]; rfl⟩
  · exact .inl (by rw [Ledger.recordAttempt, if_neg h]; rfl)

theorem Ledger.WF.append {ledger : Ledger} (hwf : ledger.WF) {row : DeliveryRow} (h : row.eventId ∈ ledger.eventIds) :
    Ledger.WF { ledger with deliveries := ledger.deliveries ++ [row] } where
  ids := hwf.ids
  foreign r hr := by
    rcases List.mem_append.1 hr with hr | hr
    · exact hwf.foreign r hr
    · rw [List.mem_singleton.1 hr]
      exact h

theorem startAttempt_record (ledger : Ledger) (key : ChainKey) (attempt : Nat) (now : Int) (pre : Preflight) :
    ∃ row : DeliveryRow, row.key = key ∧ (startAttempt ledger key attempt now pre).1 = ledger.recordAttempt row ∧
      ((startAttempt ledger key attempt now pre).2 = .ended ∨ ((startAttempt ledger key attempt now pre).2 =
        .flying attempt ∧ Ledger.isMarker key attempt row = true)) := by
  cases pre with
  | invalidUrl | disabled | blocked => exact ⟨_, rfl, rfl, .inl rfl⟩
  | send => exact ⟨_, rfl, rfl, .inr ⟨rfl, by simp [Ledger.isMarker, DeliveryRow.key]⟩⟩

theorem finishAttempt_finish (ledger : Ledger) (key : ChainKey) (attempt : Nat) (now : Int) (reply : Reply) :
    ∃ outcome statusCode error, (finishAttempt ledger key attempt now reply).1 =
      ledger.finishInflightAttempt key attempt outcome statusCode error now ∧
        ∀ attempt', (finishAttempt ledger key attempt now reply).2 ≠ .flying attempt' := by
  cases reply with
  | success statusCode => exact ⟨_, _, _, rfl, fun _ => by simp [finishAttempt]⟩
  | status | transport =>
    unfold finishAttempt finishFailed
    dsimp only
    split <;> exact ⟨_, _, _, rfl, fun _ => by simp⟩

/-- A chain that has written goes on from its new stage, and the markers of the others stay. -/
theorem RetentionInv.write (h : RetentionInv s) {i : Nat} {key : ChainKey} {stage stage' : ChainStage}
    {ledger' : Ledger} (hc : s.chains[i]? = some ⟨key, stage⟩) (hrunning : stage ≠ .ended) (hwf : ledger'.WF)
    (hevents : ledger'.events = s.ledger.events)
    (hothers : ∀ row ∈ s.ledger.deliveries, row.key ≠ key → row ∈ ledger'.deliveries)
    (hmarker : ∀ attempt, stage' = .flying attempt → ∃ row ∈ ledger'.deliveries, Ledger.isMarker key attempt row = true) :
    RetentionInv ⟨ledger', s.chains.set i ⟨key, stage'⟩⟩ := by
  have hlisted : key.1 ∈ s.ledger.eventIds := h.listed _ (List.mem_of_getElem? hc) hrunning
  have hids : ledger'.eventIds = s.ledger.eventIds := by rw [Ledger.eventIds, hevents, Ledger.eventIds]
  refine ⟨hwf, (keys_set hc).symm ▸ h.keys, fun c hmem hrun => ?_, fun c hmem attempt hflying => ?_⟩
  · rw [hids]
    rcases mem_set_chain h.keys hc hmem with rfl | ⟨hmem, -⟩
    · exact hlisted
    · exact h.listed c hmem hrun
  · rcases mem_set_chain h.keys hc hmem with rfl | ⟨hmem, hne⟩
    · exact hmarker attempt hflying
    · obtain ⟨row, hrow, hrow'⟩ := h.marker c hmem attempt hflying
      have hkey : row.key = c.key := by
        simp only [Ledger.isMarker, Bool.and_eq_true, decide_eq_true_eq] at hrow'
        exact hrow'.1.1
      exact ⟨row, hothers row hrow (hkey ▸ hne), hrow'⟩

theorem RetentionInv.attempt (h : RetentionInv s) (i : Nat) (pre : Preflight) (now : Int) :
    RetentionInv (s.step (.attempt i pre now)) := by
  unfold DeliveryState.step
  dsimp only
  split
  · rename_i key attempt hc
    obtain ⟨row, hkey, hrecord, hstage⟩ := startAttempt_record s.ledger key attempt now pre
    have hlisted : row.eventId ∈ s.ledger.eventIds := by
      have hlisted : key.1 ∈ s.ledger.eventIds := h.listed _ (List.mem_of_getElem? hc) (by simp)
      rwa [← hkey] at hlisted
    rw [hrecord, Ledger.recordAttempt_ok row hlisted]
    refine h.write hc (by simp) (h.wf.append hlisted) rfl (fun r hr _ => List.mem_append_left _ hr) fun attempt' hflying => ?_
    rcases hstage with hended | ⟨hstage, hmarker⟩
    · rw [hended] at hflying
      cases hflying
    · rw [hstage] at hflying
      cases hflying
      exact ⟨row, List.mem_append_right _ (List.mem_singleton.2 rfl), hmarker⟩
  · exact h

theorem RetentionInv.reply (h : RetentionInv s) (i : Nat) (reply : Reply) (now : Int) :
    RetentionInv (s.step (.reply i reply now)) := by
  unfold DeliveryState.step
  dsimp only
  split
  · rename_i key attempt hc
    obtain ⟨outcome, statusCode, error, hfinish, hstage⟩ := finishAttempt_finish s.ledger key attempt now reply
    rw [hfinish]
    refine h.write hc (by simp) ⟨h.wf.ids, fun r hr => ?_⟩ rfl (fun r hr hne => ?_)
      fun attempt' hflying => absurd hflying (hstage attempt')
    · obtain ⟨r', hr', rfl⟩ := List.mem_map.1 hr
      split <;> exact h.wf.foreign r' hr'
    · refine List.mem_map.2 ⟨r, hr, if_neg ?_⟩
      simp [Ledger.isMarker, hne]
  · exact h

theorem RetentionInv.step (h : RetentionInv s) (a : EmitAction) (hkept : Kept s a) : RetentionInv (s.emitStep a) := by
  cases a with
  | emit event urls =>
    unfold DeliveryState.emitStep
    dsimp only
    split
    · rename_i hfresh
      exact h.emit hfresh hkept
    · exact h
  | undelivered eventId now =>
    unfold DeliveryState.emitStep
    dsimp only
    rcases write_recordAttempt s.ledger
      { eventId, endpointUrl := "", attempt := 1, outcome := .skippedNoEndpoints, attemptedAt := now } with heq | ⟨hid, heq⟩
    · rw [Ledger.recordUndelivered, heq]
      exact h
    · rw [Ledger.recordUndelivered, heq]
      refine ⟨h.wf.append hid, h.keys, h.listed, fun c hc attempt hflying => ?_⟩
      obtain ⟨row, hrow, hmarker⟩ := h.marker c hc attempt hflying
      exact ⟨row, List.mem_append_left _ hrow, hmarker⟩
  | attempt i pre now => exact h.attempt i pre now
  | reply i reply now => exact h.reply i reply now

theorem RetentionInv.law (h : RetentionInv s) (a : EmitAction) (hkept : Kept s a) : RetentionLaw s a := by
  cases a with
  | emit event urls => exact fun hfresh => h.insertLaw hfresh hkept
  | undelivered eventId now => trivial
  | attempt i pre now => exact fun key attempt hc => h.listed _ (List.mem_of_getElem? hc) (by simp)
  | reply i reply now =>
    intro key attempt hc
    have hmem := List.mem_of_getElem? hc
    exact ⟨h.listed _ hmem (by simp), h.marker _ hmem attempt rfl⟩

end

/-- Where a run begins: any ledger that keeps its keys, and no chain. -/
structure LedgerStart where
  ledger : Ledger
  wf : ledger.WF

def LedgerStart.state (start : LedgerStart) : DeliveryState := { ledger := start.ledger }

theorem LedgerStart.inv (start : LedgerStart) : RetentionInv start.state where
  wf := start.wf
  keys := List.nodup_nil
  listed _ hc := absurd hc List.not_mem_nil
  marker _ hc := absurd hc List.not_mem_nil

/-- Retention cuts no running chain in the runs that meet `Kept`. -/
theorem law_of_kept (start : LedgerStart) (actions : List EmitAction)
    (h : Run.Along DeliveryState.emitStep Kept start.state actions) :
    Run.Along DeliveryState.emitStep RetentionLaw start.state actions :=
  h.law (I := RetentionInv) (fun _ a hs ha => hs.step a ha) (fun _ a hs ha => hs.law a ha) start.inv

def burst : LedgerStart where
  ledger :=
    { events := (List.range 499).map fun n =>
        ⟨String.singleton (Char.ofNat (n + 100)), "budget.warning", "provider", "openai", "\x7b\x7d", 10⟩ }
  wf :=
    { ids := by
        unfold Ledger.eventIds
        rw [List.map_map]
        have hchar : ∀ n ∈ List.range 499, (Char.ofNat (n + 100)).toNat = n + 100 := fun n hn => by
          have hlt := List.mem_range.1 hn
          rw [Char.ofNat, dif_pos (.inl (by omega))]
          rfl
        refine List.Nodup.map_on (fun m hm n hn heq => ?_) List.nodup_range
        have htoNat := congrArg Char.toNat (String.singleton_inj.1 heq)
        rw [hchar m hm, hchar n hn] at htoNat
        omega
      foreign := fun _ h => absurd h List.not_mem_nil }

def alertAt (id : String) (createdAt : Int) : AlertEventRow :=
  ⟨id, "budget.exhausted", "provider", "openai", "\x7b\x7d", createdAt⟩

def cutRun : List EmitAction :=
  [.emit (alertAt "evt-a" 5) ⟨["https://a"], List.nodup_singleton _⟩, .attempt 0 .send 11, .reply 0 (.status 500) 12,
    .emit (alertAt "evt-b" 13) ⟨[], List.nodup_nil⟩]

/-- With the attempt on the wire the event stays. -/
theorem law_of_kept_burst : Run.Along DeliveryState.emitStep RetentionLaw burst.state
    ([cutRun[0], cutRun[1], cutRun[3], .reply 0 (.success 200) 14]) :=
  law_of_kept _ _ (by decide +kernel)

/-- The chain sleeps when its event is pruned, and its second attempt finds no event. -/
theorem sleeping_chain_cut :
    ¬ Run.Along DeliveryState.emitStep RetentionLaw burst.state (cutRun ++ [.attempt 0 .send 72]) := by
  intro h
  have hlaw := ((Run.along_append.1 h).2).1 ("evt-a", "https://a") 2 (by decide +kernel)
  exact absurd hlaw (by decide +kernel)

end ObeyGateway.Webhooks
