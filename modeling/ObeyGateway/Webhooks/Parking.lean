import ObeyGateway.Lib.Run
import ObeyGateway.Webhooks.Delivery

/-!
# Chains cut off by a restart

A restart loses the chains and parks what the ledger shows as unfinished: the chains whose last row is an attempt on
the wire. A chain that waits for its next attempt has no such row, and the row of a parked fourth attempt has the same
number as the attempt, so that it is parked again. So every chain that was cut off is parked once exactly when each
had one of its first three attempts on the wire (`law_iff_cut`).
-/

namespace ObeyGateway.Webhooks

structure DeliveryState where
  ledger : Ledger
  chains : List Chain := []

inductive DeliveryAction
  /-- A chain for an event and an endpoint that have none yet. -/
  | start (key : ChainKey)
  | attempt (i : Nat) (pre : Preflight) (now : Int)
  | reply (i : Nat) (reply : Reply) (now : Int)
  /-- The process stops, and starts again. -/
  | restart (now : Int)

namespace DeliveryState
variable (s : DeliveryState)

def Fresh (key : ChainKey) : Prop :=
  key.1 ∈ s.ledger.eventIds ∧ s.ledger.rowsOf key = [] ∧ ∀ c ∈ s.chains, c.key ≠ key

instance (key : ChainKey) : Decidable (s.Fresh key) := inferInstanceAs (Decidable (_ ∧ _ ∧ _))

def step : DeliveryAction → DeliveryState
  | .start key => if s.Fresh key then { s with chains := s.chains ++ [{ key }] } else s
  | .attempt i pre now =>
    match s.chains[i]? with
    | some ⟨key, .waiting attempt⟩ =>
      let out := startAttempt s.ledger key attempt now pre
      ⟨s.ledger.write out.1, s.chains.set i ⟨key, out.2⟩⟩
    | _ => s
  | .reply i reply now =>
    match s.chains[i]? with
    | some ⟨key, .flying attempt⟩ =>
      let out := finishAttempt s.ledger key attempt now reply
      ⟨out.1, s.chains.set i ⟨key, out.2⟩⟩
    | _ => s
  | .restart now => ⟨s.ledger.parkUnfinishedChains now, []⟩

end DeliveryState

structure SettledLedger where
  ledger : Ledger
  quiet : ledger.Quiet

def SettledLedger.state (start : SettledLedger) : DeliveryState := { ledger := start.ledger }

structure RestartLaw (s : DeliveryState) (now : Int) : Prop where
  /-- A chain that had not ended has one parked row. -/
  parkedOnce : ∀ c ∈ s.chains, c.stage ≠ .ended →
    ((s.ledger.parkUnfinishedChains now).rowsOf c.key).countP (·.outcome = .parked) = 1
  /-- A chain that had ended, or was cut off before, is as it was. -/
  unchanged : ∀ key, (∀ c ∈ s.chains, c.key = key → c.stage = .ended) →
    (s.ledger.parkUnfinishedChains now).rowsOf key = s.ledger.rowsOf key
  /-- To park again, any number of times, changes nothing. -/
  again : ∀ times : List Int,
    times.foldl Ledger.parkUnfinishedChains (s.ledger.parkUnfinishedChains now) = s.ledger.parkUnfinishedChains now

def ParkingLaw (s : DeliveryState) : DeliveryAction → Prop
  | .restart now => RestartLaw s now
  | _ => True

/-- Every chain that is cut off has one of its first three attempts on the wire. -/
def CutInFlight (s : DeliveryState) : DeliveryAction → Prop
  | .restart _ => ∀ c ∈ s.chains, c.stage ≠ .ended → ∃ attempt, c.stage = .flying attempt ∧ attempt < maxAttempts
  | _ => True

structure DeliveryState.Inv (s : DeliveryState) : Prop where
  keys : (s.chains.map (·.key)).Nodup
  listed : ∀ c ∈ s.chains, c.key.1 ∈ s.ledger.eventIds
  rows : ∀ c ∈ s.chains, c.stage.Rows (s.ledger.rowsOf c.key)
  quiet : ∀ key, (∀ c ∈ s.chains, c.key ≠ key) → unfinishedAttempt (s.ledger.rowsOf key) = none

section
variable {s : DeliveryState}

theorem SettledLedger.inv (start : SettledLedger) : start.state.Inv where
  keys := List.nodup_nil
  listed _ hc := absurd hc List.not_mem_nil
  rows _ hc := absurd hc List.not_mem_nil
  quiet key _ := start.quiet key

theorem DeliveryState.Inv.write (h : s.Inv) {i : Nat} {key : ChainKey} {stage stage' : ChainStage} {ledger' : Ledger}
    (hc : s.chains[i]? = some ⟨key, stage⟩) (hwrites : Writes key s.ledger ledger')
    (hrows : stage'.Rows (ledger'.rowsOf key)) :
    DeliveryState.Inv ⟨ledger', s.chains.set i ⟨key, stage'⟩⟩ := by
  have hkeys : (s.chains.set i ⟨key, stage'⟩).map (·.key) = s.chains.map (·.key) := keys_set hc
  have hkey : ∀ key', (∀ c ∈ s.chains.set i ⟨key, stage'⟩, c.key ≠ key') → ∀ c ∈ s.chains, c.key ≠ key' := by
    intro key' hnone c hc heq
    have hmem : key' ∈ (s.chains.set i ⟨key, stage'⟩).map (·.key) := hkeys ▸ heq ▸ List.mem_map_of_mem hc
    obtain ⟨c', hc', heq'⟩ := List.mem_map.1 hmem
    exact hnone c' hc' heq'
  have hold := List.mem_of_getElem? hc
  have hlisted : key.1 ∈ s.ledger.eventIds := h.listed _ hold
  refine ⟨hkeys ▸ h.keys, fun c hmem => ?_, fun c hmem => ?_, fun key' hnone => ?_⟩
  · rw [hwrites.eventIds]
    rcases mem_set_chain h.keys hc hmem with rfl | ⟨hmem, -⟩
    · exact hlisted
    · exact h.listed c hmem
  · rcases mem_set_chain h.keys hc hmem with rfl | ⟨hmem, hne⟩
    · exact hrows
    · rw [hwrites.others c.key hne]
      exact h.rows c hmem
  · have hne : key' ≠ key := fun heq => hkey key' hnone _ hold heq.symm
    rw [hwrites.others key' hne]
    exact h.quiet key' (hkey key' hnone)

section
variable {rows : List DeliveryRow} {attempt : Nat}

theorem unfinished_of_waiting (h : (ChainStage.waiting attempt).Rows rows) : unfinishedAttempt rows = none :=
  unfinishedAttempt_eq_none fun r hr => ⟨by simp [(h.2 r hr).1], (h.2 r hr).2.1⟩

theorem flying_mem (h : (ChainStage.flying attempt).Rows rows) : (∃ r ∈ rows, r.outcome = .inflight ∧ r.attempt = attempt) ∧
      ∀ r ∈ rows, 0 ≤ r.attempt ∧ r.attempt ≤ attempt ∧ r.outcome ≠ .parked := by
  obtain ⟨-, before, row, rfl, hfailed, hnumber, hinflight⟩ := h
  refine ⟨⟨row, by simp, hinflight, hnumber⟩, fun r hr => ?_⟩
  rcases List.mem_append.1 hr with hr | hr
  · obtain ⟨houtcome, hnonneg, hlt⟩ := hfailed r hr
    exact ⟨hnonneg, le_of_lt hlt, by simp [houtcome]⟩
  · rw [List.mem_singleton.1 hr, hnumber, hinflight]
    exact ⟨Int.natCast_nonneg _, le_refl _, by decide⟩

theorem unfinished_of_flying (h : (ChainStage.flying attempt).Rows rows) : unfinishedAttempt rows = some (attempt : Int) :=
  (Ledger.unfinishedAttempt_eq_some_iff fun r hr => ((flying_mem h).2 r hr).1).2
    ⟨(flying_mem h).1, fun r hr => ((flying_mem h).2 r hr).2.1⟩

theorem unfinished_parked_iff (h : (ChainStage.flying attempt).Rows rows) (key : ChainKey) (now : Int) :
    unfinishedAttempt (rows ++ [Ledger.parkedRow now (key, attempt)]) = none ↔ attempt < maxAttempts := by
  have hle : attempt ≤ 4 := h.1.2
  obtain ⟨⟨row, hrow, hinflight, hnumber⟩, hrows⟩ := flying_mem h
  have hparked : (Ledger.parkedRow now (key, (attempt : Int))).attempt = min ((attempt : Int) + 1) 4 := rfl
  have hnonneg : ∀ r ∈ rows ++ [Ledger.parkedRow now (key, (attempt : Int))], 0 ≤ r.attempt := fun r hr => by
    rcases List.mem_append.1 hr with hr | hr
    · exact (hrows r hr).1
    · rw [List.mem_singleton.1 hr, hparked]
      omega
  constructor
  · intro hnone
    by_contra hlast
    have hfour : attempt = 4 := by
      unfold maxAttempts at hlast
      omega
    have hsome : unfinishedAttempt (rows ++ [Ledger.parkedRow now (key, (attempt : Int))]) = some (attempt : Int) := by
      refine (Ledger.unfinishedAttempt_eq_some_iff hnonneg).2
        ⟨⟨row, List.mem_append_left _ hrow, hinflight, hnumber⟩, fun r hr => ?_⟩
      rcases List.mem_append.1 hr with hr | hr
      · exact (hrows r hr).2.1
      · rw [List.mem_singleton.1 hr, hparked]
        omega
    rw [hnone] at hsome
    cases hsome
  · intro hlt
    have hlt : attempt < 4 := hlt
    refine Option.eq_none_iff_forall_ne_some.2 fun m hm => ?_
    obtain ⟨⟨r, hr, hr', rfl⟩, hle'⟩ := (Ledger.unfinishedAttempt_eq_some_iff hnonneg).1 hm
    have hlast := hle' _ (List.mem_append_right _ (List.mem_singleton.2 rfl))
    rw [hparked] at hlast
    rcases List.mem_append.1 hr with hr | hr
    · have hbound := (hrows r hr).2.1
      omega
    · rw [List.mem_singleton.1 hr] at hr'
      cases hr'

end

/-! ### The steps -/

theorem DeliveryState.Inv.start (h : s.Inv) (key : ChainKey) : (s.step (.start key)).Inv := by
  unfold DeliveryState.step
  dsimp only
  split
  · rename_i hfresh
    obtain ⟨hevent, hempty, hnew⟩ := hfresh
    refine ⟨?_, fun c hc => ?_, fun c hc => ?_, fun key' hnone => ?_⟩
    · rw [List.map_append, List.nodup_append]
      refine ⟨h.keys, List.nodup_singleton _, fun k hk k' hk' => ?_⟩
      obtain ⟨c, hc, rfl⟩ := List.mem_map.1 hk
      rw [List.mem_singleton.1 hk']
      exact hnew c hc
    · rcases List.mem_append.1 hc with hc | hc
      · exact h.listed c hc
      · rw [List.mem_singleton.1 hc]
        exact hevent
    · rcases List.mem_append.1 hc with hc | hc
      · exact h.rows c hc
      · rw [List.mem_singleton.1 hc]
        exact ⟨by decide, by simp [Failed, hempty]⟩
    · exact h.quiet key' fun c hc => hnone c (List.mem_append_left _ hc)
  · exact h

theorem DeliveryState.Inv.quiet_restart (h : s.Inv) {now : Int} (hcut : CutInFlight s (.restart now)) :
    (s.ledger.parkUnfinishedChains now).Quiet := by
  intro key
  rw [Ledger.rowsOf_park]
  by_cases hchain : ∃ c ∈ s.chains, c.key = key
  · obtain ⟨c, hc, rfl⟩ := hchain
    have hrows := h.rows c hc
    by_cases hended : c.stage = .ended
    · rw [hended] at hrows
      have hnone : unfinishedAttempt (s.ledger.rowsOf c.key) = none := hrows
      rw [hnone]
      simpa using hnone
    · obtain ⟨attempt, hstage, hlt⟩ := hcut c hc hended
      rw [hstage] at hrows
      rw [unfinished_of_flying hrows]
      exact (unfinished_parked_iff hrows c.key now).2 hlt
  · have hnone := h.quiet key fun c hc heq => hchain ⟨c, hc, heq⟩
    rw [hnone]
    simpa using hnone

theorem DeliveryState.Inv.step (h : s.Inv) (a : DeliveryAction) (hcut : CutInFlight s a) : (s.step a).Inv := by
  cases a with
  | start key => exact h.start key
  | attempt i pre now =>
    unfold DeliveryState.step
    dsimp only
    split
    · rename_i key attempt hc
      have hmem := List.mem_of_getElem? hc
      obtain ⟨hwrites, hrows⟩ := startAttempt_spec (h.listed _ hmem) (h.rows _ hmem) now pre
      exact h.write hc hwrites hrows
    · exact h
  | reply i reply now =>
    unfold DeliveryState.step
    dsimp only
    split
    · rename_i key attempt hc
      obtain ⟨hwrites, hrows⟩ := finishAttempt_spec (h.rows _ (List.mem_of_getElem? hc)) now reply
      exact h.write hc hwrites hrows
    · exact h
  | restart now =>
    exact ⟨List.nodup_nil, fun _ hc => absurd hc List.not_mem_nil, fun _ hc => absurd hc List.not_mem_nil,
      fun key _ => h.quiet_restart hcut key⟩

theorem foldl_park {ledger : Ledger} (h : ledger.Quiet) (times : List Int) :
    times.foldl Ledger.parkUnfinishedChains ledger = ledger := by
  induction times with
  | nil => rfl
  | cons now times ih =>
    rw [List.foldl_cons, (Ledger.park_eq_self_iff now).2 h]
    exact ih

theorem restartLaw_iff (h : s.Inv) (now : Int) : RestartLaw s now ↔ CutInFlight s (.restart now) := by
  constructor
  · intro hlaw c hc hrunning
    have hrows := h.rows c hc
    cases hstage : c.stage with
    | ended => exact absurd hstage hrunning
    | waiting attempt =>
      -- the rows of a chain that waits are failed attempts, and nothing is parked
      rw [hstage] at hrows
      have hone := hlaw.parkedOnce c hc hrunning
      rw [Ledger.rowsOf_park, unfinished_of_waiting hrows] at hone
      have hzero : (s.ledger.rowsOf c.key).countP (·.outcome = .parked) = 0 :=
        List.countP_eq_zero.2 fun r hr => by simp [(hrows.2 r hr).1]
      simp [hzero] at hone
    | flying attempt =>
      rw [hstage] at hrows
      refine ⟨attempt, rfl, ?_⟩
      have hagain := hlaw.again [now]
      have hquiet := (Ledger.park_eq_self_iff now).1 hagain c.key
      rw [Ledger.rowsOf_park, unfinished_of_flying hrows] at hquiet
      exact (unfinished_parked_iff hrows c.key now).1 hquiet
  · intro hcut
    refine ⟨fun c hc hrunning => ?_, fun key hended => ?_, foldl_park (h.quiet_restart hcut)⟩
    · obtain ⟨attempt, hstage, -⟩ := hcut c hc hrunning
      have hrows := h.rows c hc
      rw [hstage] at hrows
      have hzero : (s.ledger.rowsOf c.key).countP (·.outcome = .parked) = 0 :=
        List.countP_eq_zero.2 fun r hr => by simpa using ((flying_mem hrows).2 r hr).2.2
      rw [Ledger.rowsOf_park, unfinished_of_flying hrows, List.countP_append, hzero]
      rfl
    · have hnone : unfinishedAttempt (s.ledger.rowsOf key) = none := by
        by_cases hchain : ∃ c ∈ s.chains, c.key = key
        · obtain ⟨c, hc, rfl⟩ := hchain
          have hrows := h.rows c hc
          rwa [hended c hc rfl] at hrows
        · exact h.quiet key fun c hc heq => hchain ⟨c, hc, heq⟩
      rw [Ledger.rowsOf_park, hnone]
      exact List.append_nil _

end

/-- Every chain that is cut off is parked once, exactly when it is cut off with one of its first three attempts on the
wire. -/
theorem law_iff_cut (start : SettledLedger) (actions : List DeliveryAction) :
    Run.Along DeliveryState.step ParkingLaw start.state actions ↔
      Run.Along DeliveryState.step CutInFlight start.state actions := by
  refine Run.along_congr (J := DeliveryState.Inv) (fun s a h => ?_) (fun s a h hcut => h.step a hcut) start.inv
  cases a with
  | restart now => exact restartLaw_iff h now
  | start | attempt | reply => exact Iff.rfl

def oneEvent : SettledLedger where
  ledger := { events := [⟨"evt", "budget.warning", "provider", "openai", "\x7b\x7d", 1000⟩] }
  quiet _ := rfl

/-- A chain that waits for its second attempt, and one with its fourth attempt on the wire. -/
theorem cut_chains_not_parked : ¬ Run.Along DeliveryState.step ParkingLaw oneEvent.state
        [.start ("evt", "https://a"), .attempt 0 .send 1, .reply 0 (.status 500) 2, .restart 3] ∧
      ¬ Run.Along DeliveryState.step ParkingLaw oneEvent.state
        ([.start ("evt", "https://a")] ++ (List.replicate 3 [.attempt 0 .send 1, .reply 0 (.status 500) 2]).flatten ++
          [.attempt 0 .send 3, .restart 4]) := by
  constructor
  · intro h
    have hlaw : RestartLaw _ 3 := h.2.2.2.1
    exact absurd (hlaw.parkedOnce ⟨("evt", "https://a"), .waiting 2⟩ (by decide +kernel) (by decide)) (by decide +kernel)
  · intro h
    have hlaw : RestartLaw _ 4 := (Run.along_append.1 h).2.2.1
    exact absurd (congrArg (fun l => l.deliveries.length) (hlaw.again [5])) (by decide +kernel)

end ObeyGateway.Webhooks
