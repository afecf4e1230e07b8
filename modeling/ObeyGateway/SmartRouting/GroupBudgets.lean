import ObeyGateway.SmartRouting.BudgetController
import Mathlib.Algebra.BigOperators.Group.List.Basic
import Mathlib.Data.Rat.Defs

/-!
# Group budgets under interleaving

The calls of one controller: each reads the clock, and enters the state lock later, so that a call with an older
reading may come second. `WindowSpend::reset_to` resets whenever the starts differ. A call that persists a window
before the one the group has moves the window back and drops what the newer one had; without such a call
(`OnTime`) every window has the sum of what was recorded in it (`law_iff_onTime`).
-/

namespace ObeyGateway.SmartRouting

def exactLt (a b : ℚ) : Bool := a.blt b

theorem exactLt_zero : exactLt ((0 : Nat) : ℚ) ((0 : Nat) : ℚ) = false := rfl

theorem true_eq_true : true = true := rfl

def exactDollars : Dollars ℚ where
  ofNat n := n
  add a b := a + b
  sub a b := a - b
  mul a b := a * b
  div a b := a / b
  max a b := if exactLt a b then b else a
  lt := exactLt
  le a b := !exactLt b a
  isFinite _ := true
  isFinite_zero := true_eq_true
  lt_zero_zero := exactLt_zero

/-- A `record_spend` that has returned `Ok`. -/
structure Recorded where
  modelGroup : String
  charge : SpendCharge ℚ
  reading : Int

/-- The controller, the calls that have read the clock and not entered the lock, and those that have recorded. -/
structure BudgetRun where
  clock : Int
  state : PersistedBudgetState ℚ
  calls : List (BudgetCall ℚ × Int) := []
  completed : List Recorded := []

inductive BudgetEvent
  /-- The system clock goes on, or is set back. -/
  | tick (nanos : Int)
  /-- A call that reads the clock. -/
  | call (call : BudgetCall ℚ)
  /-- A call gets the lock and runs to its end; its write succeeds or fails. -/
  | enter (i : Nat) (persisted : Bool)

def BudgetCall.recorded (call : BudgetCall ℚ) (reading : Int) (ok : Bool) : List Recorded :=
  if ok then (call.charge.map fun charge => ⟨call.modelGroup, charge, reading⟩).toList else []

namespace BudgetRun

def step (s : BudgetRun) : BudgetEvent → BudgetRun
  | .tick nanos => { s with clock := s.clock + nanos }
  | .call call => { s with calls := s.calls ++ [(call, s.clock)] }
  | .enter i persisted =>
    match s.calls[i]? with
    | none => s
    | some (call, reading) =>
      let result := call.enter exactDollars (fun _ => persisted) s.state reading
      { s with
        state := result.2
        calls := s.calls.eraseIdx i
        completed := s.completed ++ call.recorded reading result.1.isOk }

def start (clock : Int) (loaded : PersistedBudgetState ℚ) : BudgetRun := { clock := clock, state := loaded }

end BudgetRun

/-- The charge was recorded in the window of `p` that starts at `startsAt`. -/
def Recorded.lies (e : Recorded) (name : String) (p : BudgetPeriod) (startsAt : Int) (accuracy : SpendAccuracy) : Bool :=
  e.modelGroup = name ∧ p.start e.reading = startsAt ∧ e.charge.accuracy = accuracy

def recordedUsd (completed : List Recorded) (name : String) (p : BudgetPeriod) (startsAt : Int)
    (accuracy : SpendAccuracy) : ℚ :=
  ((completed.filter (·.lies name p startsAt accuracy)).map (·.charge.usd)).sum

def loadedUsd (loaded : PersistedBudgetState ℚ) (name : String) (p : BudgetPeriod) (startsAt : Int)
    (accuracy : SpendAccuracy) : ℚ :=
  match (loaded.get name).map (·.window p) with
  | some w => if w.startsAt = startsAt then w.spend.usd accuracy else 0
  | none => 0

/-- The window of a group is the newest one in which something was recorded, and has the sum of it. -/
structure NoLoss (loaded : PersistedBudgetState ℚ) (s : BudgetRun) : Prop where
  spend : ∀ name g, s.state.get name = some g → ∀ p accuracy, (g.window p).spend.usd accuracy =
    loadedUsd loaded name p (g.window p).startsAt accuracy + recordedUsd s.completed name p (g.window p).startsAt accuracy
  newest : ∀ e ∈ s.completed, ∃ g, s.state.get e.modelGroup = some g ∧ ∀ p, p.start e.reading ≤ (g.window p).startsAt

def Forward (state state' : PersistedBudgetState ℚ) : Prop :=
  ∀ name g, state.get name = some g →
    ∃ g', state'.get name = some g' ∧ ∀ p, (g.window p).startsAt ≤ (g'.window p).startsAt

def GroupLaw (loaded : PersistedBudgetState ℚ) (s : BudgetRun) (e : BudgetEvent) : Prop :=
  NoLoss loaded (s.step e) ∧ Forward s.state (s.step e).state

/-- A call that persists a state has a reading that is not before the windows of its group. -/
def OnTime (s : BudgetRun) : BudgetEvent → Prop
  | .enter i true => ∀ call reading, s.calls[i]? = some (call, reading) → call.Writes exactDollars s.state reading →
    ∀ g, s.state.get call.modelGroup = some g → ∀ p, (g.window p).startsAt ≤ p.start reading
  | .tick _ | .call _ | .enter _ false => True

section
variable {loaded state state' : PersistedBudgetState ℚ} {s : BudgetRun} {completed : List Recorded} {e : Recorded}
  {name : String} {p : BudgetPeriod} {t : Int} {accuracy : SpendAccuracy}

theorem recordedUsd_append : recordedUsd (completed ++ [e]) name p t accuracy =
    recordedUsd completed name p t accuracy + if e.lies name p t accuracy then e.charge.usd else 0 := by
  unfold recordedUsd
  rw [List.filter_append, List.map_append, List.sum_append]
  by_cases h : e.lies name p t accuracy = true
  · simp [h]
  · simp [h]

theorem recordedUsd_eq_zero (h : ∀ e ∈ completed, e.modelGroup = name → p.start e.reading ≠ t) :
    recordedUsd completed name p t accuracy = 0 := by
  have hnil : completed.filter (·.lies name p t accuracy) = [] := by
    refine List.filter_eq_nil_iff.2 fun e he hlies => ?_
    obtain ⟨hname, hstart, -⟩ := of_decide_eq_true hlies
    exact h e he hname hstart
  rw [recordedUsd, hnil]
  rfl

theorem loadedUsd_eq {g : GroupSpend ℚ} (h : loaded.get name = some g) : loadedUsd loaded name p t accuracy =
    if (g.window p).startsAt = t then (g.window p).spend.usd accuracy else 0 := by
  rw [loadedUsd, h]
  rfl

theorem Forward.refl (state : PersistedBudgetState ℚ) : Forward state state :=
  fun _ g hg => ⟨g, hg, fun _ => le_refl _⟩

theorem Forward.trans {state'' : PersistedBudgetState ℚ} (h : Forward state state') (h' : Forward state' state'') :
    Forward state state'' := by
  intro name g hg
  obtain ⟨g', hg', hle⟩ := h name g hg
  obtain ⟨g'', hg'', hle'⟩ := h' name g' hg'
  exact ⟨g'', hg'', fun p => le_trans (hle p) (hle' p)⟩

structure BudgetInv (loaded : PersistedBudgetState ℚ) (s : BudgetRun) : Prop where
  noLoss : NoLoss loaded s
  forward : Forward loaded s.state

theorem BudgetInv.start (clock : Int) (loaded : PersistedBudgetState ℚ) : BudgetInv loaded (.start clock loaded) := by
  refine ⟨⟨fun name g hg p accuracy => ?_, fun e he => absurd he List.not_mem_nil⟩, Forward.refl _⟩
  have hloaded : loaded.get name = some g := hg
  rw [loadedUsd_eq hloaded, if_pos rfl]
  exact (add_zero _).symm

theorem BudgetInv.fresh (h : BudgetInv loaded s) (hlt : ∀ g, s.state.get name = some g → (g.window p).startsAt < t) :
    loadedUsd loaded name p t accuracy + recordedUsd s.completed name p t accuracy = 0 := by
  have hloaded : loadedUsd loaded name p t accuracy = 0 := by
    rcases hget : loaded.get name with _ | g
    · rw [loadedUsd, hget]
      rfl
    obtain ⟨g', hg', hle⟩ := h.forward name g hget
    rw [loadedUsd_eq hget, if_neg (ne_of_lt (lt_of_le_of_lt (hle p) (hlt g' hg')))]
  have hrecorded : recordedUsd s.completed name p t accuracy = 0 := by
    refine recordedUsd_eq_zero fun e he hname => ?_
    obtain ⟨g, hg, hle⟩ := h.noLoss.newest e he
    rw [hname] at hg
    exact ne_of_lt (lt_of_le_of_lt (hle p) (hlt g hg))
  rw [hloaded, hrecorded, add_zero]

variable {now : Int}

theorem BudgetInv.reset (h : BudgetInv loaded s) (p : BudgetPeriod) (accuracy : SpendAccuracy)
    (htime : ∀ g, s.state.get name = some g → ∀ p, (g.window p).startsAt ≤ BudgetPeriod.start p now) :
    ((((s.state.entry exactDollars name now).resetExpired exactDollars now).1).window p).spend.usd accuracy =
      loadedUsd loaded name p (p.start now) accuracy + recordedUsd s.completed name p (p.start now) accuracy := by
  have hzero : (WindowSpend.new exactDollars (p.start now)).spend.usd accuracy = 0 := by cases accuracy <;> rfl
  rw [GroupSpend.window_resetExpired]
  unfold PersistedBudgetState.entry
  rcases hget : s.state.get name with _ | g
  · have hfresh : loadedUsd loaded name p (p.start now) accuracy +
        recordedUsd s.completed name p (p.start now) accuracy = 0 := h.fresh fun g hg => by rw [hget] at hg; cases hg
    rw [Option.getD_none, GroupSpend.window_new, ite_self, hzero, hfresh]
  rw [Option.getD_some]
  by_cases hstart : (g.window p).startsAt = p.start now
  · rw [if_pos hstart, h.noLoss.spend name g hget p accuracy, hstart]
  · rw [if_neg hstart, hzero, h.fresh]
    intro g' hg'
    rw [hget] at hg'
    cases hg'
    exact lt_of_le_of_ne (htime g hget p) hstart

/-! ### One step -/

variable {call : BudgetCall ℚ}

theorem BudgetCall.recorded_eq_nil {ok : Bool} (h : ok = true → call.charge = none) : call.recorded now ok = [] := by
  rcases ok with _ | _
  · rfl
  rw [recorded, h rfl]
  rfl

theorem BudgetCall.recorded_some {charge : SpendCharge ℚ}
    (h : call.charge = some charge) : call.recorded now true = [⟨call.modelGroup, charge, now⟩] := by
  rw [recorded, h]
  rfl

theorem BudgetCall.recorded_of_mem {ok : Bool} (h : e ∈ call.recorded now ok) :
    e.modelGroup = call.modelGroup ∧ e.reading = now := by
  unfold recorded at h
  split at h
  · obtain ⟨charge, -, rfl⟩ := Option.map_eq_some_iff.1 (Option.mem_toList.1 h)
    exact ⟨rfl, rfl⟩
  · cases h

theorem BudgetInv.recorded (h : BudgetInv loaded s) {g' : GroupSpend ℚ}
    (htime : ∀ g, s.state.get call.modelGroup = some g → ∀ p, (g.window p).startsAt ≤ BudgetPeriod.start p now)
    (hg : (s.state.entry exactDollars call.modelGroup now).update exactDollars now call.charge = .ok g')
    (p : BudgetPeriod) (accuracy : SpendAccuracy) : (g'.window p).spend.usd accuracy =
      loadedUsd loaded call.modelGroup p (p.start now) accuracy +
        recordedUsd (s.completed ++ call.recorded now true) call.modelGroup p (p.start now) accuracy := by
  have hreset := h.reset p accuracy htime
  rcases hcharge : call.charge with _ | charge
  · rw [hcharge] at hg
    cases hg
    rw [BudgetCall.recorded_eq_nil fun _ => hcharge, List.append_nil]
    exact hreset
  rw [hcharge] at hg
  obtain ⟨hadd, -⟩ := GroupSpend.add_eq_ok_iff.1 hg p
  rw [(SpendBreakdown.add_eq_ok_iff.1 hadd).2, SpendBreakdown.usd_setUsd, BudgetCall.recorded_some hcharge,
    recordedUsd_append, ← add_assoc, ← hreset]
  by_cases haccuracy : accuracy = charge.accuracy
  · have hlies : Recorded.lies ⟨call.modelGroup, charge, now⟩ call.modelGroup p (p.start now) accuracy = true :=
      decide_eq_true ⟨rfl, rfl, haccuracy.symm⟩
    rw [if_pos haccuracy, if_pos hlies, haccuracy]
    rfl
  · have hnot : ¬ Recorded.lies ⟨call.modelGroup, charge, now⟩ call.modelGroup p (p.start now) accuracy = true :=
      fun hlies => haccuracy (of_decide_eq_true hlies).2.2.symm
    rw [if_neg haccuracy, if_neg hnot, add_zero]

theorem recordedUsd_other {ok : Bool} (h : name ≠ call.modelGroup) :
    recordedUsd (completed ++ call.recorded now ok) name p t accuracy = recordedUsd completed name p t accuracy := by
  have hzero : recordedUsd (call.recorded now ok) name p t accuracy = 0 :=
    recordedUsd_eq_zero fun e he hname => absurd ((BudgetCall.recorded_of_mem he).1.symm.trans hname).symm h
  have happend : recordedUsd (completed ++ call.recorded now ok) name p t accuracy =
      recordedUsd completed name p t accuracy + recordedUsd (call.recorded now ok) name p t accuracy := by
    simp only [recordedUsd, List.filter_append, List.map_append, List.sum_append]
  rw [happend, hzero, add_zero]

theorem BudgetInv.put (h : BudgetInv loaded s) {g' : GroupSpend ℚ} {calls : List (BudgetCall ℚ × Int)}
    (htime : ∀ g, s.state.get call.modelGroup = some g → ∀ p, (g.window p).startsAt ≤ BudgetPeriod.start p now)
    (hg : (s.state.entry exactDollars call.modelGroup now).update exactDollars now call.charge = .ok g') :
    NoLoss loaded { s with
      state := s.state.put call.modelGroup g', calls := calls, completed := s.completed ++ call.recorded now true } ∧
      Forward s.state (s.state.put call.modelGroup g') := by
  have hforward : Forward s.state (s.state.put call.modelGroup g') := by
    intro name g hname
    by_cases heq : name = call.modelGroup
    · subst heq
      refine ⟨g', by rw [PersistedBudgetState.get_put, if_pos rfl], fun p => ?_⟩
      rw [GroupSpend.startsAt_update hg]
      exact htime g hname p
    · exact ⟨g, by rw [PersistedBudgetState.get_put, if_neg heq]; exact hname, fun p => le_refl _⟩
  refine ⟨⟨fun name g hname p accuracy => ?_, fun e he => ?_⟩, hforward⟩
  · have hget : (s.state.put call.modelGroup g').get name = some g := hname
    rw [PersistedBudgetState.get_put] at hget
    by_cases heq : name = call.modelGroup
    · rw [if_pos heq] at hget
      cases hget
      rw [heq, GroupSpend.startsAt_update hg]
      exact h.recorded htime hg p accuracy
    · rw [if_neg heq] at hget
      rw [recordedUsd_other heq]
      exact h.noLoss.spend name g hget p accuracy
  · rcases List.mem_append.1 he with he | he
    · obtain ⟨g, hget, hle⟩ := h.noLoss.newest e he
      obtain ⟨g₁, hg₁, hle₁⟩ := hforward _ g hget
      exact ⟨g₁, hg₁, fun p => le_trans (hle p) (hle₁ p)⟩
    · have hentry := BudgetCall.recorded_of_mem he
      refine ⟨g', ?_, fun p => ?_⟩
      · show (s.state.put call.modelGroup g').get e.modelGroup = some g'
        rw [PersistedBudgetState.get_put, if_pos hentry.1]
      · rw [GroupSpend.startsAt_update hg, hentry.2]

theorem BudgetInv.same (h : BudgetInv loaded s) {s' : BudgetRun} (hstate : s'.state = s.state)
    (hcompleted : s'.completed = s.completed) : NoLoss loaded s' ∧ Forward s.state s'.state := by
  refine ⟨⟨?_, ?_⟩, ?_⟩
  · rw [hstate, hcompleted]
    exact h.noLoss.spend
  · rw [hstate, hcompleted]
    exact h.noLoss.newest
  · rw [hstate]
    exact Forward.refl _

theorem groupLaw_iff (h : BudgetInv loaded s) (e : BudgetEvent) : GroupLaw loaded s e ↔ OnTime s e := by
  cases e with
  | tick | call => exact iff_of_true (h.same rfl rfl) trivial
  | enter i persisted =>
    rcases hcall : s.calls[i]? with _ | ⟨call, reading⟩
    · have hstep : s.step (.enter i persisted) = s := by simp only [BudgetRun.step, hcall]
      refine iff_of_true (h.same (by rw [hstep]) (by rw [hstep])) ?_
      rcases persisted with _ | _
      · trivial
      intro call reading hsome
      rw [hcall] at hsome
      cases hsome
    by_cases hwrites : call.Writes exactDollars s.state reading ∧ persisted = true
    · obtain ⟨hwrites, rfl⟩ := hwrites
      obtain ⟨answer, g', henter, hg⟩ := BudgetCall.enter_of_writes (fun _ => true) hwrites fun _ => rfl
      have hstep : s.step (.enter i true) = { s with
          state := s.state.put call.modelGroup g'
          calls := s.calls.eraseIdx i
          completed := s.completed ++ call.recorded reading true } := by
        simp only [BudgetRun.step, hcall, henter]
        rfl
      constructor
      · rintro ⟨-, hforward⟩ call' reading' hsome - g hget p
        rw [hcall] at hsome
        cases hsome
        rw [hstep] at hforward
        obtain ⟨g₁, hg₁, hle⟩ := hforward _ g hget
        have hput : (s.state.put call.modelGroup g').get call.modelGroup = some g₁ := hg₁
        rw [PersistedBudgetState.get_put, if_pos rfl] at hput
        cases hput
        have hp := hle p
        rwa [GroupSpend.startsAt_update hg] at hp
      · intro htime
        rw [GroupLaw, hstep]
        exact h.put (htime call reading hcall hwrites) hg
    · have hnot : call.Writes exactDollars s.state reading → ∀ _ : PersistedBudgetState ℚ, persisted = false :=
        fun hw _ => Bool.eq_false_iff.2 fun hp => hwrites ⟨hw, hp⟩
      obtain ⟨hstate, hcharge⟩ := BudgetCall.enter_of_not_writes (fun _ => persisted) hnot
      refine iff_of_true (h.same ?_ ?_) ?_
      · simp only [BudgetRun.step, hcall, hstate]
      · simp only [BudgetRun.step, hcall, BudgetCall.recorded_eq_nil hcharge, List.append_nil]
      · rcases persisted with _ | _
        · trivial
        intro call' reading' hsome hw
        rw [hcall] at hsome
        cases hsome
        exact absurd ⟨hw, rfl⟩ hwrites

/-- The calls of a controller lose no spend and move no window back exactly as long as no call persists a window
before the one its group has. -/
theorem law_iff_onTime (clock : Int) (loaded : PersistedBudgetState ℚ) (events : List BudgetEvent) :
    Run.Along BudgetRun.step (GroupLaw loaded) (.start clock loaded) events ↔
      Run.Along BudgetRun.step OnTime (.start clock loaded) events := by
  refine Run.along_congr (J := BudgetInv loaded) (fun s e hs => groupLaw_iff hs e) (fun s e hs he => ?_)
    (BudgetInv.start clock loaded)
  obtain ⟨hloss, hforward⟩ := (groupLaw_iff hs e).2 he
  exact ⟨hloss, hs.forward.trans hforward⟩

end

/-- A call that reads the clock at the end of an hour gets the lock after one of the next hour. -/
def lateRun : List BudgetEvent :=
  [.tick (hourNanos - 1), .call (.recordSpend "chat" ⟨1 / 4, .exact⟩ none), .tick 1,
    .call (.recordSpend "chat" ⟨1 / 2, .exact⟩ none), .enter 1 true, .enter 0 true]

/-- The window moves back an hour, and the next call finds nothing in the hour in which half a dollar was recorded. -/
theorem late_record_erases_window : ¬ Run.Along BudgetRun.step (GroupLaw .default) (.start 0 .default) lateRun ∧
      let s := Run.run BudgetRun.step (.start 0 .default) (lateRun ++ [.call (.snapshot "chat" none), .enter 0 true])
      (s.state.get "chat").map (·.hourly) = some ⟨hourNanos, ⟨0, 0⟩⟩ ∧
        recordedUsd s.completed "chat" .hourly hourNanos .exact = 1 / 2 := by
  refine ⟨fun h => ?_, by decide +kernel, by decide +kernel⟩
  have hlast : lateRun = lateRun.take 5 ++ [.enter 0 true] := rfl
  rw [hlast, Run.along_concat] at h
  obtain ⟨-, -, hforward⟩ := h
  have hbefore : ((Run.run BudgetRun.step (.start 0 .default) (lateRun.take 5)).state.get "chat").map
      (·.hourly.startsAt) = some hourNanos := by decide +kernel
  have hafter : (((Run.run BudgetRun.step (.start 0 .default) (lateRun.take 5)).step (.enter 0 true)).state.get
      "chat").map (·.hourly.startsAt) = some 0 := by decide +kernel
  obtain ⟨g, hg, hstart⟩ := Option.map_eq_some_iff.1 hbefore
  obtain ⟨g', hg', hle⟩ := hforward "chat" g hg
  rw [hg', Option.map_some, Option.some.injEq] at hafter
  have hback : g.hourly.startsAt ≤ g'.hourly.startsAt := hle .hourly
  rw [hstart, hafter] at hback
  exact absurd hback (by decide)

end ObeyGateway.SmartRouting
