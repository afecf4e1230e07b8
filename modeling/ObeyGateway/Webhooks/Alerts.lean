import Mathlib.Algebra.Order.Field.Rat
import Mathlib.Tactic.NormNum
import ObeyGateway.Lib.Assoc
import ObeyGateway.Lib.Run

/-!
# Budget alerts

`webhooks/alerts.rs`. `AlertState` keeps which thresholds have fired for each scope and window anchor. `evaluate` first
drops the entries of its scope with an older anchor and then looks at its own; the two are separate steps, so that
calls interleave between them. A late evaluation of a window whose entry was dropped fires again: that each threshold
fires once is exactly that no such evaluation comes (`law_iff_timely`).
-/

namespace ObeyGateway.Webhooks

/-- The operations on `f64` that decide an alert. -/
structure Amounts (F : Type) where
  ofNat : Nat → F
  mul : F → F → F
  div : F → F → F
  le : F → F → Bool

inductive Scope
  | provider | virtualKey
deriving DecidableEq

inductive ScopeRef
  | provider (name : String)
  | virtualKey (keyId name : String)
deriving DecidableEq

namespace ScopeRef

def registryId : ScopeRef → String
  | .provider name => "provider:" ++ name
  | .virtualKey keyId _ => "virtual_key:" ++ keyId

def dataIdentity : ScopeRef → Scope × Option String × Option String
  | .provider name => (.provider, some name, none)
  | .virtualKey keyId name => (.virtualKey, some name, some keyId)

end ScopeRef

structure EvalInput (F : Type) where
  scope : ScopeRef
  limitUsd : F
  spentUsd : F
  warnPercent : Nat
  windowAnchor : Int
  window : Option String

inductive ResetSource
  | windowRollover | admin
deriving DecidableEq

inductive BudgetEventType
  | budgetWarning | budgetExhausted | budgetReset
deriving DecidableEq

structure BudgetEventData (F : Type) where
  scope : Scope
  name : Option String
  keyId : Option String
  limitUsd : Option F := none
  spentUsd : Option F := none
  percent : Option Nat := none
  window : Option String := none
  windowStart : Option Int
  resetSource : Option ResetSource := none

structure BudgetAlertEvent (F : Type) where
  eventType : BudgetEventType
  data : BudgetEventData F

structure FiredState where
  warned : Bool := false
  exhausted : Bool := false
deriving DecidableEq

inductive Threshold
  | warn | exhaust
deriving DecidableEq

def FiredState.has (state : FiredState) : Threshold → Bool
  | .warn => state.warned
  | .exhaust => state.exhausted

def Threshold.eventType : Threshold → BudgetEventType
  | .warn => .budgetWarning
  | .exhaust => .budgetExhausted

abbrev RegistryKey := String × Int

abbrev AlertState := List (RegistryKey × FiredState)

section
variable {F : Type} (A : Amounts F)

/-- `limit * percent / 100` -/
def warnThreshold (limit : F) (percent : Nat) : F := A.div (A.mul limit (A.ofNat percent)) (A.ofNat 100)

def reaches (limit spent : F) (percent : Nat) : Threshold → Bool
  | .warn => A.le (warnThreshold A limit percent) spent
  | .exhaust => A.le limit spent

def FiredState.fromRecovered (spent limit : F) (warnPct : Nat) : FiredState where
  warned := reaches A limit spent warnPct .warn
  exhausted := reaches A limit spent warnPct .exhaust

/-- A scope with no limit, which `evaluate` and `seed_from_recovered` leave alone. -/
def unlimited (limit : F) : Bool := A.le limit (A.ofNat 0)

namespace EvalInput
variable (input : EvalInput F)

def key : RegistryKey := (input.scope.registryId, input.windowAnchor)

def reaches (t : Threshold) : Bool := Webhooks.reaches A input.limitUsd input.spentUsd input.warnPercent t

end EvalInput

namespace AlertState
variable (fired : AlertState)

/-- `retain` of what is not an older window of the scope -/
def evict (scopeId : String) (anchor : Int) : AlertState :=
  fired.filter fun e => !(e.1.1 = scopeId && e.1.2 < anchor)

def transitionState (state : FiredState) (input : EvalInput F) : FiredState × List (BudgetAlertEvent F) :=
  let identity := input.scope.dataIdentity
  let data : BudgetEventData F :=
    { scope := identity.1, name := identity.2.1, keyId := identity.2.2, limitUsd := some input.limitUsd,
      spentUsd := some input.spentUsd, window := input.window, windowStart := some input.windowAnchor }
  let warns := !state.warned && input.reaches A .warn
  let exhausts := !state.exhausted && input.reaches A .exhaust
  (⟨state.warned || warns, state.exhausted || exhausts⟩,
    (if warns then [⟨.budgetWarning, { data with percent := some input.warnPercent }⟩] else []) ++
      if exhausts then [⟨.budgetExhausted, data⟩] else [])

def state (key : RegistryKey) : FiredState := (Assoc.get fired key).getD {}

/-- The entry step of `evaluate`. An entry is written only when something fired. -/
def transition (input : EvalInput F) : AlertState × List (BudgetAlertEvent F) :=
  let before := fired.state input.key
  let after := transitionState A before input
  (if after.1 = before then fired else Assoc.put fired input.key after.1, after.2)

def evaluate (input : EvalInput F) : AlertState × List (BudgetAlertEvent F) :=
  if unlimited A input.limitUsd then (fired, [])
  else transition A (fired.evict input.scope.registryId input.windowAnchor) input

def noteReset (scope : ScopeRef) (source : ResetSource) (windowStart : Int) : AlertState × BudgetAlertEvent F :=
  let identity := scope.dataIdentity
  (fired.evict scope.registryId windowStart,
    ⟨.budgetReset,
      { scope := identity.1, name := identity.2.1, keyId := identity.2.2, windowStart := some windowStart,
        resetSource := some source }⟩)

def seedFromRecovered (scope : ScopeRef) (spent limit : F) (warnPct : Nat) (windowAnchor : Int) : AlertState :=
  if unlimited A limit then fired
  else
    let seeded := FiredState.fromRecovered A spent limit warnPct
    let key := (scope.registryId, windowAnchor)
    if seeded = {} then fired
    else
      match Assoc.get fired key with
      | some live => Assoc.put fired key ⟨live.warned || seeded.warned, live.exhausted || seeded.exhausted⟩
      | none => Assoc.put fired key seeded

end AlertState

inductive AlertStep (F : Type)
  /-- The `retain` of an `evaluate`. -/
  | retain (input : EvalInput F)
  /-- The entry step of an `evaluate`. -/
  | entry (input : EvalInput F)
  | noteReset (scope : ScopeRef) (source : ResetSource) (windowStart : Int)
  | seed (scope : ScopeRef) (spent limit : F) (warnPct : Nat) (windowAnchor : Int)

def AlertStep.scope : AlertStep F → ScopeRef
  | .retain input | .entry input => input.scope
  | .noteReset scope _ _ | .seed scope _ _ _ _ => scope

/-- What was emitted by an `evaluate`, or seeded. -/
inductive AlertRecord (F : Type)
  | emit (input : EvalInput F) (event : BudgetAlertEvent F)
  | seed (key : RegistryKey) (t : Threshold)

namespace AlertRecord

def key : AlertRecord F → RegistryKey
  | .emit input _ => input.key
  | .seed key _ => key

def announces (key : RegistryKey) (t : Threshold) : AlertRecord F → Bool
  | .emit input event => input.key = key && event.eventType = t.eventType
  | .seed _ _ => false

def seeds (key : RegistryKey) (t : Threshold) : AlertRecord F → Bool
  | .emit _ _ => false
  | .seed key' t' => key' = key && t' = t

end AlertRecord

structure AlertRun (F : Type) where
  fired : AlertState := []
  log : List (AlertRecord F) := []

namespace AlertRun
variable (s : AlertRun F)

/-- What the entry step of an `evaluate` emits; without a limit `evaluate` has returned. -/
def emits (input : EvalInput F) : List (BudgetAlertEvent F) :=
  if unlimited A input.limitUsd then [] else (s.fired.transition A input).2

def step : AlertStep F → AlertRun F
  | .retain input =>
    if unlimited A input.limitUsd then s
    else { s with fired := s.fired.evict input.scope.registryId input.windowAnchor }
  | .entry input =>
    { fired := if unlimited A input.limitUsd then s.fired else (s.fired.transition A input).1
      log := s.log ++ (s.emits A input).map (.emit input) }
  | .noteReset scope source windowStart =>
    { s with fired := (s.fired.noteReset (F := F) scope source windowStart).1 }
  | .seed scope spent limit warnPct windowAnchor =>
    { fired := s.fired.seedFromRecovered A scope spent limit warnPct windowAnchor
      log := s.log ++ if unlimited A limit then [] else
        ([Threshold.warn, .exhaust].filter (reaches A limit spent warnPct)).map (.seed (scope.registryId, windowAnchor)) }

def run (steps : List (AlertStep F)) : AlertRun F := Run.run (step A) {} steps

theorem evaluate_eq (input : EvalInput F) :
    ((s.step A (.retain input)).step A (.entry input)).fired = (s.fired.evaluate A input).1 ∧
      (s.step A (.retain input)).emits A input = (s.fired.evaluate A input).2 := by
  by_cases h : unlimited A input.limitUsd = true <;> simp [step, emits, AlertState.evaluate, h]

def Announced (key : RegistryKey) (t : Threshold) : Prop := ∃ r ∈ s.log, r.announces key t = true

def Known (key : RegistryKey) (t : Threshold) : Prop :=
  ∃ r ∈ s.log, r.announces key t = true ∨ r.seeds key t = true

end AlertRun

def Once (log : List (AlertRecord F)) : Prop :=
  ∀ key t, log.countP (·.announces key t) ≤ 1

def WarningFirst (log : List (AlertRecord F)) : Prop :=
  ∀ before input event after, log = before ++ .emit input event :: after → event.eventType = .budgetExhausted →
    input.warnPercent ≤ 100 → ∃ r ∈ before, r.announces input.key .warn = true ∨ r.seeds input.key .warn = true

/-- The registry still has what was announced, and a limit comes with or after its warning. -/
def Timely (s : AlertRun F) : AlertStep F → Prop
  | .entry input => unlimited A input.limitUsd = false →
    (∀ t, input.reaches A t = true → s.Announced input.key t → (s.fired.state input.key).has t = true) ∧
      (input.warnPercent ≤ 100 → input.reaches A .exhaust = true → (s.fired.state input.key).exhausted = false →
        input.reaches A .warn = true ∨ s.Known input.key .warn)
  | _ => True

variable {A : Amounts F} {s : AlertRun F} {input : EvalInput F} {key : RegistryKey} {t : Threshold}

namespace AlertState
variable {fired : AlertState}

theorem state_put (k : RegistryKey) (st : FiredState) :
    state (Assoc.put fired k st) key = if key = k then st else fired.state key := by
  unfold state
  by_cases hk : key = k
  · subst hk
    rw [Assoc.get_put_self, if_pos rfl]
    rfl
  · rw [Assoc.get_put_of_ne hk, if_neg hk]

theorem state_evict (scopeId : String) (anchor : Int) :
    (fired.evict scopeId anchor).state key = if key.1 = scopeId ∧ key.2 < anchor then {} else fired.state key := by
  have hget : Assoc.get (fired.filter fun e => !(e.1.1 = scopeId && e.1.2 < anchor)) key =
      if !(key.1 = scopeId && key.2 < anchor) then Assoc.get fired key else none :=
    Assoc.get_filter fun k : RegistryKey => !(k.1 = scopeId && k.2 < anchor)
  unfold state evict
  rw [hget]
  by_cases hold : key.1 = scopeId ∧ key.2 < anchor
  · rw [if_pos hold, if_neg (by simp [hold])]
    rfl
  · rw [if_neg hold, if_pos]
    rcases not_and_or.1 hold with hid | hanchor
    · simp [hid]
    · simp [hanchor]

theorem has_transitionState (before : FiredState) :
    (transitionState A before input).1.has t = (before.has t || input.reaches A t) := by
  cases t with
  | warn => cases h : before.warned <;> simp [transitionState, FiredState.has, h]
  | exhaust => cases h : before.exhausted <;> simp [transitionState, FiredState.has, h]

theorem types_transitionState (before : FiredState) : (transitionState A before input).2.map (·.eventType) =
      ([Threshold.warn, .exhaust].filter fun t => !before.has t && input.reaches A t).map (·.eventType) := by
  unfold transitionState
  cases hw : (!before.warned && input.reaches A .warn) <;> cases he : (!before.exhausted && input.reaches A .exhaust) <;>
    simp [FiredState.has, Threshold.eventType, hw, he]

theorem state_transition (input : EvalInput F) : (fired.transition A input).1.state key =
      if key = input.key then (transitionState A (fired.state key) input).1 else fired.state key := by
  unfold transition
  dsimp only
  split
  · rename_i hsame
    split
    · rename_i hk
      rw [hk, hsame]
    · rfl
  · rw [state_put]
    split
    · rename_i hk
      rw [hk]
    · rfl

theorem has_seed (scope : ScopeRef) (spent limit : F) (warnPct : Nat) (windowAnchor : Int) :
    ((fired.seedFromRecovered A scope spent limit warnPct windowAnchor).state key).has t = ((fired.state key).has t ||
      (key = (scope.registryId, windowAnchor) && !unlimited A limit && reaches A limit spent warnPct t)) := by
  have hseeded : (FiredState.fromRecovered A spent limit warnPct).has t = reaches A limit spent warnPct t := by
    cases t <;> rfl
  unfold seedFromRecovered
  by_cases hlimit : unlimited A limit = true
  · simp [hlimit]
  rw [if_neg hlimit]
  by_cases hnone : FiredState.fromRecovered A spent limit warnPct = {}
  · have hreach : reaches A limit spent warnPct t = false := by
      rw [← hseeded, hnone]
      cases t <;> rfl
    simp [hnone, hreach]
  dsimp only
  rw [if_neg hnone]
  by_cases hk : key = (scope.registryId, windowAnchor)
  · subst hk
    have hlimit : unlimited A limit = false := by simpa using hlimit
    rcases hget : Assoc.get fired (scope.registryId, windowAnchor) with _ | live
    · have hempty : fired.state (scope.registryId, windowAnchor) = {} := by simp [state, hget]
      rw [state_put, if_pos rfl, hseeded, hempty]
      cases t <;> simp [hlimit, FiredState.has]
    have hlive : fired.state (scope.registryId, windowAnchor) = live := by simp [state, hget]
    rw [state_put, if_pos rfl, hlive, ← hseeded]
    cases t <;> simp [hlimit, FiredState.has]
  · cases Assoc.get fired (scope.registryId, windowAnchor) <;> simp [state_put, hk]

end AlertState

/-! ### The steps on the log -/

namespace AlertRun

/-- The threshold is announced by an entry step: it is reached, and the registry does not hold it as fired. -/
def fires (A : Amounts F) (s : AlertRun F) (input : EvalInput F) (t : Threshold) : Bool :=
  !unlimited A input.limitUsd && !(s.fired.state input.key).has t && input.reaches A t

theorem fires_iff : s.fires A input t = true ↔
    unlimited A input.limitUsd = false ∧ (s.fired.state input.key).has t = false ∧ input.reaches A t = true := by
  simp [fires, and_assoc]

theorem types_emits (s : AlertRun F) (input : EvalInput F) :
    (s.emits A input).map (·.eventType) = ([Threshold.warn, .exhaust].filter (s.fires A input)).map (·.eventType) := by
  unfold emits fires
  by_cases hlimit : unlimited A input.limitUsd = true
  · simp [hlimit]
  · rw [if_neg hlimit, AlertState.transition, AlertState.types_transitionState]
    simp [hlimit]

theorem mem_emits_iff : (∃ event ∈ s.emits A input, event.eventType = t.eventType) ↔ s.fires A input t = true := by
  rw [← List.mem_map, types_emits]
  cases hw : s.fires A input .warn <;> cases he : s.fires A input .exhaust <;> cases t <;>
    simp [Threshold.eventType, hw, he]

theorem Known.mono {s' : AlertRun F} (h : s.Known key t) (hlog : s.log ⊆ s'.log) : s'.Known key t := by
  obtain ⟨r, hr, h⟩ := h
  exact ⟨r, hlog hr, h⟩

def Sound (s : AlertRun F) : Prop := ∀ key t, (s.fired.state key).has t = true → s.Known key t

theorem log_subset (s : AlertRun F) (a : AlertStep F) : s.log ⊆ (s.step A a).log := by
  cases a with
  | retain input =>
    unfold step
    dsimp only
    split <;> exact List.Subset.refl _
  | noteReset scope source windowStart => exact List.Subset.refl _
  | entry | seed => exact List.subset_append_left _ _

theorem Sound.evict (h : s.Sound) (scopeId : String) (anchor : Int) :
    Sound { s with fired := s.fired.evict scopeId anchor } := by
  intro key t hhas
  rw [AlertState.state_evict] at hhas
  split at hhas
  · cases t <;> cases hhas
  · exact h key t hhas

theorem Sound.step (h : s.Sound) (a : AlertStep F) : (s.step A a).Sound := by
  cases a with
  | retain input =>
    unfold AlertRun.step
    dsimp only
    split
    · exact h
    · exact h.evict _ _
  | noteReset scope source windowStart => exact h.evict scope.registryId windowStart
  | entry input =>
    intro key t hhas
    by_cases hbefore : (s.fired.state key).has t = true
    · exact (h key t hbefore).mono (log_subset s _)
    have hfires : key = input.key ∧ s.fires A input t = true := by
      unfold AlertRun.step at hhas
      dsimp only at hhas
      split at hhas
      · exact absurd hhas hbefore
      rename_i hlimit
      rw [AlertState.state_transition] at hhas
      split at hhas
      · rename_i hk
        rw [AlertState.has_transitionState] at hhas
        refine ⟨hk, fires_iff.2 ⟨by simpa using hlimit, ?_, ?_⟩⟩
        · rw [← hk]
          simpa using hbefore
        · simpa [hbefore] using hhas
      · exact absurd hhas hbefore
    obtain ⟨event, hevent, htype⟩ := mem_emits_iff.2 hfires.2
    refine ⟨.emit input event, List.mem_append_right _ (List.mem_map.2 ⟨event, hevent, rfl⟩), .inl ?_⟩
    simp [AlertRecord.announces, hfires.1, htype]
  | seed scope spent limit warnPct windowAnchor =>
    intro key t hhas
    by_cases hbefore : (s.fired.state key).has t = true
    · exact (h key t hbefore).mono (log_subset s _)
    have hseed := (AlertState.has_seed scope spent limit warnPct windowAnchor).symm.trans hhas
    simp only [hbefore, Bool.false_or, Bool.and_eq_true, decide_eq_true_eq, Bool.not_eq_true'] at hseed
    obtain ⟨⟨rfl, hlimit⟩, hreach⟩ := hseed
    refine ⟨.seed (scope.registryId, windowAnchor) t, List.mem_append_right _ ?_, .inr (by simp [AlertRecord.seeds])⟩
    rw [hlimit]
    refine List.mem_map.2 ⟨t, List.mem_filter.2 ⟨?_, hreach⟩, rfl⟩
    cases t <;> simp

end AlertRun

variable {log new : List (AlertRecord F)}

namespace AlertRun

end AlertRun

/-! ### One scope at a time -/

theorem FiredState.ext_has {st st' : FiredState} (h : ∀ t, st.has t = st'.has t) : st = st' := by
  have hwarn := h .warn
  have hexhaust := h .exhaust
  cases st
  cases st'
  simp only [FiredState.has] at hwarn hexhaust
  rw [hwarn, hexhaust]

namespace AlertRun

structure Agrees (id : String) (s s' : AlertRun F) : Prop where
  state : ∀ key, key.1 = id → s.fired.state key = s'.fired.state key
  log : s.log.filter (fun r => r.key.1 = id) = s'.log

variable {s s' : AlertRun F}

theorem emits_congr (h : s.fired.state input.key = s'.fired.state input.key) : s.emits A input = s'.emits A input := by
  simp only [emits, AlertState.transition, h]

theorem state_step (a : AlertStep F) (h : s.fired.state key = s'.fired.state key) :
    (s.step A a).fired.state key = (s'.step A a).fired.state key := by
  cases a with
  | retain input =>
    unfold step
    dsimp only
    split
    · exact h
    · rw [AlertState.state_evict, AlertState.state_evict, h]
  | noteReset scope source windowStart =>
    refine (AlertState.state_evict _ _).trans (Eq.trans ?_ (AlertState.state_evict _ _).symm)
    rw [h]
  | entry input =>
    unfold step
    dsimp only
    split
    · exact h
    · rw [AlertState.state_transition, AlertState.state_transition, h]
  | seed scope spent limit warnPct windowAnchor =>
    refine FiredState.ext_has fun t => (AlertState.has_seed scope spent limit warnPct windowAnchor).trans ?_
    rw [h]
    exact (AlertState.has_seed scope spent limit warnPct windowAnchor).symm

theorem state_step_other (a : AlertStep F) (h : a.scope.registryId ≠ key.1) :
    (s.step A a).fired.state key = s.fired.state key := by
  cases a with
  | retain input =>
    unfold step
    dsimp only
    split
    · rfl
    · rw [AlertState.state_evict, if_neg fun hold => h hold.1.symm]
  | noteReset scope source windowStart =>
    exact (AlertState.state_evict _ _).trans (if_neg fun hold => h hold.1.symm)
  | entry input =>
    unfold step
    dsimp only
    split
    · rfl
    · rw [AlertState.state_transition, if_neg]
      rintro rfl
      exact h rfl
  | seed scope spent limit warnPct windowAnchor =>
    refine FiredState.ext_has fun t => (AlertState.has_seed scope spent limit warnPct windowAnchor).trans ?_
    have hk : key ≠ (scope.registryId, windowAnchor) := by
      rintro rfl
      exact h rfl
    simp [hk]

theorem log_step (s : AlertRun F) (a : AlertStep F) : ∃ new, (s.step A a).log = s.log ++ new ∧
    (∀ r ∈ new, r.key.1 = a.scope.registryId) ∧
      ∀ s' : AlertRun F, (∀ key : RegistryKey, key.1 = a.scope.registryId → s.fired.state key = s'.fired.state key) →
        (s'.step A a).log = s'.log ++ new := by
  cases a with
  | retain input =>
    refine ⟨[], ?_, by simp, fun s' _ => ?_⟩ <;> unfold step <;> dsimp only <;> split <;> simp
  | noteReset scope source windowStart => exact ⟨[], by simp [step], by simp, fun s' _ => by simp [step]⟩
  | entry input =>
    refine ⟨(s.emits A input).map (.emit input), rfl, ?_, fun s' h => ?_⟩
    · intro r hr
      obtain ⟨event, -, rfl⟩ := List.mem_map.1 hr
      rfl
    · rw [emits_congr (h input.key rfl)]
      rfl
  | seed scope spent limit warnPct windowAnchor =>
    refine ⟨_, rfl, ?_, fun s' _ => rfl⟩
    intro r hr
    split at hr
    · cases hr
    · obtain ⟨t, -, rfl⟩ := List.mem_map.1 hr
      rfl

theorem Agrees.same {id : String} (h : s.Agrees id s') {a : AlertStep F}
    (ha : a.scope.registryId = id) : (s.step A a).Agrees id (s'.step A a) where
  state key hk := state_step a (h.state key hk)
  log := by
    obtain ⟨new, hlog, hnew, hcongr⟩ := s.log_step (A := A) a
    rw [hlog, hcongr s' fun key hk => h.state key (hk.trans ha), List.filter_append, h.log]
    rw [List.filter_eq_self.2 fun r hr => by simp [hnew r hr, ha]]

theorem Agrees.other {id : String} (h : s.Agrees id s') {a : AlertStep F}
    (ha : a.scope.registryId ≠ id) : (s.step A a).Agrees id s' where
  state key hk := by
    subst hk
    rw [state_step_other a ha]
    exact h.state key rfl
  log := by
    obtain ⟨new, hlog, hnew, -⟩ := s.log_step (A := A) a
    have hnone : new.filter (fun r => r.key.1 = id) = [] := by
      rw [List.filter_eq_nil_iff]
      intro r hr
      simpa [hnew r hr] using ha
    rw [hlog, List.filter_append, hnone, List.append_nil, h.log]

end AlertRun

theorem Once.initial (h : Once (log ++ new)) : Once log := fun key t =>
  le_trans (by rw [List.countP_append]; exact Nat.le_add_right _ _) (h key t)

theorem WarningFirst.initial (h : WarningFirst (log ++ new)) : WarningFirst log := by
  intro before input event after hlog
  exact h before input event (after ++ new) (by rw [hlog, List.append_assoc, List.cons_append])

end

end ObeyGateway.Webhooks
