import Mathlib.Data.String.Basic
import ObeyGateway.Lib.Assoc
import ObeyGateway.Lib.Checks
import ObeyGateway.SmartRouting.Tier
import ObeyGateway.VirtualKeys.Anchor

/-!
# Group budgets

`smart_routing/budget_controller.rs`. The controller keeps, for each model group, the spend of the current UTC hour,
day and month. Every operation works on a copy of the state: it makes the entry of the group, resets the windows that
are not those of its clock reading, records or decides, and hands the copy on to be persisted (`BudgetCall.run`); the
copy becomes the state when that succeeds (`BudgetCall.enter`).
-/

namespace ObeyGateway.SmartRouting
open VirtualKeys

/-- The operations on `f64` dollars. -/
structure Dollars (F : Type) where
  ofNat : Nat → F
  add : F → F → F
  sub : F → F → F
  mul : F → F → F
  div : F → F → F
  max : F → F → F
  lt : F → F → Bool
  le : F → F → Bool
  isFinite : F → Bool
  isFinite_zero : isFinite (ofNat 0) = true
  lt_zero_zero : lt (ofNat 0) (ofNat 0) = false

inductive SpendAccuracy
  | exact | estimated
deriving DecidableEq

structure TokenUsage where
  inputTokens : Nat
  outputTokens : Nat

structure SpendCharge (F : Type) where
  usd : F
  accuracy : SpendAccuracy
deriving DecidableEq

inductive BudgetPricingError (F : Type)
  | invalidRate (field : String) (value : F)
  | nonFiniteCost
  | noMatchingModel
deriving DecidableEq

inductive BudgetRejectionReason
  | hourlyLimit | dailyLimit | monthlyLimit | policy
deriving DecidableEq

inductive BudgetDecision
  | allow
  | downgrade (maximumTier : SmartRoutingTier)
  | reject (reason : BudgetRejectionReason)
deriving DecidableEq

/-- The fields of `ProviderModel` that pricing reads. -/
structure PricedModel (F : Type) where
  provider : String
  model : String
  costPerMillionInputTokens : F
  costPerMillionOutputTokens : F

inductive BudgetPeriod
  | hourly | daily | monthly
deriving DecidableEq

namespace BudgetPeriod

def all : List BudgetPeriod := [.hourly, .daily, .monthly]

def name : BudgetPeriod → String
  | .hourly => "hourly"
  | .daily => "daily"
  | .monthly => "monthly"

def reason : BudgetPeriod → BudgetRejectionReason
  | .hourly => .hourlyLimit
  | .daily => .dailyLimit
  | .monthly => .monthlyLimit

end BudgetPeriod

def hourNanos : Int := 3600 * 10 ^ 9

def hourStart (now : Int) : Int := now / hourNanos * hourNanos

def dayStart (now : Int) : Int := dateNaive now * dayNanos

def monthStart (now : Int) : Int := Calendar.monthStart (Calendar.monthIndex (dateNaive now)) * dayNanos

def BudgetPeriod.start : BudgetPeriod → Int → Int
  | .hourly => hourStart
  | .daily => dayStart
  | .monthly => monthStart

structure BudgetLimits (F : Type) where
  hourlyLimitUsd : Option F := none
  dailyLimitUsd : Option F := none
  monthlyLimitUsd : Option F := none

def BudgetLimits.limit {F : Type} (limits : BudgetLimits F) : BudgetPeriod → Option F
  | .hourly => limits.hourlyLimitUsd
  | .daily => limits.dailyLimitUsd
  | .monthly => limits.monthlyLimitUsd

structure SpendBreakdown (F : Type) where
  exactUsd : F
  estimatedUsd : F
deriving DecidableEq

structure WindowSpend (F : Type) where
  startsAt : Int
  spend : SpendBreakdown F
deriving DecidableEq

structure GroupSpend (F : Type) where
  hourly : WindowSpend F
  daily : WindowSpend F
  monthly : WindowSpend F
deriving DecidableEq

/-- The `HashMap` of the groups is the list of its entries by ascending name. -/
structure PersistedBudgetState (F : Type) where
  version : Nat
  groups : List (String × GroupSpend F)
  sorted : (Assoc.keys groups).Pairwise (· < ·)

/-- What `check_at` reads: the group, the pinned context, the request and its classification. -/
structure BudgetCheckInput (F : Type) where
  modelGroup : String
  models : List (PricedModel F)
  provider : Option String
  model : Option String
  additionalInputTokens : Nat
  reservedOutputTokens : Nat
  maxTokens : Option Nat
  tokenEstimate : Nat
  configuredLimits : Option (BudgetLimits F)

structure BudgetPeriodSnapshot (F : Type) where
  startsAt : Int
  spend : SpendBreakdown F
  limitUsd : Option F
  remainingUsd : Option F
deriving DecidableEq

structure BudgetSnapshot (F : Type) where
  hourly : BudgetPeriodSnapshot F
  daily : BudgetPeriodSnapshot F
  monthly : BudgetPeriodSnapshot F
deriving DecidableEq

inductive BudgetLoadError
  | corruptJson
  | unsupportedVersion (found expected : Nat)
  | invalidState (detail : String)
deriving DecidableEq

inductive BudgetControllerError (F : Type)
  | pricing (source : BudgetPricingError F)
  | persist
deriving DecidableEq

def stateVersion : Nat := 1

section
variable {F : Type} (A : Dollars F)

def Dollars.zero : F := A.ofNat 0

def validAmount (value : F) : Bool := A.isFinite value && !A.lt value A.zero

def validateMoney (field : String) (value : F) : Except (BudgetPricingError F) Unit :=
  if validAmount A value then .ok () else .error (.invalidRate field value)

def validateRate (field : String) (value : F) : Except (BudgetPricingError F) Unit := validateMoney A field value

def SpendCharge.new (usd : F) (accuracy : SpendAccuracy) : Except (BudgetPricingError F) (SpendCharge F) := do
  validateMoney A "charge_usd" usd
  pure ⟨usd, accuracy⟩

def tokensPerMillion : F := A.ofNat 1000000

def calculateModelCharge (model : PricedModel F) (usage : TokenUsage) (accuracy : SpendAccuracy) :
    Except (BudgetPricingError F) (SpendCharge F) := do
  validateRate A "cost_per_million_input_tokens" model.costPerMillionInputTokens
  validateRate A "cost_per_million_output_tokens" model.costPerMillionOutputTokens
  let inputCost := A.div (A.mul (A.ofNat usage.inputTokens) model.costPerMillionInputTokens) (tokensPerMillion A)
  let outputCost := A.div (A.mul (A.ofNat usage.outputTokens) model.costPerMillionOutputTokens) (tokensPerMillion A)
  let usd := A.add inputCost outputCost
  if A.isFinite usd then SpendCharge.new A usd accuracy else .error .nonFiniteCost

/-- `saturating_add` of `u64` -/
def satAdd (a b : Nat) : Nat := min (a + b) (2 ^ 64 - 1)

def BudgetCheckInput.candidates (input : BudgetCheckInput F) : List (PricedModel F) :=
  input.models.filter fun m => input.provider.all (· = m.provider) && input.model.all (· = m.model)

def estimateRequestCharge (input : BudgetCheckInput F) : Except (BudgetPricingError F) (SpendCharge F) := do
  let usage : TokenUsage :=
    { inputTokens := satAdd input.tokenEstimate input.additionalInputTokens
      outputTokens := Nat.max (input.maxTokens.getD 0) input.reservedOutputTokens }
  if input.candidates.isEmpty then .error .noMatchingModel
  else
    let maximum ← input.candidates.foldlM (fun maximum m => do
      let charge ← calculateModelCharge A m usage .estimated
      pure (A.max maximum charge.usd)) A.zero
    SpendCharge.new A maximum .estimated

namespace SpendBreakdown
variable (s : SpendBreakdown F)

def totalUsd : F := A.add s.exactUsd s.estimatedUsd

def usd : SpendAccuracy → F
  | .exact => s.exactUsd
  | .estimated => s.estimatedUsd

def setUsd (value : F) : SpendAccuracy → SpendBreakdown F
  | .exact => { s with exactUsd := value }
  | .estimated => { s with estimatedUsd := value }

def add (charge : SpendCharge F) : Except (BudgetPricingError F) (SpendBreakdown F) := do
  let updated := A.add (s.usd charge.accuracy) charge.usd
  validateMoney A "accumulated_spend_usd" updated
  pure (s.setUsd updated charge.accuracy)

def validate (field : String) : Except BudgetLoadError Unit :=
  [("exact_usd", s.exactUsd), ("estimated_usd", s.estimatedUsd)].forM fun e =>
    if validAmount A e.2 then .ok ()
    else .error (.invalidState (field ++ "." ++ e.1 ++ " must be finite and non-negative"))

end SpendBreakdown

namespace WindowSpend

def new (startsAt : Int) : WindowSpend F := ⟨startsAt, ⟨A.zero, A.zero⟩⟩

def resetTo (w : WindowSpend F) (startsAt : Int) : WindowSpend F × Bool :=
  if w.startsAt = startsAt then (w, false) else (new A startsAt, true)

end WindowSpend

namespace GroupSpend

def new (now : Int) : GroupSpend F where
  hourly := .new A (hourStart now)
  daily := .new A (dayStart now)
  monthly := .new A (monthStart now)

variable (g : GroupSpend F)

def window : BudgetPeriod → WindowSpend F
  | .hourly => g.hourly
  | .daily => g.daily
  | .monthly => g.monthly

def resetExpired (now : Int) : GroupSpend F × Bool :=
  let hourly := g.hourly.resetTo A (hourStart now)
  let daily := g.daily.resetTo A (dayStart now)
  let monthly := g.monthly.resetTo A (monthStart now)
  (⟨hourly.1, daily.1, monthly.1⟩, hourly.2 || daily.2 || monthly.2)

def add (charge : SpendCharge F) : Except (BudgetPricingError F) (GroupSpend F) := do
  let hourly ← g.hourly.spend.add A charge
  let daily ← g.daily.spend.add A charge
  let monthly ← g.monthly.spend.add A charge
  pure ⟨{ g.hourly with spend := hourly }, { g.daily with spend := daily }, { g.monthly with spend := monthly }⟩

def aligned : Bool :=
  BudgetPeriod.all.all fun p => (g.window p).startsAt = p.start (g.window p).startsAt

def validate (group : String) : Except BudgetLoadError Unit := do
  BudgetPeriod.all.forM fun p => (g.window p).spend.validate A ("groups." ++ group ++ "." ++ p.name)
  if g.aligned then .ok () else .error (.invalidState ("groups." ++ group ++ " contains a non-UTC-aligned window"))

end GroupSpend

namespace PersistedBudgetState

theorem ascending_nil : (Assoc.keys ([] : List (String × GroupSpend F))).Pairwise (· < ·) := List.Pairwise.nil

def default : PersistedBudgetState F := ⟨stateVersion, [], ascending_nil⟩

variable (state : PersistedBudgetState F)

def validate : Except BudgetLoadError Unit :=
  if state.version = stateVersion then state.groups.forM fun e => e.2.validate A e.1
  else .error (.unsupportedVersion state.version stateVersion)

def get (name : String) : Option (GroupSpend F) := Assoc.get state.groups name

def put (name : String) (g : GroupSpend F) : PersistedBudgetState F where
  version := state.version
  groups := Assoc.insert state.groups name g
  sorted := Assoc.ascending_insert state.sorted

/-- `entry(name).or_insert_with` -/
def entry (name : String) (now : Int) : GroupSpend F := (state.get name).getD (.new A now)

end PersistedBudgetState

def usage (limits : BudgetLimits F) (g : GroupSpend F) (projectedUsd : F) (p : BudgetPeriod) : Option F :=
  (limits.limit p).map fun limit => A.div (A.add ((g.window p).spend.totalUsd A) projectedUsd) limit

def exhaustedThreshold : F := A.ofNat 1

/-- `0.80` -/
def downgradeThreshold : F := A.div (A.ofNat 4) (A.ofNat 5)

def decide (g : GroupSpend F) (limits : BudgetLimits F) (projectedUsd : F) : BudgetDecision :=
  let reached (threshold : F) (p : BudgetPeriod) : Bool := (usage A limits g projectedUsd p).any (A.le threshold)
  match BudgetPeriod.all.find? (reached (exhaustedThreshold A)) with
  | some p => .reject p.reason
  | none => if BudgetPeriod.all.any (reached (downgradeThreshold A)) then .downgrade .balanced else .allow

def periodSnapshot (w : WindowSpend F) (limitUsd : Option F) : BudgetPeriodSnapshot F where
  startsAt := w.startsAt
  spend := w.spend
  limitUsd := limitUsd
  remainingUsd := limitUsd.map fun limit => A.max (A.sub limit (w.spend.totalUsd A)) A.zero

def snapshotFor (g : GroupSpend F) (limits : Option (BudgetLimits F)) : BudgetSnapshot F :=
  let limits := limits.getD {}
  { hourly := periodSnapshot A g.hourly limits.hourlyLimitUsd
    daily := periodSnapshot A g.daily limits.dailyLimitUsd
    monthly := periodSnapshot A g.monthly limits.monthlyLimitUsd }

structure Update (F α : Type) where
  answer : α
  next : Option (PersistedBudgetState F)

def Update.map {F α β : Type} (f : α → β) (u : Update F α) : Update F β := ⟨f u.answer, u.next⟩

namespace PersistedBudgetState
variable (state : PersistedBudgetState F)

def recordSpendAt (name : String) (charge : SpendCharge F) (now : Int) (limits : Option (BudgetLimits F)) :
    Except (BudgetPricingError F) (Update F (BudgetSnapshot F)) := do
  let charge ← SpendCharge.new A charge.usd charge.accuracy
  let group ← ((state.entry A name now).resetExpired A now).1.add A charge
  pure ⟨snapshotFor A group limits, some (state.put name group)⟩

def snapshotAt (name : String) (limits : Option (BudgetLimits F)) (now : Int) : Update F (BudgetSnapshot F) :=
  let group := (state.entry A name now).resetExpired A now
  ⟨snapshotFor A group.1 limits, if group.2 then some (state.put name group.1) else none⟩

def checkAt (input : BudgetCheckInput F) (now : Int) : Except (BudgetPricingError F) (Update F BudgetDecision) :=
  match input.configuredLimits with
  | none => .ok ⟨.allow, none⟩
  | some limits => do
    let projectedCharge ← estimateRequestCharge A input
    let group := (state.entry A input.modelGroup now).resetExpired A now
    pure ⟨decide A group.1 limits projectedCharge.usd,
      if group.2 then some (state.put input.modelGroup group.1) else none⟩

end PersistedBudgetState

inductive BudgetCall (F : Type)
  | recordSpend (modelGroup : String) (charge : SpendCharge F) (limits : Option (BudgetLimits F))
  | check (input : BudgetCheckInput F)
  | snapshot (modelGroup : String) (limits : Option (BudgetLimits F))

inductive BudgetAnswer (F : Type)
  | snapshot (snapshot : BudgetSnapshot F)
  | decision (decision : BudgetDecision)
deriving DecidableEq

namespace BudgetCall
variable (call : BudgetCall F)

def modelGroup : BudgetCall F → String
  | .recordSpend name _ _ => name
  | .check input => input.modelGroup
  | .snapshot name _ => name

def charge : BudgetCall F → Option (SpendCharge F)
  | .recordSpend _ charge _ => some charge
  | .check _ | .snapshot _ _ => none

/-- What the call does with the state, under the lock, before anything is persisted. -/
def run (state : PersistedBudgetState F) (now : Int) : BudgetCall F →
    Except (BudgetPricingError F) (Update F (BudgetAnswer F))
  | .recordSpend name charge limits => (state.recordSpendAt A name charge now limits).map (·.map .snapshot)
  | .check input => (state.checkAt A input now).map (·.map .decision)
  | .snapshot name limits => .ok ((state.snapshotAt A name limits now).map .snapshot)

/-- The call under the lock: its result and the state after it. `persist` is what comes of the write. -/
def enter (persist : PersistedBudgetState F → Bool) (state : PersistedBudgetState F) (now : Int) :
    Except (BudgetControllerError F) (BudgetAnswer F) × PersistedBudgetState F :=
  match call.run A state now with
  | .error e => (.error (.pricing e), state)
  | .ok ⟨answer, none⟩ => (.ok answer, state)
  | .ok ⟨answer, some next⟩ => if persist next then (.ok answer, next) else (.error .persist, state)

end BudgetCall

/-- `BudgetPolicy::check` -/
def policyCheck (result : Except (BudgetControllerError F) BudgetDecision) : BudgetDecision :=
  result.toOption.getD (.reject .policy)

end

theorem dateNaive_mul (d : Int) : dateNaive (d * dayNanos) = d := Int.mul_ediv_cancel d (by decide)

namespace BudgetPeriod

theorem mem_all (p : BudgetPeriod) : p ∈ all := by cases p <;> decide

theorem start_start (p : BudgetPeriod) (t : Int) : p.start (p.start t) = p.start t := by
  cases p with
  | hourly =>
    show t / hourNanos * hourNanos / hourNanos * hourNanos = t / hourNanos * hourNanos
    rw [Int.mul_ediv_cancel _ (by decide)]
  | daily =>
    show dateNaive (dateNaive t * dayNanos) * dayNanos = dateNaive t * dayNanos
    rw [dateNaive_mul]
  | monthly =>
    have hmonth (n : Int) : Calendar.monthIndex (Calendar.monthStart n) = n :=
      Calendar.monthIndex_eq_iff.2 ⟨le_refl _, Calendar.monthStart_lt_succ n⟩
    show monthStart (Calendar.monthStart _ * dayNanos) = monthStart t
    rw [monthStart, dateNaive_mul, hmonth, monthStart]

end BudgetPeriod

section
variable {F : Type} {A : Dollars F} {now : Int} {charge : SpendCharge F}

theorem validAmount_zero : validAmount A A.zero = true := by
  simp [validAmount, Dollars.zero, A.isFinite_zero, A.lt_zero_zero]

theorem validateMoney_eq_ok_iff {field : String} {value : F} {u : Unit} :
    validateMoney A field value = .ok u ↔ validAmount A value = true := by
  rw [validateMoney, Checks.guard_eq_ok_iff]
  exact and_iff_left rfl

theorem SpendCharge.new_eq_ok_iff {usd : F} {accuracy : SpendAccuracy} {c : SpendCharge F} :
    SpendCharge.new A usd accuracy = .ok c ↔ validAmount A usd = true ∧ c = ⟨usd, accuracy⟩ := by
  rw [SpendCharge.new, Checks.bind_eq_ok_iff]
  constructor
  · rintro ⟨u, hvalid, hc⟩
    exact ⟨validateMoney_eq_ok_iff.1 hvalid, (Except.ok.inj hc).symm⟩
  · rintro ⟨hvalid, rfl⟩
    exact ⟨(), validateMoney_eq_ok_iff.2 hvalid, rfl⟩

namespace SpendBreakdown
variable {s s' : SpendBreakdown F}

theorem add_eq_ok_iff : s.add A charge = .ok s' ↔ validAmount A (A.add (s.usd charge.accuracy) charge.usd) = true ∧
      s' = s.setUsd (A.add (s.usd charge.accuracy) charge.usd) charge.accuracy := by
  rw [add, Checks.bind_eq_ok_iff]
  constructor
  · rintro ⟨u, hvalid, hs⟩
    exact ⟨validateMoney_eq_ok_iff.1 hvalid, (Except.ok.inj hs).symm⟩
  · rintro ⟨hvalid, rfl⟩
    exact ⟨(), validateMoney_eq_ok_iff.2 hvalid, rfl⟩

theorem validate_eq_ok_iff {field : String} :
    s.validate A field = .ok ⟨⟩ ↔ validAmount A s.exactUsd = true ∧ validAmount A s.estimatedUsd = true := by
  rw [validate, Checks.forM_eq_ok_iff]
  simp

theorem usd_setUsd (value : F) (accuracy other : SpendAccuracy) :
    (s.setUsd value accuracy).usd other = if other = accuracy then value else s.usd other := by
  cases accuracy <;> cases other <;> rfl

end SpendBreakdown

namespace GroupSpend
variable {g g' : GroupSpend F}

theorem ext_window (h : ∀ p, g.window p = g'.window p) : g = g' := by
  obtain ⟨hourly, daily, monthly⟩ := g
  obtain ⟨hourly', daily', monthly'⟩ := g'
  have h₁ : hourly = hourly' := h .hourly
  have h₂ : daily = daily' := h .daily
  have h₃ : monthly = monthly' := h .monthly
  rw [h₁, h₂, h₃]

theorem window_new (p : BudgetPeriod) : (new A now).window p = .new A (p.start now) := by cases p <;> rfl

theorem window_resetExpired (p : BudgetPeriod) : (g.resetExpired A now).1.window p =
      if (g.window p).startsAt = p.start now then g.window p else .new A (p.start now) := by
  cases p <;> exact apply_ite Prod.fst _ _ _

theorem startsAt_resetExpired (p : BudgetPeriod) : ((g.resetExpired A now).1.window p).startsAt = p.start now := by
  rw [window_resetExpired]
  split
  · assumption
  · rfl

def Expired (g : GroupSpend F) (now : Int) : Prop := ∃ p, (g.window p).startsAt ≠ BudgetPeriod.start p now

theorem resetTo_snd {w : WindowSpend F} {t : Int} : (w.resetTo A t).2 = true ↔ w.startsAt ≠ t := by
  unfold WindowSpend.resetTo
  split <;> simp [*]

theorem resetExpired_snd : (g.resetExpired A now).2 = true ↔ g.Expired now := by
  have hor : (g.resetExpired A now).2 = true ↔ (g.hourly.startsAt ≠ hourStart now ∨ g.daily.startsAt ≠ dayStart now) ∨
      g.monthly.startsAt ≠ monthStart now := by
    simp only [resetExpired, Bool.or_eq_true, resetTo_snd]
  rw [hor]
  constructor
  · rintro ((h | h) | h)
    exacts [⟨.hourly, h⟩, ⟨.daily, h⟩, ⟨.monthly, h⟩]
  · rintro ⟨p, h⟩
    cases p with
    | hourly => exact .inl (.inl h)
    | daily => exact .inl (.inr h)
    | monthly => exact .inr h

theorem add_eq_ok_iff : g.add A charge = .ok g' ↔ ∀ p, (g.window p).spend.add A charge = .ok (g'.window p).spend ∧
    (g'.window p).startsAt = (g.window p).startsAt := by
  simp only [add, Checks.bind_eq_ok_iff, Checks.pure_eq_ok_iff]
  constructor
  · rintro ⟨hourly, h₁, daily, h₂, monthly, h₃, rfl⟩ p
    cases p with
    | hourly => exact ⟨h₁, rfl⟩
    | daily => exact ⟨h₂, rfl⟩
    | monthly => exact ⟨h₃, rfl⟩
  · intro h
    refine ⟨_, (h .hourly).1, _, (h .daily).1, _, (h .monthly).1, ext_window fun p => ?_⟩
    obtain ⟨⟨s₁, b₁⟩, ⟨s₂, b₂⟩, ⟨s₃, b₃⟩⟩ := g'
    cases p with
    | hourly => exact congrArg (WindowSpend.mk · b₁) (h .hourly).2.symm
    | daily => exact congrArg (WindowSpend.mk · b₂) (h .daily).2.symm
    | monthly => exact congrArg (WindowSpend.mk · b₃) (h .monthly).2.symm

end GroupSpend

def GroupSpend.update (A : Dollars F) (g : GroupSpend F) (now : Int) :
    Option (SpendCharge F) → Except (BudgetPricingError F) (GroupSpend F)
  | none => .ok (g.resetExpired A now).1
  | some charge => (g.resetExpired A now).1.add A charge

def BudgetCall.Writes (A : Dollars F) (state : PersistedBudgetState F) (now : Int) : BudgetCall F → Prop
  | .recordSpend name charge _ => validAmount A charge.usd = true ∧
    ∃ g, (state.entry A name now).update A now (some charge) = .ok g
  | .check input => input.configuredLimits.isSome = true ∧ (∃ charge, estimateRequestCharge A input = .ok charge) ∧
    (state.entry A input.modelGroup now).Expired now
  | .snapshot name _ => (state.entry A name now).Expired now

theorem PersistedBudgetState.recordSpendAt_eq {state : PersistedBudgetState F} {name : String}
    {limits : Option (BudgetLimits F)} (h : validAmount A charge.usd = true) :
    state.recordSpendAt A name charge now limits = ((state.entry A name now).update A now (some charge)).map fun g =>
      ⟨snapshotFor A g limits, some (state.put name g)⟩ := by
  have hnew : SpendCharge.new A charge.usd charge.accuracy = .ok charge := SpendCharge.new_eq_ok_iff.2 ⟨h, rfl⟩
  unfold recordSpendAt GroupSpend.update
  rw [hnew]
  rfl

namespace BudgetCall
variable {state : PersistedBudgetState F} {call : BudgetCall F}

theorem run_of_writes (h : call.Writes A state now) : ∃ answer g,
    call.run A state now = .ok ⟨answer, some (state.put call.modelGroup g)⟩ ∧
      (state.entry A call.modelGroup now).update A now call.charge = .ok g := by
  cases call with
  | recordSpend name charge limits =>
    obtain ⟨hvalid, g, hg⟩ := h
    refine ⟨.snapshot (snapshotFor A g limits), g, ?_, hg⟩
    rw [run, PersistedBudgetState.recordSpendAt_eq hvalid, hg]
    rfl
  | check input =>
    obtain ⟨hlimits, ⟨charge, hcharge⟩, hexpired⟩ := h
    obtain ⟨limits, hlimits⟩ := Option.isSome_iff_exists.1 hlimits
    let reset := ((state.entry A input.modelGroup now).resetExpired A now).1
    refine ⟨.decision (decide A reset limits charge.usd), reset, ?_, rfl⟩
    simp only [run, PersistedBudgetState.checkAt, hlimits, hcharge, GroupSpend.resetExpired_snd.2 hexpired]
    rfl
  | snapshot name limits =>
    let reset := ((state.entry A name now).resetExpired A now).1
    refine ⟨.snapshot (snapshotFor A reset limits), reset, ?_, rfl⟩
    simp only [run, PersistedBudgetState.snapshotAt, GroupSpend.resetExpired_snd.2 h]
    rfl

theorem run_of_not_writes (h : ¬ call.Writes A state now) : (∃ e, call.run A state now = .error e) ∨
      call.charge = none ∧ ∃ answer, call.run A state now = .ok ⟨answer, none⟩ := by
  cases call with
  | recordSpend name charge limits =>
    left
    cases hnew : SpendCharge.new A charge.usd charge.accuracy with
    | error e => exact ⟨e, by simp only [run, PersistedBudgetState.recordSpendAt, hnew]; rfl⟩
    | ok c =>
      have hvalid := (SpendCharge.new_eq_ok_iff.1 hnew).1
      cases hadd : (state.entry A name now).update A now (some charge) with
      | error e => exact ⟨e, by rw [run, PersistedBudgetState.recordSpendAt_eq hvalid, hadd]; rfl⟩
      | ok g => exact absurd ⟨hvalid, g, hadd⟩ h
  | check input =>
    rcases hlimits : input.configuredLimits with _ | limits
    · exact .inr ⟨rfl, .decision .allow, by simp only [run, PersistedBudgetState.checkAt, hlimits]; rfl⟩
    cases hcharge : estimateRequestCharge A input with
    | error e => exact .inl ⟨e, by simp only [run, PersistedBudgetState.checkAt, hlimits, hcharge]; rfl⟩
    | ok charge =>
      have hreset : ((state.entry A input.modelGroup now).resetExpired A now).2 = false := by
        rw [Bool.eq_false_iff, Ne, GroupSpend.resetExpired_snd]
        exact fun hexpired => h ⟨by rw [hlimits]; rfl, ⟨charge, hcharge⟩, hexpired⟩
      let reset := ((state.entry A input.modelGroup now).resetExpired A now).1
      refine .inr ⟨rfl, .decision (decide A reset limits charge.usd), ?_⟩
      simp only [run, PersistedBudgetState.checkAt, hlimits, hcharge, hreset]
      rfl
  | snapshot name limits =>
    have hreset : ((state.entry A name now).resetExpired A now).2 = false := by
      rw [Bool.eq_false_iff, Ne, GroupSpend.resetExpired_snd]
      exact h
    let reset := ((state.entry A name now).resetExpired A now).1
    refine .inr ⟨rfl, .snapshot (snapshotFor A reset limits), ?_⟩
    simp only [run, PersistedBudgetState.snapshotAt, hreset]
    rfl

theorem enter_of_writes (persist : PersistedBudgetState F → Bool) (h : call.Writes A state now)
    (hpersist : ∀ next, persist next = true) : ∃ answer g,
      call.enter A persist state now = (.ok answer, state.put call.modelGroup g) ∧
        (state.entry A call.modelGroup now).update A now call.charge = .ok g := by
  obtain ⟨answer, g, hrun, hg⟩ := run_of_writes h
  exact ⟨answer, g, by simp only [enter, hrun, hpersist, if_true], hg⟩

theorem enter_of_not_writes (persist : PersistedBudgetState F → Bool)
    (h : call.Writes A state now → ∀ next, persist next = false) :
    (call.enter A persist state now).2 = state ∧
      ((call.enter A persist state now).1.isOk = true → call.charge = none) := by
  by_cases hwrites : call.Writes A state now
  · obtain ⟨answer, g, hrun, -⟩ := run_of_writes hwrites
    simp only [enter, hrun, h hwrites]
    exact ⟨rfl, nofun⟩
  · rcases run_of_not_writes hwrites with ⟨e, hrun⟩ | ⟨hcharge, answer, hrun⟩
    · rw [enter, hrun]
      exact ⟨rfl, nofun⟩
    · rw [enter, hrun]
      exact ⟨rfl, fun _ => hcharge⟩

end BudgetCall

structure GroupSpend.Valid (A : Dollars F) (g : GroupSpend F) : Prop where
  spend : ∀ p accuracy, validAmount A ((g.window p).spend.usd accuracy) = true
  aligned : ∀ p, (g.window p).startsAt = BudgetPeriod.start p (g.window p).startsAt

namespace GroupSpend
variable {g g' : GroupSpend F}

theorem validate_eq_ok_iff {name : String} : g.validate A name = .ok ⟨⟩ ↔ g.Valid A := by
  rw [validate, Checks.bind_eq_ok_iff]
  constructor
  · rintro ⟨⟨⟩, hspend, haligned⟩
    have hspend := Checks.forM_eq_ok_iff.1 hspend
    refine ⟨fun p accuracy => ?_, fun p => ?_⟩
    · obtain ⟨hexact, hestimated⟩ := SpendBreakdown.validate_eq_ok_iff.1 (hspend p p.mem_all)
      cases accuracy with
      | exact => exact hexact
      | estimated => exact hestimated
    · exact of_decide_eq_true (List.all_eq_true.1 (Checks.guard_eq_ok_iff.1 haligned).1 p p.mem_all)
  · intro h
    refine ⟨⟨⟩, Checks.forM_eq_ok_iff.2 fun p _ => ?_, Checks.guard_eq_ok_iff.2 ⟨?_, rfl⟩⟩
    · exact SpendBreakdown.validate_eq_ok_iff.2 ⟨h.spend p .exact, h.spend p .estimated⟩
    · exact List.all_eq_true.2 fun p _ => decide_eq_true (h.aligned p)

theorem Valid.new (now : Int) : (GroupSpend.new A now).Valid A := by
  refine ⟨fun p accuracy => ?_, fun p => ?_⟩
  · rw [window_new]
    cases accuracy <;> exact validAmount_zero
  · rw [window_new]
    exact (p.start_start now).symm

theorem Valid.resetExpired (h : g.Valid A) (now : Int) : (g.resetExpired A now).1.Valid A := by
  refine ⟨fun p accuracy => ?_, fun p => ?_⟩
  · rw [window_resetExpired]
    split
    · exact h.spend p accuracy
    · cases accuracy <;> exact validAmount_zero
  · rw [startsAt_resetExpired, p.start_start]

theorem Valid.update {charge : Option (SpendCharge F)} (h : g.Valid A) (hg : g.update A now charge = .ok g') :
    g'.Valid A := by
  rcases charge with _ | charge
  · cases hg
    exact h.resetExpired now
  have hreset := h.resetExpired now
  have hadd := add_eq_ok_iff.1 hg
  refine ⟨fun p accuracy => ?_, fun p => ?_⟩
  · obtain ⟨hvalid, hs⟩ := SpendBreakdown.add_eq_ok_iff.1 (hadd p).1
    rw [hs, SpendBreakdown.usd_setUsd]
    split
    · exact hvalid
    · exact hreset.spend p accuracy
  · rw [(hadd p).2]
    exact hreset.aligned p

theorem startsAt_update {charge : Option (SpendCharge F)} (hg : g.update A now charge = .ok g') (p : BudgetPeriod) :
    (g'.window p).startsAt = p.start now := by
  cases charge with
  | none =>
    cases hg
    exact startsAt_resetExpired p
  | some charge => rw [(add_eq_ok_iff.1 hg p).2, startsAt_resetExpired]

end GroupSpend

namespace PersistedBudgetState
variable {state : PersistedBudgetState F} {name other : String} {g : GroupSpend F}

theorem nodup (state : PersistedBudgetState F) : (Assoc.keys state.groups).Nodup := state.sorted.imp ne_of_lt

theorem get_put : (state.put name g).get other = if other = name then some g else state.get other := Assoc.get_insert

/-- A state that `load` lets through. -/
structure Valid (A : Dollars F) (state : PersistedBudgetState F) : Prop where
  version : state.version = stateVersion
  groups : ∀ name g, state.get name = some g → g.Valid A

theorem validate_eq_ok_iff : state.validate A = .ok ⟨⟩ ↔ state.Valid A := by
  rw [validate, Checks.guard_eq_ok_iff, Checks.forM_eq_ok_iff]
  constructor
  · rintro ⟨hversion, hgroups⟩
    exact ⟨hversion, fun name g hg => GroupSpend.validate_eq_ok_iff.1 (hgroups _ (Assoc.mem_of_get hg))⟩
  · rintro ⟨hversion, hgroups⟩
    refine ⟨hversion, fun e he => GroupSpend.validate_eq_ok_iff.2 (hgroups e.1 e.2 ?_)⟩
    exact (Assoc.mem_iff_get state.nodup).1 he

theorem Valid.default : (PersistedBudgetState.default : PersistedBudgetState F).Valid A := ⟨rfl, fun _ _ h => nomatch h⟩

theorem Valid.entry (h : state.Valid A) (name : String) (now : Int) : (state.entry A name now).Valid A := by
  unfold PersistedBudgetState.entry
  cases hg : state.get name with
  | none => exact .new now
  | some g => exact h.groups name g hg

theorem Valid.put (h : state.Valid A) (hg : g.Valid A) : (state.put name g).Valid A := by
  refine ⟨h.version, fun other g' hget => ?_⟩
  rw [get_put] at hget
  split at hget
  · cases hget
    exact hg
  · exact h.groups other g' hget

end PersistedBudgetState

end

end ObeyGateway.SmartRouting
