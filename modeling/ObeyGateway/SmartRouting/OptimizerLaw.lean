import Mathlib.Tactic.Linarith
import Mathlib.Tactic.Ring
import ObeyGateway.SmartRouting.OnlineOptimizer

/-!
# The law of the online optimizer

Records keep the averages between the bounds of what was recorded (`updateEma_mem`), and an optimization keeps the
boundaries apart (`lowerFastMax_law`, `lowerBalancedMax_law`), so that a valid state stays valid.
-/

namespace ObeyGateway.SmartRouting
open AtomicFile

/-! ### Validation -/

variable {b : TierBoundaries ℚ}

theorem validBoundaries_iff : validBoundaries b = true ↔
    0 < b.fastMax ∧ b.fastMax + minBoundaryGap ≤ b.balancedMax ∧ b.balancedMax < 1 := by
  rw [validBoundaries, Bool.and_eq_true, Bool.and_eq_true, less_iff, atMost_iff, less_iff, and_assoc]

theorem inBound_iff {maximum value : ℚ} : inBound maximum value = true ↔ 0 ≤ value ∧ value ≤ maximum := by
  rw [inBound, Bool.and_eq_true, atMost_iff, atMost_iff]

inductive EmaField
  | complexityScore | quality | costUsd | latencyMs

namespace EmaField

def ema : EmaField → AggregateSnapshot → Option ℚ
  | complexityScore, a => a.complexityScoreEma
  | quality, a => a.qualityEma
  | costUsd, a => a.costUsdEma
  | latencyMs, a => a.latencyMsEma

def value : EmaField → RequestOutcome → ℚ
  | complexityScore, o => o.complexityScore
  | quality, o => o.qualityScore
  | costUsd, o => o.costUsd
  | latencyMs, o => o.latencyMs

def maximum : EmaField → ℚ
  | complexityScore => 1
  | quality => 1
  | costUsd => maxOutcomeCostUsd
  | latencyMs => maxOutcomeLatencyMs

theorem ema_observe (field : EmaField) (a : AggregateSnapshot) (outcome : RequestOutcome) (alpha : ℚ) :
    field.ema (a.observe outcome alpha) = updateEma (field.ema a) (field.value outcome) alpha := by
  cases field <;> rfl

end EmaField

theorem outcome_validate_iff {outcome : RequestOutcome} :
    outcome.validate = .ok () ↔ ∀ field : EmaField, inBound field.maximum (field.value outcome) = true := by
  unfold RequestOutcome.validate
  constructor
  · intro h field
    split_ifs at h with hcomplexity hquality hcost hlatency
    rw [Bool.not_eq_true', Bool.not_eq_false] at hcomplexity hquality hcost hlatency
    cases field with
    | complexityScore => exact hcomplexity
    | quality => exact hquality
    | costUsd => exact hcost
    | latencyMs => exact hlatency
  · intro h
    have hcomplexity := h .complexityScore
    have hquality := h .quality
    have hcost := h .costUsd
    have hlatency := h .latencyMs
    simp only [EmaField.maximum, EmaField.value] at hcomplexity hquality hcost hlatency
    simp [hcomplexity, hquality, hcost, hlatency]

theorem validateOptional_iff {field maximumText : String} {maximum : ℚ} {value : Option ℚ} :
    validateOptional field maximumText maximum value = .ok () ↔ value.all (inBound maximum) = true := by
  rw [validateOptional, Checks.guard_eq_ok_iff, and_iff_left rfl]

theorem aggregate_validate_iff {a : AggregateSnapshot} : a.validate = .ok () ↔
    ∀ field : EmaField, (field.ema a).all (inBound field.maximum) = true ∧ ((field.ema a).isSome = true ↔ 0 < a.samples) := by
  have hfields : ∀ P : EmaField → Prop, (∀ field, P field) ↔ P .complexityScore ∧ P .quality ∧ P .costUsd ∧ P .latencyMs := by
    intro P
    constructor
    · exact fun h => ⟨h _, h _, h _, h _⟩
    · rintro ⟨h₁, h₂, h₃, h₄⟩ (_ | _ | _ | _)
      exacts [h₁, h₂, h₃, h₄]
  rw [hfields]
  simp only [EmaField.ema, EmaField.maximum, AggregateSnapshot.validate, Checks.seq_eq_ok_iff, validateOptional_iff]
  rcases a with ⟨samples, complexity, quality, cost, latency⟩
  have hif : ∀ {p q : Prop} [Decidable p] [Decidable q] {e e' : OptimizerStateError},
      (if p then Except.error e else if q then Except.error e' else .ok ()) = .ok () ↔ ¬ p ∧ ¬ q := by
    intro p q _ _ e e'
    split_ifs with hp hq
    · simp [hp]
    · simp [hq]
    · simp [hp, hq]
  simp only [hif]
  rcases Nat.eq_zero_or_pos samples with hzero | hpos
  · subst hzero
    cases complexity <;> cases quality <;> cases cost <;> cases latency <;> simp
  · have hne : samples ≠ 0 := by omega
    cases complexity <;> cases quality <;> cases cost <;> cases latency <;> simp [hpos, hne]

theorem mem_allTaskTypes (task : TaskType) : task ∈ allTaskTypes := by cases task <;> decide

theorem mem_allTiers (tier : SmartRoutingTier) : tier ∈ allTiers := by cases tier <;> decide

theorem nodup_allTaskTypes : allTaskTypes.Nodup := by decide

structure PersistedOptimizerState.Valid (state : PersistedOptimizerState) : Prop where
  version : state.version = optimizerVersion
  configured : validBoundaries state.configuredBoundaries = true
  tasks : Keyed.Table TaskBoundarySnapshot.taskType state.adjustedBoundaries
  boundaries : ∀ e ∈ state.adjustedBoundaries, validBoundaries e.boundaries = true
  tiers : Keyed.Table TierAggregateSnapshot.tier state.tierAggregates
  tierAggregates : ∀ e ∈ state.tierAggregates, e.aggregate.validate = .ok ()
  taskTiers : Keyed.Table TaskTierAggregateSnapshot.key state.taskTierAggregates
  taskTierAggregates : ∀ e ∈ state.taskTierAggregates, e.aggregate.validate = .ok ()

theorem validateBoundaries_iff : validateBoundaries b = .ok () ↔ validBoundaries b = true := by
  rw [validateBoundaries, Checks.guard_eq_ok_iff, and_iff_left rfl]

theorem validateTaskBoundaries_iff {entries : List TaskBoundarySnapshot} : validateTaskBoundaries entries = .ok () ↔
    Keyed.Table TaskBoundarySnapshot.taskType entries ∧ ∀ e ∈ entries, validBoundaries e.boundaries = true := by
  rw [validateTaskBoundaries, Keyed.check_eq_ok_iff nodup_allTaskTypes mem_allTaskTypes]
  simp only [validateBoundaries_iff]

theorem PersistedOptimizerState.validate_iff {state : PersistedOptimizerState} : state.validate = .ok () ↔ state.Valid := by
  have hpairs : (allTaskTypes.flatMap fun task => allTiers.map fun tier => (task, tier)).Nodup := by decide
  have hmem : ∀ k, k ∈ allTaskTypes.flatMap fun task => allTiers.map fun tier => (task, tier) := fun (task, tier) =>
    List.mem_flatMap.2 ⟨task, mem_allTaskTypes task, List.mem_map.2 ⟨tier, mem_allTiers tier, rfl⟩⟩
  rw [validate, ite_not, Checks.guard_eq_ok_iff]
  simp only [Checks.seq_eq_ok_iff, validateBoundaries_iff, validateTaskBoundaries_iff]
  rw [validateTierAggregates, Keyed.check_eq_ok_iff (by decide) mem_allTiers, validateTaskTierAggregates,
    Keyed.check_eq_ok_iff hpairs hmem]
  constructor
  · rintro ⟨hversion, hconfigured, ⟨htasks, hboundaries⟩, ⟨htiers, haggregates⟩, htaskTiers, htaskAggregates⟩
    exact ⟨hversion, hconfigured, htasks, hboundaries, htiers, haggregates, htaskTiers, htaskAggregates⟩
  · intro h
    exact ⟨h.version, h.configured, ⟨h.tasks, h.boundaries⟩, ⟨h.tiers, h.tierAggregates⟩, h.taskTiers,
      h.taskTierAggregates⟩

theorem PersistedOptimizerState.defaults_valid (hb : validBoundaries b = true) (now : Int) : (defaults b now).Valid where
  version := rfl
  configured := hb
  tasks := fun task => by cases task <;> rfl
  boundaries := fun e he => by
    obtain ⟨task, -, rfl⟩ := List.mem_map.1 he
    exact hb
  tiers := fun tier => by cases tier <;> rfl
  tierAggregates := fun e he => by
    obtain ⟨tier, -, rfl⟩ := List.mem_map.1 he
    rfl
  taskTiers := fun (task, tier) => by cases task <;> cases tier <;> rfl
  taskTierAggregates := fun e he => by
    obtain ⟨task, -, he⟩ := List.mem_flatMap.1 he
    obtain ⟨tier, -, rfl⟩ := List.mem_map.1 he
    rfl

/-! ### Averages -/

def Within (lo hi : ℚ) (value : Option ℚ) : Prop := ∀ x ∈ value, lo ≤ x ∧ x ≤ hi

theorem all_inBound_iff {maximum : ℚ} {value : Option ℚ} : value.all (inBound maximum) = true ↔ Within 0 maximum value := by
  cases value with
  | none => simp [Within]
  | some x => simp [Within, inBound_iff]

section
variable {lo hi observed alpha : ℚ} {current : Option ℚ}

/-- The average moves to a point between what it was and what is observed. -/
theorem updateEma_mem (halpha : 0 < alpha ∧ alpha ≤ 1) (hobserved : lo ≤ observed ∧ observed ≤ hi)
    (hcurrent : Within lo hi current) : Within lo hi (updateEma current observed alpha) := by
  intro x hx
  rcases current with _ | previous
  · cases hx
    exact hobserved
  cases hx
  obtain ⟨hlo, hhi⟩ := hcurrent previous rfl
  have hrest : 0 ≤ 1 - alpha := by linarith
  constructor
  · calc lo = alpha * lo + (1 - alpha) * lo := by ring
      _ ≤ alpha * observed + (1 - alpha) * previous :=
        add_le_add (mul_le_mul_of_nonneg_left hobserved.1 halpha.1.le) (mul_le_mul_of_nonneg_left hlo hrest)
  · calc alpha * observed + (1 - alpha) * previous
        ≤ alpha * hi + (1 - alpha) * hi :=
          add_le_add (mul_le_mul_of_nonneg_left hobserved.2 halpha.1.le) (mul_le_mul_of_nonneg_left hhi hrest)
      _ = hi := by ring

theorem isSome_updateEma : (updateEma current observed alpha).isSome = true := by cases current <;> rfl

theorem observe_valid {a : AggregateSnapshot} {outcome : RequestOutcome} (halpha : 0 < alpha ∧ alpha ≤ 1)
    (houtcome : outcome.validate = .ok ()) (h : a.validate = .ok ()) : (a.observe outcome alpha).validate = .ok () := by
  refine aggregate_validate_iff.2 fun field => ?_
  rw [EmaField.ema_observe]
  refine ⟨all_inBound_iff.2 (updateEma_mem halpha ?_ ?_), ?_⟩
  · exact inBound_iff.1 (outcome_validate_iff.1 houtcome field)
  · exact all_inBound_iff.1 (aggregate_validate_iff.1 h field).1
  · have hsamples : 0 < (a.observe outcome alpha).samples := Nat.lt_min.2 ⟨Nat.succ_pos _, by norm_num⟩
    exact iff_of_true isSome_updateEma hsamples

end

theorem forall_mem_modify {κ α : Type} [DecidableEq κ] {key : α → κ} {k : κ} {f : α → α} {entries : List α} {P : α → Prop}
    (h : ∀ e ∈ entries, P e) (hf : ∀ e ∈ entries, P e → P (f e)) : ∀ e ∈ Keyed.modify key k f entries, P e := by
  intro e he
  rcases Keyed.mem_modify he with he | ⟨b, hb, -, rfl⟩
  · exact h e he
  · exact hf b hb (h b hb)

namespace PersistedOptimizerState

def tierEma (state : PersistedOptimizerState) (field : EmaField) (tier : SmartRoutingTier) : Option ℚ :=
  (Keyed.find TierAggregateSnapshot.tier tier state.tierAggregates).bind fun entry => field.ema entry.aggregate

def taskTierEma (state : PersistedOptimizerState) (field : EmaField) (task : TaskType) (tier : SmartRoutingTier) : Option ℚ :=
  (Keyed.find TaskTierAggregateSnapshot.key (task, tier) state.taskTierAggregates).bind fun entry =>
    field.ema entry.aggregate

end PersistedOptimizerState

def TierAggregateSnapshot.observed (outcome : RequestOutcome) (alpha : ℚ) (entry : TierAggregateSnapshot) :
    TierAggregateSnapshot := { entry with aggregate := entry.aggregate.observe outcome alpha }

def TaskTierAggregateSnapshot.observed (outcome : RequestOutcome) (alpha : ℚ) (entry : TaskTierAggregateSnapshot) :
    TaskTierAggregateSnapshot := { entry with aggregate := entry.aggregate.observe outcome alpha }

/-- What `record` makes of the state of an enabled optimizer with an outcome that passes. -/
def PersistedOptimizerState.observed (state : PersistedOptimizerState) (outcome : RequestOutcome) (alpha : ℚ) :
    PersistedOptimizerState :=
  { state with
    tierAggregates := Keyed.modify TierAggregateSnapshot.tier outcome.tier (TierAggregateSnapshot.observed outcome alpha)
      state.tierAggregates
    taskTierAggregates := Keyed.modify TaskTierAggregateSnapshot.key (outcome.taskType, outcome.tier)
      (TaskTierAggregateSnapshot.observed outcome alpha) state.taskTierAggregates }

theorem record_cases (o : OnlineOptimizer) (outcome : RequestOutcome) :
    ((o.record outcome).1 ≠ .recorded ∧ (o.record outcome).2 = o) ∨
      outcome.validate = .ok () ∧ o.record outcome = (.recorded, { o with state := o.state.observed outcome o.alpha }) := by
  unfold OnlineOptimizer.record
  split
  · exact .inl ⟨by simp, rfl⟩
  · split
    · exact .inl ⟨by simp, rfl⟩
    · rename_i hvalid
      exact .inr ⟨hvalid, rfl⟩

section
variable {state : PersistedOptimizerState} {outcome : RequestOutcome} {alpha lo hi : ℚ}

theorem tier_observed (e : TierAggregateSnapshot) : (e.observed outcome alpha).tier = e.tier := rfl

theorem key_observed (e : TaskTierAggregateSnapshot) : (e.observed outcome alpha).key = e.key := rfl

theorem PersistedOptimizerState.Valid.observed (h : state.Valid) (halpha : 0 < alpha ∧ alpha ≤ 1)
    (houtcome : outcome.validate = .ok ()) : (state.observed outcome alpha).Valid where
  version := h.version
  configured := h.configured
  tasks := h.tasks
  boundaries := h.boundaries
  tiers := h.tiers.modify tier_observed outcome.tier
  tierAggregates := forall_mem_modify h.tierAggregates fun _ _ => observe_valid halpha houtcome
  taskTiers := h.taskTiers.modify key_observed (outcome.taskType, outcome.tier)
  taskTierAggregates := forall_mem_modify h.taskTierAggregates fun _ _ => observe_valid halpha houtcome

theorem tierEma_observed (field : EmaField) (tier : SmartRoutingTier) (halpha : 0 < alpha ∧ alpha ≤ 1)
    (houtcome : outcome.tier = tier → lo ≤ field.value outcome ∧ field.value outcome ≤ hi)
    (h : Within lo hi (state.tierEma field tier)) : Within lo hi ((state.observed outcome alpha).tierEma field tier) := by
  unfold PersistedOptimizerState.tierEma PersistedOptimizerState.observed at *
  rw [Keyed.find_modify tier_observed]
  split_ifs with htier
  · subst htier
    rcases hfind : Keyed.find TierAggregateSnapshot.tier outcome.tier state.tierAggregates with _ | entry
    · nofun
    rw [hfind] at h
    show Within lo hi (field.ema (entry.aggregate.observe outcome alpha))
    rw [EmaField.ema_observe]
    exact updateEma_mem halpha (houtcome rfl) h
  · exact h

theorem taskTierEma_observed (field : EmaField) (task : TaskType) (tier : SmartRoutingTier) (halpha : 0 < alpha ∧ alpha ≤ 1)
    (houtcome : outcome.taskType = task → outcome.tier = tier → lo ≤ field.value outcome ∧ field.value outcome ≤ hi)
    (h : Within lo hi (state.taskTierEma field task tier)) :
    Within lo hi ((state.observed outcome alpha).taskTierEma field task tier) := by
  unfold PersistedOptimizerState.taskTierEma PersistedOptimizerState.observed at *
  rw [Keyed.find_modify key_observed]
  split_ifs with hkey
  · obtain ⟨rfl, rfl⟩ := Prod.mk.inj hkey
    rcases hfind : Keyed.find TaskTierAggregateSnapshot.key (outcome.taskType, outcome.tier) state.taskTierAggregates with _ | entry
    · nofun
    rw [hfind] at h
    show Within lo hi (field.ema (entry.aggregate.observe outcome alpha))
    rw [EmaField.ema_observe]
    exact updateEma_mem halpha (houtcome rfl rfl) h
  · exact h

end

/-! ### Boundaries -/

def BoundaryKind.of : BoundaryKind → TierBoundaries ℚ → ℚ
  | fastMax, b => b.fastMax
  | balancedMax, b => b.balancedMax

def moveOf (task : TaskType) (b b' : TierBoundaries ℚ) (kind : BoundaryKind) : List BoundaryMove :=
  if kind.of b = kind.of b' then [] else [⟨task, kind, kind.of b, kind.of b'⟩]

def movesOf (task : TaskType) (b b' : TierBoundaries ℚ) : List BoundaryMove :=
  moveOf task b b' .fastMax ++ moveOf task b b' .balancedMax

def Lowered (b b' : TierBoundaries ℚ) : Prop :=
  ∀ kind : BoundaryKind, kind.of b' ≤ kind.of b ∧ kind.of b - kind.of b' ≤ maxBoundaryMove

theorem Lowered.refl (b : TierBoundaries ℚ) : Lowered b b := by
  intro kind
  rw [sub_self]
  exact ⟨le_refl _, by norm_num [maxBoundaryMove]⟩

theorem moveOf_self (task : TaskType) (b : TierBoundaries ℚ) (kind : BoundaryKind) : moveOf task b b kind = [] := if_pos rfl

theorem moveOf_congr {task : TaskType} {b' c c' : TierBoundaries ℚ} (kind : BoundaryKind) (h : kind.of b = kind.of c)
    (h' : kind.of b' = kind.of c') : moveOf task b b' kind = moveOf task c c' kind := by
  unfold moveOf
  rw [h, h']

theorem larger_eq {a b : ℚ} : larger a b = max a b := by
  unfold larger
  split_ifs with h
  · exact (max_eq_right (le_of_lt (less_iff.1 h))).symm
  · exact (max_eq_left (not_lt.1 fun hlt => h (less_iff.2 hlt))).symm

section
variable {task : TaskType} {b : TierBoundaries ℚ}

theorem lowerFastMax_law (h : validBoundaries b = true) :
    validBoundaries (lowerFastMax task b).1 = true ∧ Lowered b (lowerFastMax task b).1 ∧
      (lowerFastMax task b).1.balancedMax = b.balancedMax ∧
      (lowerFastMax task b).2 = moveOf task b (lowerFastMax task b).1 .fastMax := by
  have hself : moveOf task b b .fastMax = [] := moveOf_self task b .fastMax
  obtain ⟨hpos, hgap, hone⟩ := validBoundaries_iff.1 h
  unfold lowerFastMax
  rw [larger_eq]
  dsimp only
  split_ifs with hmove
  · rw [Bool.and_eq_true, less_iff, less_iff] at hmove
    obtain ⟨hlt, hroom⟩ := hmove
    have hfloor : minBoundaryGap ≤ max (b.fastMax - maxBoundaryMove) minBoundaryGap := le_max_right _ _
    have hstep : b.fastMax - maxBoundaryMove ≤ max (b.fastMax - maxBoundaryMove) minBoundaryGap := le_max_left _ _
    have hminimum : 0 < minBoundaryGap := by norm_num [minBoundaryGap]
    refine ⟨validBoundaries_iff.2 ⟨lt_of_lt_of_le hminimum hfloor, le_of_lt hroom, hone⟩, ?_, rfl, (if_neg hlt.ne').symm⟩
    intro kind
    cases kind with
    | fastMax => exact ⟨le_of_lt hlt, by simp only [BoundaryKind.of]; linarith⟩
    | balancedMax => exact Lowered.refl b .balancedMax
  · exact ⟨h, .refl b, rfl, hself.symm⟩

theorem lowerBalancedMax_law (h : validBoundaries b = true) :
    validBoundaries (lowerBalancedMax task b).1 = true ∧ Lowered b (lowerBalancedMax task b).1 ∧
      (lowerBalancedMax task b).1.fastMax = b.fastMax ∧
      (lowerBalancedMax task b).2 = moveOf task b (lowerBalancedMax task b).1 .balancedMax := by
  have hself : moveOf task b b .balancedMax = [] := moveOf_self task b .balancedMax
  obtain ⟨hpos, hgap, hone⟩ := validBoundaries_iff.1 h
  unfold lowerBalancedMax
  rw [larger_eq]
  dsimp only
  split_ifs with hmove
  · rw [Bool.and_eq_true, less_iff, less_iff] at hmove
    obtain ⟨hlt, hroom⟩ := hmove
    have hfloor : b.fastMax + minBoundaryGap ≤ max (b.balancedMax - maxBoundaryMove) (b.fastMax + minBoundaryGap) :=
      le_max_right _ _
    have hstep : b.balancedMax - maxBoundaryMove ≤ max (b.balancedMax - maxBoundaryMove) (b.fastMax + minBoundaryGap) :=
      le_max_left _ _
    refine ⟨validBoundaries_iff.2 ⟨hpos, hfloor, hroom⟩, ?_, rfl, (if_neg hlt.ne').symm⟩
    intro kind
    cases kind with
    | fastMax => exact Lowered.refl b .fastMax
    | balancedMax => exact ⟨le_of_lt hlt, by simp only [BoundaryKind.of]; linarith⟩
  · exact ⟨h, .refl b, rfl, hself.symm⟩

/-- The two turns change a boundary each, the second one above the floor that the first one leaves. -/
theorem adjusted_law (state : PersistedOptimizerState) (threshold : ℚ) (task : TaskType) (h : validBoundaries b = true) :
    validBoundaries (state.adjusted threshold task b).1 = true ∧ Lowered b (state.adjusted threshold task b).1 ∧
      (state.adjusted threshold task b).2 = movesOf task b (state.adjusted threshold task b).1 := by
  let lower : TierBoundaries ℚ × List BoundaryMove :=
    if callsForMove (state.taskQuality task .fast) (state.taskQuality task .balanced) threshold then lowerFastMax task b
    else (b, [])
  let upper : TierBoundaries ℚ × List BoundaryMove :=
    if callsForMove (state.taskQuality task .balanced) (state.taskQuality task .powerful) threshold then
      lowerBalancedMax task lower.1
    else (lower.1, [])
  have hlower : validBoundaries lower.1 = true ∧ Lowered b lower.1 ∧ lower.1.balancedMax = b.balancedMax ∧
      lower.2 = moveOf task b lower.1 .fastMax := by
    dsimp only [lower]
    split_ifs
    · exact lowerFastMax_law h
    · exact ⟨h, .refl b, rfl, (moveOf_self task b .fastMax).symm⟩
  obtain ⟨hvalid, hlowered, hbalanced, hmoves⟩ := hlower
  have hupper : validBoundaries upper.1 = true ∧ Lowered lower.1 upper.1 ∧ upper.1.fastMax = lower.1.fastMax ∧
      upper.2 = moveOf task lower.1 upper.1 .balancedMax := by
    dsimp only [upper]
    split_ifs
    · exact lowerBalancedMax_law hvalid
    · exact ⟨hvalid, .refl lower.1, rfl, (moveOf_self task lower.1 .balancedMax).symm⟩
  obtain ⟨hvalid', hlowered', hfast, hmoves'⟩ := hupper
  show validBoundaries upper.1 = true ∧ Lowered b upper.1 ∧ lower.2 ++ upper.2 = movesOf task b upper.1
  refine ⟨hvalid', fun kind => ?_, ?_⟩
  · cases kind with
    | fastMax =>
      show upper.1.fastMax ≤ b.fastMax ∧ b.fastMax - upper.1.fastMax ≤ maxBoundaryMove
      rw [hfast]
      exact hlowered .fastMax
    | balancedMax =>
      show upper.1.balancedMax ≤ b.balancedMax ∧ b.balancedMax - upper.1.balancedMax ≤ maxBoundaryMove
      rw [← hbalanced]
      exact hlowered' .balancedMax
  · rw [hmoves, hmoves', movesOf, moveOf_congr .fastMax rfl hfast.symm, moveOf_congr .balancedMax hbalanced rfl]

end

def PersistedOptimizerState.boundariesOf (state : PersistedOptimizerState) (task : TaskType) : Option (TierBoundaries ℚ) :=
  (Keyed.find TaskBoundarySnapshot.taskType task state.adjustedBoundaries).map (·.boundaries)

def changesOf (before after : PersistedOptimizerState) (task : TaskType) : List BoundaryMove :=
  (before.boundariesOf task).elim [] fun b => (after.boundariesOf task).elim [] fun b' => movesOf task b b'

/-- What a pass over `tasks` makes of a valid state. -/
structure Adjusted (tasks : List TaskType) (before after : PersistedOptimizerState) (moves : List BoundaryMove) : Prop where
  valid : after.Valid
  tierAggregates : after.tierAggregates = before.tierAggregates
  taskTierAggregates : after.taskTierAggregates = before.taskTierAggregates
  lowered : ∀ task ∈ tasks, ∃ b b', before.boundariesOf task = some b ∧ after.boundariesOf task = some b' ∧ Lowered b b'
  others : ∀ task ∉ tasks, after.boundariesOf task = before.boundariesOf task
  moves_eq : moves = tasks.flatMap (changesOf before after)

def TaskBoundarySnapshot.withBoundaries (b : TierBoundaries ℚ) (entry : TaskBoundarySnapshot) : TaskBoundarySnapshot :=
  { entry with boundaries := b }

theorem taskType_withBoundaries (e : TaskBoundarySnapshot) : (e.withBoundaries b).taskType = e.taskType :=
  rfl

section
variable {state : PersistedOptimizerState} (threshold : ℚ)

theorem adjustTask_law (task : TaskType) (h : state.Valid) :
    Adjusted [task] state (adjustTask threshold task state).1 (adjustTask threshold task state).2 := by
  obtain ⟨entry, hfind⟩ := h.tasks.exists_find task
  obtain ⟨hmem, -⟩ := Keyed.find_some hfind
  obtain ⟨hvalid, hlowered, hmoves⟩ := adjusted_law state threshold task (h.boundaries entry hmem)
  let b' := (state.adjusted threshold task entry.boundaries).1
  let after : PersistedOptimizerState := { state with
    adjustedBoundaries := Keyed.modify TaskBoundarySnapshot.taskType task (TaskBoundarySnapshot.withBoundaries b')
      state.adjustedBoundaries }
  have hadjust : adjustTask threshold task state = (after, (state.adjusted threshold task entry.boundaries).2) := by
    unfold adjustTask
    rw [hfind]
    rfl
  have hbefore : state.boundariesOf task = some entry.boundaries := congrArg (Option.map _) hfind
  have hafter : ∀ t, after.boundariesOf t = if t = task then some b' else state.boundariesOf t := by
    intro t
    show (Keyed.find _ t (Keyed.modify _ task _ state.adjustedBoundaries)).map _ = _
    rw [Keyed.find_modify taskType_withBoundaries, hfind]
    split_ifs <;> rfl
  rw [hadjust]
  refine ⟨?_, rfl, rfl, fun t ht => ?_, fun t ht => ?_, ?_⟩
  · exact { h with
      tasks := h.tasks.modify taskType_withBoundaries task
      boundaries := forall_mem_modify h.boundaries fun _ _ _ => hvalid }
  · obtain rfl := List.mem_singleton.1 ht
    exact ⟨entry.boundaries, b', hbefore, by rw [hafter, if_pos rfl], hlowered⟩
  · rw [hafter, if_neg fun heq => ht (List.mem_singleton.2 heq)]
  · rw [List.flatMap_singleton, changesOf, hbefore, hafter, if_pos rfl]
    exact hmoves

theorem adjustTasks_law (tasks : List TaskType) (hnodup : tasks.Nodup) (h : state.Valid) :
    Adjusted tasks state (adjustTasks threshold tasks state).1 (adjustTasks threshold tasks state).2 := by
  induction tasks generalizing state with
  | nil => exact ⟨h, rfl, rfl, nofun, fun _ _ => rfl, rfl⟩
  | cons task tasks ih =>
    obtain ⟨hnotin, hnodup⟩ := List.nodup_cons.1 hnodup
    have hfirst := adjustTask_law threshold task h
    have hrest := ih hnodup hfirst.valid
    let mid := (adjustTask threshold task state).1
    let after := (adjustTasks threshold tasks mid).1
    have hmid : ∀ t ≠ task, mid.boundariesOf t = state.boundariesOf t := fun t ht =>
      hfirst.others t fun hmem => ht (List.mem_singleton.1 hmem)
    have hafter : after.boundariesOf task = mid.boundariesOf task := hrest.others task hnotin
    have hne : ∀ t ∈ tasks, t ≠ task := fun t ht heq => hnotin (heq ▸ ht)
    refine ⟨hrest.valid, ?_, ?_, fun t ht => ?_, fun t ht => ?_, ?_⟩
    · exact hrest.tierAggregates.trans hfirst.tierAggregates
    · exact hrest.taskTierAggregates.trans hfirst.taskTierAggregates
    · show ∃ b b', state.boundariesOf t = some b ∧ after.boundariesOf t = some b' ∧ Lowered b b'
      rcases List.mem_cons.1 ht with rfl | ht
      · rw [hafter]
        exact hfirst.lowered t List.mem_cons_self
      · rw [← hmid t (hne t ht)]
        exact hrest.lowered t ht
    · obtain ⟨ht, ht'⟩ := not_or.1 fun h => ht (List.mem_cons.2 h)
      exact (hrest.others t ht').trans (hmid t ht)
    · show (adjustTask threshold task state).2 ++ (adjustTasks threshold tasks mid).2 = _
      rw [hrest.moves_eq, List.flatMap_cons, hfirst.moves_eq, List.flatMap_singleton]
      congr 1
      · show changesOf state mid task = changesOf state after task
        rw [changesOf, changesOf, hafter]
      · refine List.flatMap_congr fun t ht => ?_
        show changesOf mid after t = changesOf state after t
        rw [changesOf, changesOf, hmid t (hne t ht)]

end

theorem Adjusted.at {tasks : List TaskType} {before after : PersistedOptimizerState} {moves : List BoundaryMove}
    (h : Adjusted tasks before after moves) (now : Int) : Adjusted tasks before { after with lastUpdate := now } moves where
  valid := ⟨h.valid.version, h.valid.configured, h.valid.tasks, h.valid.boundaries, h.valid.tiers, h.valid.tierAggregates,
    h.valid.taskTiers, h.valid.taskTierAggregates⟩
  tierAggregates := h.tierAggregates
  taskTierAggregates := h.taskTierAggregates
  lowered := h.lowered
  others := h.others
  moves_eq := h.moves_eq

theorem adjusted_next {o : OnlineOptimizer} (now : Int) (h : o.state.Valid) :
    Adjusted allTaskTypes o.state (o.next now).1 (o.next now).2 :=
  (adjustTasks_law o.qualityThreshold allTaskTypes nodup_allTaskTypes h).at now

/-! ### One optimization -/

def Holds (T : OptimizerText) (disk : Disk) (p : PersistedOptimizerState) : Prop :=
  ∃ bytes, T.toVecPretty p = some bytes ∧ disk.file = some bytes

def Replaced (T : OptimizerText) (p : PersistedOptimizerState) (old new : Disk) : Prop :=
  new.file = old.file ∨ Holds T new p

def OnlineOptimizer.Due (o : OnlineOptimizer) (now : Int) : Prop := o.enabled = true ∧ o.nextEligibleAt ≤ now

structure Completed (T : OptimizerText) (o : OnlineOptimizer) (now : Int) (report : OptimizationReport) (o' : OnlineOptimizer)
    (files' : OptimizerFiles) : Prop where
  status : report.status = .completed
  moves_eq : report.boundaryMoves = (o.next now).2
  optimizer : o' = { o with state := (o.next now).1, published := (o.next now).1.snapshot true }
  primary : report.primaryPersisted = true → Holds T files'.primary (o.next now).1
  lkg : report.lastKnownGoodPersisted = true → Holds T files'.lkg (o.next now).1

/-- What an optimization that is due does with the files, also where the process stops on the way. -/
structure Persisted (T : OptimizerText) (p : PersistedOptimizerState) (files files' : OptimizerFiles) : Prop where
  primary : Replaced T p files.primary files'.primary
  lkg : files'.lkg.file = files.lkg.file ∨ Holds T files'.lkg p ∧ Holds T files'.primary p

section
variable {T : OptimizerText} {c : OptimizeConditions} {files : OptimizerFiles} {p : PersistedOptimizerState}
  {bytes : List UInt8}

theorem persist_law (c : OptimizeConditions) (files : OptimizerFiles) (htext : T.toVecPretty p = some bytes) :
    Persisted T p files (files.persist c bytes).2.2 ∧
      ((files.persist c bytes).1 = .done → Holds T (files.persist c bytes).2.2.primary p) ∧
      ((files.persist c bytes).2.1 = .done → Holds T (files.persist c bytes).2.2.lkg p) := by
  have hfirst := atomicReplace_cases c.isUnix c.primaryTrouble c.primaryTemporary bytes files.primary
  have hsecond := atomicReplace_cases c.isUnix c.lkgTrouble c.lkgTemporary bytes files.lkg
  unfold OptimizerFiles.persist
  rcases hprimary : atomicReplace c.isUnix c.primaryTrouble c.primaryTemporary bytes files.primary with ⟨outcome, primary⟩
  rcases hlkg : atomicReplace c.isUnix c.lkgTrouble c.lkgTemporary bytes files.lkg with ⟨outcome', lkg⟩
  rw [hprimary] at hfirst
  rw [hlkg] at hsecond
  have hreplaced : Replaced T p files.primary primary := hfirst.elim (fun h => .inl h.2) fun h => .inr ⟨bytes, htext, h.1⟩
  cases outcome with
  | failed | stopped => exact ⟨⟨hreplaced, .inl rfl⟩, nofun, nofun⟩
  | done =>
    have hholds : Holds T primary p := by
      rcases hfirst with ⟨hne, -⟩ | ⟨hfile, -⟩
      · exact absurd rfl hne
      · exact ⟨bytes, htext, hfile⟩
    refine ⟨⟨hreplaced, ?_⟩, fun _ => hholds, fun hdone => ?_⟩
    · exact hsecond.elim (fun h => .inl h.2) fun h => .inr ⟨⟨bytes, htext, h.1⟩, hholds⟩
    · rcases hsecond with ⟨hne, -⟩ | ⟨hfile, -⟩
      · exact absurd hdone hne
      · exact ⟨bytes, htext, hfile⟩

variable {o : OnlineOptimizer} {now : Int}

theorem optimizeAt_of_due (T : OptimizerText) (c : OptimizeConditions) (files : OptimizerFiles) (hdue : o.Due now) :
    ∃ files', Persisted T (o.next now).1 files files' ∧ (o.optimizeAt T c files now = (none, o, files') ∨
      ∃ report o', o.optimizeAt T c files now = (some report, o', files') ∧ Completed T o now report o' files') := by
  have hpending : ¬ now < o.nextEligibleAt := not_lt.2 hdue.2
  unfold OnlineOptimizer.optimizeAt
  rw [if_neg (by simp [hdue.1]), if_neg hpending]
  dsimp only
  rcases htext : T.toVecPretty (o.next now).1 with _ | bytes
  · exact ⟨files, ⟨.inl rfl, .inl rfl⟩, .inr ⟨_, _, rfl, ⟨rfl, rfl, rfl, nofun, nofun⟩⟩⟩
  obtain ⟨hfiles, hprimary, hlkg⟩ := persist_law c files htext
  rcases hpersist : files.persist c bytes with ⟨first, second, files'⟩
  rw [hpersist] at hfiles hprimary hlkg
  simp only [hpersist]
  refine ⟨files', hfiles, ?_⟩
  cases first with
  | stopped => cases second <;> exact .inl rfl
  | failed =>
    cases second with
    | stopped => exact .inl rfl
    | done | failed => exact .inr ⟨_, _, rfl, ⟨rfl, rfl, rfl, nofun, nofun⟩⟩
  | done =>
    cases second with
    | stopped => exact .inl rfl
    | done => exact .inr ⟨_, _, rfl, ⟨rfl, rfl, rfl, fun _ => hprimary rfl, fun _ => hlkg rfl⟩⟩
    | failed => exact .inr ⟨_, _, rfl, ⟨rfl, rfl, rfl, fun _ => hprimary rfl, nofun⟩⟩

theorem atomicReplace_ne_stopped (isUnix : Bool) (temporary : String) (bytes : List UInt8) (disk : Disk) :
    (atomicReplace isUnix none temporary bytes disk).1 ≠ .stopped := by
  have hfirst := run_ne_stopped temporary bytes [.createDir] disk
  unfold atomicReplace
  split
  · rename_i disk' hdir
    have hsecond := run_ne_stopped temporary bytes
      ([.createTemporary, .write, .sync] ++ .rename :: syncParentDirectory isUnix) disk'
    split
    · nofun
    · exact hsecond
  · exact hfirst

theorem persist_ne_stopped (files : OptimizerFiles) (bytes : List UInt8) (hprimary : c.primaryTrouble = none) (hlkg : c.lkgTrouble = none) :
    (files.persist c bytes).1 ≠ .stopped ∧ (files.persist c bytes).2.1 ≠ .stopped := by
  unfold OptimizerFiles.persist
  rw [hprimary, hlkg]
  split
  · exact ⟨nofun, atomicReplace_ne_stopped _ _ _ _⟩
  · rename_i outcome primary _ hreplace
    refine ⟨?_, nofun⟩
    have hne := atomicReplace_ne_stopped c.isUnix c.primaryTemporary bytes files.primary
    rwa [hreplace] at hne

theorem optimizeAt_completes (T : OptimizerText) (files : OptimizerFiles) (hprimary : c.primaryTrouble = none) (hlkg : c.lkgTrouble = none) (hdue : o.Due now) :
    ∃ report o' files', o.optimizeAt T c files now = (some report, o', files') ∧ Completed T o now report o' files' := by
  obtain ⟨files', -, hstopped | ⟨report, o', hcompleted⟩⟩ := optimizeAt_of_due T c files hdue
  · have hpending : ¬ now < o.nextEligibleAt := not_lt.2 hdue.2
    unfold OnlineOptimizer.optimizeAt at hstopped
    rw [if_neg (by simp [hdue.1]), if_neg hpending] at hstopped
    dsimp only at hstopped
    split at hstopped
    · cases hstopped
    · rename_i bytes htext
      obtain ⟨hfirst, hsecond⟩ := persist_ne_stopped files bytes hprimary hlkg
      split at hstopped
      · rename_i hpersist
        exact absurd (by rw [hpersist]) hfirst
      · rename_i hpersist
        exact absurd (by rw [hpersist]) hsecond
      all_goals cases hstopped
  · exact ⟨report, o', files', hcompleted⟩

theorem optimizeAt_of_not_due (T : OptimizerText) (c : OptimizeConditions) (files : OptimizerFiles) (hdue : ¬ o.Due now) :
    ∃ report published,
    o.optimizeAt T c files now = (some report, { o with published := published }, files) ∧ report.status ≠ .completed := by
  unfold OnlineOptimizer.optimizeAt
  split_ifs with henabled hpending
  · exact ⟨_, o.published, rfl, nofun⟩
  · exact ⟨_, o.state.snapshot true, rfl, nofun⟩
  · refine absurd ⟨?_, not_lt.1 hpending⟩ hdue
    simpa using henabled

end

/-- What is restored of a state: all of it but the configured boundaries, at a time that is not in the future. -/
def PersistedOptimizerState.restored (p : PersistedOptimizerState) (boundaries : TierBoundaries ℚ) (now : Int) :
    PersistedOptimizerState :=
  { p with configuredBoundaries := normalizedBoundaries boundaries, lastUpdate := min p.lastUpdate now }

section
variable {T : OptimizerText} {p : PersistedOptimizerState} {disk : Disk} {files : OptimizerFiles}
  {config : OnlineOptimizerConfig} {boundaries : TierBoundaries ℚ} {now : Int} {l : LoadConditions}

theorem adopt_eq (h : p.Valid) : p.adopt (normalizedBoundaries boundaries) now = p.restored boundaries now := by
  have htasks : validateTaskBoundaries p.adjustedBoundaries = .ok () :=
    validateTaskBoundaries_iff.2 ⟨h.tasks, h.boundaries⟩
  unfold PersistedOptimizerState.adopt PersistedOptimizerState.restored
  by_cases hnow : now < p.lastUpdate
  · simp [hnow, htasks, min_eq_right hnow.le]
  · simp [hnow, htasks, min_eq_left (not_lt.1 hnow)]

theorem loadCandidate_of_holds (h : p.Valid) (hholds : Holds T disk p) : loadCandidate T false disk = .valid p := by
  obtain ⟨bytes, htext, hfile⟩ := hholds
  have hvalid := PersistedOptimizerState.validate_iff.2 h
  have hlength : ¬ maxStateBytes < bytes.length := not_lt.2 (T.length_le hvalid htext)
  simp [loadCandidate, hfile, hlength, T.fromSlice_toVecPretty htext, hvalid]

theorem loadAt_of_primary (henabled : config.enabled = true) (hreads : l.primaryFails = false) (h : p.Valid)
    (hholds : Holds T files.primary p) : OnlineOptimizer.loadAt T config boundaries now l files =
      (some (.new config (p.restored boundaries now), ⟨.primary, false, false, false⟩), files) := by
  unfold OnlineOptimizer.loadAt
  rw [if_neg (by simp [henabled])]
  simp only [hreads, loadCandidate_of_holds h hholds, adopt_eq h]

theorem recover_of_lkg (files : OptimizerFiles) (b : TierBoundaries ℚ) (now : Int) (hreads : l.lkgFails = false) (h : p.Valid)
    (hholds : Holds T files.lkg p) : (recoverLkgOrDefaults T l b now files).1 = none ∨
      ∃ restored, (recoverLkgOrDefaults T l b now files).1 = some (p, .lastKnownGood, restored, false) := by
  obtain ⟨bytes, htext, -⟩ := id hholds
  unfold recoverLkgOrDefaults
  rw [hreads, loadCandidate_of_holds h hholds]
  simp only [htext]
  split
  · exact .inl rfl
  · exact .inr ⟨_, rfl⟩

theorem loadAt_of_lkg (henabled : config.enabled = true) (hreads : l.lkgFails = false) (h : p.Valid)
    (hprimary : ∀ q, loadCandidate T l.primaryFails files.primary ≠ .valid q) (hholds : Holds T files.lkg p) :
    (OnlineOptimizer.loadAt T config boundaries now l files).1 = none ∨ ∃ quarantined restored,
      (OnlineOptimizer.loadAt T config boundaries now l files).1 =
        some (.new config (p.restored boundaries now), ⟨.lastKnownGood, quarantined, false, restored⟩) := by
  unfold OnlineOptimizer.loadAt
  rw [if_neg (by simp [henabled]), ← adopt_eq h]
  dsimp only
  split
  · rename_i q hq
    exact absurd hq (hprimary q)
  · have hcases := recover_of_lkg files (normalizedBoundaries boundaries) now hreads h hholds
    split
    · exact .inl rfl
    · rename_i hresult
      rw [hresult] at hcases
      rcases hcases with hnone | ⟨restored, hsome⟩
      · cases hnone
      · cases hsome
        exact .inr ⟨_, _, rfl⟩
  · let after : OptimizerFiles := { files with primary := (quarantineIfPresent l.primaryRenames files.primary).2 }
    have hcases := recover_of_lkg after (normalizedBoundaries boundaries) now hreads h hholds
    split
    · exact .inl rfl
    · rename_i hresult
      rw [hresult] at hcases
      rcases hcases with hnone | ⟨restored, hsome⟩
      · cases hnone
      · cases hsome
        exact .inr ⟨_, _, rfl⟩

theorem loadAt_of_missing (henabled : config.enabled = true) (hprimaryReads : l.primaryFails = false)
    (hlkgReads : l.lkgFails = false) (hprimary : files.primary.file = none) (hlkg : files.lkg.file = none) :
    ∃ o, OnlineOptimizer.loadAt T config boundaries now l files = (some (o, ⟨.defaults, false, false, false⟩), files) := by
  unfold OnlineOptimizer.loadAt recoverLkgOrDefaults
  rw [if_neg (by simp [henabled])]
  simp only [loadCandidate, hprimaryReads, hlkgReads, hprimary, hlkg]
  exact ⟨_, rfl⟩

end

def TaskType.text : TaskType → String
  | .codeGeneration => "code_generation"
  | .mathReasoning => "math_reasoning"
  | .creativeWriting => "creative_writing"
  | .factualQA => "factual_qa"
  | .toolUse => "tool_use"
  | .summarization => "summarization"
  | .general => "general"

def SmartRoutingTier.text : SmartRoutingTier → String
  | .fast => "fast"
  | .balanced => "balanced"
  | .powerful => "powerful"

def commaed : List (List String) → List String
  | [] => []
  | [member] => member
  | member :: members => member.dropLast ++ [member.getLast?.getD "" ++ ","] ++ commaed members

def block (opening closing : String) (members : List (List String)) : List String :=
  opening :: (commaed members).map ("  " ++ ·) ++ [closing]

def named (name : String) : List String → List String
  | [] => []
  | line :: lines => ("\"" ++ name ++ "\": " ++ line) :: lines

def quoted (text : String) : List String := ["\"" ++ text ++ "\""]

def defaultBoundariesText : List String :=
  block "\x7b" "\x7d" [named "fast_max" ["0.33"], named "balanced_max" ["0.66"]]

def emptyAggregateText : List String :=
  block "\x7b" "\x7d" [named "samples" ["0"], named "complexity_score_ema" ["null"], named "quality_ema" ["null"],
    named "cost_usd_ema" ["null"], named "latency_ms_ema" ["null"]]

/-- What `to_vec_pretty` prints of the defaults. -/
def defaultsText (lastUpdate : String) : List UInt8 :=
  let lines := block "\x7b" "\x7d" [
    named "version" ["1"],
    named "configured_boundaries" defaultBoundariesText,
    named "adjusted_boundaries" (block "[" "]" (allTaskTypes.map fun task =>
      block "\x7b" "\x7d" [named "task_type" (quoted task.text), named "boundaries" defaultBoundariesText])),
    named "tier_aggregates" (block "[" "]" (allTiers.map fun tier =>
      block "\x7b" "\x7d" [named "tier" (quoted tier.text), named "aggregate" emptyAggregateText])),
    named "task_tier_aggregates" (block "[" "]" (allTaskTypes.flatMap fun task => allTiers.map fun tier =>
      block "\x7b" "\x7d" [named "task_type" (quoted task.text), named "tier" (quoted tier.text),
        named "aggregate" emptyAggregateText])),
    named "last_update" (quoted lastUpdate)]
  ("\n".intercalate lines).toUTF8.data.toList

section
variable {state s : PersistedOptimizerState} {text bytes : List UInt8}

theorem textOf_reads (h : (if s = state ∧ text.length ≤ maxStateBytes then some text else none) = some bytes) :
    (if bytes = text then some state else none) = some s := by
  split_ifs at h with hstate
  cases h
  rw [if_pos rfl, hstate.1]

theorem textOf_length (h : (if s = state ∧ text.length ≤ maxStateBytes then some text else none) = some bytes) :
    bytes.length ≤ maxStateBytes := by
  split_ifs at h with hstate
  cases h
  exact hstate.2

end

def textOf (state : PersistedOptimizerState) (text : List UInt8) : OptimizerText where
  toVecPretty := fun s => if s = state ∧ text.length ≤ maxStateBytes then some text else none
  fromSlice := fun bytes => if bytes = text then some state else none
  fromSlice_toVecPretty := textOf_reads
  length_le := fun _ => textOf_length

/-! ### Runs -/

inductive OptimizerCall
  | record (outcome : RequestOutcome)
  | optimizeAt (now : Int) (c : OptimizeConditions)

/-- The optimizer with its files, the outcomes recorded, the states to be persisted, the times of completed
optimizations. -/
structure OptimizerSystem where
  optimizer : OnlineOptimizer
  files : OptimizerFiles
  stopped : Bool := false
  recorded : List RequestOutcome := []
  attempted : List PersistedOptimizerState := []
  completed : List Int := []

/-- A process that has stopped takes no call. -/
def OptimizerSystem.step (T : OptimizerText) (s : OptimizerSystem) (call : OptimizerCall) : OptimizerSystem :=
  if s.stopped then s
  else
    match call with
    | .record outcome =>
      match s.optimizer.record outcome with
      | (.recorded, o) => { s with optimizer := o, recorded := s.recorded ++ [outcome] }
      | (_, o) => { s with optimizer := o }
    | .optimizeAt now c =>
      let attempted := s.attempted ++ [(s.optimizer.next now).1]
      match s.optimizer.optimizeAt T c s.files now with
      | (none, o, files) => { s with optimizer := o, files := files, stopped := true, attempted := attempted }
      | (some report, o, files) =>
        match report.status with
        | .completed =>
          { s with optimizer := o, files := files, attempted := attempted, completed := s.completed ++ [now] }
        | .disabled | .intervalPending => { s with optimizer := o, files := files }

/-- The later instant is an interval behind the earlier one, or the last that there is. -/
def Apart (interval : Nat) (t t' : Int) : Prop := t + interval * 10 ^ 9 ≤ t' ∨ maxUtc ≤ t'

theorem Apart.of_due {interval : Nat} {t now : Int} (h : addStdDuration t interval ≤ now) : Apart interval t now := by
  unfold addStdDuration at h
  split_ifs at h
  · exact .inl h
  · exact .inr h

theorem Apart.trans {interval : Nat} {t t' t'' : Int} (h : Apart interval t t') (h' : Apart interval t' t'') :
    Apart interval t t'' := by
  have hpos : (0 : Int) ≤ interval * 10 ^ 9 := by positivity
  unfold Apart at *
  omega

/-- The file is as it was at the start, or has the whole text of one of the states. -/
def Saved (T : OptimizerText) (states : List PersistedOptimizerState) (start disk : Disk) : Prop :=
  disk.file = start.file ∨ ∃ p ∈ states, Holds T disk p

section
variable {T : OptimizerText} {states : List PersistedOptimizerState} {p : PersistedOptimizerState} {start disk disk' : Disk}

theorem Holds.of_file (h : Holds T disk p) (hfile : disk'.file = disk.file) : Holds T disk' p := by
  obtain ⟨bytes, htext, h⟩ := h
  exact ⟨bytes, htext, hfile.trans h⟩

theorem Saved.concat (h : Saved T states start disk) (hreplaced : Replaced T p disk disk') :
    Saved T (states ++ [p]) start disk' := by
  rcases hreplaced with hfile | hholds
  · rcases h with h | ⟨q, hq, hholds⟩
    · exact .inl (hfile.trans h)
    · exact .inr ⟨q, List.mem_append_left _ hq, hholds.of_file hfile⟩
  · exact .inr ⟨p, List.mem_append_right _ (List.mem_singleton.2 rfl), hholds⟩

end

structure OptimizerInv (T : OptimizerText) (start s : OptimizerSystem) : Prop where
  valid : s.optimizer.state.Valid
  attempted : ∀ p ∈ s.attempted, p.Valid
  interval : s.optimizer.interval = start.optimizer.interval
  tierEma : ∀ (field : EmaField) (tier : SmartRoutingTier) (lo hi : ℚ),
    Within lo hi (start.optimizer.state.tierEma field tier) →
    (∀ o ∈ s.recorded, o.tier = tier → lo ≤ field.value o ∧ field.value o ≤ hi) →
    Within lo hi (s.optimizer.state.tierEma field tier)
  taskTierEma : ∀ (field : EmaField) (task : TaskType) (tier : SmartRoutingTier) (lo hi : ℚ),
    Within lo hi (start.optimizer.state.taskTierEma field task tier) →
    (∀ o ∈ s.recorded, o.taskType = task → o.tier = tier → lo ≤ field.value o ∧ field.value o ≤ hi) →
    Within lo hi (s.optimizer.state.taskTierEma field task tier)
  apart : s.completed.Pairwise (Apart start.optimizer.interval)
  last : ∀ t ∈ s.completed, t = s.optimizer.state.lastUpdate ∨
    Apart start.optimizer.interval t s.optimizer.state.lastUpdate
  primary : Saved T s.attempted start.files.primary s.files.primary
  lkg : Saved T s.attempted start.files.lkg s.files.lkg

section
variable {T : OptimizerText} {start s : OptimizerSystem}

theorem OptimizerInv.new (o : OnlineOptimizer) (files : OptimizerFiles) (h : o.state.Valid) :
    OptimizerInv T { optimizer := o, files := files } { optimizer := o, files := files } where
  valid := h
  attempted := nofun
  interval := rfl
  tierEma := fun _ _ _ _ hstart _ => hstart
  taskTierEma := fun _ _ _ _ _ hstart _ => hstart
  apart := .nil
  last := nofun
  primary := .inl rfl
  lkg := .inl rfl

theorem OptimizerInv.record (h : OptimizerInv T start s) {outcome : RequestOutcome} (houtcome : outcome.validate = .ok ()) :
    OptimizerInv T start { s with
      optimizer := { s.optimizer with state := s.optimizer.state.observed outcome s.optimizer.alpha }
      recorded := s.recorded ++ [outcome] } where
  valid := h.valid.observed s.optimizer.alpha_mem houtcome
  attempted := h.attempted
  interval := h.interval
  tierEma := fun field tier lo hi hstart hrecorded => by
    have houtcome := hrecorded outcome (List.mem_append_right _ (List.mem_singleton.2 rfl))
    have hbefore := h.tierEma field tier lo hi hstart fun o ho => hrecorded o (List.mem_append_left _ ho)
    exact tierEma_observed field tier s.optimizer.alpha_mem houtcome hbefore
  taskTierEma := fun field task tier lo hi hstart hrecorded => by
    have houtcome := hrecorded outcome (List.mem_append_right _ (List.mem_singleton.2 rfl))
    have hbefore := h.taskTierEma field task tier lo hi hstart fun o ho => hrecorded o (List.mem_append_left _ ho)
    exact taskTierEma_observed field task tier s.optimizer.alpha_mem houtcome hbefore
  apart := h.apart
  last := h.last
  primary := h.primary
  lkg := h.lkg

variable {now : Int}

/-- The files around an optimization that is due, also where the process stops. -/
theorem OptimizerInv.stop (h : OptimizerInv T start s) {files' : OptimizerFiles}
    (hfiles : Persisted T (s.optimizer.next now).1 s.files files') :
    OptimizerInv T start { s with
      files := files', stopped := true, attempted := s.attempted ++ [(s.optimizer.next now).1] } where
  valid := h.valid
  attempted := List.forall_mem_append.2 ⟨h.attempted, List.forall_mem_singleton.2 (adjusted_next now h.valid).valid⟩
  interval := h.interval
  tierEma := h.tierEma
  taskTierEma := h.taskTierEma
  apart := h.apart
  last := h.last
  primary := h.primary.concat hfiles.primary
  lkg := h.lkg.concat (hfiles.lkg.imp_right fun h => h.1)

theorem OptimizerInv.complete (h : OptimizerInv T start s) {files' : OptimizerFiles} {o' : OnlineOptimizer}
    {report : OptimizationReport} (hdue : s.optimizer.Due now)
    (hfiles : Persisted T (s.optimizer.next now).1 s.files files')
    (hcompleted : Completed T s.optimizer now report o' files') :
    OptimizerInv T start { s with
      optimizer := o', files := files', attempted := s.attempted ++ [(s.optimizer.next now).1]
      completed := s.completed ++ [now] } := by
  obtain rfl := hcompleted.optimizer
  have hadjusted := adjusted_next now h.valid
  have hstopped := h.stop hfiles
  have hnow : Apart start.optimizer.interval s.optimizer.state.lastUpdate now := by
    rw [← h.interval]
    exact .of_due hdue.2
  have hbehind : ∀ t ∈ s.completed, Apart start.optimizer.interval t now := by
    intro t ht
    rcases h.last t ht with rfl | hlast
    · exact hnow
    · exact hlast.trans hnow
  have htier : ∀ field tier, (s.optimizer.next now).1.tierEma field tier = s.optimizer.state.tierEma field tier := by
    intro field tier
    unfold PersistedOptimizerState.tierEma
    rw [hadjusted.tierAggregates]
  have htaskTier : ∀ field task tier,
      (s.optimizer.next now).1.taskTierEma field task tier = s.optimizer.state.taskTierEma field task tier := by
    intro field task tier
    unfold PersistedOptimizerState.taskTierEma
    rw [hadjusted.taskTierAggregates]
  refine ⟨hadjusted.valid, hstopped.attempted, h.interval, ?_, ?_, ?_, ?_, hstopped.primary, hstopped.lkg⟩
  · intro field tier lo hi hstart hrecorded
    show Within lo hi ((s.optimizer.next now).1.tierEma field tier)
    rw [htier]
    exact h.tierEma field tier lo hi hstart hrecorded
  · intro field task tier lo hi hstart hrecorded
    show Within lo hi ((s.optimizer.next now).1.taskTierEma field task tier)
    rw [htaskTier]
    exact h.taskTierEma field task tier lo hi hstart hrecorded
  · refine List.pairwise_append.2 ⟨h.apart, List.pairwise_singleton _ _, fun t ht t' ht' => ?_⟩
    rw [List.mem_singleton.1 ht']
    exact hbehind t ht
  · intro t ht
    rcases List.mem_append.1 ht with ht | ht
    · exact .inr (hbehind t ht)
    · exact .inl (List.mem_singleton.1 ht)

theorem OptimizerInv.step (h : OptimizerInv T start s) (call : OptimizerCall) : OptimizerInv T start (s.step T call) := by
  unfold OptimizerSystem.step
  split_ifs
  · exact h
  · cases call with
    | record outcome =>
      dsimp only
      rcases record_cases s.optimizer outcome with ⟨hne, hsame⟩ | ⟨hvalid, hrecord⟩
      · split
        · rename_i o hrecord
          exact absurd (congrArg Prod.fst hrecord) hne
        · rename_i result o _ hrecord
          obtain rfl : o = s.optimizer := by rw [← hsame, hrecord]
          exact h
      · simp only [hrecord]
        exact h.record hvalid
    | optimizeAt now c =>
      dsimp only
      by_cases hdue : s.optimizer.Due now
      · obtain ⟨files', hfiles, hstopped | ⟨report, o', hreport, hcompleted⟩⟩ :=
          optimizeAt_of_due T c s.files hdue
        · simp only [hstopped]
          exact h.stop hfiles
        · simp only [hreport, hcompleted.status]
          exact h.complete hdue hfiles hcompleted
      · obtain ⟨report, published, hreport, hstatus⟩ := optimizeAt_of_not_due T c s.files hdue
        simp only [hreport]
        split
        · exact absurd ‹_› hstatus
        · exact { h with }
        · exact { h with }

theorem OptimizerInv.run (h : OptimizerInv T start s) (calls : List OptimizerCall) :
    OptimizerInv T start (Run.run (OptimizerSystem.step T) s calls) :=
  Run.invariant_of_step (fun _ call h => h.step call) h

/-- A load takes the state of the primary file, else the last known good one, unless the process stops writing it
back. -/
def Reloads (T : OptimizerText) (states : List PersistedOptimizerState) (config : OnlineOptimizerConfig)
    (boundaries : TierBoundaries ℚ) (now : Int) (l : LoadConditions) (files : OptimizerFiles) : Prop :=
  let loaded := OnlineOptimizer.loadAt T config boundaries now l files
  (∃ p ∈ states, loaded = (some (.new config (p.restored boundaries now), ⟨.primary, false, false, false⟩), files)) ∨
    files.primary.file = none ∧
      ((∃ p ∈ states, loaded.1 = none ∨ ∃ quarantined restored,
          loaded.1 = some (.new config (p.restored boundaries now), ⟨.lastKnownGood, quarantined, false, restored⟩)) ∨
        files.lkg.file = none ∧ ∃ o, loaded = (some (o, ⟨.defaults, false, false, false⟩), files))

theorem reloads_of_saved {earlier states : List PersistedOptimizerState} {startFiles files : OptimizerFiles}
    {config : OnlineOptimizerConfig} {boundaries : TierBoundaries ℚ} {l : LoadConditions}
    (henabled : config.enabled = true) (hprimaryReads : l.primaryFails = false) (hlkgReads : l.lkgFails = false)
    (hearlier : ∀ p ∈ earlier, p.Valid) (hstates : ∀ p ∈ states, p.Valid)
    (hstartPrimary : startFiles.primary.file = none ∨ ∃ p ∈ earlier, Holds T startFiles.primary p)
    (hstartLkg : startFiles.lkg.file = none ∨ ∃ p ∈ earlier, Holds T startFiles.lkg p)
    (hprimary : Saved T states startFiles.primary files.primary) (hlkg : Saved T states startFiles.lkg files.lkg) :
    Reloads T (earlier ++ states) config boundaries now l files := by
  have hvalid : ∀ p ∈ earlier ++ states, p.Valid := List.forall_mem_append.2 ⟨hearlier, hstates⟩
  have hsaved : ∀ {start disk : Disk}, start.file = none ∨ (∃ p ∈ earlier, Holds T start p) → Saved T states start disk →
      disk.file = none ∨ ∃ p ∈ earlier ++ states, Holds T disk p := by
    intro start disk hstart hsaved
    rcases hsaved with hfile | ⟨p, hp, hholds⟩
    · rcases hstart with hnone | ⟨p, hp, hholds⟩
      · exact .inl (hfile.trans hnone)
      · exact .inr ⟨p, List.mem_append_left _ hp, hholds.of_file hfile⟩
    · exact .inr ⟨p, List.mem_append_right _ hp, hholds⟩
  rcases hsaved hstartPrimary hprimary with hnone | ⟨p, hp, hholds⟩
  · have hmissing : ∀ q, loadCandidate T l.primaryFails files.primary ≠ .valid q := by
      intro q
      rw [loadCandidate, hprimaryReads, if_neg (by decide), hnone]
      nofun
    rcases hsaved hstartLkg hlkg with hnone' | ⟨p, hp, hholds⟩
    · exact .inr ⟨hnone, .inr ⟨hnone', loadAt_of_missing henabled hprimaryReads hlkgReads hnone hnone'⟩⟩
    · exact .inr ⟨hnone, .inl ⟨p, hp, loadAt_of_lkg henabled hlkgReads (hvalid p hp) hmissing hholds⟩⟩
  · exact .inl ⟨p, hp, loadAt_of_primary henabled hprimaryReads (hvalid p hp) hholds⟩

theorem step_completes {c : OptimizeConditions} (hrunning : s.stopped = false) (hprimary : c.primaryTrouble = none)
    (hlkg : c.lkgTrouble = none) (hdue : s.optimizer.Due now) :
    (s.step T (.optimizeAt now c)).stopped = false ∧ (s.step T (.optimizeAt now c)).completed = s.completed ++ [now] ∧
      (s.step T (.optimizeAt now c)).optimizer.enabled = true ∧
      (s.step T (.optimizeAt now c)).optimizer.interval = s.optimizer.interval ∧
      (s.step T (.optimizeAt now c)).optimizer.state.lastUpdate = now := by
  obtain ⟨report, o', files', hreport, hcompleted⟩ := optimizeAt_completes T s.files hprimary hlkg hdue
  have hstep : s.step T (.optimizeAt now c) = { s with
      optimizer := o', files := files', attempted := s.attempted ++ [(s.optimizer.next now).1]
      completed := s.completed ++ [now] } := by
    unfold OptimizerSystem.step
    rw [hrunning, if_neg (by decide)]
    simp only [hreport, hcompleted.status]
  rw [hstep, hcompleted.optimizer]
  exact ⟨hrunning, rfl, hdue.1, rfl, rfl⟩

theorem completed_twice {c : OptimizeConditions} (hrunning : s.stopped = false) (hprimary : c.primaryTrouble = none)
    (hlkg : c.lkgTrouble = none) (henabled : s.optimizer.enabled = true) :
    (Run.run (OptimizerSystem.step T) s [.optimizeAt maxUtc c, .optimizeAt maxUtc c]).completed =
      s.completed ++ [maxUtc, maxUtc] := by
  have hle : ∀ time secs, addStdDuration time secs ≤ maxUtc := by
    intro time secs
    unfold addStdDuration
    split_ifs with h
    · exact h.2
    · exact le_refl _
  obtain ⟨hrunning', hcompleted, henabled', -⟩ := step_completes (T := T) hrunning hprimary hlkg ⟨henabled, hle _ _⟩
  obtain ⟨-, hcompleted', -⟩ := step_completes (T := T) hrunning' hprimary hlkg ⟨henabled', hle _ _⟩
  rw [Run.run_cons, Run.run_cons, Run.run_nil, hcompleted', hcompleted, List.append_assoc]
  rfl

/-- What holds of an optimizer and its files at any point of a run, for the run so far and for the next call. -/
structure OptimizerLaw (T : OptimizerText) (start s : OptimizerSystem) : Prop where
  valid : s.optimizer.state.validate = .ok ()
  boundaries : ∀ task, ∃ b, s.optimizer.state.boundariesOf task = some b ∧
    0 < b.fastMax ∧ b.fastMax + minBoundaryGap ≤ b.balancedMax ∧ b.balancedMax < 1
  completes : ∀ now c report o' files', s.optimizer.optimizeAt T c s.files now = (some report, o', files') →
    report.status = .completed →
    (∀ task, ∃ b b', s.optimizer.state.boundariesOf task = some b ∧ o'.state.boundariesOf task = some b' ∧ Lowered b b') ∧
      report.boundaryMoves = allTaskTypes.flatMap (changesOf s.optimizer.state o'.state) ∧
      (report.primaryPersisted = true → Holds T files'.primary o'.state) ∧
      (report.lastKnownGoodPersisted = true → Holds T files'.lkg o'.state)
  stops : ∀ now c o' files', s.optimizer.optimizeAt T c s.files now = (none, o', files') →
    Persisted T (s.optimizer.next now).1 s.files files' ∧ (s.optimizer.next now).1.validate = .ok ()
  apart : s.completed.Pairwise (Apart start.optimizer.interval)
  tierEma : ∀ (field : EmaField) (tier : SmartRoutingTier) (lo hi : ℚ),
    Within lo hi (start.optimizer.state.tierEma field tier) →
    (∀ o ∈ s.recorded, o.tier = tier → lo ≤ field.value o ∧ field.value o ≤ hi) →
    Within lo hi (s.optimizer.state.tierEma field tier)
  taskTierEma : ∀ (field : EmaField) (task : TaskType) (tier : SmartRoutingTier) (lo hi : ℚ),
    Within lo hi (start.optimizer.state.taskTierEma field task tier) →
    (∀ o ∈ s.recorded, o.taskType = task → o.tier = tier → lo ≤ field.value o ∧ field.value o ≤ hi) →
    Within lo hi (s.optimizer.state.taskTierEma field task tier)
  persisted : ∀ p ∈ s.attempted, p.validate = .ok ()
  primary : Saved T s.attempted start.files.primary s.files.primary
  lkg : Saved T s.attempted start.files.lkg s.files.lkg
  restored : ∀ p ∈ s.attempted, Holds T s.files.primary p → ∀ config boundaries now l, config.enabled = true →
    l.primaryFails = false → OnlineOptimizer.loadAt T config boundaries now l s.files =
      (some (.new config (p.restored boundaries now), ⟨.primary, false, false, false⟩), s.files)
  recovered : ∀ p ∈ s.attempted, Holds T s.files.lkg p → ∀ (files : OptimizerFiles) config boundaries now l,
    files.lkg = s.files.lkg → config.enabled = true → l.lkgFails = false →
    (∀ q, loadCandidate T l.primaryFails files.primary ≠ .valid q) →
    (OnlineOptimizer.loadAt T config boundaries now l files).1 = none ∨ ∃ quarantined restored,
      (OnlineOptimizer.loadAt T config boundaries now l files).1 =
        some (.new config (p.restored boundaries now), ⟨.lastKnownGood, quarantined, false, restored⟩)
  reloads : ∀ earlier : List PersistedOptimizerState, (∀ p ∈ earlier, p.validate = .ok ()) →
    (start.files.primary.file = none ∨ ∃ p ∈ earlier, Holds T start.files.primary p) →
    (start.files.lkg.file = none ∨ ∃ p ∈ earlier, Holds T start.files.lkg p) →
    ∀ config boundaries now l, config.enabled = true → l.primaryFails = false → l.lkgFails = false →
      Reloads T (earlier ++ s.attempted) config boundaries now l s.files

theorem OptimizerInv.law (h : OptimizerInv T start s) : OptimizerLaw T start s where
  valid := PersistedOptimizerState.validate_iff.2 h.valid
  boundaries := fun task => by
    obtain ⟨entry, hfind⟩ := h.valid.tasks.exists_find task
    exact ⟨entry.boundaries, congrArg (Option.map _) hfind,
      validBoundaries_iff.1 (h.valid.boundaries entry (Keyed.find_some hfind).1)⟩
  completes := fun now c report o' files' hreport hstatus => by
    have hadjusted := adjusted_next now h.valid
    by_cases hdue : s.optimizer.Due now
    · obtain ⟨files'', -, hstopped | ⟨report', o'', hreport', hcompleted⟩⟩ :=
        optimizeAt_of_due T c s.files hdue
      · rw [hstopped] at hreport
        cases hreport
      · rw [hreport'] at hreport
        cases hreport
        obtain rfl := hcompleted.optimizer
        exact ⟨fun task => hadjusted.lowered task (mem_allTaskTypes task), hcompleted.moves_eq.trans hadjusted.moves_eq,
          hcompleted.primary, hcompleted.lkg⟩
    · obtain ⟨report', published, hreport', hstatus'⟩ := optimizeAt_of_not_due T c s.files hdue
      rw [hreport'] at hreport
      cases hreport
      exact absurd hstatus hstatus'
  stops := fun now c o' files' hnone => by
    refine ⟨?_, PersistedOptimizerState.validate_iff.2 (adjusted_next now h.valid).valid⟩
    by_cases hdue : s.optimizer.Due now
    · obtain ⟨files'', hfiles, hstopped | ⟨report', o'', hreport', -⟩⟩ :=
        optimizeAt_of_due T c s.files hdue
      · rw [hstopped] at hnone
        cases hnone
        exact hfiles
      · rw [hreport'] at hnone
        cases hnone
    · obtain ⟨report', published, hreport', -⟩ := optimizeAt_of_not_due T c s.files hdue
      rw [hreport'] at hnone
      cases hnone
  apart := h.apart
  tierEma := h.tierEma
  taskTierEma := h.taskTierEma
  persisted := fun p hp => PersistedOptimizerState.validate_iff.2 (h.attempted p hp)
  primary := h.primary
  lkg := h.lkg
  restored := fun p hp hholds _ _ _ _ henabled hreads => loadAt_of_primary henabled hreads (h.attempted p hp) hholds
  recovered := fun p hp hholds files _ _ _ _ hlkg henabled hreads hprimary =>
    loadAt_of_lkg henabled hreads (h.attempted p hp) hprimary (hlkg ▸ hholds)
  reloads := fun earlier hearlier hprimary hlkg _ _ _ _ henabled hprimaryReads hlkgReads =>
    reloads_of_saved henabled hprimaryReads hlkgReads (fun p hp => PersistedOptimizerState.validate_iff.1 (hearlier p hp))
      h.attempted hprimary hlkg h.primary h.lkg

def hourlyOptimizer : OnlineOptimizer := .new ⟨true, 1 / 10, 3600, 1 / 2⟩ (.defaults defaultBoundaries 0)

def noFiles : OptimizerFiles := ⟨⟨none, []⟩, ⟨none, []⟩⟩

def calm : OptimizeConditions :=
  ⟨true, none, ".optimizer-state.json.4711.0.tmp", none, ".optimizer-state.json.lkg.4711.1.tmp"⟩

/-- From any valid state, whatever is recorded and whenever and however an optimization is tried. -/
theorem optimizer_law (T : OptimizerText) (o : OnlineOptimizer) (files : OptimizerFiles) (calls : List OptimizerCall)
    (hvalid : o.state.validate = .ok ()) : OptimizerLaw T { optimizer := o, files := files }
      (Run.run (OptimizerSystem.step T) { optimizer := o, files := files } calls) :=
  ((OptimizerInv.new o files (PersistedOptimizerState.validate_iff.1 hvalid)).run calls).law

end

/-- Two optimizations at the last instant that there is are both completed, although no time is between them. -/
theorem last_instant_twice : ¬ (Run.run (OptimizerSystem.step (textOf (.defaults defaultBoundaries maxUtc)
    (defaultsText "+262142-12-31T23:59:59.999999999Z"))) { optimizer := hourlyOptimizer, files := noFiles }
    [.optimizeAt maxUtc calm, .optimizeAt maxUtc calm]).completed.Pairwise
      (fun t t' : Int => t + hourlyOptimizer.interval * 10 ^ 9 ≤ t') := by
  have hpos : 0 < hourlyOptimizer.interval := by decide
  rw [completed_twice rfl rfl rfl rfl]
  intro hapart
  have hfirst := List.rel_of_pairwise_cons hapart (List.mem_singleton.2 rfl)
  omega

theorem optimizer_law_hour : OptimizerLaw
    (textOf (.defaults defaultBoundaries 3600000000000) (defaultsText "1970-01-01T01:00:00Z"))
    { optimizer := hourlyOptimizer, files := noFiles }
    (Run.run (OptimizerSystem.step (textOf (.defaults defaultBoundaries 3600000000000) (defaultsText "1970-01-01T01:00:00Z")))
      { optimizer := hourlyOptimizer, files := noFiles }
      [.optimizeAt 3600000000000 calm, .record ⟨1 / 2, .toolUse, .fast, 1 / 4, 1, 900⟩, .optimizeAt 3600000000001 calm]) :=
  optimizer_law _ hourlyOptimizer noFiles _
    (PersistedOptimizerState.validate_iff.2 (PersistedOptimizerState.defaults_valid (by decide +kernel) 0))

end ObeyGateway.SmartRouting
