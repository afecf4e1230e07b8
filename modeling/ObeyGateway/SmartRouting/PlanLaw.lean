import ObeyGateway.SmartRouting.SmartRouter

/-!
# What a plan lists

A route of `SmartRouter.plan` comes from the models of the group that hold the request (`safeModels`): they are the
candidates and the overflow, each key in one of the two at least once. Tier selection and specialization only order
them (`PlanSound`). A downgrade caps the tier that is selected, by one step at most.
-/

namespace ObeyGateway.SmartRouting

section
variable {models : List TaggedModel} {tier : SmartRoutingTier} {taskType : TaskType} {m : TaggedModel}

theorem mem_ofTier (h : m ∈ ofTier models tier taskType) : m ∈ models ∧ m.tier = some tier := by
  have hfilter : m ∈ models.filter (·.tier = some tier) := by
    simp only [ofTier] at h
    split_ifs at h
    · exact List.mem_of_mem_filter h
    · exact h
  obtain ⟨hm, htier⟩ := List.mem_filter.1 hfilter
  exact ⟨hm, of_decide_eq_true htier⟩

theorem ofTier_ne_nil (hm : m ∈ models) (htier : m.tier = some tier) : ofTier models tier taskType ≠ [] := by
  have hfilter : m ∈ models.filter (·.tier = some tier) := List.mem_filter.2 ⟨hm, by simpa using htier⟩
  simp only [ofTier]
  split_ifs with hany
  · obtain ⟨s, hs, hspecial⟩ := List.any_eq_true.1 hany
    exact List.ne_nil_of_mem (List.mem_filter.2 ⟨hs, hspecial⟩)
  · exact List.ne_nil_of_mem hfilter

theorem specialist_of_mem_ofTier (hs : ∃ s ∈ models, s.tier = some tier ∧ taskType ∈ s.specializations)
    (h : m ∈ ofTier models tier taskType) : taskType ∈ m.specializations := by
  have hany : (models.filter (·.tier = some tier)).any (taskType ∈ ·.specializations) = true := by
    obtain ⟨s, hs, htier, hspecial⟩ := hs
    exact List.any_eq_true.2 ⟨s, List.mem_filter.2 ⟨hs, by simpa using htier⟩, by simpa using hspecial⟩
  simp only [ofTier] at h
  rw [if_pos hany] at h
  exact of_decide_eq_true (List.mem_filter.1 h).2

variable {group : ModelGroup} {selected : SmartRoutingTier} {pinnedModel : Option String}

theorem filterByTier_cases (group : ModelGroup) (selected : SmartRoutingTier) (taskType : TaskType)
    (pinnedModel : Option String) :
    filterByTier group selected taskType pinnedModel = ⟨group, none, true⟩ ∨
      ∃ tier, ((tierFallbackOrder selected).find? fun tier => group.models.any (·.tier = some tier)) = some tier ∧
        filterByTier group selected taskType pinnedModel =
          ⟨{ group with models := ofTier group.models tier taskType }, some tier, false⟩ := by
  unfold filterByTier
  split_ifs with hbypass
  · exact Or.inl rfl
  · cases hfind : (tierFallbackOrder selected).find? fun tier => group.models.any (·.tier = some tier) with
    | none => exact Or.inl rfl
    | some tier => exact Or.inr ⟨tier, rfl, rfl⟩

theorem tierFallbackOrder_head (selected : SmartRoutingTier) : ∃ rest, tierFallbackOrder selected = selected :: rest := by
  cases selected <;> exact ⟨_, rfl⟩

theorem find?_tierFallbackOrder (hm : m ∈ models) (htier : m.tier = some selected) :
    ((tierFallbackOrder selected).find? fun tier => models.any (·.tier = some tier)) = some selected := by
  have hany : models.any (·.tier = some selected) = true := List.any_eq_true.2 ⟨m, hm, by simpa using htier⟩
  obtain ⟨rest, hrest⟩ := tierFallbackOrder_head selected
  rw [hrest]
  exact List.find?_cons_of_pos hany

end

theorem tierRank_applyBudgetLimit_le (selected maximumTier : SmartRoutingTier) :
    tierRank (applyBudgetLimit selected (.downgrade maximumTier)).1 ≤
      max (tierRank maximumTier) (tierRank (oneStepLower selected)) := by
  cases selected <;> cases maximumTier <;> simp [applyBudgetLimit, tierRank, oneStepLower]

@[simp] theorem mem_preferCandidates {models : List TaggedModel} {taskType : TaskType}
    {pinned : PinnedRoutingContext} {m : TaggedModel} :
    m ∈ preferCandidates models taskType pinned ↔ m ∈ models := SortBy.mem_sortBy

/-! ### Plans -/

section
variable {F : Type} {A : Scores F}

namespace SmartRouter
variable (router : SmartRouter A) (input : SmartRoutingInput)

def budgetDecision : BudgetDecision := router.checkBudget input (router.classify input)

def requirement : ContextRequirement := contextRequirement (router.policyFor input) input (router.classify input)

def selectedTier : SmartRoutingTier := (router.decideTier input (router.policyFor input) (router.classify input)).tier

def safeModels : List TaggedModel :=
  input.modelGroup.models.filter
    (contextSafe (router.requirement input).estimatedTokens (allowUnknown (router.policyFor input) input))

theorem le_contextWindow_of_mem_safeModels {router : SmartRouter A} {input : SmartRoutingInput} {m : TaggedModel}
    (hm : m ∈ router.safeModels input) (hknown : m.contextWindow ≠ 0) :
    (router.requirement input).estimatedTokens ≤ m.contextWindow :=
  le_contextWindow_of_contextSafe (List.mem_filter.1 hm).2 hknown

variable {router : SmartRouter A} {input : SmartRoutingInput} {p : CandidatePlan A}

theorem plan_eq_route (h : router.plan input = .ok (.route p)) :
    ∃ eligible : EligibleModels, eligible.models = router.safeModels input ∧ eligible.models ≠ [] ∧
      eligible.estimatedRequirement = (router.requirement input).estimatedTokens ∧
      p = router.candidatePlan input (router.policyFor input) (router.classify input) (router.budgetDecision input)
        eligible := by
  simp only [plan] at h
  split_ifs at h
  split at h
  · cases h
  · split at h
    · cases h
    · split at h
      · cases h
      · cases h
      · next eligible heligible =>
        obtain ⟨hmodels, hne, hrequirement⟩ := filterByContextCapacity_eligible heligible
        injection h with h
        injection h with h
        exact ⟨eligible, hmodels, hne, hrequirement, h.symm⟩

end SmartRouter

/-- What a plan lists, where `safe` are the models that hold the request. -/
structure CandidatePlan.Lists (p : CandidatePlan A) (safe : List TaggedModel) : Prop where
  nonempty : p.candidates ≠ []
  subset : ∀ m ∈ p.candidates ++ p.overflow, m ∈ safe
  complete : ∀ m ∈ safe, m.key ∈ (p.candidates ++ p.overflow).map TaggedModel.key
  fresh : ∀ m ∈ p.overflow, m.key ∉ p.candidates.map TaggedModel.key
  nodup : (p.overflow.map TaggedModel.key).Nodup

section
variable {router : SmartRouter A} {input : SmartRoutingInput} {policy : SmartRoutingConfig F}
  {classification : Classification A} {budget : BudgetDecision} {eligible : EligibleModels}

def SmartRouter.tierFilter (router : SmartRouter A) (input : SmartRoutingInput) (policy : SmartRoutingConfig F)
    (classification : Classification A) (budget : BudgetDecision) (models : List TaggedModel) : TierFilterResult :=
  filterByTier { input.modelGroup with models := models }
    (applyBudgetLimit (router.decideTier input policy classification).tier budget).1 classification.taskType
    input.pinnedContext.model

theorem candidatePlan_of_bypassed (h : router.tierFilter input policy classification budget eligible.models =
      ⟨{ input.modelGroup with models := eligible.models }, none, true⟩) :
    (∀ m, m ∈ (router.candidatePlan input policy classification budget eligible).candidates ↔ m ∈ eligible.models) ∧
      (router.candidatePlan input policy classification budget eligible).overflow = [] ∧
      (router.candidatePlan input policy classification budget eligible).bypassed = true := by
  unfold SmartRouter.tierFilter at h
  refine ⟨fun m => ?_, by simp [SmartRouter.candidatePlan, h], by simp [SmartRouter.candidatePlan, h]⟩
  simp only [SmartRouter.candidatePlan, h]
  split_ifs
  · exact mem_preferCandidates
  · exact Iff.rfl

theorem candidatePlan_of_tier {tier : SmartRoutingTier}
    (h : router.tierFilter input policy classification budget eligible.models =
      ⟨{ input.modelGroup with models := ofTier eligible.models tier classification.taskType }, some tier, false⟩) :
    (router.candidatePlan input policy classification budget eligible).candidates =
        ofTier eligible.models tier classification.taskType ∧
      (router.candidatePlan input policy classification budget eligible).overflow =
        Firsts.firsts TaggedModel.key
          ((ofTier eligible.models tier classification.taskType).map TaggedModel.key) eligible.models := by
  unfold SmartRouter.tierFilter at h
  simp [SmartRouter.candidatePlan, h]

/-- Where nothing is selected the candidates are all the models; else they are those of a tier, and the overflow
is the rest. -/
theorem lists_candidatePlan (router : SmartRouter A) (input : SmartRoutingInput) (policy : SmartRoutingConfig F)
    (classification : Classification A) (budget : BudgetDecision) (hne : eligible.models ≠ []) :
    (router.candidatePlan input policy classification budget eligible).Lists eligible.models := by
  rcases filterByTier_cases { input.modelGroup with models := eligible.models }
    (applyBudgetLimit (router.decideTier input policy classification).tier budget).1 classification.taskType
    input.pinnedContext.model with hfilter | ⟨tier, hfind, hfilter⟩
  · obtain ⟨hcandidates, hoverflow, -⟩ := candidatePlan_of_bypassed hfilter
    obtain ⟨m, hm⟩ := List.exists_mem_of_ne_nil _ hne
    constructor
    · exact List.ne_nil_of_mem ((hcandidates m).2 hm)
    · rw [hoverflow, List.append_nil]
      exact fun m => (hcandidates m).1
    · rw [hoverflow, List.append_nil]
      exact fun m hm => List.mem_map_of_mem ((hcandidates m).2 hm)
    · rw [hoverflow]
      exact fun m hm => absurd hm List.not_mem_nil
    · rw [hoverflow]
      exact List.nodup_nil
  · obtain ⟨hcandidates, hoverflow⟩ := candidatePlan_of_tier hfilter
    have hany := List.find?_some hfind
    obtain ⟨m, hm, htier⟩ := List.any_eq_true.1 hany
    constructor
    · rw [hcandidates]
      exact ofTier_ne_nil hm (of_decide_eq_true htier)
    · rw [hcandidates, hoverflow]
      intro m hm
      rcases List.mem_append.1 hm with hm | hm
      · exact (mem_ofTier hm).1
      · exact Firsts.firsts_sublist.mem hm
    · rw [hcandidates, hoverflow]
      exact fun m hm => Firsts.mem_keys_append_firsts hm
    · rw [hcandidates, hoverflow]
      exact fun m hm => (Firsts.mem_keys_firsts.1 (List.mem_map_of_mem hm)).2
    · rw [hoverflow]
      exact Firsts.nodup_keys_firsts

theorem candidates_of_not_bypassed
    (h : (router.candidatePlan input policy classification budget eligible).bypassed = false) :
    ∃ tier, ((tierFallbackOrder (applyBudgetLimit (router.decideTier input policy classification).tier budget).1).find?
        fun tier => eligible.models.any (·.tier = some tier)) = some tier ∧
      (router.candidatePlan input policy classification budget eligible).candidates =
        ofTier eligible.models tier classification.taskType := by
  rcases filterByTier_cases { input.modelGroup with models := eligible.models }
    (applyBudgetLimit (router.decideTier input policy classification).tier budget).1 classification.taskType
    input.pinnedContext.model with hfilter | ⟨tier, hfind, hfilter⟩
  · obtain ⟨-, -, hbypassed⟩ := candidatePlan_of_bypassed hfilter
    rw [hbypassed] at h
    cases h
  · exact ⟨tier, hfind, (candidatePlan_of_tier hfilter).1⟩

end

/-- A route, where `safeModels` are the models of the group that hold the request. -/
structure PlanSound (router : SmartRouter A) (input : SmartRoutingInput) (p : CandidatePlan A) : Prop where
  nonempty : p.candidates ≠ []
  listed : ∀ m ∈ router.safeModels input, m.key ∈ (p.candidates ++ p.overflow).map TaggedModel.key
  fits : ∀ m ∈ p.candidates ++ p.overflow, m.contextWindow ≠ 0 →
    (router.requirement input).estimatedTokens ≤ m.contextWindow
  fresh : ∀ m ∈ p.overflow, m.key ∉ p.candidates.map TaggedModel.key
  oneTier : p.bypassed = false → ∃ tier, (∀ m ∈ p.candidates, m.tier = some tier) ∧
    ((∃ m ∈ router.safeModels input, m.tier = some tier ∧ (router.classify input).taskType ∈ m.specializations) →
      ∀ m ∈ p.candidates, (router.classify input).taskType ∈ m.specializations)
  /-- The cap is the maximum or one step below the selected tier, whichever is higher; it binds where a model of the
  capped tier holds the request. -/
  downgrade : p.bypassed = false → ∀ maximumTier, router.budgetDecision input = .downgrade maximumTier →
    (∃ m ∈ router.safeModels input,
      m.tier = some (applyBudgetLimit (router.selectedTier input) (.downgrade maximumTier)).1) →
    ∀ c ∈ p.candidates, ∀ tier, c.tier = some tier →
      tierRank tier ≤ max (tierRank maximumTier) (tierRank (oneStepLower (router.selectedTier input)))

theorem plan_sound {router : SmartRouter A} {input : SmartRoutingInput} {p : CandidatePlan A}
    (h : router.plan input = .ok (.route p)) : PlanSound router input p := by
  obtain ⟨eligible, hmodels, hne, -, rfl⟩ := SmartRouter.plan_eq_route h
  have hlists := lists_candidatePlan router input (router.policyFor input) (router.classify input)
    (router.budgetDecision input) hne
  constructor
  · exact hlists.nonempty
  · rw [← hmodels]
    exact hlists.complete
  · intro m hm
    have hsafe : m ∈ router.safeModels input := hmodels ▸ hlists.subset m hm
    exact SmartRouter.le_contextWindow_of_mem_safeModels hsafe
  · exact hlists.fresh
  · intro hbypassed
    obtain ⟨tier, -, hcandidates⟩ := candidates_of_not_bypassed hbypassed
    rw [hcandidates, ← hmodels]
    exact ⟨tier, fun m hm => (mem_ofTier hm).2, fun hs m hm => specialist_of_mem_ofTier hs hm⟩
  · intro hbypassed maximumTier hbudget ⟨m, hm, htier⟩ c hc tier hctier
    obtain ⟨applied, hfind, hcandidates⟩ := candidates_of_not_bypassed hbypassed
    have hmem : m ∈ eligible.models := by rw [hmodels]; exact hm
    rw [hbudget] at hfind
    have happlied := Option.some.inj (hfind.symm.trans (find?_tierFallbackOrder hmem htier))
    rw [hcandidates] at hc
    have hcapplied : some tier = some applied := hctier.symm.trans (mem_ofTier hc).2
    rw [Option.some.inj hcapplied, happlied]
    exact tierRank_applyBudgetLimit_le (router.selectedTier input) maximumTier

theorem exact_le_lit {p q : ℚ} (h : p ≤ q) : (!Rat.blt q p) = true := by
  rw [show Rat.blt q p = false from h]
  rfl

theorem exact_le_of_not_lt {x y : ℚ} (h : Rat.blt x y = false) : (!Rat.blt x y) = true := by
  rw [h]
  rfl

def exactScores : Scores ℚ where
  lit q := q
  add x y := x + y
  sub x y := x - y
  mul x y := x * y
  lt := Rat.blt
  le x y := !Rat.blt y x
  isNan _ := false
  isFinite _ := true
  isNan_lit _ := rfl
  le_lit := exact_le_lit
  le_of_not_lt _ _ h := exact_le_of_not_lt h

def tieredModel (name : String) (tier : SmartRoutingTier) (specializations : List TaskType) : TaggedModel where
  provider := "openai"
  model := name
  priority := 100
  costPerMillionInputTokens := 1
  costPerMillionOutputTokens := 2
  costPerMillionCacheReadInputTokens := none
  costPerMillionCacheCreationInputTokens := none
  costPerMillionReasoningTokens := none
  contextWindow := 128000
  tier := some tier
  specializations := specializations

def tieredInput (models : List TaggedModel) : SmartRoutingInput where
  requestId := "request"
  request := ⟨"auto", [], false, none, some 512, [], Json.nodupKeys_object_nil⟩
  modelGroup := ⟨"auto", models⟩
  pinnedContext := {}

def fullGroup : List TaggedModel :=
  [tieredModel "mini" .fast [], tieredModel "base" .balanced [], tieredModel "coder" .balanced [.codeGeneration],
    tieredModel "max" .powerful []]

def gapGroup : List TaggedModel := [tieredModel "mini" .fast [], tieredModel "max" .powerful []]

def tieredConfig : SmartRoutingConfig ℚ where
  enabled := true
  classifier := .heuristic
  jev := none
  laya := none
  costQualityThreshold := 1 / 2
  tierBoundaries := .default exactScores
  heuristicWeights := none
  compositeWeights := none
  modelGroupOverrides := []
  allowUnknownContextWindow := false
  reservedOutputTokens := 1024
  providerOverheadTokens := 64
  contextSafetyMarginTokens := 256
  semanticCache := ⟨false, 95 / 100, 1 / 2⟩
  budgetLimits := []

/-- The heuristic finds a code request of the highest complexity, and the budget a downgrade. -/
def downgradedRouter (maximumTier : SmartRoutingTier) : SmartRouter exactScores where
  config := tieredConfig
  heuristic _ _ := ⟨.new exactScores 1, .codeGeneration, 100⟩
  ml := none
  llm := none
  systemone := none
  optimizer := none
  budget := some fun _ _ _ _ _ => .downgrade maximumTier
  cache := none
  abTest := none

theorem sound_downgraded_plan : ∃ p, (downgradedRouter .fast).plan (tieredInput fullGroup) = .ok (.route p) ∧
    PlanSound (downgradedRouter .fast) (tieredInput fullGroup) p :=
  ⟨_, rfl, plan_sound rfl⟩

/-- Under a downgrade no candidate is above the maximum while a model up to it holds the request. -/
def DowngradeCapped (router : SmartRouter A) (input : SmartRoutingInput) : Prop :=
  ∀ p, router.plan input = .ok (.route p) → ∀ maximumTier, router.budgetDecision input = .downgrade maximumTier →
    (∃ m ∈ router.safeModels input, ∃ tier, m.tier = some tier ∧ tierRank tier ≤ tierRank maximumTier) →
    ∀ c ∈ p.candidates, ∀ tier, c.tier = some tier → tierRank tier ≤ tierRank maximumTier

theorem not_downgradeCapped {router : SmartRouter A} {input : SmartRoutingInput} {p : CandidatePlan A}
    {maximumTier tier tier' : SmartRoutingTier} {m c : TaggedModel} (hplan : router.plan input = .ok (.route p))
    (hbudget : router.budgetDecision input = .downgrade maximumTier) (hm : m ∈ router.safeModels input)
    (htier : m.tier = some tier) (hle : tierRank tier ≤ tierRank maximumTier) (hc : c ∈ p.candidates)
    (htier' : c.tier = some tier') (hlt : tierRank maximumTier < tierRank tier') : ¬ DowngradeCapped router input := by
  intro h
  have hcapped := h p hplan maximumTier hbudget ⟨m, hm, tier, htier, hle⟩ c hc tier' htier'
  omega

/-- From the powerful tier a downgrade to the fast one stops at the balanced tier; and the fallback from the balanced
tier tries the powerful one first. In both groups a fast model holds the request. -/
theorem not_downgradeCapped_fullGroup_gapGroup : ¬ DowngradeCapped (downgradedRouter .fast) (tieredInput fullGroup) ∧
      ¬ DowngradeCapped (downgradedRouter .balanced) (tieredInput gapGroup) := by
  constructor
  · have hm : tieredModel "mini" .fast [] ∈ (downgradedRouter .fast).safeModels (tieredInput fullGroup) := by
      decide +kernel
    obtain ⟨p, hplan, hcandidates⟩ : ∃ p, (downgradedRouter .fast).plan (tieredInput fullGroup) = .ok (.route p) ∧
        tieredModel "coder" .balanced [.codeGeneration] ∈ p.candidates := ⟨_, rfl, by decide +kernel⟩
    exact not_downgradeCapped hplan rfl hm rfl (by decide) hcandidates rfl (by decide)
  · have hm : tieredModel "mini" .fast [] ∈ (downgradedRouter .balanced).safeModels (tieredInput gapGroup) := by
      decide +kernel
    obtain ⟨p, hplan, hcandidates⟩ : ∃ p, (downgradedRouter .balanced).plan (tieredInput gapGroup) = .ok (.route p) ∧
        tieredModel "max" .powerful [] ∈ p.candidates := ⟨_, rfl, by decide +kernel⟩
    exact not_downgradeCapped hplan rfl hm rfl (by decide) hcandidates rfl (by decide)

end

end ObeyGateway.SmartRouting
