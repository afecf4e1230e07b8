import ObeyGateway.Lib.Text
import ObeyGateway.ReasoningCompat.StripLaw

/-!
# Reasoning parameters for a target

What the client asks for is read from one of four shapes and written in that of the target (`emitForTarget_law`). What is
written is read back and written in the same way, so an attempt that is prepared again stays as it is
(`prepareAttempt_again`).
-/

namespace ObeyGateway.Reasoning
open Models

inductive Effort
  | minimal | low | medium | high | xhigh
deriving DecidableEq

namespace Effort

def all : List Effort := [minimal, low, medium, high, xhigh]

def toString : Effort → String
  | minimal => "minimal"
  | low => "low"
  | medium => "medium"
  | high => "high"
  | xhigh => "xhigh"

/-- No character outside ASCII has a lower case in these words. -/
def parse (value : String) : Option Effort :=
  all.find? fun effort => effort.toString.toList = Text.toAsciiLowercase (Text.trim value.toList)

def defaultBudget : Effort → UInt32
  | minimal => 1024
  | low => 2048
  | medium => 8192
  | high => 16384
  | xhigh => 32768

end Effort

/-- A map of efforts to budgets, as its lookup. -/
abbrev EffortBudgetMap := Effort → Option UInt32

def EffortBudgetMap.budgetFor (map : EffortBudgetMap) (effort : Effort) : UInt32 := (map effort).getD effort.defaultBudget

inductive ReasoningParamShape
  | thinkingBudget | adaptive | reasoningMaxTokens | reasoningEffort | none
deriving DecidableEq

/-- Of a `ProviderModel` -/
structure ProviderTarget where
  provider : String
  model : String
  reasoningFamily : Option ReasoningFamily
  reasoningParameter : Option ReasoningParamShape

structure ReasoningSpec where
  effort : Option Effort
  budget : Option UInt32
  adaptive : Bool

def ReasoningSpec.isEmpty (spec : ReasoningSpec) : Bool := spec.effort.isNone && spec.budget.isNone && !spec.adaptive

/-- The budget of the client, else that of its effort. -/
def ReasoningSpec.tokens (spec : ReasoningSpec) (map : EffortBudgetMap) : Option UInt32 :=
  spec.budget.or (spec.effort.map map.budgetFor)

structure NormalizeReport where
  emittedShape : String := "none"
  clamped : Bool := false
  samplingDropped : Bool := false
  maxTokensRaised : Bool := false

def jsonU32 (value : Option Json) : Option UInt32 :=
  (value.bind Json.asU64).bind fun n => if n.toNat < 2 ^ 32 then some n.toUInt32 else none

def u32Value (n : UInt32) : Json := .number (.posInt n.toUInt64)

def readEffort (value : Option Json) : Option Effort := (value.bind Json.asStr).bind Effort.parse

/-- A field of a parameter that is an object. -/
def paramField (outgoing : OpenAIRequest) (key field : String) : Option Json :=
  (Assoc.get outgoing.extra key).bind (·.get field)

def readClientSpec (outgoing : OpenAIRequest) : ReasoningSpec :=
  match (paramField outgoing "thinking" "type").bind Json.asStr with
  | some "enabled" => ⟨none, jsonU32 (paramField outgoing "thinking" "budget_tokens"), false⟩
  | some "adaptive" => ⟨readEffort (paramField outgoing "output_config" "effort"), none, true⟩
  | _ =>
    match readEffort (Assoc.get outgoing.extra "reasoning_effort") with
    | some effort => ⟨some effort, none, false⟩
    | none => ⟨readEffort (paramField outgoing "reasoning" "effort"), jsonU32 (paramField outgoing "reasoning" "max_tokens"), false⟩

def familyDefaultShape : ReasoningFamily → ReasoningParamShape
  | .anthropicManual => .thinkingBudget
  | .anthropicAdaptive => .adaptive
  | .openAIReasoning | .xai => .reasoningEffort
  | .openRouter => .reasoningMaxTokens
  | .deepSeek | .gemini | .none => .none

def inverseEffort (budget : UInt32) (map : EffortBudgetMap) : Effort :=
  let best := Effort.all.foldl (fun (best : Option (UInt32 × Effort)) effort =>
    if map.budgetFor effort ≤ budget ∧ best.all (·.1 < map.budgetFor effort) then some (map.budgetFor effort, effort)
    else best) none
  (best.map (·.2)).getD .minimal

abbrev PlainValue := { v : Json // v.nodupKeys = true }

def insertExtra (r : OpenAIRequest) (key : String) (v : PlainValue) : OpenAIRequest :=
  { r with extra := Assoc.insert r.extra key v, extra_nodup := Json.nodupKeys_insert r.extra_nodup v.2 }

theorem nodupKeys_filter {fields : Json.Map} (h : (Json.object fields).nodupKeys = true) (p : String × Json → Bool) :
    (Json.object (fields.filter p)).nodupKeys = true := by
  rw [Json.nodupKeys_object] at h ⊢
  exact ⟨h.1.sublist (List.filter_sublist.map _), fun f hf => h.2 f (List.mem_of_mem_filter hf)⟩

def removeExtras (r : OpenAIRequest) (keys : List String) : OpenAIRequest :=
  { r with extra := r.extra.filter (·.1 ∉ keys), extra_nodup := nodupKeys_filter r.extra_nodup _ }

def reasoningKeys : List String := ["reasoning_effort", "thinking", "reasoning", "output_config"]

def kept : ReasoningParamShape → String → Bool
  | .reasoningEffort, key => key = "reasoning_effort"
  | .thinkingBudget, key => key = "thinking"
  | .adaptive, key => key = "thinking" || key = "output_config"
  | .reasoningMaxTokens, key => key = "reasoning"
  | .none, _ => false

section
variable (outgoing : OpenAIRequest) (spec : ReasoningSpec) (map : EffortBudgetMap)

def removeReasoningParams (keep : ReasoningParamShape) : OpenAIRequest :=
  removeExtras outgoing (reasoningKeys.filter fun key => !kept keep key)

def samplingKeys : List String := ["temperature", "top_p", "top_k"]

/-- With whether something was dropped. -/
def dropSamplingParams : OpenAIRequest × Bool :=
  (removeExtras { outgoing with temperature := none } samplingKeys,
    outgoing.temperature.isSome || samplingKeys.any fun key => (Assoc.get outgoing.extra key).isSome)

def readMaxTokens : Option UInt32 :=
  outgoing.maxTokens.or (jsonU32 (Assoc.get outgoing.extra "max_tokens"))

def writeMaxTokens (value : UInt32) : OpenAIRequest :=
  if outgoing.maxTokens.isSome then { outgoing with maxTokens := some value }
  else insertExtra outgoing "max_tokens" ⟨u32Value value, rfl⟩

/-- `saturating_add(1)` -/
def above (budget : UInt32) : UInt32 := if budget = 0xffffffff then budget else budget + 1

def minReasoningBudgetTokens : UInt32 := 1024

def clampBudget (budget : UInt32) : UInt32 := if budget < minReasoningBudgetTokens then minReasoningBudgetTokens else budget

def emitReasoningEffort : OpenAIRequest × NormalizeReport :=
  match spec.effort.or (spec.budget.map (inverseEffort · map)) with
  | none => (removeReasoningParams outgoing .none, {})
  | some effort =>
    let outgoing := insertExtra outgoing "reasoning_effort" ⟨.string effort.toString, rfl⟩
    (removeReasoningParams outgoing .reasoningEffort, { emittedShape := "reasoning_effort" })

def enabledValue (budget : UInt32) : PlainValue :=
  ⟨.object [("budget_tokens", u32Value budget), ("type", .string "enabled")], rfl⟩

def maxTokensValue (budget : UInt32) : PlainValue := ⟨.object [("max_tokens", u32Value budget)], rfl⟩

def adaptiveValue : PlainValue := ⟨.object [("type", .string "adaptive")], rfl⟩

/-- `max_tokens` above the budget, where the request has one; with whether it was raised. -/
def raiseMaxTokens (budget : UInt32) : OpenAIRequest × Bool :=
  if (readMaxTokens outgoing).any (· ≤ budget) then (writeMaxTokens outgoing (above budget), true) else (outgoing, false)

def emitThinkingBudget : OpenAIRequest × NormalizeReport :=
  match spec.tokens map with
  | none => (removeReasoningParams outgoing .none, {})
  | some asked =>
    let budget := clampBudget asked
    let (outgoing, maxTokensRaised) := raiseMaxTokens outgoing budget
    let (outgoing, samplingDropped) := dropSamplingParams (insertExtra outgoing "thinking" (enabledValue budget))
    (removeReasoningParams outgoing .thinkingBudget,
      ⟨"thinking_enabled", asked < minReasoningBudgetTokens, samplingDropped, maxTokensRaised⟩)

def emitAdaptive : OpenAIRequest × NormalizeReport :=
  let outgoing := insertExtra outgoing "thinking" adaptiveValue
  let outgoing := match spec.effort with
    | some effort => insertExtra outgoing "output_config" ⟨.object [("effort", .string effort.toString)], rfl⟩
    | none => removeExtras outgoing ["output_config"]
  let (outgoing, samplingDropped) := dropSamplingParams outgoing
  (removeReasoningParams outgoing .adaptive, { emittedShape := "thinking_adaptive", samplingDropped })

def emitReasoningMaxTokens : OpenAIRequest × NormalizeReport :=
  match spec.tokens map with
  | none => (removeReasoningParams outgoing .none, {})
  | some budget =>
    let outgoing := insertExtra outgoing "reasoning" (maxTokensValue budget)
    (removeReasoningParams outgoing .reasoningMaxTokens, { emittedShape := "reasoning_max_tokens" })

/-- `emit_for_target` from the shape on -/
def emitShape (shape : ReasoningParamShape) : OpenAIRequest × NormalizeReport :=
  if spec.isEmpty then (outgoing, {})
  else match shape with
    | .reasoningEffort => emitReasoningEffort outgoing spec map
    | .thinkingBudget => emitThinkingBudget outgoing spec map
    | .adaptive => emitAdaptive outgoing spec
    | .reasoningMaxTokens => emitReasoningMaxTokens outgoing spec map
    | .none => (removeReasoningParams outgoing .none, {})

end

section
-- `classify_family` of the model's id
variable (classifyFamily : String → ReasoningFamily) (target : ProviderTarget) (map : EffortBudgetMap)

def ProviderTarget.family : ReasoningFamily := target.reasoningFamily.getD (classifyFamily target.model)

def ProviderTarget.shape : ReasoningParamShape :=
  target.reasoningParameter.getD (familyDefaultShape (target.family classifyFamily))

def emitForTarget (outgoing : OpenAIRequest) (spec : ReasoningSpec) : OpenAIRequest × NormalizeReport :=
  emitShape outgoing spec map (target.shape classifyFamily)

/-- What `prepare_attempt` reports. -/
structure AttemptReport where
  decision : StripDecision
  strip : StripReport
  normalized : NormalizeReport

def targetModelRef : ModelRef := ⟨target.provider, target.model, target.family classifyFamily⟩

def prepareAttempt (cfg : ReasoningCompatConfig) (outgoing original : OpenAIRequest) (source : Option ModelRef) :
    OpenAIRequest × AttemptReport :=
  let decision := decide (detect original.messages) source (targetModelRef classifyFamily target) cfg
  let (outgoing, strip) := apply outgoing decision
  let (outgoing, normalized) := emitForTarget classifyFamily target map outgoing (readClientSpec outgoing)
  (outgoing, ⟨decision, strip, normalized⟩)

end

/-! ### What is emitted -/

section
variable {r out : OpenAIRequest} {spec : ReasoningSpec} {shape keep : ReasoningParamShape} {map : EffortBudgetMap}
variable {key k : String} {v : PlainValue}

@[simp] theorem get_removeExtras (keys : List String) :
    Assoc.get (removeExtras r keys).extra key = if key ∈ keys then none else Assoc.get r.extra key := by
  refine (Assoc.get_filter fun k => Decidable.decide (k ∉ keys)).trans ?_
  by_cases h : key ∈ keys <;> simp [h]

@[simp] theorem get_insertExtra :
    Assoc.get (insertExtra r k v).extra key = if key = k then some v.1 else Assoc.get r.extra key := Assoc.get_insert ..

@[simp] theorem get_removeReasoningParams : Assoc.get (removeReasoningParams r keep).extra key =
    if key ∈ reasoningKeys ∧ kept keep key = false then none else Assoc.get r.extra key := by
  rw [removeReasoningParams, get_removeExtras]
  simp

@[simp] theorem get_dropSamplingParams : Assoc.get (dropSamplingParams r).1.extra key =
    if key ∈ samplingKeys then none else Assoc.get r.extra key := get_removeExtras _

theorem jsonU32_u32Value (n : UInt32) : jsonU32 (some (u32Value n)) = some n := by
  have hlt : n.toNat < 4294967296 := n.toNat_lt
  simp [jsonU32, u32Value, Json.asU64, hlt]

theorem readEffort_toString (e : Effort) : readEffort (some (.string e.toString)) = some e := by
  cases e <;> decide +kernel

theorem le_clampBudget (budget : UInt32) : budget ≤ clampBudget budget ∧ minReasoningBudgetTokens ≤ clampBudget budget := by
  unfold clampBudget
  split_ifs with h
  · exact ⟨UInt32.le_of_lt h, UInt32.le_refl _⟩
  · exact ⟨UInt32.le_refl _, UInt32.not_lt.1 h⟩

theorem clampBudget_self (budget : UInt32) : clampBudget (clampBudget budget) = clampBudget budget :=
  if_neg (UInt32.not_lt.2 (le_clampBudget budget).2)

/-! ### Raising `max_tokens` -/

theorem readMaxTokens_congr (hmax : out.maxTokens = r.maxTokens)
    (hextra : Assoc.get out.extra "max_tokens" = Assoc.get r.extra "max_tokens") : readMaxTokens out = readMaxTokens r := by
  rw [readMaxTokens, hmax, hextra, readMaxTokens]

theorem readMaxTokens_write (v : UInt32) : readMaxTokens (writeMaxTokens r v) = some v := by
  unfold writeMaxTokens
  split_ifs with h
  · rfl
  · rw [Bool.not_eq_true, Option.isSome_eq_false_iff, Option.isNone_iff_eq_none] at h
    simp [readMaxTokens, insertExtra, h, Assoc.get_insert, jsonU32_u32Value]

theorem lt_above (b : UInt32) : b < above b ∨ b = 0xffffffff := by
  unfold above
  split_ifs with h
  · exact .inr h
  · left
    have hne : b.toNat ≠ 4294967295 := fun heq => h (UInt32.toNat_inj.1 heq)
    have hlt := b.toNat_lt
    rw [UInt32.lt_iff_toNat_lt, UInt32.toNat_add, UInt32.toNat_one]
    omega

theorem readMaxTokens_raise {b n : UInt32} (h : readMaxTokens (raiseMaxTokens r b).1 = some n) : b < n ∨ b = 0xffffffff := by
  unfold raiseMaxTokens at h
  split_ifs at h with hle
  · rw [readMaxTokens_write, Option.some.injEq] at h
    exact h ▸ lt_above b
  · rw [h] at hle
    exact .inl (by simpa using hle)

theorem raise_frame (b : UInt32) : let out := (raiseMaxTokens r b).1
    out.model = r.model ∧ out.messages = r.messages ∧ out.stream = r.stream ∧
      ∀ key ≠ "max_tokens", Assoc.get out.extra key = Assoc.get r.extra key := by
  unfold raiseMaxTokens writeMaxTokens
  split_ifs
  · exact ⟨rfl, rfl, rfl, fun _ _ => rfl⟩
  · exact ⟨rfl, rfl, rfl, fun _ hkey => get_insertExtra.trans (if_neg hkey)⟩
  · exact ⟨rfl, rfl, rfl, fun _ _ => rfl⟩

/-- Where `max_tokens` was raised before, raising it changes nothing. -/
theorem raise_again (out : OpenAIRequest) {b : UInt32} (hmax : out.maxTokens = (raiseMaxTokens r b).1.maxTokens)
    (hextra : Assoc.get out.extra "max_tokens" = Assoc.get (raiseMaxTokens r b).1.extra "max_tokens") :
    (raiseMaxTokens out b).1.maxTokens = out.maxTokens ∧
      ∀ key, Assoc.get (raiseMaxTokens out b).1.extra key = Assoc.get out.extra key := by
  unfold raiseMaxTokens at hmax hextra ⊢
  by_cases hr : (readMaxTokens r).any (· ≤ b)
  · rw [if_pos hr] at hmax hextra
    split_ifs
    · unfold writeMaxTokens at hmax hextra ⊢
      by_cases hsome : r.maxTokens.isSome
      · rw [if_pos hsome] at hmax
        rw [hmax]
        exact ⟨rfl, fun _ => rfl⟩
      · rw [if_neg hsome] at hmax hextra
        rw [get_insertExtra, if_pos rfl] at hextra
        rw [if_neg (hmax ▸ hsome)]
        refine ⟨rfl, fun key => get_insertExtra.trans ?_⟩
        split_ifs with hkey
        · rw [hkey, hextra]
        · rfl
    · exact ⟨rfl, fun _ => rfl⟩
  · rw [if_neg hr] at hmax hextra
    rw [readMaxTokens_congr hmax hextra, if_neg hr]
    exact ⟨rfl, fun _ => rfl⟩

def thinkingWith (r : OpenAIRequest) (budget : UInt32) : OpenAIRequest :=
  removeReasoningParams (dropSamplingParams (insertExtra (raiseMaxTokens r budget).1 "thinking" (enabledValue budget))).1
    .thinkingBudget

theorem get_thinkingWith (budget : UInt32) : Assoc.get (thinkingWith r budget).extra key =
    if key = "thinking" then some (enabledValue budget).1
    else if key ∈ reasoningKeys ∨ key ∈ samplingKeys then none else Assoc.get (raiseMaxTokens r budget).1.extra key := by
  simp [thinkingWith, kept, reasoningKeys, samplingKeys]
  grind

/-! ### Emitted again -/

/-- Equal up to the order of the extra fields. -/
structure Same (r r' : OpenAIRequest) : Prop where
  body : r.model = r'.model ∧ r.messages = r'.messages ∧ r.stream = r'.stream
  temperature : r.temperature = r'.temperature
  maxTokens : r.maxTokens = r'.maxTokens
  extra : ∀ key, Assoc.get r.extra key = Assoc.get r'.extra key

theorem same_of_isEmpty (h : (readClientSpec out).isEmpty = true) : Same (emitShape out (readClientSpec out) map shape).1 out := by
  rw [emitShape.eq_def, if_pos h]
  exact ⟨⟨rfl, rfl, rfl⟩, rfl, rfl, fun _ => rfl⟩

theorem written_again (hout : out = removeReasoningParams (insertExtra r k v) keep) :
    Same (removeReasoningParams (insertExtra out k v) keep) out := by
  refine ⟨⟨rfl, rfl, rfl⟩, rfl, rfl, fun key => ?_⟩
  simp only [hout, get_removeReasoningParams, get_insertExtra]
  split_ifs <;> rfl

theorem get_emitAdaptive : Assoc.get (emitAdaptive r spec).1.extra key =
    if key = "thinking" then some adaptiveValue.1
    else if key = "output_config" then spec.effort.map fun effort => .object [("effort", .string effort.toString)]
    else if key ∈ reasoningKeys ∨ key ∈ samplingKeys then none else Assoc.get r.extra key := by
  unfold emitAdaptive
  cases spec.effort <;> simp [kept, reasoningKeys, samplingKeys] <;> grind

theorem emitAdaptive_frame (spec : ReasoningSpec) : let out := (emitAdaptive r spec).1
    out.model = r.model ∧ out.messages = r.messages ∧ out.stream = r.stream ∧ out.temperature = none ∧
      out.maxTokens = r.maxTokens := by
  unfold emitAdaptive
  cases spec.effort <;> exact ⟨rfl, rfl, rfl, rfl, rfl⟩

theorem emit_cases (r : OpenAIRequest) (map : EffortBudgetMap) (shape : ReasoningParamShape) (h : spec.isEmpty = false) :
    let out := (emitShape r spec map shape).1
    (out = removeReasoningParams r .none ∧ shape ≠ .adaptive ∧ (shape = .thinkingBudget → spec.tokens map = none)) ∨
      (shape = .reasoningEffort ∧ ∃ effort : Effort, out =
        removeReasoningParams (insertExtra r "reasoning_effort" ⟨.string effort.toString, rfl⟩) .reasoningEffort) ∨
      (shape = .reasoningMaxTokens ∧ ∃ budget, out =
        removeReasoningParams (insertExtra r "reasoning" (maxTokensValue budget)) .reasoningMaxTokens) ∨
      (shape = .thinkingBudget ∧ ∃ asked, spec.tokens map = some asked ∧ out = thinkingWith r (clampBudget asked)) ∨
      shape = .adaptive ∧ out = (emitAdaptive r spec).1 := by
  cases shape with
  | none => exact .inl (by simp [emitShape, h])
  | reasoningEffort =>
    cases heffort : spec.effort.or (spec.budget.map (inverseEffort · map)) with
    | none => exact .inl (by simp [emitShape, h, emitReasoningEffort, heffort])
    | some effort => exact .inr (.inl ⟨rfl, effort, by simp [emitShape, h, emitReasoningEffort, heffort]⟩)
  | reasoningMaxTokens =>
    cases htokens : spec.tokens map with
    | none => exact .inl (by simp [emitShape, h, emitReasoningMaxTokens, htokens])
    | some budget =>
      exact .inr (.inr (.inl ⟨rfl, budget, by simp [emitShape, h, emitReasoningMaxTokens, htokens]⟩))
  | thinkingBudget =>
    cases htokens : spec.tokens map with
    | none => exact .inl (by simp [emitShape, h, emitThinkingBudget, htokens])
    | some asked =>
      exact .inr (.inr (.inr (.inl ⟨rfl, asked, rfl, by simp [emitShape, h, emitThinkingBudget, htokens, thinkingWith]⟩)))
  | adaptive => exact .inr (.inr (.inr (.inr ⟨rfl, by simp [emitShape, h]⟩)))

theorem emit_again (h : spec.isEmpty = false) : let out := (emitShape r spec map shape).1
    Same (emitShape out (readClientSpec out) map shape).1 out := by
  intro out
  rcases emit_cases r map shape h with
    ⟨hout, -⟩ | ⟨rfl, effort, hout⟩ | ⟨rfl, budget, hout⟩ | ⟨rfl, asked, -, hout⟩ | ⟨rfl, hout⟩ <;> change out = _ at hout
  · refine same_of_isEmpty ?_
    simp [hout, ReasoningSpec.isEmpty, readClientSpec, paramField, readEffort, jsonU32, reasoningKeys, kept]
  · have hspec : readClientSpec out = ⟨some effort, none, false⟩ := by
      simp [hout, readClientSpec, paramField, reasoningKeys, kept, readEffort_toString]
    rw [hspec]
    exact written_again hout
  · have hspec : readClientSpec out = ⟨none, some budget, false⟩ := by
      simp [hout, readClientSpec, paramField, reasoningKeys, kept, readEffort, jsonU32_u32Value, Json.get, maxTokensValue,
        Assoc.get_cons_of_ne]
    rw [hspec]
    exact written_again hout
  · set budget := clampBudget asked with hbudget
    have hspec : readClientSpec out = ⟨none, some budget, false⟩ := by
      simp [hout, readClientSpec, paramField, get_thinkingWith, enabledValue, jsonU32_u32Value, Json.get, Assoc.get_cons_of_ne,
        Json.asStr]
    have hagain : (emitShape out ⟨none, some budget, false⟩ map .thinkingBudget).1 = thinkingWith out budget := by
      simp [emitShape, ReasoningSpec.isEmpty, emitThinkingBudget, ReasoningSpec.tokens, hbudget, clampBudget_self, thinkingWith]
    obtain ⟨hmax, hextra⟩ := raise_again out (r := r) (b := budget) (by rw [hout]; rfl)
      (by simp [hout, thinkingWith, reasoningKeys, samplingKeys])
    obtain ⟨hmodel, hmessages, hstream, -⟩ := raise_frame (r := out) budget
    rw [hspec, hagain]
    refine ⟨⟨hmodel, hmessages, hstream⟩, by rw [hout]; rfl, hmax, fun key => ?_⟩
    rw [get_thinkingWith, hextra, hout, get_thinkingWith]
    split_ifs <;> rfl
  · have hspec : readClientSpec out = ⟨spec.effort, none, true⟩ := by
      simp only [hout, readClientSpec, paramField, get_emitAdaptive]
      cases spec.effort <;> simp [readEffort, adaptiveValue, Json.get, Json.asStr]
      exact readEffort_toString _
    have hagain : (emitShape out ⟨spec.effort, none, true⟩ map .adaptive).1 = (emitAdaptive out spec).1 := by
      simp [emitShape, ReasoningSpec.isEmpty, emitAdaptive]
    obtain ⟨hmodel, hmessages, hstream, htemperature, hmax⟩ := emitAdaptive_frame spec (r := out)
    rw [hspec, hagain]
    refine ⟨⟨hmodel, hmessages, hstream⟩, ?_, hmax, fun key => ?_⟩
    · rw [htemperature, hout]
      exact (emitAdaptive_frame _).2.2.2.1.symm
    · rw [get_emitAdaptive, hout, get_emitAdaptive]
      split_ifs <;> rfl

end

/-! ### The law -/

/-- What holds of a request with a reasoning parameter once it is written for the target. -/
structure ParamLaw (r out : OpenAIRequest) (shape : ReasoningParamShape) (map : EffortBudgetMap) : Prop where
  own : ∀ key ∈ reasoningKeys, kept shape key = false → Assoc.get out.extra key = none
  budget : shape = .thinkingBudget → ∀ asked, (readClientSpec r).tokens map = some asked → ∃ budget,
    Assoc.get out.extra "thinking" = some (enabledValue budget).1 ∧ asked ≤ budget ∧ minReasoningBudgetTokens ≤ budget ∧
      ∀ n, readMaxTokens out = some n → budget < n ∨ budget = 0xffffffff
  adaptive : shape = .adaptive → Assoc.get out.extra "thinking" = some adaptiveValue.1 ∧
    readEffort (paramField out "output_config" "effort") = (readClientSpec r).effort
  sampling : Assoc.get out.extra "thinking" ≠ none → out.temperature = none ∧ ∀ key ∈ samplingKeys, Assoc.get out.extra key = none
  others : ∀ key ∉ reasoningKeys, key ∉ samplingKeys → key ≠ "max_tokens" → Assoc.get out.extra key = Assoc.get r.extra key
  body : out.model = r.model ∧ out.messages = r.messages ∧ out.stream = r.stream

variable (classifyFamily : String → ReasoningFamily) (target : ProviderTarget) (map : EffortBudgetMap)

theorem emitForTarget_law (r : OpenAIRequest) (h : (readClientSpec r).isEmpty = false) :
    ParamLaw r (emitForTarget classifyFamily target map r (readClientSpec r)).1 (target.shape classifyFamily) map := by
  rw [emitForTarget]
  rcases emit_cases r map (target.shape classifyFamily) h with
    ⟨hout, hadaptive, htokens⟩ | ⟨hshape, effort, hout⟩ | ⟨hshape, budget, hout⟩ | ⟨hshape, asked, htokens, hout⟩ | ⟨hshape, hout⟩ <;>
    rw [hout]
  · refine ⟨fun key hkey _ => by simp [hkey, kept], fun hshape asked hasked => ?_, fun h => absurd h hadaptive,
      fun hne => absurd (by simp [reasoningKeys, kept]) hne, fun key hkey _ _ => by simp [hkey], ⟨rfl, rfl, rfl⟩⟩
    cases (htokens hshape).symm.trans hasked
  case inr.inl | inr.inr.inl =>
    rw [hshape]
    refine ⟨fun key hkey hkept => by simp [hkey, hkept], by rintro ⟨⟩, by rintro ⟨⟩,
      fun hne => absurd (by simp [reasoningKeys, kept]) hne, fun key hkey _ _ => ?_, ⟨rfl, rfl, rfl⟩⟩
    grind [get_removeReasoningParams, get_insertExtra, reasoningKeys]
  · rw [hshape]
    obtain ⟨hmodel, hmessages, hstream, hextra⟩ := raise_frame (r := r) (clampBudget asked)
    have hmax : readMaxTokens (thinkingWith r (clampBudget asked)) = readMaxTokens (raiseMaxTokens r (clampBudget asked)).1 :=
      readMaxTokens_congr rfl (by simp [thinkingWith, reasoningKeys, samplingKeys])
    refine ⟨fun key hkey hkept => by simp [thinkingWith, hkey, hkept], fun _ asked' hasked => ?_, by rintro ⟨⟩,
      fun _ => ⟨rfl, fun key hkey => by simp [thinkingWith, hkey]⟩, fun key hkey hsampling hne => ?_,
      ⟨hmodel, hmessages, hstream⟩⟩
    · cases htokens.symm.trans hasked
      obtain ⟨hle, hmin⟩ := le_clampBudget asked
      exact ⟨clampBudget asked, by simp [thinkingWith, kept, samplingKeys], hle, hmin, fun n hn => readMaxTokens_raise (hmax ▸ hn)⟩
    · rw [get_thinkingWith, hextra key hne]
      grind [reasoningKeys]
  · rw [hshape]
    obtain ⟨hmodel, hmessages, hstream, htemperature, -⟩ := emitAdaptive_frame (readClientSpec r) (r := r)
    refine ⟨fun key hkey hkept => ?_, by rintro ⟨⟩, fun _ => ⟨get_emitAdaptive, ?_⟩,
      fun _ => ⟨htemperature, fun key hkey => ?_⟩, fun key hkey hsampling _ => ?_, ⟨hmodel, hmessages, hstream⟩⟩
    · grind [get_emitAdaptive, kept]
    · rw [paramField, get_emitAdaptive]
      cases (readClientSpec r).effort with
      | none => rfl
      | some effort => exact readEffort_toString effort
    · grind [get_emitAdaptive, samplingKeys]
    · grind [get_emitAdaptive, reasoningKeys]

def highRequest : OpenAIRequest where
  model := "m"
  messages := []
  stream := false
  temperature := none
  maxTokens := some 100
  extra := [("reasoning_effort", .string "high")]
  extra_nodup := rfl

theorem highRequest_law : (readClientSpec highRequest).isEmpty = false ∧ ParamLaw highRequest
    (emitForTarget (fun _ => .anthropicManual) ⟨"p", "m", none, none⟩ (fun _ => none) highRequest (readClientSpec highRequest)).1
    .thinkingBudget fun _ => none :=
  ⟨by decide +kernel, emitForTarget_law _ _ _ highRequest (by decide +kernel)⟩

/-! ### An attempt -/

theorem apply_of_messages {outgoing out : OpenAIRequest} {decision : StripDecision}
    (h : out.messages = (apply outgoing decision).1.messages) : apply out decision = (out, {}) := by
  cases hstrips : decision.strips with
  | true => exact apply_of_carriers (h ▸ carriers_apply hstrips)
  | false => exact if_neg (hstrips ▸ Bool.false_ne_true)

theorem messages_emitShape (r : OpenAIRequest) (spec : ReasoningSpec) (shape : ReasoningParamShape) :
    (emitShape r spec map shape).1.messages = r.messages := by
  cases h : spec.isEmpty with
  | true => rw [emitShape.eq_def, if_pos h]
  | false =>
    rcases emit_cases r map shape h with ⟨hout, -⟩ | ⟨-, _, hout⟩ | ⟨-, _, hout⟩ | ⟨-, _, -, hout⟩ | ⟨-, hout⟩ <;> rw [hout]
    case inr.inr.inr.inl => exact (raise_frame _).2.1
    case inr.inr.inr.inr => exact (emitAdaptive_frame _).2.1
    all_goals rfl

/-- An attempt that is prepared again is left as it is. -/
theorem prepareAttempt_again (cfg : ReasoningCompatConfig) (outgoing original : OpenAIRequest) (source : Option ModelRef) :
    let out := (prepareAttempt classifyFamily target map cfg outgoing original source).1
    Same (prepareAttempt classifyFamily target map cfg out original source).1 out := by
  intro out
  set stripped := (apply outgoing (decide (detect original.messages) source (targetModelRef classifyFamily target) cfg)).1
  have hmessages : out.messages = stripped.messages := messages_emitShape ..
  rw [prepareAttempt, apply_of_messages hmessages]
  cases hspec : (readClientSpec stripped).isEmpty with
  | true =>
    have hout : out = stripped := by
      show (emitShape stripped (readClientSpec stripped) map _).1 = stripped
      rw [emitShape.eq_def, if_pos hspec]
    exact same_of_isEmpty (hout ▸ hspec)
  | false => exact emit_again hspec

end ObeyGateway.Reasoning
