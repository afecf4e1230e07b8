import ObeyGateway.ReasoningCompat.Detect

/-!
# Stripping foreign reasoning

`reasoning_compat/policy.rs`. `decide` says whether the reasoning of earlier turns survives a transition to another
model, and `apply` removes it from the outgoing request. What is stripped leaves no carrier (`carriers_apply`). A source
that is not known is replaced by the one family `detect` infers, so that the carriers of another family pass beside
those of the target (`law_iff_unmixed`).
-/

namespace ObeyGateway.Reasoning
open Models

inductive StripDecision
  | preserve | stripAll | stripAttributionUnknown
deriving DecidableEq

def StripDecision.asStr : StripDecision → String
  | .preserve => "preserve"
  | .stripAll => "strip_all"
  | .stripAttributionUnknown => "strip_attribution_unknown"

def StripDecision.strips (d : StripDecision) : Bool := d = .stripAll || d = .stripAttributionUnknown

structure ModelRef where
  provider : String
  model : String
  family : ReasoningFamily
deriving DecidableEq

structure StripReport where
  messagesTouched : Nat := 0
  thinkingBlocks : Nat := 0
  redactedThinkingBlocks : Nat := 0
  fieldsRemoved : Nat := 0
deriving DecidableEq

structure ReasoningCompatConfig where
  stripOnModelChange : Bool

/-- The source is known when there is an affinity record. -/
def decide (footprint : ReasoningFootprint) (source : Option ModelRef) (target : ModelRef)
    (cfg : ReasoningCompatConfig) : StripDecision :=
  if footprint.isEmpty then .preserve
  else if !cfg.stripOnModelChange then .preserve
  else match source with
    | some source =>
      if source.provider = target.provider ∧ source.model = target.model ∧ source.family = target.family then .preserve
      else .stripAll
    | none =>
      if footprint.sourceFamily ≠ .none ∧ footprint.sourceFamily = target.family then .preserve
      else .stripAttributionUnknown

/-! ### Apply -/

/-- `remove` of each field, with how many there were. -/
def removeFields (fields : List String) (map : Json.Map) : Json.Map × Nat :=
  fields.foldl (fun acc field => (Assoc.erase acc.1 field, acc.2 + if (Assoc.get acc.1 field).isSome then 1 else 0))
    (map, 0)

def stripCarrierMetadata : Json → Json × Nat
  | .object fields =>
    let removed := removeFields ["signature", "data", "thinking"] fields
    (.object removed.1, removed.2)
  | v => (v, 0)

/-- The locals of `apply` while it goes through the blocks of one message. -/
structure BlockPass where
  report : StripReport
  retained : List Json := []
  removedReasoningBlock : Bool := false
  touched : Bool := false

def BlockPass.block (p : BlockPass) (block : Json) : BlockPass :=
  match blockType block with
  | some "thinking" =>
    { p with
      report := { p.report with thinkingBlocks := p.report.thinkingBlocks + 1 }
      removedReasoningBlock := true
      touched := true }
  | some "redacted_thinking" =>
    { p with
      report := { p.report with redactedThinkingBlocks := p.report.redactedThinkingBlocks + 1 }
      removedReasoningBlock := true
      touched := true }
  | some "reasoning" =>
    { p with report := { p.report with fieldsRemoved := p.report.fieldsRemoved + 1 }, touched := true }
  | _ => { p with retained := p.retained ++ [block] }

def BlockPass.siblings (p : BlockPass) : BlockPass :=
  if p.removedReasoningBlock then
    let stripped := p.retained.map stripCarrierMetadata
    let removed := (stripped.map (·.2)).sum
    { p with
      report := { p.report with fieldsRemoved := p.report.fieldsRemoved + removed }
      retained := stripped.map (·.1)
      touched := p.touched || 0 < removed }
  else p

def stripContent (report : StripReport) : Json → Json × StripReport × Bool
  | .array blocks =>
    let p := (blocks.foldl BlockPass.block { report := report }).siblings
    (.array p.retained, p.report, p.touched)
  | content => (content, report, false)

def carrierFields : List String := ["reasoning_content", "reasoning"]

theorem removeFields_eq (fields : List String) (map : Json.Map) :
    (removeFields fields map).1 = map.filter fun f => f.1 ∉ fields := by
  have hfold : ∀ (map : Json.Map) (n : Nat), (fields.foldl (fun acc field =>
      (Assoc.erase acc.1 field, acc.2 + if (Assoc.get acc.1 field).isSome then 1 else 0)) (map, n)).1 =
        map.filter fun f => f.1 ∉ fields := by
    induction fields with
    | nil => simp
    | cons field fields ih =>
      intro map n
      rw [List.foldl_cons, ih, Assoc.erase, List.filter_filter]
      refine List.filter_congr fun f _ => ?_
      by_cases hf : f.1 = field <;> simp [hf]
  exact hfold map 0

theorem get_removeFields (fields : List String) (map : Json.Map) (k : String) :
    Assoc.get (removeFields fields map).1 k = if k ∈ fields then none else Assoc.get map k := by
  rw [removeFields_eq, Assoc.get_filter fun k => k ∉ fields]
  by_cases hk : k ∈ fields <;> simp [hk]

theorem nodupKeys_removeFields {fields : List String} {map : Json.Map} (h : (Json.object map).nodupKeys = true) :
    (Json.object (removeFields fields map).1).nodupKeys = true := by
  obtain ⟨hkeys, hvalues⟩ := Json.nodupKeys_object.1 h
  rw [removeFields_eq]
  exact Json.nodupKeys_object.2
    ⟨hkeys.sublist (List.filter_sublist.map _), fun f hf => hvalues f (List.mem_of_mem_filter hf)⟩

theorem mem_keys_removeFields {fields : List String} {map : Json.Map} {k : String}
    (h : k ∈ Assoc.keys (removeFields fields map).1) : k ∈ Assoc.keys map := by
  rw [removeFields_eq] at h
  exact (List.filter_sublist.map _).mem h

theorem nodupKeys_stripCarrierMetadata {block : Json} (h : block.nodupKeys = true) :
    (stripCarrierMetadata block).1.nodupKeys = true := by
  cases block with
  | object fields => exact nodupKeys_removeFields h
  | _ => exact h

theorem blockCarrier_eq_none {block : Json} : blockCarrier block = none ↔
    blockType block ≠ some "thinking" ∧ blockType block ≠ some "redacted_thinking" ∧
      blockType block ≠ some "reasoning" := by
  unfold blockCarrier
  split <;> simp_all

theorem blockType_stripCarrierMetadata (block : Json) : blockType (stripCarrierMetadata block).1 = blockType block := by
  cases block with
  | object fields =>
    have hget := get_removeFields ["signature", "data", "thinking"] fields "type"
    rw [if_neg (by simp)] at hget
    simp [blockType, stripCarrierMetadata, Json.get, hget]
  | _ => rfl

theorem BlockPass.retained_block (p : BlockPass) (block : Json) :
    (p.block block).retained = p.retained ++ if blockCarrier block = none then [block] else [] := by
  unfold BlockPass.block
  split
  · next h => simp [blockCarrier_eq_none, h]
  · next h => simp [blockCarrier_eq_none, h]
  · next h => simp [blockCarrier_eq_none, h]
  · next h1 h2 h3 =>
    have hnone : blockCarrier block = none := blockCarrier_eq_none.2 ⟨h1, h2, h3⟩
    simp [hnone]

theorem BlockPass.retained_foldl (p : BlockPass) (blocks : List Json) :
    (blocks.foldl BlockPass.block p).retained = p.retained ++ blocks.filter fun b => blockCarrier b = none := by
  induction blocks generalizing p with
  | nil => simp
  | cons block blocks ih =>
    rw [List.foldl_cons, ih, BlockPass.retained_block, List.append_assoc]
    by_cases h : blockCarrier block = none <;> simp [h]

theorem BlockPass.retained_siblings (p : BlockPass) : p.siblings.retained =
      if p.removedReasoningBlock then p.retained.map fun b => (stripCarrierMetadata b).1 else p.retained := by
  unfold BlockPass.siblings
  split <;> simp

theorem mem_retained {report : StripReport} {blocks : List Json} {b : Json}
    (h : b ∈ (blocks.foldl BlockPass.block { report := report }).siblings.retained) :
    ∃ block ∈ blocks, blockCarrier block = none ∧ (b = block ∨ b = (stripCarrierMetadata block).1) := by
  rw [BlockPass.retained_siblings, BlockPass.retained_foldl, List.nil_append] at h
  split at h
  · obtain ⟨block, hblock, rfl⟩ := List.mem_map.1 h
    obtain ⟨hmem, hnone⟩ := List.mem_filter.1 hblock
    exact ⟨block, hmem, by simpa using hnone, .inr rfl⟩
  · obtain ⟨hmem, hnone⟩ := List.mem_filter.1 h
    exact ⟨b, hmem, by simpa using hnone, .inl rfl⟩

theorem nodupKeys_stripContent {report : StripReport} {content : Json} (h : content.nodupKeys = true) :
    (stripContent report content).1.nodupKeys = true := by
  cases content with
  | array blocks =>
    refine Json.nodupKeys_array.2 fun b hb => ?_
    obtain ⟨block, hmem, -, rfl | rfl⟩ := mem_retained hb
    · exact Json.nodupKeys_array.1 h _ hmem
    · exact nodupKeys_stripCarrierMetadata (Json.nodupKeys_array.1 h _ hmem)
  | _ => exact h

def stripMessage (report : StripReport) (m : Message) : Message × StripReport × Bool :=
  let content := stripContent report m.content
  let removed := removeFields carrierFields m.extra
  ({ m with
      content := content.1
      extra := removed.1
      content_nodup := nodupKeys_stripContent m.content_nodup
      extra_nodup := nodupKeys_removeFields m.extra_nodup
      extra_role := fun h => m.extra_role (mem_keys_removeFields h)
      extra_content := fun h => m.extra_content (mem_keys_removeFields h) },
    { content.2.1 with fieldsRemoved := content.2.1.fieldsRemoved + removed.2 }, content.2.2 || 0 < removed.2)

def hasToolCalls (m : Message) : Bool :=
  match Assoc.get m.extra "tool_calls" with
  | some (.array calls) => !calls.isEmpty
  | some .null | none => false
  | some _ => true

def messageRetainsContent (m : Message) : Bool :=
  hasToolCalls m ||
    match m.content with
    | .string text => text ≠ ""
    | .array blocks => blocks.any fun b => blockType b = some "text" || blockType b = some "tool_use"
    | _ => false

def applyMessage (acc : List Message × StripReport) (m : Message) : List Message × StripReport :=
  let stripped := stripMessage acc.2 m
  if stripped.2.2 then
    let report := { stripped.2.1 with messagesTouched := stripped.2.1.messagesTouched + 1 }
    if messageRetainsContent stripped.1 then (acc.1 ++ [stripped.1], report) else (acc.1, report)
  else (acc.1 ++ [stripped.1], stripped.2.1)

def apply (outgoing : OpenAIRequest) (decision : StripDecision) : OpenAIRequest × StripReport :=
  if decision.strips then
    let r := outgoing.messages.foldl applyMessage ([], {})
    ({ outgoing with messages := r.1 }, r.2)
  else (outgoing, {})

theorem carriers_eq_nil {m : Message} : carriers m = [] ↔ (∀ block ∈ contentBlocks m.content, blockCarrier block = none) ∧
      Assoc.get m.extra "reasoning_content" = none ∧ Assoc.get m.extra "reasoning" = none := by
  simp [carriers, List.filterMap_eq_nil_iff]

theorem carriers_stripMessage (report : StripReport) (m : Message) : carriers (stripMessage report m).1 = [] := by
  refine carriers_eq_nil.2 ⟨fun b hb => ?_, ?_, ?_⟩
  · cases hc : m.content with
    | array blocks =>
      simp only [stripMessage, stripContent, contentBlocks, hc, Json.asArray, Option.getD_some] at hb
      obtain ⟨block, -, hnone, rfl | rfl⟩ := mem_retained hb
      · exact hnone
      · rw [blockCarrier_eq_none, blockType_stripCarrierMetadata]
        exact blockCarrier_eq_none.1 hnone
    | _ => simp [stripMessage, stripContent, contentBlocks, hc, Json.asArray] at hb
  · simp [stripMessage, get_removeFields, carrierFields]
  · simp [stripMessage, get_removeFields, carrierFields]

theorem carriers_foldl_applyMessage (messages : List Message) {acc : List Message × StripReport}
    (h : ∀ m ∈ acc.1, carriers m = []) : ∀ m ∈ (messages.foldl applyMessage acc).1, carriers m = [] := by
  induction messages generalizing acc with
  | nil => exact h
  | cons m messages ih =>
    refine ih fun m' hm' => ?_
    have hkeep : ∀ m' ∈ acc.1 ++ [(stripMessage acc.2 m).1], carriers m' = [] := by
      intro m' hm'
      rcases List.mem_append.1 hm' with hm' | hm'
      · exact h m' hm'
      · rw [List.mem_singleton.1 hm']
        exact carriers_stripMessage acc.2 m
    unfold applyMessage at hm'
    dsimp only at hm'
    split at hm'
    · split at hm'
      · exact hkeep m' hm'
      · exact h m' hm'
    · exact hkeep m' hm'

theorem carriers_apply {outgoing : OpenAIRequest} {decision : StripDecision} (h : decision.strips = true) :
    ∀ m ∈ (apply outgoing decision).1.messages, carriers m = [] := by
  rw [apply, if_pos h]
  exact carriers_foldl_applyMessage _ fun _ hm => absurd hm List.not_mem_nil

/-! ### The law -/

def AllOf (family : ReasoningFamily) (messages : List Message) : Prop :=
  ∀ m ∈ messages, ∀ c ∈ carriers m, family ∈ c.families

def NoForeign (cfg : ReasoningCompatConfig) (outgoing : OpenAIRequest) (source : Option ModelRef) (target : ModelRef) :
    Prop :=
  let after := (apply outgoing (decide (detect outgoing.messages) source target cfg)).1
  source = some target ∨ (source = none ∧ AllOf target.family after.messages) ∨
    (detect after.messages).isEmpty = true

/-- Where the source is not known and the carriers of the assistant point to the target, there are no others. -/
def Unmixed (messages : List Message) (source : Option ModelRef) (target : ModelRef) : Prop :=
  source = none → target.family ≠ .none → dominant (assistantCarriers messages) = target.family →
    AllOf target.family messages

theorem isEmpty_detect_of_carriers {messages : List Message} (h : ∀ m ∈ messages, carriers m = []) :
    (detect messages).isEmpty = true := by
  refine (isEmpty_detect messages).2 (List.flatMap_eq_nil_iff.2 fun m hm => ?_)
  exact h m (List.mem_of_mem_filter hm)

theorem apply_preserve (outgoing : OpenAIRequest) : apply outgoing .preserve = (outgoing, {}) := rfl

section
variable {cfg : ReasoningCompatConfig} {outgoing : OpenAIRequest} {source : Option ModelRef} {target : ModelRef}

theorem noForeign_of_strips
    (h : (decide (detect outgoing.messages) source target cfg).strips = true) : NoForeign cfg outgoing source target :=
  .inr (.inr (isEmpty_detect_of_carriers (carriers_apply h)))

theorem noForeign_of_isEmpty (h : (detect outgoing.messages).isEmpty = true) : NoForeign cfg outgoing source target := by
  have hdecide : decide (detect outgoing.messages) source target cfg = .preserve := by simp [decide, h]
  unfold NoForeign
  rw [hdecide, apply_preserve]
  exact .inr (.inr h)

theorem noForeign_of_source (hon : cfg.stripOnModelChange = true) (s : ModelRef) :
    NoForeign cfg outgoing (some s) target := by
  by_cases hempty : (detect outgoing.messages).isEmpty = true
  · exact noForeign_of_isEmpty hempty
  by_cases hsame : s = target
  · exact .inl (congrArg some hsame)
  · refine noForeign_of_strips ?_
    have hne : ¬ (s.provider = target.provider ∧ s.model = target.model ∧ s.family = target.family) := by
      rintro ⟨h1, h2, h3⟩
      cases s
      cases target
      cases h1
      cases h2
      cases h3
      exact hsame rfl
    simp [decide, hempty, hon, hne, StripDecision.strips]

/-- No foreign reasoning reaches the target exactly when a source that is not known has left no mixed carriers. -/
theorem law_iff_unmixed (hon : cfg.stripOnModelChange = true) :
    NoForeign cfg outgoing source target ↔ Unmixed outgoing.messages source target := by
  cases source with
  | some s => exact ⟨fun _ h => absurd h (by simp), fun _ => noForeign_of_source hon s⟩
  | none =>
    by_cases hempty : (detect outgoing.messages).isEmpty = true
    · refine ⟨fun _ _ hfamily hdom => ?_, fun _ => noForeign_of_isEmpty hempty⟩
      rw [(isEmpty_detect _).1 hempty] at hdom
      exact absurd hdom.symm hfamily
    by_cases hpreserve : target.family ≠ .none ∧ dominant (assistantCarriers outgoing.messages) = target.family
    · have hdecide : decide (detect outgoing.messages) none target cfg = .preserve := by
        simp [decide, hempty, hon, sourceFamily_detect, hpreserve]
      unfold NoForeign Unmixed
      rw [hdecide, apply_preserve]
      simp [hempty, hpreserve]
    · refine ⟨fun _ _ hfamily hdom => absurd ⟨hfamily, hdom⟩ hpreserve, fun _ => noForeign_of_strips ?_⟩
      have hne : ¬ ((detect outgoing.messages).sourceFamily ≠ .none ∧
          (detect outgoing.messages).sourceFamily = target.family) := by
        rw [sourceFamily_detect]
        rintro ⟨h1, h2⟩
        exact hpreserve ⟨h2 ▸ h1, h2⟩
      simp only [decide, hempty, hon, hne]
      rfl

end

def mixedMessage : Message where
  role := "assistant"
  content := .array [.object [("text", .string "plan"), ("type", .string "reasoning")],
    .object [("text", .string "Done."), ("type", .string "text")]]
  extra := [("reasoning_content", .string "hidden")]
  content_nodup := by simp [Json.nodupKeys, Assoc.keys]
  extra_nodup := by simp [Json.nodupKeys, Assoc.keys]
  extra_role := by simp [Assoc.keys]
  extra_content := by simp [Assoc.keys]

def mixedRequest : OpenAIRequest where
  model := "glm"
  messages := [mixedMessage]
  stream := false
  temperature := none
  maxTokens := none
  extra := []
  extra_nodup := Json.nodupKeys_object_nil

def openRouterTarget : ModelRef := ⟨"openrouter", "glm", .openRouter⟩

theorem law_iff_unmixed_mixedRequest :
    NoForeign ⟨true⟩ mixedRequest (some ⟨"deepseek", "chat", .deepSeek⟩) openRouterTarget ↔
      Unmixed mixedRequest.messages (some ⟨"deepseek", "chat", .deepSeek⟩) openRouterTarget :=
  law_iff_unmixed rfl

/-- Without a known source the field of the other family goes to the target. -/
theorem mixedRequest_passes : ¬ NoForeign ⟨true⟩ mixedRequest none openRouterTarget := by
  have hdecide : decide (detect mixedRequest.messages) none openRouterTarget ⟨true⟩ = .preserve := by decide +kernel
  unfold NoForeign
  rw [hdecide, apply_preserve]
  rintro (h | ⟨-, h⟩ | h)
  · cases h
  · have hfamily := h mixedMessage List.mem_cons_self .reasoningContent (by decide +kernel)
    exact absurd hfamily (by decide)
  · exact absurd h (by decide +kernel)

end ObeyGateway.Reasoning
