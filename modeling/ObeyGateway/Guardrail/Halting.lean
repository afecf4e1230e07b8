import ObeyGateway.Guardrail.Engine

/-!
# Halting stages

`run_pre_call` has the stages of `pre_call`, `tool_result` and `tool_call` to go through, `run_post_call`
those of `post_call` and `tool_call`. When no stage of the first phase halts, the first one that halts
decides. When one does, the loop of the second phase still executes a stage, which may also
overwrite the outcome.
-/

namespace ObeyGateway.Guardrail

open ShortCircuit

section
variable {P W : Type} (eng : GuardrailEngine P W) (binding : Binding P)

def preCallOrder : List (ResolvedStage P) :=
  binding.ofPhase .preCall ++ (binding.ofPhase .toolResult ++ binding.ofPhase .toolCall)

def execPreCall (s : PreState P W) (stage : ResolvedStage P) :
    Option (PreState P W × Option PreCallOutcome) :=
  match stage.phase with
  | .preCall => preCallStage eng s stage
  | .toolResult => toolResultStage eng binding.scanJsonContent s stage
  | .toolCall => toolCallHistoryStage eng s stage
  | .postCall => some (s, none)

def postCallOrder : List (ResolvedStage P) :=
  binding.ofPhase .postCall ++ binding.ofPhase .toolCall

def execPostCall (s : PostState P W) (stage : ResolvedStage P) :
    Option (PostState P W × Option PostCallOutcome) :=
  match stage.phase with
  | .postCall => postCallStage eng s stage
  | .toolCall => toolCallStage eng s stage
  | _ => some (s, none)

theorem runUntil_ofPhase {σ β : Type} {exec exec' : σ → ResolvedStage P → Option (σ × Option β)}
    {binding : Binding P} {phase : StagePhase}
    (h : ∀ s stage, stage.phase = phase → exec s stage = exec' s stage) (s : σ) :
    runUntil exec s (binding.ofPhase phase) = runUntil exec' s (binding.ofPhase phase) :=
  runUntil_congr (fun stage hstage s => h s stage (by simpa using (List.mem_filter.1 hstage).2)) s

variable {eng}

theorem preCallStage_invalid_iff {s s' : PreState P W} {stage : ResolvedStage P}
    {outcome : PreCallOutcome} (h : preCallStage eng s stage = some (s', some outcome)) :
    outcome = .invalidAction ↔ stage.action = .replaceWithPolicyMessage := by
  by_cases haction : stage.action = .replaceWithPolicyMessage
  · rw [preCallStage, if_pos haction] at h
    obtain ⟨-, rfl⟩ : s = s' ∧ PreCallOutcome.invalidAction = outcome := by simpa using h
    exact iff_of_true rfl haction
  · refine iff_of_false ?_ haction
    rw [preCallStage, if_neg haction] at h
    rintro rfl
    split at h
    · cases h
    · rename_i halt _
      obtain ⟨-, hhalt⟩ := Prod.mk.inj (Option.some.inj h)
      rcases halt with _ | _ | _ | b <;> cases hhalt

theorem slotStage_ne {T β : Type} {collect : T → List (SlotAddress × Str)}
    {writeBack : T → SlotAddress → Str → T} {outcome : SlotTerminal → Option β}
    {s s' : EngineState P W T} {stage : ResolvedStage P} {o : Option β}
    (h : slotStage eng collect writeBack outcome s stage = some (s', o)) :
    s' ≠ s := by
  obtain ⟨rfl, -⟩ := Prod.mk.inj (Option.some.inj h)
  intro hsame
  have hlen := congrArg (fun s => s.records.length) hsame
  simp [EngineState.record] at hlen

theorem runUntil_execPreCall (s : PreState P W) : runUntil (execPreCall eng binding) s (preCallOrder binding) =
      match runUntil (preCallStage eng) s (binding.ofPhase .preCall) with
      | none => none
      | some (s, some outcome) => some (s, some outcome)
      | some (s, none) =>
        match runUntil (toolResultStage eng binding.scanJsonContent) s
          (binding.ofPhase .toolResult) with
        | none => none
        | some (s, some outcome) => some (s, some outcome)
        | some (s, none) => runUntil (toolCallHistoryStage eng) s (binding.ofPhase .toolCall) := by
  have hpre : ∀ s, runUntil (execPreCall eng binding) s (binding.ofPhase .preCall) =
      runUntil (preCallStage eng) s (binding.ofPhase .preCall) :=
    runUntil_ofPhase fun s stage hphase => by rw [execPreCall, hphase]
  have hresult : ∀ s, runUntil (execPreCall eng binding) s (binding.ofPhase .toolResult) =
      runUntil (toolResultStage eng binding.scanJsonContent) s (binding.ofPhase .toolResult) :=
    runUntil_ofPhase fun s stage hphase => by rw [execPreCall, hphase]
  have hcall : ∀ s, runUntil (execPreCall eng binding) s (binding.ofPhase .toolCall) =
      runUntil (toolCallHistoryStage eng) s (binding.ofPhase .toolCall) :=
    runUntil_ofPhase fun s stage hphase => by rw [execPreCall, hphase]
  rw [preCallOrder, runUntil_append, hpre]
  rcases runUntil (preCallStage eng) s (binding.ofPhase .preCall) with _ | ⟨s₁, _ | o⟩
  · rfl
  · dsimp only
    rw [runUntil_append, hresult]
    rcases runUntil (toolResultStage eng binding.scanJsonContent) s₁ (binding.ofPhase .toolResult)
      with _ | ⟨s₂, _ | o⟩
    · rfl
    · exact hcall s₂
    · rfl
  · rfl

theorem runPreCall_of_halt {s s₁ : PreState P W} {outcome : PreCallOutcome}
    (h : runUntil (preCallStage eng) s (binding.ofPhase .preCall) = some (s₁, some outcome)) :
    runPreCall eng binding s =
      match binding.ofPhase .toolResult with
      | [] => some (s₁, outcome)
      | y :: _ => (toolResultStage eng binding.scanJsonContent s₁ y).map fun r =>
          (r.1, r.2.getD outcome) := by
  rw [runPreCall, h]
  rcases binding.ofPhase .toolResult with _ | ⟨y, ys⟩
  · rfl
  dsimp only
  rw [runCarrying_some_cons]
  rcases toolResultStage eng binding.scanJsonContent s₁ y with _ | ⟨s₂, _ | o⟩ <;> rfl

theorem runPreCall_of_no_halt {s s₁ : PreState P W}
    (h : runUntil (preCallStage eng) s (binding.ofPhase .preCall) = some (s₁, none))
    {s' : PreState P W} {outcome : PreCallOutcome}
    (hrun : runUntil (execPreCall eng binding) s (preCallOrder binding) =
      some (s', some outcome)) :
    runPreCall eng binding s = some (s', outcome) := by
  rw [runUntil_execPreCall, h] at hrun
  rw [runPreCall, h]
  dsimp only at hrun ⊢
  rw [runCarrying_none]
  rcases hresult : runUntil (toolResultStage eng binding.scanJsonContent) s₁
    (binding.ofPhase .toolResult) with _ | ⟨s₂, _ | o⟩
  · rw [hresult] at hrun
    cases hrun
  · rw [hresult] at hrun
    dsimp only at hrun ⊢
    rw [hrun]
  · rw [hresult] at hrun
    cases hrun
    rfl

/-- Another stage may only follow when both have the action that is invalid in their phase: then it is not executed. -/
theorem runPreCall_decides_iff (s : PreState P W) : FirstHaltDecides (execPreCall eng binding) s (preCallOrder binding)
        (fun s' outcome => runPreCall eng binding s = some (s', outcome)) ↔
      ∀ x, firstHalt (preCallStage eng) s (binding.ofPhase .preCall) = some x →
        ∀ y, (binding.ofPhase .toolResult).head? = some y →
          x.action = .replaceWithPolicyMessage ∧ y.action = .replaceWithPolicyMessage := by
  rw [firstHaltDecides_iff]
  rcases hpre : runUntil (preCallStage eng) s (binding.ofPhase .preCall) with _ | ⟨s₁, _ | o⟩
  · -- a panic before any halt
    have hnone : firstHalt (preCallStage eng) s (binding.ofPhase .preCall) = none :=
      firstHalt_eq_none (by simp [hpre])
    refine iff_of_true ?_ (by simp [hnone])
    intro s' b hrun
    rw [runUntil_execPreCall, hpre] at hrun
    cases hrun
  · have hnone : firstHalt (preCallStage eng) s (binding.ofPhase .preCall) = none :=
      firstHalt_eq_none (by simp [hpre])
    exact iff_of_true (fun s' b hrun => runPreCall_of_no_halt binding hpre hrun) (by simp [hnone])
  · obtain ⟨x, -, hfirst, s₀, hx⟩ := firstHalt_of_halts hpre
    have hinvalid := preCallStage_invalid_iff hx
    have hreturns : (∀ s' b, runUntil (execPreCall eng binding) s (preCallOrder binding) =
        some (s', some b) → runPreCall eng binding s = some (s', b)) ↔
        runPreCall eng binding s = some (s₁, o) := by
      rw [runUntil_execPreCall, hpre]
      simp
    rw [hreturns, runPreCall_of_halt binding hpre, hfirst]
    simp only [Option.some.injEq, forall_eq']
    rcases binding.ofPhase .toolResult with _ | ⟨y, ys⟩
    · simp
    simp only [List.head?_cons, Option.some.injEq, forall_eq']
    by_cases haction : y.action = .replaceWithPolicyMessage
    · simp [toolResultStage, haction, ← hinvalid, eq_comm]
    · -- the stage is executed, which its record shows
      refine iff_of_false ?_ fun h => haction h.2
      intro h
      obtain ⟨⟨s₂, o₂⟩, hstage, hr⟩ := Option.map_eq_some_iff.1 h
      rw [toolResultStage, if_neg haction] at hstage
      exact slotStage_ne hstage (Prod.mk.inj hr).1

theorem runUntil_execPostCall (s : PostState P W) : runUntil (execPostCall eng) s (postCallOrder binding) =
      match runUntil (postCallStage eng) s (binding.ofPhase .postCall) with
      | none => none
      | some (s, some outcome) => some (s, some outcome)
      | some (s, none) => runUntil (toolCallStage eng) s (binding.ofPhase .toolCall) := by
  have hpost : ∀ s, runUntil (execPostCall eng) s (binding.ofPhase .postCall) =
      runUntil (postCallStage eng) s (binding.ofPhase .postCall) :=
    runUntil_ofPhase fun s stage hphase => by rw [execPostCall, hphase]
  have hcall : ∀ s, runUntil (execPostCall eng) s (binding.ofPhase .toolCall) =
      runUntil (toolCallStage eng) s (binding.ofPhase .toolCall) :=
    runUntil_ofPhase fun s stage hphase => by rw [execPostCall, hphase]
  rw [postCallOrder, runUntil_append, hpost]
  rcases runUntil (postCallStage eng) s (binding.ofPhase .postCall) with _ | ⟨s₁, _ | o⟩
  · rfl
  · exact hcall s₁
  · rfl

theorem runPostCall_of_halt (tc : ToolContext) {s s₁ : PostState P W} {outcome : PostCallOutcome}
    (h : runUntil (postCallStage eng) s (binding.ofPhase .postCall) = some (s₁, some outcome)) :
    runPostCall eng binding tc s =
      match binding.ofPhase .toolCall with
      | [] => some (s₁, outcome, .notRefusal)
      | y :: _ => (toolCallStage eng s₁ y).map fun r => (r.1, r.2.getD outcome, .notRefusal) := by
  rw [runPostCall, h]
  rcases binding.ofPhase .toolCall with _ | ⟨y, ys⟩
  · rfl
  dsimp only
  rw [runCarrying_some_cons]
  rcases toolCallStage eng s₁ y with _ | ⟨s₂, _ | o⟩ <;> rfl

theorem runPostCall_of_no_halt (tc : ToolContext) {s s₁ : PostState P W}
    (h : runUntil (postCallStage eng) s (binding.ofPhase .postCall) = some (s₁, none))
    {s' : PostState P W} {outcome : PostCallOutcome}
    (hrun : runUntil (execPostCall eng) s (postCallOrder binding) = some (s', some outcome)) :
    runPostCall eng binding tc s = some (s', outcome, .notRefusal) := by
  rw [runUntil_execPostCall, h] at hrun
  rw [runPostCall, h]
  dsimp only at hrun ⊢
  rw [runCarrying_none, hrun]

theorem runPostCall_decides_iff (tc : ToolContext) (s : PostState P W) :
    FirstHaltDecides (execPostCall eng) s (postCallOrder binding)
        (fun s' outcome => runPostCall eng binding tc s = some (s', outcome, .notRefusal)) ↔
      firstHalt (postCallStage eng) s (binding.ofPhase .postCall) = none ∨
        binding.ofPhase .toolCall = [] := by
  rw [firstHaltDecides_iff]
  rcases hpost : runUntil (postCallStage eng) s (binding.ofPhase .postCall) with _ | ⟨s₁, _ | o⟩
  · have hnone : firstHalt (postCallStage eng) s (binding.ofPhase .postCall) = none :=
      firstHalt_eq_none (by simp [hpost])
    refine iff_of_true ?_ (.inl hnone)
    intro s' b hrun
    rw [runUntil_execPostCall, hpost] at hrun
    cases hrun
  · have hnone : firstHalt (postCallStage eng) s (binding.ofPhase .postCall) = none :=
      firstHalt_eq_none (by simp [hpost])
    exact iff_of_true (fun s' b hrun => runPostCall_of_no_halt binding tc hpost hrun) (.inl hnone)
  · obtain ⟨x, -, hfirst, -⟩ := firstHalt_of_halts hpost
    have hreturns : (∀ s' b, runUntil (execPostCall eng) s (postCallOrder binding) =
        some (s', some b) → runPostCall eng binding tc s = some (s', b, .notRefusal)) ↔
        runPostCall eng binding tc s = some (s₁, o, .notRefusal) := by
      rw [runUntil_execPostCall, hpost]
      simp
    rw [hreturns, runPostCall_of_halt binding tc hpost, hfirst]
    rcases binding.ofPhase .toolCall with _ | ⟨y, ys⟩
    · simp
    refine iff_of_false ?_ (by simp)
    intro h
    obtain ⟨⟨s₂, o₂⟩, hstage, hr⟩ := Option.map_eq_some_iff.1 h
    exact slotStage_ne hstage (Prod.mk.inj hr).1

variable (eng) in
/-- The first stage that halts decides about a request, and about a response, exactly when no later
phase begins after a halt in the first one. -/
theorem halting_stage_decides_iff (request : PreState P W) (response : PostState P W) (tc : ToolContext) :
    (FirstHaltDecides (execPreCall eng binding) request (preCallOrder binding)
        (fun s outcome => runPreCall eng binding request = some (s, outcome)) ↔
      ∀ x, firstHalt (preCallStage eng) request (binding.ofPhase .preCall) = some x →
        ∀ y, (binding.ofPhase .toolResult).head? = some y →
          x.action = .replaceWithPolicyMessage ∧ y.action = .replaceWithPolicyMessage) ∧
    (FirstHaltDecides (execPostCall eng) response (postCallOrder binding)
        (fun s outcome => runPostCall eng binding tc response = some (s, outcome, .notRefusal)) ↔
      firstHalt (postCallStage eng) response (binding.ofPhase .postCall) = none ∨
        binding.ofPhase .toolCall = []) :=
  ⟨runPreCall_decides_iff binding request, runPostCall_decides_iff binding tc response⟩

end

def sampleEngine : GuardrailEngine (Str → Answer) Unit where
  maxContentChars := 100000
  policyMessage := str "policy"
  matchesPhrase _ := false
  analyze provider text world := (provider text, world)
  serde := ⟨fun _ => [], fun _ => none⟩

def findsFirstByte : Str → Answer := fun _ => .findings [⟨str "SECRET", 0, 1⟩]

def inputStage : ResolvedStage (Str → Answer) :=
  ⟨str "p", str "in", findsFirstByte, .failClose, .block, .preCall⟩

def outputStage : ResolvedStage (Str → Answer) :=
  ⟨str "p", str "out", findsFirstByte, .failClose, .block, .postCall⟩

def sampleBinding : Binding (Str → Answer) where
  stages :=
    [inputStage, ⟨str "p", str "tool output", fun _ => .error, .failClose, .block, .toolResult⟩,
      outputStage,
      ⟨str "p", str "tool call", findsFirstByte, .failClose, .replaceWithPolicyMessage, .toolCall⟩]
  scanJsonContent := false
  overrideInstruction := none
  insertionMode := .separate
  failoverOnRefusal := false

def sampleRequest : PreState (Str → Answer) Unit :=
  ⟨⟨[⟨str "user", .string (str "key"), []⟩, ⟨str "tool", .string (str "ok"), []⟩]⟩, .new, (), []⟩

def sampleResponse : PostState (Str → Answer) Unit :=
  ⟨⟨[⟨⟨str "assistant", .string (str "key"),
    [(str "tool_calls", .array [.object [(str "function",
      .object [(str "arguments", .string (str "rm"))])]])]⟩⟩]⟩, .new, (), []⟩

def sampleToolContext : ToolContext := ⟨false, false, false, false⟩

/-- The `pre_call` stage blocks the request, and a service failure is returned; the `post_call` stage
blocks the response, and the response is returned as replaced. -/
theorem block_is_overwritten : (runPreCall sampleEngine sampleBinding sampleRequest).map (·.2) = some .serviceFailure ∧
    ¬ FirstHaltDecides (execPreCall sampleEngine sampleBinding) sampleRequest
      (preCallOrder sampleBinding)
      (fun s outcome => runPreCall sampleEngine sampleBinding sampleRequest = some (s, outcome)) ∧
    (runPostCall sampleEngine sampleBinding sampleToolContext sampleResponse).map (·.2.1) =
      some .replaced ∧
    ¬ FirstHaltDecides (execPostCall sampleEngine) sampleResponse (postCallOrder sampleBinding)
      (fun s outcome => runPostCall sampleEngine sampleBinding sampleToolContext sampleResponse =
        some (s, outcome, .notRefusal)) := by
  have hpre : (runPreCall sampleEngine sampleBinding sampleRequest).map (·.2) =
      some .serviceFailure := by decide +kernel
  have hpost : (runPostCall sampleEngine sampleBinding sampleToolContext sampleResponse).map
      (·.2.1) = some .replaced := by decide +kernel
  have hblock : (execPreCall sampleEngine sampleBinding sampleRequest inputStage).map Prod.snd =
      some (some (.block ⟨str "p", str "in", str "SECRET", .preCall⟩)) := by decide +kernel
  have hblock' : (execPostCall sampleEngine sampleResponse outputStage).map Prod.snd =
      some (some (.block ⟨str "p", str "out", str "SECRET", .postCall⟩)) := by decide +kernel
  refine ⟨hpre, ?_, hpost, ?_⟩
  · intro h
    obtain ⟨s', hs'⟩ := h.of_head hblock
    rw [hs'] at hpre
    cases hpre
  · intro h
    obtain ⟨s', hs'⟩ := h.of_head hblock'
    rw [hs'] at hpost
    cases hpost

end ObeyGateway.Guardrail
