import ObeyGateway.Guardrail.Message
import ObeyGateway.Guardrail.Reinjection
import ObeyGateway.Lib.ShortCircuit

/-!
# The guardrail engine (`guardrail/mod.rs`)

A request or response goes through the stages that are bound to it. A provider answers with findings,
with an error or not in time, and may answer the same text differently the next time: `analyze` takes
a state along. `none` is a panic, which `mask` and `reinject_safe` can end in.
-/

namespace ObeyGateway.Guardrail

open ShortCircuit

inductive PolicyAction
  | allow
  | block
  | mask
  | redact
  | replaceWithPolicyMessage
deriving DecidableEq, Repr

inductive StagePhase
  | preCall
  | toolResult
  | toolCall
  | postCall
deriving DecidableEq, Repr

inductive FailurePolicy
  | failOpen
  | failClose
deriving DecidableEq, Repr

structure ResolvedStage (P : Type) where
  pipelineName : Str
  stageName : Str
  provider : P
  failurePolicy : FailurePolicy
  action : PolicyAction
  phase : StagePhase

inductive Answer
  | findings (fs : List Finding)
  | error
  | elapsed

structure GuardrailEngine (P W : Type) where
  maxContentChars : Nat
  policyMessage : Str
  /-- `RefusalDetector::matches_phrase` -/
  matchesPhrase : Str → Bool
  analyze : P → Str → W → Answer × W
  serde : Serde

inductive InstructionInsertionMode
  | separate
  | merged

structure Binding (P : Type) where
  stages : List (ResolvedStage P)
  scanJsonContent : Bool
  overrideInstruction : Option Str
  insertionMode : InstructionInsertionMode
  failoverOnRefusal : Bool

structure GuardrailBlock where
  pipelineName : Str
  stageName : Str
  entityLabel : Str
  phase : StagePhase
deriving DecidableEq, Repr

inductive PreCallOutcome
  | proceed
  | block (b : GuardrailBlock)
  | invalidAction
  | timeout
  | serviceFailure
deriving DecidableEq, Repr

inductive PostCallOutcome
  | proceed
  | block (b : GuardrailBlock)
  | replaced
  | serviceFailure
deriving DecidableEq, Repr

inductive ActionLabel
  | pass
  | block
  | error
  | redact
  | mask
  | replaceWithPolicyMessage
deriving DecidableEq, Repr

structure StageRecord (P : Type) where
  stage : ResolvedStage P
  label : ActionLabel
  entity : Option Str

def deriveActionLabel (action : PolicyAction) (blocked errored modified : Bool) : ActionLabel :=
  if blocked then .block
  else if errored then .error
  else if !modified then .pass
  else
    match action with
    | .block => .block
    | .redact => .redact
    | .mask => .mask
    | .replaceWithPolicyMessage => .replaceWithPolicyMessage
    | .allow => .pass

inductive StageAnalysis
  | findings (fs : List Finding)
  | skip
  | timeout
  | serviceFailure

inductive FieldEffect
  | pass
  | modified (newText : Str)
  | block (entityLabel : Str)

/-- At most `maxChars` characters. -/
def clampContent : Str → Nat → Str
  | [], _ => []
  | b :: rest, maxChars =>
    if isContinuation b then b :: clampContent rest maxChars
    else
      match maxChars with
      | 0 => []
      | n + 1 => b :: clampContent rest n

def applyPreAction (action : PolicyAction) (ctx : GuardrailContext) (text : Str)
    (findings : List Finding) : Option (FieldEffect × GuardrailContext) :=
  match findings with
  | [] => some (.pass, ctx)
  | f :: _ =>
    match action with
    | .allow => some (.pass, ctx)
    | .block => some (.block f.entityLabel, ctx)
    | .mask => (mask text findings).map fun newText => (.modified newText, ctx)
    | .redact =>
      let r := ctx.redact text findings
      some (.modified r.1, r.2)
    | .replaceWithPolicyMessage => some (.pass, ctx)

def applyPostAction (action : PolicyAction) (text : Str) (findings : List Finding) :
    Option FieldEffect :=
  match findings with
  | [] => some .pass
  | f :: _ =>
    match action with
    | .allow => some .pass
    | .block => some (.block f.entityLabel)
    | .mask => (mask text findings).map .modified
    | .redact => some (.modified (redactLiteral text findings (str "[REDACTED]")))
    | .replaceWithPolicyMessage => some .pass

section
variable {P W : Type} (eng : GuardrailEngine P W)

/-- `evaluate_stage` on the clamped text. -/
def evaluateStage (stage : ResolvedStage P) (text : Str) (world : W) : StageAnalysis × W :=
  let r := eng.analyze stage.provider (clampContent text eng.maxContentChars) world
  match r.1, stage.failurePolicy with
  | .findings fs, _ => (.findings fs, r.2)
  | .error, .failOpen => (.skip, r.2)
  | .error, .failClose => (.serviceFailure, r.2)
  | .elapsed, .failOpen => (.skip, r.2)
  | .elapsed, .failClose => (.timeout, r.2)

inductive FieldHalt
  | timeout
  | serviceFailure
  | block (b : GuardrailBlock)

def FieldHalt.isBlock : FieldHalt → Bool
  | .block _ => true
  | _ => false

structure Scan (W : Type) where
  ctx : GuardrailContext
  world : W
  modified : Bool
  errored : Bool
  entityForLog : Option Str

/-- The loop over the text slots of one content, for `run_pre_call` and `run_post_call`. -/
def scanSlots (stage : ResolvedStage P)
    (effect : GuardrailContext → Str → List Finding → Option (FieldEffect × GuardrailContext)) :
    List (TextSlot × Str) → Value → Scan W → Option (Value × Scan W × Option FieldHalt)
  | [], content, scan => some (content, scan, none)
  | (slot, text) :: slots, content, scan =>
    let r := evaluateStage eng stage text scan.world
    let scan := { scan with world := r.2 }
    match r.1 with
    | .timeout => some (content, { scan with errored := true }, some .timeout)
    | .serviceFailure => some (content, { scan with errored := true }, some .serviceFailure)
    | .skip => scanSlots stage effect slots content { scan with errored := true }
    | .findings findings =>
      match effect scan.ctx text findings with
      | none => none
      | some (.pass, ctx) => scanSlots stage effect slots content { scan with ctx := ctx }
      | some (.modified newText, ctx) =>
        scanSlots stage effect slots (setTextSlot content slot newText)
          { scan with
            ctx := ctx
            modified := true
            entityForLog := scan.entityForLog <|> findings.head?.map (·.entityLabel) }
      | some (.block entityLabel, ctx) =>
        some (content, { scan with ctx := ctx, entityForLog := some entityLabel },
          some (.block ⟨stage.pipelineName, stage.stageName, entityLabel, stage.phase⟩))

/-- The loop over the messages that `included` picks. -/
def scanMessages (stage : ResolvedStage P)
    (effect : GuardrailContext → Str → List Finding → Option (FieldEffect × GuardrailContext))
    (included : Message → Bool) :
    List Message → Scan W → Option (List Message × Scan W × Option FieldHalt)
  | [], scan => some ([], scan, none)
  | m :: messages, scan =>
    if included m then
      match scanSlots eng stage effect (collectTextSlots m.content) m.content scan with
      | none => none
      | some (content, scan, some halt) =>
        some ({ m with content := content } :: messages, scan, some halt)
      | some (content, scan, none) =>
        (scanMessages stage effect included messages scan).map fun r =>
          ({ m with content := content } :: r.1, r.2)
    else (scanMessages stage effect included messages scan).map fun r => (m :: r.1, r.2)

inductive SlotTerminal
  | timeout
  | serviceFailure
  | block (b : GuardrailBlock)
  | replaced
  | invalidAction

structure SlotStageRun where
  label : ActionLabel
  entity : Option Str
  terminal : Option SlotTerminal

/-- The local variables of `execute_stage_on_slots`, with what `write_back` writes into. -/
structure SlotScan (W R : Type) where
  target : R
  world : W
  modified : Bool
  replaced : Bool
  errored : Bool
  entityForLog : Option Str
  block : Option GuardrailBlock
  terminal : Option SlotTerminal

section
variable {R : Type} (stage : ResolvedStage P) (writeBack : R → SlotAddress → Str → R)

/-- The effect of an action on a slot with findings; `true` when the policy message is put in. -/
def slotEffect (addr : SlotAddress) (text : Str) (findings : List Finding) (entityLabel : Str) :
    Except SlotTerminal (FieldEffect × Bool) :=
  match stage.action with
  | .allow => .ok (.pass, false)
  | .block => .ok (.block entityLabel, false)
  | .mask => .ok (.modified (redactLiteral text findings []), false)
  | .redact => .ok (.modified (redactByCategory text findings), false)
  | .replaceWithPolicyMessage =>
    if stage.phase = .toolCall then
      match addr with
      | .toolCall _ _ _ .arguments => .ok (.modified eng.policyMessage, true)
      | _ => .ok (.modified (redactByCategory text findings), false)
    else .error .invalidAction

def slotLoop : List (SlotAddress × Str) → SlotScan W R → SlotScan W R
  | [], scan => scan
  | (addr, text) :: slots, scan =>
    let r := evaluateStage eng stage text scan.world
    let scan := { scan with world := r.2 }
    match r.1 with
    | .timeout => { scan with errored := true, terminal := some .timeout }
    | .serviceFailure => { scan with errored := true, terminal := some .serviceFailure }
    | .skip => slotLoop slots { scan with errored := true }
    | .findings [] => slotLoop slots scan
    | .findings (f :: fs) =>
      if stage.action = .allow then slotLoop slots scan
      else
        let scan := { scan with entityForLog := scan.entityForLog <|> some f.entityLabel }
        match slotEffect eng stage addr text (f :: fs) f.entityLabel with
        | .error t => { scan with terminal := some t }
        | .ok (.pass, _) => slotLoop slots scan
        | .ok (.modified newText, replaced) =>
          slotLoop slots { scan with
            target := writeBack scan.target addr newText
            modified := true
            replaced := scan.replaced || replaced }
        | .ok (.block entityLabel, _) =>
          { scan with
            block := some ⟨stage.pipelineName, stage.stageName, entityLabel, stage.phase⟩ }

def executeStageOnSlots (slots : List (SlotAddress × Str)) (target : R) (world : W) :
    R × W × SlotStageRun :=
  let scan := slotLoop eng stage writeBack slots
    ⟨target, world, false, false, false, none, none, none⟩
  let label :=
    if scan.block.isSome then .block
    else if scan.errored then .error
    else if scan.replaced then .replaceWithPolicyMessage
    else deriveActionLabel stage.action false false scan.modified
  let terminal :=
    match scan.terminal, scan.block with
    | some t, _ => some t
    | none, some b => some (.block b)
    | none, none => if scan.replaced && !scan.errored then some .replaced else none
  (scan.target, scan.world, ⟨label, scan.entityForLog, terminal⟩)

end

/-! ### Pre-call -/

structure EngineState (P W T : Type) where
  target : T
  ctx : GuardrailContext
  world : W
  records : List (StageRecord P)

abbrev PreState (P W : Type) := EngineState P W OpenAIRequest

abbrev PostState (P W : Type) := EngineState P W OpenAIResponse

def EngineState.record {T : Type} (s : EngineState P W T) (stage : ResolvedStage P)
    (label : ActionLabel) (entity : Option Str) : EngineState P W T :=
  { s with records := s.records ++ [⟨stage, label, entity⟩] }

def Binding.ofPhase (binding : Binding P) (phase : StagePhase) : List (ResolvedStage P) :=
  binding.stages.filter (·.phase = phase)

def PreCallOutcome.ofHalt : FieldHalt → PreCallOutcome
  | .timeout => .timeout
  | .serviceFailure => .serviceFailure
  | .block b => .block b

/-- One turn of the `pre_call` loop. -/
def preCallStage (s : PreState P W) (stage : ResolvedStage P) :
    Option (PreState P W × Option PreCallOutcome) :=
  if stage.action = .replaceWithPolicyMessage then some (s, some .invalidAction)
  else
    match scanMessages eng stage (applyPreAction stage.action) (fun _ => true) s.target.messages
      ⟨s.ctx, s.world, false, false, none⟩ with
    | none => none
    | some (messages, scan, halt) =>
      let label := deriveActionLabel stage.action (halt.any FieldHalt.isBlock) scan.errored
        scan.modified
      let s := { s with target := OpenAIRequest.mk messages, ctx := scan.ctx, world := scan.world }
      some (s.record stage label scan.entityForLog, halt.map .ofHalt)

/-- A stage over collected slots: what the `tool_result` and `tool_call` loops have in common. -/
def slotStage {T β : Type} (collect : T → List (SlotAddress × Str))
    (writeBack : T → SlotAddress → Str → T) (outcome : SlotTerminal → Option β)
    (s : EngineState P W T) (stage : ResolvedStage P) : Option (EngineState P W T × Option β) :=
  let (target, world, run) :=
    executeStageOnSlots eng stage writeBack (collect s.target) s.target s.world
  let s := { s with target := target, world := world }
  some (s.record stage run.label run.entity, run.terminal.bind outcome)

def PreCallOutcome.ofSlotTerminal : SlotTerminal → Option PreCallOutcome
  | .block b => some (.block b)
  | .timeout => some .timeout
  | .serviceFailure => some .serviceFailure
  | .replaced => none
  | .invalidAction => none

/-- One turn of the `tool_result` loop. -/
def toolResultStage (scanJson : Bool) (s : PreState P W) (stage : ResolvedStage P) :
    Option (PreState P W × Option PreCallOutcome) :=
  if stage.action = .replaceWithPolicyMessage then some (s, some .invalidAction)
  else
    slotStage eng (fun request => collectToolResultSlots eng.serde request.messages scanJson)
      setRequestSlot PreCallOutcome.ofSlotTerminal s stage

/-- One turn of the `tool_call` loop of `run_pre_call`. -/
def toolCallHistoryStage (s : PreState P W) (stage : ResolvedStage P) :
    Option (PreState P W × Option PreCallOutcome) :=
  slotStage eng (fun request => collectToolCallSlotsRequest eng.serde request.messages)
    setRequestSlot PreCallOutcome.ofSlotTerminal s stage

def defaultRedactionNoticeInstruction : String :=
  "Notice from the security layer: This request was processed by an authorized upstream " ++
  "data-protection layer. Sensitive values (secrets, API keys, credentials, and personally " ++
  "identifiable information) have been intentionally redacted and replaced with opaque " ++
  "placeholder tokens of the form <<PII_TYPE_N>> (for example <<PII_EMAIL_1>>). This " ++
  "redaction is expected and authorized; the placeholders stand in for real values that " ++
  "will be restored downstream before the response reaches the end user.\n\n" ++
  "Instructions:\n" ++
  "1. Treat every placeholder token as valid, well-formed input. Do not treat redacted, " ++
  "masked, or placeholder-shaped values as errors, corruption, or a policy problem, and do " ++
  "not refuse, warn, or ask for the original values solely because content was redacted.\n" ++
  "2. Proceed normally with the requested task, including any tool calls, shell commands, " ++
  "and computer-use actions. Use the placeholder tokens exactly where the corresponding " ++
  "real value would be used.\n" ++
  "3. Reproduce every placeholder token verbatim and unchanged in your response wherever it " ++
  "would naturally appear. Do not rename, reformat, translate, split, escape, or omit " ++
  "placeholder tokens, so that the downstream layer can restore the original values."

def insertSeparate (messages : List Message) (instructionText : Str) : List Message :=
  ⟨str "system", .string instructionText, []⟩ :: messages

def injectRedactionNotice (serde : Serde) (messages : List Message) (ctx : GuardrailContext)
    (overrideInstruction : Option Str) (mode : InstructionInsertionMode) : List Message :=
  if ctx.reinjectionMap.isEmpty then messages
  else
    let text := overrideInstruction.getD (str defaultRedactionNoticeInstruction)
    match mode, messages with
    | .merged, first :: rest =>
      if first.role = str "system" then
        { first with content := .string (text ++ str "\n\n" ++ first.contentAsText serde) } :: rest
      else insertSeparate messages text
    | _, _ => insertSeparate messages text

def runPreCall (binding : Binding P) (s : PreState P W) : Option (PreState P W × PreCallOutcome) :=
  match runUntil (preCallStage eng) s (binding.ofPhase .preCall) with
  | none => none
  | some (s, terminal) =>
    -- the `tool_result` loop does not look at `terminal` before its first stage
    match runCarrying (toolResultStage eng binding.scanJsonContent) s terminal
      (binding.ofPhase .toolResult) with
    | none => none
    | some (s, some outcome) => some (s, outcome)
    | some (s, none) =>
      match runUntil (toolCallHistoryStage eng) s (binding.ofPhase .toolCall) with
      | none => none
      | some (s, some outcome) => some (s, outcome)
      | some (s, none) =>
        let messages := injectRedactionNotice eng.serde s.target.messages s.ctx
          binding.overrideInstruction binding.insertionMode
        some ({ s with target := ⟨messages⟩ }, .proceed)

/-! ### Post-call -/

structure ReplaceScan (W : Type) where
  world : W
  errored : Bool
  replaced : Bool
  failed : Bool
  entityForLog : Option Str

/-- The scan of the assistant's texts for `replace_with_policy_message`. -/
def replaceLoop (stage : ResolvedStage P) : List Str → ReplaceScan W → ReplaceScan W
  | [], scan => scan
  | text :: texts, scan =>
    let r := evaluateStage eng stage text scan.world
    let scan := { scan with world := r.2 }
    match r.1 with
    | .timeout => { scan with errored := true, failed := true }
    | .serviceFailure => { scan with errored := true, failed := true }
    | .skip => replaceLoop stage texts { scan with errored := true }
    | .findings [] => replaceLoop stage texts scan
    | .findings (f :: _) => { scan with entityForLog := some f.entityLabel, replaced := true }

def PostCallOutcome.ofHalt : FieldHalt → PostCallOutcome
  | .timeout => .serviceFailure
  | .serviceFailure => .serviceFailure
  | .block b => .block b

/-- One turn of the `post_call` loop. -/
def postCallStage (s : PostState P W) (stage : ResolvedStage P) :
    Option (PostState P W × Option PostCallOutcome) :=
  if stage.action = .replaceWithPolicyMessage then
    let assistant := s.target.choices.filter fun c => isAssistant c.message
    let texts := assistant.flatMap fun c => (collectTextSlots c.message.content).map (·.2)
    let scan := replaceLoop eng stage texts ⟨s.world, false, false, false, none⟩
    let choices := s.target.choices.map fun c =>
      if isAssistant c.message then ⟨{ c.message with content := .string eng.policyMessage }⟩ else c
    let label :=
      if scan.errored && !scan.replaced then .error
      else if scan.replaced then .replaceWithPolicyMessage
      else deriveActionLabel stage.action false false false
    let terminal := if scan.replaced then some .replaced
      else if scan.failed then some .serviceFailure else none
    let s := { s with
      target := if scan.replaced then OpenAIResponse.mk choices else s.target
      world := scan.world }
    some (s.record stage label scan.entityForLog, terminal)
  else
    match scanMessages eng stage
      (fun ctx text findings => (applyPostAction stage.action text findings).map (·, ctx))
      isAssistant (s.target.choices.map (·.message)) ⟨s.ctx, s.world, false, false, none⟩ with
    | none => none
    | some (messages, scan, halt) =>
      let label := deriveActionLabel stage.action (halt.any FieldHalt.isBlock) scan.errored
        scan.modified
      let s := { s with target := OpenAIResponse.mk (messages.map Choice.mk), world := scan.world }
      some (s.record stage label scan.entityForLog, halt.map .ofHalt)

def PostCallOutcome.ofSlotTerminal : SlotTerminal → Option PostCallOutcome
  | .block b => some (.block b)
  | .timeout => some .serviceFailure
  | .serviceFailure => some .serviceFailure
  | .replaced => some .replaced
  | .invalidAction => none

/-- One turn of the `tool_call` loop of `run_post_call`. -/
def toolCallStage (s : PostState P W) (stage : ResolvedStage P) :
    Option (PostState P W × Option PostCallOutcome) :=
  slotStage eng (collectToolCallSlotsResponse eng.serde) setResponseSlot
    PostCallOutcome.ofSlotTerminal s stage

structure ToolContext where
  toolUseAllowed : Bool
  toolsProvided : Bool
  finishReasonIsToolCall : Bool
  hasToolCalls : Bool

inductive RefusalSignal
  | phrase
  | toolOmission
deriving DecidableEq, Repr

inductive RefusalDecision
  | notRefusal
  | refusal (signal : RefusalSignal)
deriving DecidableEq, Repr

def isToolOmission (tc : ToolContext) : Bool :=
  tc.toolUseAllowed && tc.toolsProvided && !tc.finishReasonIsToolCall && !tc.hasToolCalls

def detect (assistantContent : Str) (tc : ToolContext) : RefusalDecision :=
  if eng.matchesPhrase assistantContent then .refusal .phrase
  else if isToolOmission tc then .refusal .toolOmission
  else .notRefusal

def assistantContent (response : OpenAIResponse) : Str :=
  (str " ").intercalate ((response.choices.filter fun c => isAssistant c.message).filterMap fun c =>
    c.message.content.asStr)

def reinjectContent (ctx : GuardrailContext) (content : Value) : Option Value :=
  (collectTextSlots content).foldlM
    (fun content slot =>
      let restored := if 0 < ctx.overflowCount then ctx.reinjectSafe slot.2
        else some (ctx.reinject slot.2)
      restored.map fun restored =>
        if restored ≠ slot.2 then setTextSlot content slot.1 restored else content)
    content

def reinjectResponse (ctx : GuardrailContext) (response : OpenAIResponse) : Option OpenAIResponse :=
  if ctx.reinjectionMap.isEmpty then some response
  else
    (response.choices.mapM fun c => (reinjectContent ctx c.message.content).map fun content =>
      (⟨{ c.message with content := content }⟩ : Choice)).map OpenAIResponse.mk

def finishPostCall (binding : Binding P) (tc : ToolContext) (s : PostState P W) :
    Option (PostState P W × PostCallOutcome × RefusalDecision) :=
  let decision := if binding.failoverOnRefusal then detect eng (assistantContent s.target) tc
    else .notRefusal
  match decision with
  | .refusal signal => some (s, .proceed, .refusal signal)
  | .notRefusal =>
    (reinjectResponse s.ctx s.target).map fun response =>
      ({ s with target := response }, .proceed, .notRefusal)

def runPostCall (binding : Binding P) (tc : ToolContext) (s : PostState P W) :
    Option (PostState P W × PostCallOutcome × RefusalDecision) :=
  match runUntil (postCallStage eng) s (binding.ofPhase .postCall) with
  | none => none
  | some (s, terminal) =>
    -- nor does the `tool_call` loop here
    match runCarrying (toolCallStage eng) s terminal (binding.ofPhase .toolCall) with
    | none => none
    | some (s, some outcome) => some (s, outcome, .notRefusal)
    | some (s, none) => finishPostCall eng binding tc s

end

end ObeyGateway.Guardrail
