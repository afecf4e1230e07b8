import ObeyGateway.Codex.Sse

/-!
# The answers of the Codex backend as chat answers

`codex/translate_response.rs`: `accumulate` puts the events of a stream together into one chat completion, `stream_translate`
turns each event into chunks. An item of the stream is the value of a chunk or the end mark; what `serde_json::to_string` and
the framing make of it is left out.
-/

namespace ObeyGateway.Codex

/-! ### Accumulation -/

inductive TranslateError
  | upstreamTerminatedEarly
deriving DecidableEq

structure ToolCallBuilder where
  id : String
  name : String
  arguments : String
deriving DecidableEq

structure UsageOutput where
  promptTokens : UInt64
  completionTokens : UInt64
  totalTokens : UInt64

def UsageOutput.ofUsage (u : Usage) : UsageOutput :=
  ⟨u.inputTokens.getD 0, u.outputTokens.getD 0, u.totalTokens.getD 0⟩

/-- `json!` of the counters -/
def UsageOutput.toJson (u : UsageOutput) : Json :=
  .object [("completion_tokens", .number (.posInt u.completionTokens)), ("prompt_tokens", .number (.posInt u.promptTokens)),
    ("total_tokens", .number (.posInt u.totalTokens))]

/-- `terminated` is the local variable of the loop. -/
structure ResponseAccumulator where
  responseId : Option String := none
  model : Option String := none
  text : String := ""
  toolCalls : List ToolCallBuilder := []
  usage : Option UsageOutput := none
  finish : Option String := none
  errored : Bool := false
  terminated : Bool := false

def finishReason (resp : CompletedPayload) : String :=
  if (resp.incompleteDetails.bind (·.reason)) = some "max_output_tokens" then "length"
  else if resp.output.any (·.kind = "function_call") then "tool_calls"
  else "stop"

def outputTexts (output : List OutputItem) : List String :=
  (output.filter (·.kind = "message")).flatMap fun item =>
    ((item.content.getD []).filter (·.kind = "output_text")).filterMap (·.text)

def backfillText (text : String) (output : List OutputItem) : String :=
  (outputTexts output).foldl (fun text t => if text.isEmpty then text ++ t else text) text

def OutputItem.toolCall (item : OutputItem) : ToolCallBuilder where
  id := (item.callId.or item.id).getD ""
  name := item.name.getD ""
  arguments := item.arguments.getD ""

def backfillToolCalls (toolCalls : List ToolCallBuilder) (output : List OutputItem) : List ToolCallBuilder :=
  if toolCalls.isEmpty then (output.filter (·.kind = "function_call")).map OutputItem.toolCall else toolCalls

def rposition (p : α → Bool) (xs : List α) : Option Nat := (xs.reverse.findIdx? p).map (xs.length - 1 - ·)

def ToolCallBuilder.push (delta : String) (tc : ToolCallBuilder) : ToolCallBuilder :=
  { tc with arguments := tc.arguments ++ delta }

namespace ResponseAccumulator
variable (acc : ResponseAccumulator)

def callIndex (itemId : String) : Option Nat :=
  (rposition (·.id = itemId) acc.toolCalls).or
    (if acc.toolCalls.isEmpty then none else some (acc.toolCalls.length - 1))

def event : ResponsesEvent → ResponseAccumulator
  | .created id model _ => { acc with responseId := some id, model := some model }
  | .outputTextDelta _ delta _ => { acc with text := acc.text ++ delta }
  | .outputItemAdded itemId kind callId name _ =>
    if kind = "function_call" then
      { acc with toolCalls := acc.toolCalls ++ [⟨callId.getD itemId, name.getD "", ""⟩] }
    else acc
  | .functionCallArgumentsDelta itemId delta _ =>
    match acc.callIndex itemId with
    | some i => { acc with toolCalls := acc.toolCalls.modify i (ToolCallBuilder.push delta) }
    | none => acc
  | .completed response _ =>
    { acc with
      finish := some (finishReason response)
      usage := (response.usage.map UsageOutput.ofUsage).or acc.usage
      text := backfillText acc.text response.output
      toolCalls := backfillToolCalls acc.toolCalls response.output
      responseId := acc.responseId.or (some response.id)
      model := acc.model.or (some response.model)
      terminated := true }
  | .failed _ _ => { acc with errored := true, finish := some "error", terminated := true }
  | .error _ _ => { acc with errored := true, finish := some "error", terminated := true }
  | .outputTextDone _ _ _ => acc
  | .other _ _ => acc

def finishReasonStr : String := if acc.errored then "error" else acc.finish.getD "stop"

def content : Json :=
  if !acc.text.isEmpty then .string acc.text else if !acc.toolCalls.isEmpty then .null else .string ""

end ResponseAccumulator

def ToolCallBuilder.toJson (tc : ToolCallBuilder) : Json :=
  .object [("function", .object [("arguments", .string tc.arguments), ("name", .string tc.name)]), ("id", .string tc.id),
    ("type", .string "function")]

namespace ResponseAccumulator
variable (acc : ResponseAccumulator)

def message : Json :=
  .object ([("content", acc.content), ("role", .string "assistant")] ++
    if acc.toolCalls.isEmpty then [] else [("tool_calls", .array (acc.toolCalls.map ToolCallBuilder.toJson))])

def body (createdTs : UInt64) : Json :=
  .object ([("choices", .array [.object [("finish_reason", .string acc.finishReasonStr), ("index", .number (.posInt 0)),
      ("message", acc.message)]]),
    ("created", .number (.posInt createdTs)), ("id", .string ("chatcmpl-" ++ acc.responseId.getD "")),
    ("model", .string (acc.model.getD "")), ("object", .string "chat.completion")] ++
    (acc.usage.map fun u => ("usage", u.toJson)).toList)

end ResponseAccumulator

/-- The time is that of the moment. -/
def accumulate (createdTs : UInt64) (upstream : List ResponsesEvent) : Except TranslateError Json :=
  let acc := upstream.foldl ResponseAccumulator.event {}
  if acc.terminated then .ok (acc.body createdTs) else .error .upstreamTerminatedEarly

structure StreamTranslatorState where
  responseId : String := ""
  model : String
  firstTextEmitted : Bool := false
  toolIndexMap : List (String × UInt32) := []
  nextToolIndex : UInt32 := 0
  finished : Bool := false
  createdTs : UInt64

inductive StreamItem
  | chunk (body : Json)
  | done

/-- `json!` of an index -/
def indexJson (index : UInt32) : Json := .number (.posInt index.toUInt64)

namespace StreamTranslatorState
variable (state : StreamTranslatorState)

def formatChunk (delta finishReasonVal : Json) (usage : Option Json) : StreamItem :=
  .chunk (.object ([("choices", .array [.object [("delta", delta), ("finish_reason", finishReasonVal),
      ("index", .number (.posInt 0))]]),
    ("created", .number (.posInt state.createdTs)), ("id", .string ("chatcmpl-" ++ state.responseId)),
    ("model", .string state.model), ("object", .string "chat.completion.chunk")] ++
    (usage.map fun u => ("usage", u)).toList))

/-- The index of the call of an item, or else the last one: `saturating_sub` stays at 0. -/
def fragmentIndex (itemId : String) : UInt32 :=
  (Assoc.get state.toolIndexMap itemId).getD (if state.nextToolIndex = 0 then 0 else state.nextToolIndex - 1)

/-- The chunks of an event. Where a counter is at its largest value, the next one is 0. -/
def translateEvent : ResponsesEvent → StreamTranslatorState × List StreamItem
  | .created id _ _ => ({ state with responseId := id }, [])
  | .outputTextDelta _ delta _ =>
    ({ state with firstTextEmitted := true },
      [state.formatChunk (.object (("content", .string delta) ::
        if state.firstTextEmitted then [] else [("role", .string "assistant")])) .null none])
  | .outputItemAdded itemId kind callId name _ =>
    if kind = "function_call" then
      let idx := state.nextToolIndex
      ({ state with nextToolIndex := idx + 1, toolIndexMap := Assoc.put state.toolIndexMap itemId idx },
        [state.formatChunk (.object [("tool_calls", .array [.object [
          ("function", .object [("arguments", .string ""), ("name", .string (name.getD ""))]),
          ("id", .string (callId.getD "")), ("index", indexJson idx), ("type", .string "function")]])]) .null none])
    else (state, [])
  | .functionCallArgumentsDelta itemId delta _ =>
    (state, [state.formatChunk (.object [("tool_calls", .array [.object [
      ("function", .object [("arguments", .string delta)]), ("index", indexJson (state.fragmentIndex itemId))]])]) .null none])
  | .completed response _ =>
    ({ state with finished := true },
      [state.formatChunk (.object []) (.string (finishReason response))
        (response.usage.map fun u => (UsageOutput.ofUsage u).toJson), .done])
  | .failed _ _ => ({ state with finished := true }, [state.formatChunk (.object []) (.string "error") none, .done])
  | .error _ _ => ({ state with finished := true }, [state.formatChunk (.object []) (.string "error") none, .done])
  | .outputTextDone _ _ _ => (state, [])
  | .other _ _ => (state, [])

def items : StreamTranslatorState → List ResponsesEvent → List (Except TranslateError StreamItem)
  | state, [] => if state.finished then [] else [.error .upstreamTerminatedEarly]
  | state, event :: upstream =>
    if state.finished then []
    else (state.translateEvent event).2.map .ok ++ (state.translateEvent event).1.items upstream

end StreamTranslatorState

def streamTranslate (createdTs : UInt64) (upstream : List ResponsesEvent) (resolvedModel : String) :
    List (Except TranslateError StreamItem) :=
  StreamTranslatorState.items { model := resolvedModel, createdTs := createdTs } upstream

end ObeyGateway.Codex
