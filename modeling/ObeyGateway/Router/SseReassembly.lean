import ObeyGateway.Lib.Frames
import ObeyGateway.Lib.Json
import ObeyGateway.Lib.Text

/-!
# Streams put together again (`reassemble_sse_stream`)

A buffered request may be answered with a stream of chat-completion chunks. The payloads of its `data:` lines are
parsed one after the other, and what their deltas say is gathered: texts are appended, tool calls are merged by
index, the last usage object is kept. A turn that comes out with tool calls is repaired.

`serde_json` on texts is the parameter `SerdeText`.
-/

namespace ObeyGateway
open Text

/-- `serde_json::from_str`, to a value and to `IgnoredAny`. What is a value is valid JSON; `[DONE]` is not. -/
structure SerdeText where
  fromStr : List Char → Option Json
  isValid : List Char → Bool
  isValid_of_fromStr : ∀ text value, fromStr text = some value → isValid text = true
  fromStr_done : fromStr "[DONE]".toList = none

namespace Reassembly

/-- `Usage`, with `u32` counts. -/
structure TokenUsage where
  promptTokens : Nat
  completionTokens : Nat
  totalTokens : Nat
  extra : Json.Map

def TokenUsage.default : TokenUsage := ⟨0, 0, 0, []⟩

/-- A `u32` field with a default. -/
def u32Field (fields : Json.Map) (key : String) : Option Nat :=
  match Assoc.get fields key with
  | none => some 0
  | some value => (value.asU64.map (·.toNat)).filter (· < 2 ^ 32)

/-- `serde_json::from_value::<Usage>` of an object; anything else is no usage. -/
def usageFromValue : Json → Option TokenUsage
  | .object fields => do
    let promptTokens ← u32Field fields "prompt_tokens"
    let completionTokens ← u32Field fields "completion_tokens"
    let totalTokens ← u32Field fields "total_tokens"
    some ⟨promptTokens, completionTokens, totalTokens,
      fields.filter (·.1 ∉ ["prompt_tokens", "completion_tokens", "total_tokens"])⟩
  | _ => none

def strField (value : Json) (key : String) : Option String := (value.get key).bind Json.asStr

def firstChoice (chunk : Json) : Option Json := ((chunk.get "choices").bind Json.asArray).bind List.head?

def delta (chunk : Json) : Option Json := (firstChoice chunk).bind (·.get "delta")

def contentOf (chunk : Json) : Option String := (delta chunk).bind (strField · "content")

def reasoningOf (chunk : Json) : List String :=
  ((delta chunk).bind (strField · "reasoning")).toList ++ ((delta chunk).bind (strField · "reasoning_content")).toList

def toolCallDeltas (chunk : Json) : List Json :=
  (((delta chunk).bind (·.get "tool_calls")).bind Json.asArray).getD []

def finishReasonOf (chunk : Json) : Option String := (firstChoice chunk).bind (strField · "finish_reason")

def usageOf (chunk : Json) : Option TokenUsage := (chunk.get "usage").bind usageFromValue

def explicitIndex (tcDelta : Json) : Option Nat := ((tcDelta.get "index").bind Json.asU64).map (·.toNat)

def functionName (tcDelta : Json) : Option String := (tcDelta.get "function").bind (strField · "name")

def functionArguments (tcDelta : Json) : Option String := (tcDelta.get "function").bind (strField · "arguments")

/-- An entry of `tool_calls_map`: the object with `id`, `type` and the `name` and `arguments` of its `function`. -/
structure ToolCall where
  id : String
  type : String
  name : String
  arguments : String
deriving DecidableEq

def ToolCall.new : ToolCall := ⟨"", "function", "", ""⟩

/-- The slot of a delta without an index; the last entry of the map is the call in progress. -/
def implicitToolCallIndex (calls : List (Nat × ToolCall)) (tcDelta : Json) : Nat :=
  match calls.getLast? with
  | none => 0
  | some (lastIndex, last) =>
    let deltaId := (strField tcDelta "id").getD ""
    let deltaName := (functionName tcDelta).getD ""
    if deltaId = "" ∧ deltaName = "" then lastIndex
    else
      let identifiesNewCall :=
        if deltaId ≠ "" ∧ last.id ≠ "" then deltaId ≠ last.id
        else if deltaName ≠ "" then last.name ≠ "" ∧ deltaName ≠ last.name
        else False
      if identifiesNewCall then (lastIndex + 1) % 2 ^ 64 else lastIndex

def ToolCall.merge (entry : ToolCall) (tcDelta : Json) : ToolCall where
  id := (strField tcDelta "id").getD entry.id
  type := (strField tcDelta "type").getD entry.type
  name := ((functionName tcDelta).filter (· ≠ "")).getD entry.name
  arguments := entry.arguments ++ (functionArguments tcDelta).getD ""

def mergeToolCall (calls : List (Nat × ToolCall)) (tcDelta : Json) : List (Nat × ToolCall) :=
  let index := (explicitIndex tcDelta).getD (implicitToolCallIndex calls tcDelta)
  Assoc.insert calls index (((Assoc.get calls index).getD .new).merge tcDelta)

structure Gathered where
  content : String
  reasoning : String
  responseId : String
  model : String
  created : Int
  finishReason : Option String
  reportedUsage : Option TokenUsage
  toolCalls : List (Nat × ToolCall)
  chunkCount : Nat

def Gathered.init : Gathered := ⟨"", "", "", "", 0, none, none, [], 0⟩

/-- A chunk that reports no error. -/
def Gathered.add (g : Gathered) (chunk : Json) : Gathered where
  content := g.content ++ (contentOf chunk).getD ""
  reasoning := (reasoningOf chunk).foldl (· ++ ·) g.reasoning
  responseId := if g.responseId = "" then (strField chunk "id").getD g.responseId else g.responseId
  model := if g.model = "" then (strField chunk "model").getD g.model else g.model
  created := if g.created = 0 then ((chunk.get "created").bind Json.asI64).getD g.created else g.created
  finishReason := (finishReasonOf chunk).or g.finishReason
  reportedUsage := (usageOf chunk).or g.reportedUsage
  toolCalls := (toolCallDeltas chunk).foldl mergeToolCall g.toolCalls
  chunkCount := (g.chunkCount + 1) % 2 ^ 32

inductive SseReassemblyError
  | noChunks
  | errorFrame (message : String) (frame : List Char)
  | errorFinish (message : String)

def chunkError (chunk : Json) (text : List Char) : Option SseReassemblyError :=
  match chunk.get "error" with
  | some errorObj =>
    some (.errorFrame
      ("Mid-stream error (" ++ (strField errorObj "code").getD "unknown" ++ "): " ++
        (strField errorObj "message").getD "Unknown mid-stream error") text)
  | none =>
    if finishReasonOf chunk = some "error" then
      some (.errorFinish ("Stream error: " ++ (contentOf chunk).getD "Provider returned error finish_reason"))
    else none

def linePayloads (serde : SerdeText) (line : List Char) : List (List Char) :=
  match stripPrefix "data:" (trim line) with
  | none => []
  | some rest =>
    let rest := trim rest
    if rest = [] then []
    else if contains rest "data: " && !serde.isValid rest then
      let pieces := Frames.drain "data: ".toList rest
      (pieces.1 ++ [pieces.2]).map trim |>.filter (· ≠ [])
    else [rest]

def sseDataPayloads (serde : SerdeText) (body : List Char) : List (List Char) :=
  (lines body).flatMap (linePayloads serde)

/-- The loop over the payloads; the flag is `saw_done`. -/
def gather (serde : SerdeText) : List (List Char) → Gathered → Except SseReassemblyError (Gathered × Bool)
  | [], g => .ok (g, false)
  | payload :: more, g =>
    if payload = "[DONE]".toList then .ok (g, true)
    else
      match serde.fromStr (trimEnd payload) with
      | none => gather serde more g
      | some chunk =>
        match chunkError chunk (trimEnd payload) with
        | some e => .error e
        | none => gather serde more (g.add chunk)

def completeUsage (reported : Option TokenUsage) (content reasoning : String) : TokenUsage :=
  let usage := reported.getD .default
  if usage.totalTokens = 0 then
    let completionTokens :=
      if usage.completionTokens = 0 then (content.utf8ByteSize + reasoning.utf8ByteSize) / 4 % 2 ^ 32
      else usage.completionTokens
    { usage with completionTokens, totalTokens := (usage.promptTokens + completionTokens) % 2 ^ 32 }
  else usage

/-- The response: its one choice, with what is in the `extra` of its message. There `tool_calls` and
`reasoning_content` are absent when empty. -/
structure Response where
  id : String
  created : Int
  model : String
  content : String
  toolCalls : List ToolCall
  reasoningContent : String
  finishReason : Option String
  usage : TokenUsage

/-- `repair_tool_calls`; `uuid` gives a fresh identifier for each position. -/
def repairToolCalls (uuid : Nat → String) (response : Response) : Response :=
  if response.toolCalls = [] then response
  else
    { response with
      toolCalls := response.toolCalls.mapIdx fun i call =>
        if call.name ≠ "" ∧ call.id = "" then { call with id := "call_" ++ uuid i } else call
      finishReason :=
        if response.finishReason = none ∨ response.finishReason = some "stop" then some "tool_calls"
        else response.finishReason }

structure SseReassembly where
  response : Response
  completed : Bool

def Gathered.response (g : Gathered) : Response where
  id := if g.responseId = "" then "chatcmpl-reassembled-" ++ toString g.chunkCount else g.responseId
  created := g.created
  model := g.model
  content := g.content
  toolCalls := g.toolCalls.map (·.2)
  reasoningContent := g.reasoning
  finishReason := g.finishReason
  usage := completeUsage g.reportedUsage g.content g.reasoning

def reassembleSseStream (serde : SerdeText) (uuid : Nat → String) (body : List Char) :
    Except SseReassemblyError SseReassembly :=
  match gather serde (sseDataPayloads serde body) .init with
  | .error e => .error e
  | .ok (g, sawDone) =>
    if g.chunkCount = 0 then .error .noChunks
    else .ok ⟨repairToolCalls uuid g.response, sawDone || g.finishReason.isSome⟩

end Reassembly

end ObeyGateway
