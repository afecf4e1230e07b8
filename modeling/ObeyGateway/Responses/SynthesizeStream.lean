import Mathlib.Data.List.Sort
import Mathlib.Logic.Function.Basic
import ObeyGateway.Responses.Models

/-!
# The translator of response streams

`responses/synthesize_stream.rs`. Chunks of a chat stream come in, events of the Responses API go out; the
items are built up in separate fields on the way and are written twice, in the events that close them and in
the response at the end. The ids are drawn from `uuid`, one after the other. The text and the refusal of a
message are two kinds of part, with the same code.
-/

namespace ObeyGateway.Responses

structure IncompleteDetails where
  reason : Option String
deriving DecidableEq

/-- Of a response, what is not constant here. -/
structure ResponseObject where
  id : String
  createdAt : Int
  status : String
  incompleteDetails : Option IncompleteDetails
  instructions : Option String
  model : String
  output : List OutputItem
  usage : Option ResponsesUsage
deriving DecidableEq

inductive EventBody
  | created (response : ResponseObject)
  | inProgress (response : ResponseObject)
  | completed (response : ResponseObject)
  | incomplete (response : ResponseObject)
  | outputItemAdded (outputIndex : Nat) (item : OutputItem)
  | outputItemDone (outputIndex : Nat) (item : OutputItem)
  | contentPartAdded (itemId : String) (outputIndex contentIndex : Nat) (part : OutputContentPart)
  | contentPartDone (itemId : String) (outputIndex contentIndex : Nat) (part : OutputContentPart)
  | outputTextDelta (itemId : String) (outputIndex contentIndex : Nat) (delta : String)
  | outputTextDone (itemId : String) (outputIndex contentIndex : Nat) (text : String)
  | refusalDelta (itemId : String) (outputIndex contentIndex : Nat) (delta : String)
  | refusalDone (itemId : String) (outputIndex contentIndex : Nat) (refusal : String)
  | functionCallArgumentsDelta (itemId : String) (outputIndex : Nat) (delta : String)
  | functionCallArgumentsDone (itemId : String) (outputIndex : Nat) (arguments : String)
  | reasoningSummaryPartAdded (itemId : String) (outputIndex summaryIndex : Nat) (part : ReasoningSummaryPart)
  | reasoningTextDelta (itemId : String) (outputIndex : Nat) (delta : String)
  | reasoningSummaryTextDelta (itemId : String) (outputIndex summaryIndex : Nat) (delta : String)
deriving DecidableEq

structure ResponsesSseEvent where
  sequenceNumber : Nat
  body : EventBody
deriving DecidableEq

structure FunctionCallState where
  itemId : String
  callId : String
  name : String
  arguments : String
  outputIndex : Nat

inductive ItemSlot
  | reasoning
  | message
  | functionCall (toolIndex : Nat)
deriving DecidableEq

inductive PartKind
  | text
  | refusal
deriving DecidableEq

structure ResponsesStreamTranslator where
  responseId : String
  model : String
  sequenceNumber : Nat
  createdTs : Int
  firstChunkProcessed : Bool
  instructions : Option String
  orderedItems : List ItemSlot
  currentMessageItemId : Option String
  messageOutputIndex : Option Nat
  textPartIndex : Option Nat
  refusalPartIndex : Option Nat
  nextContentIndex : Nat
  textBuffer : String
  refusalBuffer : String
  reasoningEmitted : Bool
  reasoningItemId : Option String
  reasoningOutputIndex : Option Nat
  reasoningBuffer : String
  currentFunctionCallItems : Nat → Option FunctionCallState
  finishReason : Option String
  /-- how many ids were drawn -/
  drawn : Nat

abbrev Feed := ResponsesStreamTranslator × List ResponsesSseEvent

def Feed.push (s : Feed) (body : EventBody) : Feed :=
  ({ s.1 with sequenceNumber := s.1.sequenceNumber + 1 }, s.2 ++ [⟨s.1.sequenceNumber, body⟩])

def PartKind.part : PartKind → String → OutputContentPart
  | .text, buffer => .outputText buffer none
  | .refusal, buffer => .refusal buffer

def PartKind.delta : PartKind → String → Nat → Nat → String → EventBody
  | .text => .outputTextDelta
  | .refusal => .refusalDelta

def PartKind.done : PartKind → String → Nat → Nat → String → EventBody
  | .text => .outputTextDone
  | .refusal => .refusalDone

namespace ResponsesStreamTranslator
variable (t : ResponsesStreamTranslator)

def partIndex : PartKind → Option Nat
  | .text => t.textPartIndex
  | .refusal => t.refusalPartIndex

def buffer : PartKind → String
  | .text => t.textBuffer
  | .refusal => t.refusalBuffer

def setPartIndex (contentIndex : Nat) : PartKind → ResponsesStreamTranslator
  | .text => { t with textPartIndex := some contentIndex }
  | .refusal => { t with refusalPartIndex := some contentIndex }

def pushBuffer (text : String) : PartKind → ResponsesStreamTranslator
  | .text => { t with textBuffer := t.textBuffer ++ text }
  | .refusal => { t with refusalBuffer := t.refusalBuffer ++ text }

def buildReasoningItem (itemId : String) : OutputReasoning where
  id := itemId
  summary := [⟨some "summary_text", some t.reasoningBuffer, []⟩]
  extra := []

def buildMessageItem (itemId : String) : OutputMessage :=
  let text := match t.textPartIndex with
    | some contentIndex =>
      if t.textBuffer ≠ "" ∨ t.refusalPartIndex = none then [(contentIndex, PartKind.text.part t.textBuffer)] else []
    | none => []
  let refusal := match t.refusalPartIndex with
    | some contentIndex => if t.refusalBuffer ≠ "" then [(contentIndex, PartKind.refusal.part t.refusalBuffer)] else []
    | none => []
  { id := itemId
    role := "assistant"
    status := "completed"
    content := ((text ++ refusal).insertionSort (·.1 ≤ ·.1)).map (·.2)
    extra := [] }

def buildFunctionCall (state : FunctionCallState) : OutputFunctionCall :=
  ⟨state.itemId, state.callId, state.name, state.arguments, "completed", []⟩

def slotItem : ItemSlot → Option OutputItem
  | .reasoning => t.reasoningItemId.map fun itemId => .reasoning (t.buildReasoningItem itemId)
  | .message => t.currentMessageItemId.map fun itemId => .message (t.buildMessageItem itemId)
  | .functionCall toolIndex =>
    (t.currentFunctionCallItems toolIndex).map fun state => .functionCall (buildFunctionCall state)

def baseResponse (status : String) : ResponseObject where
  id := t.responseId
  createdAt := t.createdTs
  status := status
  incompleteDetails := none
  instructions := t.instructions
  model := t.model
  output := []
  usage := none

def terminalStatus : String × Option IncompleteDetails :=
  match t.finishReason with
  | some "length" => ("incomplete", some ⟨some "max_output_tokens"⟩)
  | some "content_filter" => ("incomplete", some ⟨some "content_filter"⟩)
  | _ => ("completed", none)

def finalResponse (status : String) (incompleteDetails : Option IncompleteDetails)
    (usage : Option ResponsesUsage) : ResponseObject :=
  { t.baseResponse status with incompleteDetails, usage, output := t.orderedItems.filterMap t.slotItem }

end ResponsesStreamTranslator

/-! ### Chunks -/

section
variable (uuid : Nat → String)

def ResponsesStreamTranslator.new (createdTs : Int) (model : String) (instructions : Option String) :
    ResponsesStreamTranslator where
  responseId := "resp_" ++ uuid 0
  model := model
  sequenceNumber := 0
  createdTs := createdTs
  firstChunkProcessed := false
  instructions := instructions
  orderedItems := []
  currentMessageItemId := none
  messageOutputIndex := none
  textPartIndex := none
  refusalPartIndex := none
  nextContentIndex := 0
  textBuffer := ""
  refusalBuffer := ""
  reasoningEmitted := false
  reasoningItemId := none
  reasoningOutputIndex := none
  reasoningBuffer := ""
  currentFunctionCallItems := fun _ => none
  finishReason := none
  drawn := 1

namespace Feed

def start (s : Feed) : Feed :=
  if s.1.firstChunkProcessed then s
  else
    let t := { s.1 with firstChunkProcessed := true }
    (push (t, s.2) (.created (t.baseResponse "in_progress"))).push (.inProgress (t.baseResponse "in_progress"))

def ensureReasoningItem (s : Feed) : Feed :=
  if s.1.reasoningEmitted then s
  else
    let itemId := "rs_" ++ uuid s.1.drawn
    let outputIndex := s.1.orderedItems.length
    let t := { s.1 with
      reasoningEmitted := true
      orderedItems := s.1.orderedItems ++ [.reasoning]
      reasoningItemId := some itemId
      reasoningOutputIndex := some outputIndex
      drawn := s.1.drawn + 1 }
    (push (t, s.2) (.outputItemAdded outputIndex (.reasoning ⟨itemId, [], []⟩))).push
      (.reasoningSummaryPartAdded itemId outputIndex 0 ⟨some "summary_text", some "", []⟩)

def handleReasoning (s : Feed) (text : String) : Feed :=
  let s := s.ensureReasoningItem uuid
  let t := { s.1 with reasoningBuffer := s.1.reasoningBuffer ++ text }
  let itemId := t.reasoningItemId.getD ""
  let outputIndex := t.reasoningOutputIndex.getD 0
  (push (t, s.2) (.reasoningTextDelta itemId outputIndex text)).push
    (.reasoningSummaryTextDelta itemId outputIndex 0 text)

def ensureMessageItem (s : Feed) : Feed :=
  match s.1.currentMessageItemId with
  | some _ => s
  | none =>
    let itemId := "msg_" ++ uuid s.1.drawn
    let outputIndex := s.1.orderedItems.length
    let t := { s.1 with
      orderedItems := s.1.orderedItems ++ [.message]
      currentMessageItemId := some itemId
      messageOutputIndex := some outputIndex
      drawn := s.1.drawn + 1 }
    push (t, s.2) (.outputItemAdded outputIndex (.message ⟨itemId, "assistant", "in_progress", [], []⟩))

def ensurePart (s : Feed) (kind : PartKind) : Feed :=
  match s.1.partIndex kind with
  | some _ => s
  | none =>
    let contentIndex := s.1.nextContentIndex
    let t := { s.1 with nextContentIndex := s.1.nextContentIndex + 1 }
    let s := push (t, s.2) (.contentPartAdded (t.currentMessageItemId.getD "") (t.messageOutputIndex.getD 0)
      contentIndex (kind.part ""))
    (s.1.setPartIndex contentIndex kind, s.2)

/-- `handle_text` and `handle_refusal` -/
def handlePart (s : Feed) (kind : PartKind) (text : String) : Feed :=
  let s := (s.ensureMessageItem uuid).ensurePart kind
  let t := s.1.pushBuffer text kind
  push (t, s.2) (kind.delta (t.currentMessageItemId.getD "") (t.messageOutputIndex.getD 0)
    ((t.partIndex kind).getD 0) text)

def handleText (s : Feed) (text : String) : Feed := s.handlePart uuid .text text

def handleRefusal (s : Feed) (text : String) : Feed := s.handlePart uuid .refusal text

/-- The call of an index: the first fragment opens it, a later one can only change its name. -/
def ensureFunctionCall (s : Feed) (index : Nat) (id name : Option String) : Feed :=
  match s.1.currentFunctionCallItems index with
  | none =>
    let itemId := "fc_" ++ uuid s.1.drawn
    let callId := id.getD ("call_" ++ uuid (s.1.drawn + 1))
    let name := name.getD ""
    let outputIndex := s.1.orderedItems.length
    let t := { s.1 with
      orderedItems := s.1.orderedItems ++ [.functionCall index]
      currentFunctionCallItems :=
        Function.update s.1.currentFunctionCallItems index (some ⟨itemId, callId, name, "", outputIndex⟩)
      drawn := s.1.drawn + (if id.isSome then 1 else 2) }
    push (t, s.2) (.outputItemAdded outputIndex (.functionCall ⟨itemId, callId, name, "", "in_progress", []⟩))
  | some state =>
    match name with
    | some name =>
      let items := Function.update s.1.currentFunctionCallItems index (some { state with name })
      ({ s.1 with currentFunctionCallItems := items }, s.2)
    | none => s

def pushArguments (s : Feed) (index : Nat) (fragment : String) : Feed :=
  match s.1.currentFunctionCallItems index with
  | some state =>
    let state' := { state with arguments := state.arguments ++ fragment }
    let items := Function.update s.1.currentFunctionCallItems index (some state')
    push ({ s.1 with currentFunctionCallItems := items }, s.2)
      (.functionCallArgumentsDelta state.itemId state.outputIndex fragment)
  | none => s

def nonempty (text : Option String) : Option String := text.filter (· ≠ "")

def handleToolCall (s : Feed) (toolCall : Json) : Feed :=
  let index := (((toolCall.get "index").bind (·.asU64)).getD 0).toNat
  let id := (toolCall.get "id").bind (·.asStr)
  let name := ((toolCall.get "function").bind (·.get "name")).bind (·.asStr)
  let arguments := ((toolCall.get "function").bind (·.get "arguments")).bind (·.asStr)
  let s := s.ensureFunctionCall uuid index id name
  match nonempty arguments with
  | some fragment => s.pushArguments index fragment
  | none => s

def feedContentPart (s : Feed) (part : Json) : Feed :=
  match (part.get "type").bind (·.asStr) with
  | some "refusal" =>
    match nonempty ((part.get "refusal").bind (·.asStr)) with
    | some text => s.handleRefusal uuid text
    | none => s
  | _ =>
    match nonempty ((part.get "text").bind (·.asStr)) with
    | some text => s.handleText uuid text
    | none => s

def feedContent (s : Feed) : Option Json → Feed
  | some (.string text) => if text = "" then s else s.handleText uuid text
  | some (.array parts) => parts.foldl (feedContentPart uuid) s
  | _ => s

def feedReasoning (s : Feed) (delta : Json) : Feed :=
  match nonempty (((delta.get "reasoning_content").or (delta.get "reasoning")).bind (·.asStr)) with
  | some reasoning => s.handleReasoning uuid reasoning
  | none => s

def feedRefusal (s : Feed) (delta : Json) : Feed :=
  match nonempty ((delta.get "refusal").bind (·.asStr)) with
  | some refusal => s.handleRefusal uuid refusal
  | none => s

def feedToolCalls (s : Feed) (delta : Json) : Feed :=
  match (delta.get "tool_calls").bind (·.asArray) with
  | some toolCalls => toolCalls.foldl (handleToolCall uuid) s
  | none => s

def feedDelta (s : Feed) (delta : Json) : Feed :=
  let s := s.feedReasoning uuid delta
  let s := s.feedContent uuid (delta.get "content")
  let s := s.feedRefusal uuid delta
  s.feedToolCalls uuid delta

def noteFinishReason (t : ResponsesStreamTranslator) (choice : Json) : ResponsesStreamTranslator :=
  match (choice.get "finish_reason").bind (·.asStr) with
  | some reason => { t with finishReason := some reason }
  | none => t

def feedChunk (s : Feed) (chunk : Json) : Feed :=
  match ((chunk.get "choices").bind (·.asArray)).bind (·.head?) with
  | none => s
  | some choice =>
    let s := start (noteFinishReason s.1 choice, s.2)
    match choice.get "delta" with
    | some delta => s.feedDelta uuid delta
    | none => s

end Feed

end

namespace ResponsesStreamTranslator
variable (t : ResponsesStreamTranslator)

def partDone (kind : PartKind) : List EventBody :=
  match t.currentMessageItemId, t.messageOutputIndex, t.partIndex kind with
  | some itemId, some outputIndex, some contentIndex =>
    if t.buffer kind ≠ "" then
      [kind.done itemId outputIndex contentIndex (t.buffer kind),
        .contentPartDone itemId outputIndex contentIndex (kind.part (t.buffer kind))]
    else []
  | _, _, _ => []

def slotDone : ItemSlot → List EventBody
  | .reasoning =>
    match t.reasoningItemId, t.reasoningOutputIndex with
    | some itemId, some outputIndex => [.outputItemDone outputIndex (.reasoning (t.buildReasoningItem itemId))]
    | _, _ => []
  | .message =>
    match t.currentMessageItemId, t.messageOutputIndex with
    | some itemId, some outputIndex => [.outputItemDone outputIndex (.message (t.buildMessageItem itemId))]
    | _, _ => []
  | .functionCall toolIndex =>
    match t.currentFunctionCallItems toolIndex with
    | some state =>
      [.functionCallArgumentsDone state.itemId state.outputIndex state.arguments,
        .outputItemDone state.outputIndex (.functionCall (buildFunctionCall state))]
    | none => []

def terminal (usage : Option ResponsesUsage) : EventBody :=
  let (status, incompleteDetails) := t.terminalStatus
  let response := t.finalResponse status incompleteDetails usage
  if response.status = "incomplete" then .incomplete response else .completed response

end ResponsesStreamTranslator

/-- What is pushed at the end does not change what it is read from. -/
def Feed.finish (s : Feed) (usage : Option ResponsesUsage) : Feed :=
  let s := s.start
  let bodies := s.1.partDone .text ++ s.1.partDone .refusal ++ s.1.orderedItems.flatMap s.1.slotDone ++
    [s.1.terminal usage]
  bodies.foldl Feed.push s

def streamEvents (uuid : Nat → String) (createdTs : Int) (model : String) (instructions : Option String)
    (chunks : List Json) (usage : Option ResponsesUsage) : List ResponsesSseEvent :=
  ((chunks.foldl (Feed.feedChunk uuid) (.new uuid createdTs model instructions, [])).finish usage).2

end ObeyGateway.Responses
