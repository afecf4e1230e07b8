import ObeyGateway.Lib.Frames
import ObeyGateway.Lib.Json
import ObeyGateway.Lib.Text
import ObeyGateway.Lib.Utf8

/-!
# The events of the Codex stream

`codex/sse.rs`. The parser decodes each chunk, takes the records out of its buffer that an empty line closes,
puts the `data:` lines of a record together and dispatches on the `type` of the JSON. What `serde_json` does
with a text or a payload is a parameter, `Serde`.
-/

namespace ObeyGateway.Codex

inductive CodexError
  | sse (message : String)
deriving DecidableEq

structure Usage where
  inputTokens : Option UInt64
  outputTokens : Option UInt64
  totalTokens : Option UInt64
deriving DecidableEq

structure IncompleteDetails where
  reason : Option String
deriving DecidableEq

structure OutputItemContent where
  kind : String
  text : Option String
deriving DecidableEq

structure OutputItem where
  kind : String
  id : Option String
  callId : Option String
  name : Option String
  arguments : Option String
  content : Option (List OutputItemContent)
deriving DecidableEq

structure CompletedPayload where
  id : String
  model : String
  output : List OutputItem
  usage : Option Usage
  incompleteDetails : Option IncompleteDetails
deriving DecidableEq

structure ErrorPayload where
  message : Option String
  code : Option String
  kind : Option String
deriving DecidableEq

inductive ResponsesEvent
  | created (id model : String) (sequenceNumber : UInt64)
  | outputTextDelta (itemId delta : String) (sequenceNumber : UInt64)
  | outputTextDone (itemId text : String) (sequenceNumber : UInt64)
  | outputItemAdded (itemId kind : String) (callId name : Option String) (sequenceNumber : UInt64)
  | functionCallArgumentsDelta (itemId delta : String) (sequenceNumber : UInt64)
  | completed (response : CompletedPayload) (sequenceNumber : UInt64)
  | failed (error : ErrorPayload) (sequenceNumber : UInt64)
  | error (error : ErrorPayload) (sequenceNumber : UInt64)
  | other (kind : String) (sequenceNumber : UInt64)
deriving DecidableEq

abbrev Entry := Except CodexError ResponsesEvent

/-- `serde_json::from_str` of a payload, and `from_value` at the two types that are decoded. -/
structure Serde where
  parse : List Char → Except String Json
  completedPayload : Json → Except String CompletedPayload
  errorPayload : Json → Except String ErrorPayload

def orSse (v : Option α) (message : String) : Except CodexError α :=
  match v with
  | some a => .ok a
  | none => .error (.sse message)

def strField (v : Json) (field ctx : String) : Except CodexError String :=
  orSse ((v.get field).bind (·.asStr)) (ctx ++ " missing `" ++ field ++ "`")

namespace Serde
variable (serde : Serde)

def decodeErrorPayload (v : Json) (ctx : String) : Except CodexError ErrorPayload :=
  match v.get "error" with
  | none | some .null => .ok ⟨none, none, none⟩
  | some errV => (serde.errorPayload errV).mapError fun e => .sse (ctx ++ " error envelope decode failed: " ++ e)

def dispatchToEvent (v : Json) : Entry := do
  let eventType ← orSse ((v.get "type").bind (·.asStr)) "SSE event missing `type` field"
  let sequenceNumber := ((v.get "sequence_number").bind (·.asU64)).getD 0
  match eventType with
  | "response.created" =>
    let resp ← orSse (v.get "response") "response.created missing `response` object"
    let id ← orSse ((resp.get "id").bind (·.asStr)) "response.created missing `response.id`"
    let model ← orSse ((resp.get "model").bind (·.asStr)) "response.created missing `response.model`"
    return .created id model sequenceNumber
  | "response.output_text.delta" =>
    let itemId ← strField v "item_id" "output_text.delta"
    let delta ← strField v "delta" "output_text.delta"
    return .outputTextDelta itemId delta sequenceNumber
  | "response.output_text.done" =>
    let itemId ← strField v "item_id" "output_text.done"
    let text ← strField v "text" "output_text.done"
    return .outputTextDone itemId text sequenceNumber
  | "response.output_item.added" =>
    let item ← orSse (v.get "item") "output_item.added missing `item` object"
    let kind ← orSse ((item.get "type").bind (·.asStr)) "output_item.added missing `item.type`"
    let itemId := ((item.get "id").bind (·.asStr)).getD ""
    return .outputItemAdded itemId kind ((item.get "call_id").bind (·.asStr)) ((item.get "name").bind (·.asStr))
      sequenceNumber
  | "response.function_call_arguments.delta" =>
    let itemId ← strField v "item_id" "function_call_arguments.delta"
    let delta ← strField v "delta" "function_call_arguments.delta"
    return .functionCallArgumentsDelta itemId delta sequenceNumber
  | "response.completed" =>
    let respV ← orSse (v.get "response") "response.completed missing `response` object"
    let response ← (serde.completedPayload respV).mapError fun e =>
      .sse ("response.completed payload decode failed: " ++ e)
    return .completed response sequenceNumber
  | "response.failed" => return .failed (← serde.decodeErrorPayload v "response.failed") sequenceNumber
  | "error" => return .error (← serde.decodeErrorPayload v "error") sequenceNumber
  | eventType => return .other eventType sequenceNumber

end Serde

def boundary : List Char := ['\n', '\n']

def stripCr (line : List Char) : List Char := if line.getLast? = some '\r' then line.dropLast else line

def dataPrefix : List Char := "data:".toList

/-- What a `data:` line carries; the space after the colon is not a part of it. -/
def dataField (line : List Char) : Option (List Char) :=
  if dataPrefix <+: line then
    let rest := line.drop dataPrefix.length
    some (if rest.head? = some ' ' then rest.tail else rest)
  else none

/-- The lines are folded with a line feed, from the first one on that carries something. -/
def pushData (payload rest : List Char) : List Char :=
  (if payload.isEmpty then payload else payload ++ ['\n']) ++ rest

def foldData (lines : List (List Char)) : List Char := (lines.filterMap dataField).foldl pushData []

def recordPayload (body : List Char) : List Char := foldData ((body.splitOn '\n').map stripCr)

namespace Serde
variable (serde : Serde)

def entry (payload : List Char) : Option Entry :=
  if payload.isEmpty then none
  else if Text.trim payload = "[DONE]".toList then none
  else
    match serde.parse payload with
    | .ok v => some (serde.dispatchToEvent v)
    | .error e => some (.error (.sse ("JSON decode failed at SSE record boundary: " ++ e)))

end Serde

structure SseLineParser where
  buf : List Char

namespace SseLineParser

def new : SseLineParser := ⟨[]⟩

def feed (serde : Serde) (parser : SseLineParser) (chunk : List UInt8) : SseLineParser × List Entry :=
  let (frames, rest) := Frames.drain boundary (parser.buf ++ Utf8.lossy chunk)
  (⟨rest⟩, frames.filterMap fun body => serde.entry (recordPayload body))

def feedAll (serde : Serde) (parser : SseLineParser) : List (List UInt8) → List Entry
  | [] => []
  | chunk :: chunks => (parser.feed serde chunk).2 ++ (parser.feed serde chunk).1.feedAll serde chunks

end SseLineParser

end ObeyGateway.Codex
