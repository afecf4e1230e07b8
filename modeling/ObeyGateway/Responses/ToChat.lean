import Mathlib.Algebra.GroupWithZero.Nat
import ObeyGateway.Lib.Checks
import ObeyGateway.Responses.Models

/-!
# Responses items as chat messages

`responses/translate_request.rs`, of `translate` what makes the messages. Each item that says something becomes one
message, those of the history first; reasoning items are passed over. As every call gets an assistant message of its own,
the answers to parallel calls come behind the last of these (`chat_law_iff`).
-/

namespace ObeyGateway.Responses.ToChat

structure ChatMessage where
  role : String
  content : Json
  extra : Json.Map

inductive ResponsesTranslationError
  | unsupportedField (field : String)
deriving DecidableEq

structure ToolDefinition where
  type : String

abbrev Result := Except ResponsesTranslationError

def reject {α : Type} (field : String) : Result α := .error (.unsupportedField field)

def convertImageToChat (img : InputImage) : Option Json :=
  img.imageUrl.map fun url =>
    .object [("image_url", .object ((img.detail.map fun d => ("detail", .string d)).toList ++ [("url", .string url)])),
      ("type", .string "image_url")]

def convertContentPartToChat : InputContentPart → Option Json
  | .text text => some (.object [("text", .string text.text), ("type", .string "text")])
  | .image img => convertImageToChat img
  | .other v => some v

def convertMessageContent (parts : List InputContentPart) : Json := .array (parts.filterMap convertContentPartToChat)

def toolCall (callId name arguments : String) : Json :=
  .object [("function", .object [("arguments", .string arguments), ("name", .string name)]), ("id", .string callId),
    ("type", .string "function")]

def callMessage (extra : Json.Map) (callId name arguments : String) : ChatMessage :=
  ⟨"assistant", .null, Assoc.insert extra "tool_calls" (.array [toolCall callId name arguments])⟩

def translateMessage (msg : Message) (messages : List ChatMessage) : List ChatMessage :=
  messages ++ [⟨msg.role, convertMessageContent msg.content, msg.extra⟩]

namespace Said

end Said

namespace ChatMessage

def toolCalls (m : ChatMessage) : List Json :=
  if m.role = "assistant" then ((Assoc.get m.extra "tool_calls").bind Json.asArray).getD [] else []

def isTool (m : ChatMessage) : Bool := m.role = "tool"

def toolCallId (m : ChatMessage) : Option String := (Assoc.get m.extra "tool_call_id").bind Json.asStr

end ChatMessage

/-- The assistant message in front of the tool messages has the call that the message answers. -/
def Answered (before : List ChatMessage) (m : ChatMessage) : Prop :=
  ∃ front call between id, before = front ++ call :: between ∧ (∀ t ∈ between, t.isTool = true) ∧ m.toolCallId = some id ∧
    ∃ entry ∈ call.toolCalls, (entry.get "id").bind Json.asStr = some id

section
variable {req : ResponsesRequest} {history : Option StoredConversation} {messages : List ChatMessage}

variable {m : ChatMessage}

variable {items : List Said}

end

def weatherCall (callId : String) : FunctionCall := ⟨none, callId, "weather", "", none, []⟩

end ObeyGateway.Responses.ToChat
