import ObeyGateway.Lib.F32
import ObeyGateway.Lib.Json

/-!
# The Messages API

`anthropic/models.rs`. The catch-all maps of blocks, deltas and events, and of the parts of a request, are
empty or dropped wherever these are made or read, and are left out; so is the flag of a failed tool
result. A document is only ever rejected, whatever is in it. The catch-all of a request itself is passed on.
-/

namespace ObeyGateway.Anthropic

inductive ImageSource
  | base64 (mediaType data : String)
  | url (url : String)
deriving DecidableEq

inductive TextOrImageBlock
  | text (text : String)
  | image (source : ImageSource)
deriving DecidableEq

inductive ToolResultContent
  | text (text : String)
  | blocks (blocks : List TextOrImageBlock)
deriving DecidableEq

inductive ContentBlock
  | text (text : String)
  | image (source : ImageSource)
  | toolUse (id name : String) (input : Json)
  | toolResult (toolUseId : String) (content : ToolResultContent)
  | thinking (thinking signature : String)
  | redactedThinking (data : String)
  | document
deriving DecidableEq

inductive StopReason
  | endTurn
  | maxTokens
  | stopSequence
  | toolUse
  | pauseTurn
  | refusal
deriving DecidableEq

structure Usage where
  inputTokens : Nat
  outputTokens : Nat
  cacheCreationInputTokens : Option Nat
  cacheReadInputTokens : Option Nat
  extra : Json.Map
deriving DecidableEq

structure AnthropicResponse where
  kind : String
  id : String
  role : String
  content : List ContentBlock
  model : String
  stopReason : Option StopReason
  stopSequence : Option String
  usage : Usage
deriving DecidableEq

structure ErrorBody where
  kind : String
  message : String
  extra : Json.Map
deriving DecidableEq

inductive ContentBlockDelta
  | textDelta (text : String)
  | inputJsonDelta (partialJson : String)
  | thinkingDelta (thinking : String)
  | signatureDelta (signature : String)
deriving DecidableEq

structure MessageDeltaBody where
  stopReason : Option StopReason
  stopSequence : Option String
deriving DecidableEq

inductive AnthropicSseEvent
  | messageStart (message : AnthropicResponse)
  | contentBlockStart (index : Nat) (contentBlock : ContentBlock)
  | contentBlockDelta (index : Nat) (delta : ContentBlockDelta)
  | contentBlockStop (index : Nat)
  | messageDelta (delta : MessageDeltaBody) (usage : Option Usage)
  | messageStop
  | ping
  | error (error : ErrorBody)
deriving DecidableEq

inductive MessageContent
  | text (text : String)
  | blocks (blocks : List ContentBlock)

structure AnthropicMessage where
  role : String
  content : MessageContent

inductive SystemPrompt
  | text (text : String)
  | blocks (texts : List String)

inductive ThinkingConfig
  | adaptive
  | enabled (budgetTokens : UInt32)
  | disabled

structure AnthropicToolDefinition where
  kind : Option String
  name : Option String
  description : Option String
  inputSchema : Option Json
  schema_nodup : ∀ schema ∈ inputSchema, schema.nodupKeys = true

inductive AnthropicToolKind
  | custom
  | webSearch
  | computer
  | codeExecution
  | textEditor
  | bash
  | mcpConnector
  | other (name : String)
deriving DecidableEq

def AnthropicToolKind.name : AnthropicToolKind → String
  | custom => "custom"
  | webSearch => "web_search"
  | computer => "computer"
  | codeExecution => "code_execution"
  | textEditor => "text_editor"
  | bash => "bash"
  | mcpConnector => "mcp_connector"
  | other name => name

/-- The stems of hosted tools, with their kinds, in the order in which they are tried. -/
def HOSTED_TOOL_STEMS : List (String × AnthropicToolKind) :=
  [("code_execution", .codeExecution), ("mcp_connector", .mcpConnector), ("web_search", .webSearch),
    ("text_editor", .textEditor), ("computer", .computer), ("bash", .bash)]

def AnthropicToolDefinition.toolKind (tool : AnthropicToolDefinition) : AnthropicToolKind :=
  match tool.kind with
  | none => .custom
  | some kind =>
    if kind = "custom" then .custom
    else
      match HOSTED_TOOL_STEMS.find? fun (stem, _) => kind = stem || (stem ++ "_").toList.isPrefixOf kind.toList with
      | some (_, hosted) => hosted
      | none => .other kind

inductive AnthropicToolChoice
  | auto (disableParallelToolUse : Option Bool)
  | any (disableParallelToolUse : Option Bool)
  | none
  | tool (name : String) (disableParallelToolUse : Option Bool)

def requestFields : List String :=
  ["model", "messages", "system", "max_tokens", "temperature", "top_p", "stop_sequences", "stream", "tools",
    "tool_choice", "thinking", "metadata"]

/-- Deserialising puts into `extra` what is no field of its own; no JSON number is read as a NaN. -/
structure AnthropicRequest where
  model : String
  messages : List AnthropicMessage
  system : Option SystemPrompt
  maxTokens : UInt32
  temperature : Option { t : F32 // t.isNan = false }
  topP : Option { t : F32 // t.isNan = false }
  stopSequences : List String
  stream : Bool
  tools : List AnthropicToolDefinition
  toolChoice : Option AnthropicToolChoice
  thinking : Option ThinkingConfig
  userId : Option String
  extra : Json.Map
  extra_nodup : (Json.object extra).nodupKeys = true
  extra_fields : ∀ field ∈ requestFields, field ∉ Assoc.keys extra

end ObeyGateway.Anthropic
