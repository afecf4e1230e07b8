import ObeyGateway.Lib.JsonPrint
import ObeyGateway.Models.OpenAI

/-!
# Payloads of the compression engines

`compression/engines/mod.rs`: a request with its messages annotated by age, cache protection and tool
links. `refreshMetadata` computes the annotations anew from the roles, contents and extra fields of the
messages; what it reads is never changed by it. A result is linked to the nearest call before it with the
same id, and a call that no result is linked to is unresolved.
-/

namespace ObeyGateway.Compression

open Json (NumberText)

structure ToolRelationshipMetadata where
  toolCallIds : List String := []
  toolResultForIds : List String := []
  toolNames : List String := []
  relatedMessageIndices : List Nat := []
  unresolvedToolCallIds : List String := []
deriving DecidableEq

structure CompressibleMessage where
  role : String
  content : Json
  extra : Json.Map
  age : Nat
  tokenCount : Nat
  cacheProtected : Bool
  originalIndex : Nat
  critical : Bool
  relationships : ToolRelationshipMetadata
deriving DecidableEq

structure CompressiblePayload where
  model : String
  messages : List CompressibleMessage
  stream : Bool
  temperature : Option F32
  maxTokens : Option UInt32
  toolDefinitions : Option Json
  extra : Json.Map
deriving DecidableEq

/-- `usize::MAX` -/
def systemMessageAge : Nat := 2 ^ 64 - 1

def pushUnique {α : Type} [DecidableEq α] (values : List α) (value : α) : List α :=
  if value ∈ values then values else values ++ [value]

def isTextBlock (blockType : Option String) : Bool :=
  blockType = some "text" || blockType = some "input_text" || blockType = some "output_text"

/-- What is visited below an array or an object: its strings and its content blocks. -/
def isVisited : Json → Bool
  | .string _ => true
  | .object _ => true
  | _ => false

def isProse (blockType : Option String) (key : String) (value : Json) : Bool :=
  if isTextBlock blockType then key = "text" && value.asStr.isSome
  else blockType = some "tool_result" && key = "content"

def blockType {α : Type} (fields : List (String × Json × α)) : Option String :=
  (Assoc.get fields "type").bind (·.1.asStr)

def transformAlg (transform : String → String) : Json.ParaAlg Json where
  null := .null
  bool := .bool
  number := .number
  string text := .string (transform text)
  array parts := .array (parts.map fun p => if isVisited p.1 then p.2 else p.1)
  object fields := .object (fields.map fun f =>
    (f.1, if isProse (blockType fields) f.1 f.2.1 then f.2.2 else f.2.1))

/-- `MessageContent::transform_text_leaves` -/
def transformTextLeaves (transform : String → String) : Json → Json := Json.para (transformAlg transform)

def valueHasCacheMarker : Json → Bool :=
  Json.fold { null := false, bool := fun _ => false, number := fun _ => false, string := fun _ => false
              array := fun values => values.any id
              object := fun fields => "cache_control" ∈ Assoc.keys fields || fields.any (·.2) }

def CompressibleMessage.isSystem (message : CompressibleMessage) : Bool := message.role = "system"

def CompressibleMessage.hasCacheMarker (message : CompressibleMessage) : Bool :=
  valueHasCacheMarker message.content || message.extra.any (valueHasCacheMarker ·.2) ||
    "cache_control" ∈ Assoc.keys message.extra

section
variable (metadata : ToolRelationshipMetadata)

def ToolRelationshipMetadata.pushCall (id : Option String) : ToolRelationshipMetadata :=
  match id with
  | some id => { metadata with toolCallIds := pushUnique metadata.toolCallIds id }
  | none => metadata

def ToolRelationshipMetadata.pushResult (id : Option String) : ToolRelationshipMetadata :=
  match id with
  | some id => { metadata with toolResultForIds := pushUnique metadata.toolResultForIds id }
  | none => metadata

def ToolRelationshipMetadata.pushName (name : Option String) : ToolRelationshipMetadata :=
  match name with
  | some name => { metadata with toolNames := pushUnique metadata.toolNames name }
  | none => metadata

end

def collectBlock (fields : Json.Map) (metadata : ToolRelationshipMetadata) :
    ToolRelationshipMetadata :=
  let str key := (Assoc.get fields key).bind Json.asStr
  match str "type" with
  | some "tool_use" => (metadata.pushCall (str "id")).pushName (str "name")
  | some "tool_result" => metadata.pushResult (str "tool_use_id")
  | some "function_call" =>
    (metadata.pushCall (((Assoc.get fields "call_id").or (Assoc.get fields "id")).bind
      Json.asStr)).pushName (str "name")
  | some "function_call_output" => metadata.pushResult (str "call_id")
  | _ => metadata

def collectAlg : Json.ParaAlg (ToolRelationshipMetadata → ToolRelationshipMetadata) where
  null := id
  bool _ := id
  number _ := id
  string _ := id
  array values metadata := values.foldl (fun metadata v => v.2 metadata) metadata
  object fields metadata := fields.foldl (fun metadata f => f.2.2 metadata)
    (collectBlock (fields.map fun f => (f.1, f.2.1)) metadata)

def collectContentRelationships (value : Json) (metadata : ToolRelationshipMetadata) :
    ToolRelationshipMetadata :=
  Json.para collectAlg value metadata

def extractCall (metadata : ToolRelationshipMetadata) (call : Json) : ToolRelationshipMetadata :=
  (metadata.pushCall ((call.get "id").bind Json.asStr)).pushName
    (((call.get "function").bind fun f => (f.get "name").bind Json.asStr).or
      ((call.get "name").bind Json.asStr))

def extractToolRelationships (content : Json) (extra : Json.Map) : ToolRelationshipMetadata :=
  let calls := ((Assoc.get extra "tool_calls").bind Json.asArray).getD []
  let metadata := calls.foldl extractCall {}
  let metadata := metadata.pushResult ((Assoc.get extra "tool_call_id").bind Json.asStr)
  let metadata := metadata.pushName
    ((Assoc.get extra "function_call").bind fun f => (f.get "name").bind Json.asStr)
  collectContentRelationships content metadata

/-- Ages the messages that follow `seen` user turns out of `userTurns`. -/
def assignAges (userTurns : Nat) : Nat → List CompressibleMessage → List CompressibleMessage
  | _, [] => []
  | seen, message :: messages =>
    if message.role = "system" then
      { message with age := systemMessageAge, critical := true } :: assignAges userTurns seen messages
    else
      let seen := if message.role = "user" then seen + 1 else seen
      let age := if userTurns = 0 then 0 else userTurns - max seen 1
      { message with age, critical := message.role = "user" && age = 0 } ::
        assignAges userTurns seen messages

def assignMessageAges (messages : List CompressibleMessage) : List CompressibleMessage :=
  assignAges (messages.countP (·.role = "user")) 0 messages

/-- `Iterator::rposition` -/
def rposition {α : Type} (p : α → Bool) : List α → Option Nat
  | [] => none
  | a :: as =>
    match rposition p as with
    | some i => some (i + 1)
    | none => if p a then some 0 else none

def assignCacheProtection (messages : List CompressibleMessage) : List CompressibleMessage :=
  let boundary := rposition CompressibleMessage.hasCacheMarker messages
  messages.mapIdx fun index message =>
    { message with cacheProtected := boundary.any (index ≤ ·) }

/-- `calls_by_id` at an id: the positions of its calls, ascending -/
def callsById (messages : List CompressibleMessage) (id : String) : List Nat :=
  messages.zipIdx.flatMap fun (message, position) =>
    (message.relationships.toolCallIds.filter (· = id)).map fun _ => position

def callFor (messages : List CompressibleMessage) (resultPosition : Nat) (id : String) : Option Nat :=
  (callsById messages id).reverse.find? (· < resultPosition)

def matchedCalls (messages : List CompressibleMessage) : List (Nat × Nat × String) :=
  messages.zipIdx.flatMap fun (message, resultPosition) =>
    message.relationships.toolResultForIds.filterMap fun resultId =>
      (callFor messages resultPosition resultId).map fun call => (call, resultPosition, resultId)

def CompressibleMessage.relate (message : CompressibleMessage) (index : Nat) : CompressibleMessage :=
  { message with relationships := { message.relationships with
      relatedMessageIndices := pushUnique message.relationships.relatedMessageIndices index } }

def linkPair (messages : List CompressibleMessage) (pair : Nat × Nat × String) :
    List CompressibleMessage :=
  match messages[pair.1]?, messages[pair.2.1]? with
  | some call, some result =>
    (messages.modify pair.1 (·.relate result.originalIndex)).modify pair.2.1
      (·.relate call.originalIndex)
  | _, _ => messages

def unresolved (matched : List (Nat × Nat × String)) (position : Nat) (callIds : List String) :
    List String :=
  callIds.filter fun callId => !matched.any fun m => m.1 = position && m.2.2 = callId

def markUnresolved (matched : List (Nat × Nat × String)) (position : Nat)
    (message : CompressibleMessage) : CompressibleMessage :=
  let ids := (unresolved matched position message.relationships.toolCallIds).foldl pushUnique
    message.relationships.unresolvedToolCallIds
  { message with
    relationships := { message.relationships with unresolvedToolCallIds := ids }
    critical := message.critical || !ids.isEmpty }

def CompressibleMessage.extract (message : CompressibleMessage) : CompressibleMessage :=
  { message with relationships := extractToolRelationships message.content message.extra }

def assignToolRelationships (messages : List CompressibleMessage) : List CompressibleMessage :=
  let messages := messages.map CompressibleMessage.extract
  let matched := matchedCalls messages
  (matched.foldl linkPair messages).mapIdx (markUnresolved matched)

def CompressiblePayload.refreshMetadata (payload : CompressiblePayload) : CompressiblePayload :=
  { payload with messages :=
      assignToolRelationships (assignCacheProtection (assignMessageAges payload.messages)) }

/-- `u32::saturating_add` -/
def satAdd (a b : Nat) : Nat := min (a + b) (2 ^ 32 - 1)

theorem satAdd_le_satAdd {a b : Nat} (h : a ≤ b) (c : Nat) : satAdd a c ≤ satAdd b c := by
  unfold satAdd
  omega

theorem foldl_le_foldl {α : Type*} {f : Nat → α → Nat} (hf : ∀ {a b} x, a ≤ b → f a x ≤ f b x) (l : List α)
    {a b : Nat} (h : a ≤ b) : l.foldl f a ≤ l.foldl f b := by
  induction l generalizing a b with
  | nil => exact h
  | cons x l ih => exact ih (hf x h)

structure TokenCounter where
  numbers : NumberText
  encode : String → String → Nat

namespace TokenCounter
variable (counter : TokenCounter)

def countText (model text : String) : Nat := min (counter.encode model text) (2 ^ 32 - 1)

def countJson (model : String) (value : Json) : Nat :=
  counter.countText model (String.ofList (value.print counter.numbers))

def countContent (model : String) : Json → Nat
  | .null => 0
  | .string text => counter.countText model text
  | structured => counter.countJson model structured

def countMessage (model : String) (message : CompressibleMessage) : Nat :=
  let total := satAdd (satAdd 4 (counter.countText model message.role))
    (counter.countContent model message.content)
  if message.extra.isEmpty then total else satAdd total (counter.countJson model (.object message.extra))

/-- `count_request` of `into_openai_request` -/
def countTokens (payload : CompressiblePayload) : Nat :=
  let extra := match payload.toolDefinitions with
    | some tools => Assoc.insert payload.extra "tools" tools
    | none => payload.extra
  let field total key := match Assoc.get extra key with
    | some value => satAdd total (counter.countJson payload.model value)
    | none => total
  let total := payload.messages.foldl (fun total m => satAdd total (counter.countMessage payload.model m))
    (counter.countText payload.model payload.model)
  let total := field (field total "tools") "tool_choice"
  let total := extra.foldl (fun total f =>
    if f.1 = "tools" ∨ f.1 = "tool_choice" then total
    else satAdd (satAdd total (counter.countText payload.model f.1))
      (counter.countJson payload.model f.2)) total
  satAdd total 2

/-- `count_message_with` -/
def countRequestMessage (model : String) (message : Models.Message) : Nat :=
  let total := satAdd (satAdd 4 (counter.countText model message.role))
    (counter.countContent model message.content)
  if message.extra.isEmpty then total else satAdd total (counter.countJson model (.object message.extra))

def countRequest (request : Models.OpenAIRequest) : Nat :=
  let field total key := match Assoc.get request.extra key with
    | some value => satAdd total (counter.countJson request.model value)
    | none => total
  let total := request.messages.foldl (fun total m => satAdd total (counter.countRequestMessage request.model m))
    (counter.countText request.model request.model)
  let total := field (field total "tools") "tool_choice"
  let total := request.extra.foldl (fun total f =>
    if f.1 = "tools" ∨ f.1 = "tool_choice" then total
    else satAdd (satAdd total (counter.countText request.model f.1))
      (counter.countJson request.model f.2)) total
  satAdd total 2

theorem countRequest_pos (request : Models.OpenAIRequest) : 0 < counter.countRequest request := by
  simp only [countRequest, satAdd]
  omega

theorem countRequest_lt (request : Models.OpenAIRequest) : counter.countRequest request < 2 ^ 32 := by
  simp only [countRequest, satAdd]
  omega

end TokenCounter

end ObeyGateway.Compression
