import ObeyGateway.Guardrail.Pii

/-!
# Messages and their text slots (`models/openai.rs`, `guardrail/mod.rs`)

The JSON values a message carries, and where the guardrails read and write in them: the text fields of
a content (`TextSlot`), the results of tools and the tool calls (`SlotAddress`). `serde_json`, which
prints and parses values, is a parameter.
-/

namespace ObeyGateway.Guardrail

/-- `serde_json::Value`; the fields of an object by ascending key. -/
inductive Value
  | null
  | bool (b : Bool)
  | number (repr : Str)
  | string (s : Str)
  | array (items : List Value)
  | object (fields : List (Str × Value))

abbrev Map := List (Str × Value)

/-- `Value::to_string` and `serde_json::from_str` -/
structure Serde where
  toString : Value → Str
  fromStr : Str → Option Value

namespace Map

def get (fields : Map) (key : Str) : Option Value := (fields.find? (·.1 = key)).map (·.2)

def insert (fields : Map) (key : Str) (v : Value) : Map :=
  fields.filter (·.1 < key) ++ (key, v) :: fields.filter (key < ·.1)

end Map

namespace Value

def get : Value → Str → Option Value
  | .object fields, key => Map.get fields key
  | _, _ => none

def asStr : Value → Option Str
  | .string s => some s
  | _ => none

/-- The text of a `{"type": "text", "text": ...}` part. -/
def textOfPart (part : Value) : Option Str :=
  if (part.get (str "type")).bind asStr = some (str "text") then (part.get (str "text")).bind asStr
  else none

def insertField (key : Str) (v : Value) : Value → Value
  | .object fields => .object (Map.insert fields key v)
  | other => other

end Value

structure Message where
  role : Str
  content : Value
  extra : Map

structure OpenAIRequest where
  messages : List Message

structure Choice where
  message : Message

structure OpenAIResponse where
  choices : List Choice

def isAssistant (message : Message) : Bool := message.role = str "assistant"

def Message.contentAsText (serde : Serde) (message : Message) : Str :=
  match message.content with
  | .string s => s
  | .array parts => (parts.filterMap Value.textOfPart).flatten
  | .null => []
  | other => serde.toString other

inductive TextSlot
  | whole
  | part (i : Nat)
deriving DecidableEq

def collectTextSlots : Value → List (TextSlot × Str)
  | .string s => [(.whole, s)]
  | .array parts =>
    parts.zipIdx.filterMap fun p => (Value.textOfPart p.1).map fun text => (.part p.2, text)
  | _ => []

def setTextSlot (content : Value) (slot : TextSlot) (newText : Str) : Value :=
  match slot, content with
  | .whole, _ => .string newText
  | .part i, .array parts => .array (parts.modify i (Value.insertField (str "text") (.string newText)))
  | .part _, other => other

inductive ToolCallField
  | name
  | arguments
deriving DecidableEq

inductive SlotAddress
  | messageContent (index : Nat) (part : Option Nat)
  | messageContentJson (index : Nat)
  | toolCall (msgIndex : Nat) (choiceIndex : Option Nat) (callIndex : Nat) (field : ToolCallField)
deriving DecidableEq

def toolResultSlots (serde : Serde) (scanJson : Bool) (index : Nat) (message : Message) :
    List (SlotAddress × Str) :=
  if message.role ≠ str "tool" then []
  else
    match message.content with
    | .string s => [(.messageContent index none, s)]
    | .array parts => parts.zipIdx.filterMap fun p =>
        (Value.textOfPart p.1).map fun text => (.messageContent index (some p.2), text)
    | .null => []
    | other => if scanJson then [(.messageContentJson index, serde.toString other)] else []

def collectToolResultSlots (serde : Serde) (messages : List Message) (scanJson : Bool) :
    List (SlotAddress × Str) :=
  messages.zipIdx.flatMap fun p => toolResultSlots serde scanJson p.2 p.1

def argumentsScanText (serde : Serde) (raw : Str) : Str :=
  match serde.fromStr raw with
  | some parsed => serde.toString parsed
  | none => raw

/-- The slots of one entry of `tool_calls`. -/
def callSlots (serde : Serde) (msgIndex : Nat) (choiceIndex : Option Nat) (callIndex : Nat)
    (call : Value) : List (SlotAddress × Str) :=
  match call.get (str "function") with
  | none => []
  | some function =>
    let slot (field : ToolCallField) (text : Str) :=
      (SlotAddress.toolCall msgIndex choiceIndex callIndex field, text)
    (((function.get (str "name")).bind Value.asStr).map (slot .name)).toList ++
      (((function.get (str "arguments")).bind Value.asStr).map fun args =>
        slot .arguments (argumentsScanText serde args)).toList

def toolCallSlotsFromValue (serde : Serde) (toolCalls : Value) (msgIndex : Nat)
    (choiceIndex : Option Nat) : List (SlotAddress × Str) :=
  match toolCalls with
  | .array calls => calls.zipIdx.flatMap fun p => callSlots serde msgIndex choiceIndex p.2 p.1
  | _ => []

def messageToolCallSlots (serde : Serde) (message : Message) (msgIndex : Nat)
    (choiceIndex : Option Nat) : List (SlotAddress × Str) :=
  if isAssistant message then
    match Map.get message.extra (str "tool_calls") with
    | some toolCalls => toolCallSlotsFromValue serde toolCalls msgIndex choiceIndex
    | none => []
  else []

def collectToolCallSlotsRequest (serde : Serde) (messages : List Message) :
    List (SlotAddress × Str) :=
  messages.zipIdx.flatMap fun p => messageToolCallSlots serde p.1 p.2 none

def collectToolCallSlotsResponse (serde : Serde) (response : OpenAIResponse) :
    List (SlotAddress × Str) :=
  response.choices.zipIdx.flatMap fun p => messageToolCallSlots serde p.1.message p.2 (some p.2)

def Map.modify (fields : Map) (key : Str) (f : Value → Value) : Map :=
  fields.map fun p => if p.1 = key then (p.1, f p.2) else p

def setToolCallField (messageExtra : Map) (callIndex : Nat) (field : ToolCallField)
    (newText : Str) : Map :=
  let key := match field with
    | .name => str "name"
    | .arguments => str "arguments"
  let setCall : Value → Value
    | .object fields => .object (Map.modify fields (str "function")
        (Value.insertField key (.string newText)))
    | other => other
  Map.modify messageExtra (str "tool_calls") fun toolCalls =>
    match toolCalls with
    | .array calls => .array (calls.modify callIndex setCall)
    | other => other

def setRequestSlot (request : OpenAIRequest) (addr : SlotAddress) (newText : Str) : OpenAIRequest :=
  match addr with
  | .messageContent index part =>
    let slot := match part with
      | none => TextSlot.whole
      | some i => .part i
    ⟨request.messages.modify index fun m => { m with content := setTextSlot m.content slot newText }⟩
  | .messageContentJson index =>
    ⟨request.messages.modify index fun m => { m with content := .string newText }⟩
  | .toolCall msgIndex none callIndex field =>
    ⟨request.messages.modify msgIndex fun m =>
      { m with extra := setToolCallField m.extra callIndex field newText }⟩
  | .toolCall _ (some _) _ _ => request

def setResponseSlot (response : OpenAIResponse) (addr : SlotAddress) (newText : Str) :
    OpenAIResponse :=
  match addr with
  | .toolCall msgIndex (some _) callIndex field =>
    ⟨response.choices.modify msgIndex fun c =>
      ⟨{ c.message with extra := setToolCallField c.message.extra callIndex field newText }⟩⟩
  | _ => response

end ObeyGateway.Guardrail
