import ObeyGateway.Lib.Json

/-!
# The Responses API

`responses/models.rs`: the items that go in, the items that come out, and what a response is stored with.
-/

namespace ObeyGateway.Responses

structure ReasoningSummaryPart where
  type : Option String
  text : Option String
  extra : Json.Map
deriving DecidableEq

inductive OutputContentPart
  | outputText (text : String) (annotations : Option (List Json))
  | refusal (refusal : String)
deriving DecidableEq

structure OutputMessage where
  id : String
  role : String
  status : String
  content : List OutputContentPart
  extra : Json.Map
deriving DecidableEq

structure OutputFunctionCall where
  id : String
  callId : String
  name : String
  arguments : String
  status : String
  extra : Json.Map
deriving DecidableEq

structure OutputReasoning where
  id : String
  summary : List ReasoningSummaryPart
  extra : Json.Map
deriving DecidableEq

inductive OutputItem
  | message (item : OutputMessage)
  | functionCall (item : OutputFunctionCall)
  | reasoning (item : OutputReasoning)
deriving DecidableEq

structure InputText where
  type : String
  text : String
deriving DecidableEq

structure InputImage where
  type : String
  imageUrl : Option String
  detail : Option String
  fileId : Option String
deriving DecidableEq

inductive InputContentPart
  | text (part : InputText)
  | image (part : InputImage)
  | other (value : Json)
deriving DecidableEq

inductive EasyInputContent
  | text (text : String)
  | parts (parts : List InputContentPart)
deriving DecidableEq

structure EasyInputMessage where
  content : EasyInputContent
  role : String
  phase : Option String
  extra : Json.Map
deriving DecidableEq

structure Message where
  content : List InputContentPart
  role : String
  status : Option String
  extra : Json.Map
deriving DecidableEq

structure FunctionCall where
  id : Option String
  callId : String
  name : String
  arguments : String
  status : Option String
  extra : Json.Map
deriving DecidableEq

inductive FunctionCallOutputContent
  | text (text : String)
  | parts (parts : List OutputContentPart)
deriving DecidableEq

structure FunctionCallOutput where
  callId : String
  output : FunctionCallOutputContent
  id : Option String
  status : Option String
  extra : Json.Map
deriving DecidableEq

structure ReasoningItem where
  id : Option String
  summary : List ReasoningSummaryPart
  extra : Json.Map
deriving DecidableEq

structure ItemReference where
  id : String
  extra : Json.Map
deriving DecidableEq

inductive TypedInputItem
  | message (item : Message)
  | functionCall (item : FunctionCall)
  | functionCallOutput (item : FunctionCallOutput)
  | reasoning (item : ReasoningItem)
  | itemReference (item : ItemReference)
deriving DecidableEq

inductive InputItem
  | easy (item : EasyInputMessage)
  | typed (item : TypedInputItem)
deriving DecidableEq

structure InputTokensDetails where
  cachedTokens : Nat
  extra : Json.Map
deriving DecidableEq

structure OutputTokensDetails where
  reasoningTokens : Nat
  extra : Json.Map
deriving DecidableEq

structure ResponsesUsage where
  inputTokens : Nat
  outputTokens : Nat
  totalTokens : Nat
  inputTokensDetails : Option InputTokensDetails
  outputTokensDetails : Option OutputTokensDetails
  extra : Json.Map
deriving DecidableEq

structure ResponseError where
  code : Option String
  message : Option String
  param : Option String
  extra : Json.Map
deriving DecidableEq

end ObeyGateway.Responses
