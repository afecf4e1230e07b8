import ObeyGateway.Anthropic.Models
import ObeyGateway.Lib.JsonPrint
import ObeyGateway.Models.OpenAI

/-!
# Translating requests

`anthropic/translate_request.rs`. A turn becomes the tool messages of its results and one message with the
rest of it. The fields of the request are translated into a map, and then the unknown fields go into the
same map, over what is there already; three of the names are not fields of an Anthropic request
(`translate_keeps_iff`).
-/

namespace ObeyGateway.Anthropic

open Models (Message OpenAIRequest)
open Json (NumberText)

/-! ### Messages -/

/-- The URL of an image; of an inline one, a `data:` URL. -/
def ImageSource.link : ImageSource → String
  | .base64 mediaType data => "data:" ++ mediaType ++ ";base64," ++ data
  | .url link => link

def textPart (text : String) : Json := .object [("text", .string text), ("type", .string "text")]

def imagePart (source : ImageSource) : Json :=
  .object [("image_url", .object [("url", .string source.link)]), ("type", .string "image_url")]

def thinkingPart (thinking signature : String) : Json :=
  .object [("signature", .string signature), ("thinking", .string thinking), ("type", .string "thinking")]

def redactedThinkingPart (data : String) : Json :=
  .object [("data", .string data), ("type", .string "redacted_thinking")]

def toolCallEntry (numbers : NumberText) (id name : String) (input : Json) : Json :=
  .object
    [("function", .object [("arguments", .string (String.ofList (Json.print numbers input))), ("name", .string name)]),
      ("id", .string id), ("type", .string "function")]

def TextOrImageBlock.part : TextOrImageBlock → Json
  | .text fragment => textPart fragment
  | .image source => imagePart source

def resultContent : ToolResultContent → Json
  | .text text => .string text
  | .blocks blocks => .array (blocks.map (·.part))

theorem nodupKeys_part (block : TextOrImageBlock) : block.part.nodupKeys = true := by
  cases block with
  | text _ => simp [TextOrImageBlock.part, textPart, Assoc.keys, Json.nodupKeys]
  | image _ => simp [TextOrImageBlock.part, imagePart, Assoc.keys, Json.nodupKeys]

def toolMessage (toolUseId : String) (content : ToolResultContent) : Message where
  role := "tool"
  content := resultContent content
  extra := [("tool_call_id", .string toolUseId)]
  content_nodup := by
    cases content with
    | text _ => rfl
    | blocks blocks => simpa [resultContent] using fun block _ => nodupKeys_part block
  extra_nodup := by simp [Assoc.keys, Json.nodupKeys]
  extra_role := by simp [Assoc.keys]
  extra_content := by simp [Assoc.keys]

namespace ContentBlock

def contentPart : ContentBlock → Option Json
  | .text fragment => some (textPart fragment)
  | .image source => some (imagePart source)
  | .thinking thought signature => some (thinkingPart thought signature)
  | .redactedThinking data => some (redactedThinkingPart data)
  | _ => none

def toolCall (numbers : NumberText) : ContentBlock → Option Json
  | .toolUse id name input => some (toolCallEntry numbers id name input)
  | _ => none

def resultMessage : ContentBlock → Option Message
  | .toolResult toolUseId content => some (toolMessage toolUseId content)
  | _ => none

end ContentBlock

theorem ContentBlock.nodupKeys_contentPart {block : ContentBlock} {part : Json}
    (h : block.contentPart = some part) : part.nodupKeys = true := by
  cases block with
  | text _ | image _ | thinking _ _ | redactedThinking _ =>
    cases h
    simp [textPart, imagePart, thinkingPart, redactedThinkingPart, Assoc.keys, Json.nodupKeys]
  | _ => cases h

theorem ContentBlock.nodupKeys_toolCall {numbers : NumberText} {block : ContentBlock} {entry : Json}
    (h : block.toolCall numbers = some entry) : entry.nodupKeys = true := by
  cases block with
  | toolUse _ _ _ =>
    cases h
    simp [toolCallEntry, Assoc.keys, Json.nodupKeys]
  | _ => cases h

section
variable (numbers : NumberText)

def turnMessage (role : String) (blocks : List ContentBlock) : Option Message :=
  let parts := blocks.filterMap (·.contentPart)
  let toolCalls := blocks.filterMap (·.toolCall numbers)
  if parts.isEmpty && toolCalls.isEmpty then none
  else some
    { role := role
      content := if parts.isEmpty then .null else .array parts
      extra := if toolCalls.isEmpty then [] else [("tool_calls", .array toolCalls)]
      content_nodup := by
        split
        · rfl
        · refine Json.nodupKeys_array.2 fun part hpart => ?_
          obtain ⟨block, -, hblock⟩ := List.mem_filterMap.1 hpart
          exact ContentBlock.nodupKeys_contentPart hblock
      extra_nodup := by
        split
        · rfl
        · refine Json.nodupKeys_object.2 ⟨List.nodup_singleton _, fun field hfield => ?_⟩
          obtain rfl := List.mem_singleton.1 hfield
          refine Json.nodupKeys_array.2 fun entry hentry => ?_
          obtain ⟨block, -, hblock⟩ := List.mem_filterMap.1 hentry
          exact ContentBlock.nodupKeys_toolCall hblock
      extra_role := by split <;> simp [Assoc.keys]
      extra_content := by split <;> simp [Assoc.keys] }

def plainMessage (role text : String) : Message :=
  ⟨role, .string text, [], rfl, Json.nodupKeys_object_nil, List.not_mem_nil, List.not_mem_nil⟩

def translateMessage (message : AnthropicMessage) : List Message :=
  match message.content with
  | .text text => [plainMessage message.role text]
  | .blocks blocks => blocks.filterMap (·.resultMessage) ++ (turnMessage numbers message.role blocks).toList

def systemText : SystemPrompt → String
  | .text text => text
  | .blocks texts => "\n".intercalate texts

def systemMessage (req : AnthropicRequest) : Option Message :=
  match req.system with
  | none => none
  | some system => if systemText system = "" then none else some (plainMessage "system" (systemText system))

/-! ### Fields -/

def translateTool (tool : AnthropicToolDefinition) : Json :=
  .object
    [("function", .object
        [("description", .string (tool.description.getD "")), ("name", .string (tool.name.getD "")),
          ("parameters", tool.inputSchema.getD (.object [("type", .string "object")]))]),
      ("type", .string "function")]

def translateTools (tools : List AnthropicToolDefinition) : Json := .array (tools.map translateTool)

namespace AnthropicToolChoice

def value : AnthropicToolChoice → Json
  | auto _ => .string "auto"
  | any _ => .string "required"
  | none => .string "none"
  | tool name _ => .object [("function", .object [("name", .string name)]), ("type", .string "function")]

def disableParallel : AnthropicToolChoice → Option Bool
  | auto disable | any disable | tool _ disable => disable
  | none => Option.none

end AnthropicToolChoice

def translateToolChoice (choice : AnthropicToolChoice) (extra : Json.Map) : Json.Map :=
  let extra := Assoc.insert extra "tool_choice" choice.value
  if choice.disableParallel = some true then Assoc.insert extra "parallel_tool_calls" (.bool false) else extra

def thinkingParam : ThinkingConfig → Option Json
  | .adaptive => some (.object [("type", .string "adaptive")])
  | .enabled budgetTokens =>
    some (.object [("budget_tokens", .number (.posInt budgetTokens.toUInt64)), ("type", .string "enabled")])
  | .disabled => none

/-- `json!` of an `f32` -/
def floatValue (x : F32) : Json := ((Number.fromF64 x.toF64).map .number).getD .null

def insertSome (extra : Json.Map) (key : String) : Option Json → Json.Map
  | some value => Assoc.insert extra key value
  | none => extra

def typedFields (req : AnthropicRequest) : Json.Map :=
  let extra := if req.stopSequences.isEmpty then [] else
    Assoc.insert [] "stop" (.array (req.stopSequences.map .string))
  let extra := if req.tools.isEmpty then extra else Assoc.insert extra "tools" (translateTools req.tools)
  let extra := match req.toolChoice with
    | some choice => translateToolChoice choice extra
    | none => extra
  let extra := insertSome extra "thinking" (req.thinking.bind thinkingParam)
  let extra := insertSome extra "user" (req.userId.map .string)
  insertSome extra "top_p" (req.topP.map fun t => floatValue t.1)

def allFields (req : AnthropicRequest) : Json.Map :=
  req.extra.foldl (fun extra field => Assoc.insert extra field.1 field.2) (typedFields req)

theorem nodupKeys_translateTools (tools : List AnthropicToolDefinition) : (translateTools tools).nodupKeys = true := by
  refine Json.nodupKeys_array.2 fun v hv => ?_
  obtain ⟨tool, -, rfl⟩ := List.mem_map.1 hv
  have hschema : (tool.inputSchema.getD (.object [("type", .string "object")])).nodupKeys = true := by
    cases h : tool.inputSchema with
    | none => rfl
    | some schema => exact tool.schema_nodup schema h
  simp only [translateTool, Json.nodupKeys_object, Assoc.keys, List.forall_mem_cons, hschema]
  simp [Json.nodupKeys]

theorem nodupKeys_insertSome {extra : Json.Map} {key : String} {value : Option Json}
    (h : (Json.object extra).nodupKeys = true) (hvalue : ∀ v ∈ value, v.nodupKeys = true) :
    (Json.object (insertSome extra key value)).nodupKeys = true := by
  cases value with
  | none => exact h
  | some v => exact Json.nodupKeys_insert h (hvalue v rfl)

theorem nodupKeys_typedFields (req : AnthropicRequest) : (Json.object (typedFields req)).nodupKeys = true := by
  have hstop : (Json.object (if req.stopSequences.isEmpty then [] else
      Assoc.insert [] "stop" (.array (req.stopSequences.map .string)))).nodupKeys = true := by
    split
    · rfl
    · refine Json.nodupKeys_insert rfl (Json.nodupKeys_array.2 fun v hv => ?_)
      obtain ⟨text, -, rfl⟩ := List.mem_map.1 hv
      rfl
  have htools {extra : Json.Map} (h : (Json.object extra).nodupKeys = true) : (Json.object
      (if req.tools.isEmpty then extra else Assoc.insert extra "tools" (translateTools req.tools))).nodupKeys =
        true := by
    split
    · exact h
    · exact Json.nodupKeys_insert h (nodupKeys_translateTools _)
  have hchoice {extra : Json.Map} (h : (Json.object extra).nodupKeys = true) (choice : AnthropicToolChoice) :
      (Json.object (translateToolChoice choice extra)).nodupKeys = true := by
    have hvalue : choice.value.nodupKeys = true := by
      cases choice <;> simp [AnthropicToolChoice.value, Assoc.keys, Json.nodupKeys]
    rw [translateToolChoice]
    split
    · exact Json.nodupKeys_insert (Json.nodupKeys_insert h hvalue) rfl
    · exact Json.nodupKeys_insert h hvalue
  have hmatch {extra : Json.Map} (h : (Json.object extra).nodupKeys = true) : (Json.object
      (match req.toolChoice with
        | some choice => translateToolChoice choice extra
        | none => extra)).nodupKeys = true := by
    split
    · exact hchoice h _
    · exact h
  refine nodupKeys_insertSome (nodupKeys_insertSome (nodupKeys_insertSome (hmatch (htools hstop)) ?_) ?_) ?_
  · intro v hv
    obtain ⟨config, -, hconfig⟩ := Option.bind_eq_some_iff.1 hv
    cases config with
    | adaptive | enabled _ =>
      cases hconfig
      simp [Assoc.keys, Json.nodupKeys]
    | disabled => cases hconfig
  · intro v hv
    obtain ⟨id, -, rfl⟩ := Option.map_eq_some_iff.1 hv
    rfl
  · intro v hv
    obtain ⟨t, -, rfl⟩ := Option.map_eq_some_iff.1 hv
    rw [floatValue]
    cases Number.fromF64 t.1.toF64 <;> rfl

def rejectUnsupported (req : AnthropicRequest) : Except String Unit :=
  if (Assoc.get req.extra "context_management").isSome then .error "context_management is not supported"
  else
    match req.tools.find? (·.toolKind ≠ .custom) with
    | some tool => .error ("tool type '" ++ tool.toolKind.name ++ "' is not supported")
    | none =>
      if req.messages.any fun message =>
          match message.content with
          | .blocks blocks => blocks.contains .document
          | .text _ => false then
        .error "content block type 'document' is not supported"
      else .ok ()

def translate (req : AnthropicRequest) : Except String OpenAIRequest := do
  rejectUnsupported req
  return {
    model := req.model
    messages := (systemMessage req).toList ++ req.messages.flatMap (translateMessage numbers)
    stream := req.stream
    temperature := req.temperature
    maxTokens := some req.maxTokens
    extra := allFields req
    extra_nodup := Json.nodupKeys_foldl_insert (nodupKeys_typedFields req)
      (Json.nodupKeys_object.1 req.extra_nodup).2 }

theorem translate_eq_ok {req : AnthropicRequest} {out : OpenAIRequest} (h : translate numbers req = .ok out) :
    out.messages = (systemMessage req).toList ++ req.messages.flatMap (translateMessage numbers) ∧
      out.extra = allFields req := by
  unfold translate at h
  cases hreject : rejectUnsupported req with
  | error e =>
    rw [hreject] at h
    cases h
  | ok _ =>
    rw [hreject] at h
    cases h
    exact ⟨rfl, rfl⟩

end

inductive Part
  | text (text : String)
  | image (url : String)
  | thinking (thinking signature : String)
  | redactedThinking (data : String)
deriving DecidableEq

def readPart (v : Json) : Option Part :=
  match (v.get "type").bind (·.asStr) with
  | some "text" => do return .text (← (v.get "text").bind (·.asStr))
  | some "image_url" => do return .image (← (v.pointer ["image_url", "url"]).bind (·.asStr))
  | some "thinking" => do
    return .thinking (← (v.get "thinking").bind (·.asStr)) (← (v.get "signature").bind (·.asStr))
  | some "redacted_thinking" => do return .redactedThinking (← (v.get "data").bind (·.asStr))
  | _ => none

def readParts : Json → Option (List Part)
  | .null => some []
  | .string text => some [.text text]
  | .array parts => parts.mapM readPart
  | _ => none

structure Call where
  id : String
  name : String
  input : Json

def readCall (parse : String → Option Json) (v : Json) : Option Call := do
  let id ← (v.get "id").bind (·.asStr)
  let name ← (v.pointer ["function", "name"]).bind (·.asStr)
  let arguments ← (v.pointer ["function", "arguments"]).bind (·.asStr)
  return ⟨id, name, ← parse arguments⟩

def readCalls (parse : String → Option Json) (m : Message) : Option (List Call) :=
  match Assoc.get m.extra "tool_calls" with
  | none => some []
  | some calls => calls.asArray.bind (·.mapM (readCall parse))

def answeredCall (m : Message) : Option String := (Assoc.get m.extra "tool_call_id").bind (·.asStr)


/-! ### What a turn says -/

def AnthropicMessage.contentBlocks (message : AnthropicMessage) : List ContentBlock :=
  match message.content with
  | .text text => [.text text]
  | .blocks blocks => blocks

def TextOrImageBlock.readAs : TextOrImageBlock → Part
  | .text fragment => .text fragment
  | .image source => .image source.link

def ToolResultContent.readAs : ToolResultContent → List Part
  | .text fragment => [.text fragment]
  | .blocks contents => contents.map (·.readAs)

namespace ContentBlock

def part? : ContentBlock → Option Part
  | .text fragment => some (.text fragment)
  | .image source => some (.image source.link)
  | .thinking thought signature => some (.thinking thought signature)
  | .redactedThinking data => some (.redactedThinking data)
  | _ => none

def call? : ContentBlock → Option Call
  | .toolUse id name input => some ⟨id, name, input⟩
  | _ => none

def result? : ContentBlock → Option (String × List Part)
  | .toolResult toolUseId content => some (toolUseId, content.readAs)
  | _ => none

end ContentBlock

/-- The results are tool messages, one for each; parts and calls are those of one message of the role; all in order. -/
structure TurnLaw (parse : String → Option Json) (message : AnthropicMessage) (turn : List Message) : Prop where
  results : (turn.filter fun m => (answeredCall m).isSome).map
      (fun m => (m.role, answeredCall m, readParts m.content)) =
    (message.contentBlocks.filterMap (·.result?)).map fun (id, parts) => ("tool", some id, some parts)
  parts : ((turn.filter fun m => (answeredCall m).isNone).mapM fun m => readParts m.content).map (·.flatten) =
    some (message.contentBlocks.filterMap (·.part?))
  calls : ((turn.filter fun m => (answeredCall m).isNone).mapM (readCalls parse)).map (·.flatten) =
    some (message.contentBlocks.filterMap (·.call?))
  single : (turn.filter fun m => (answeredCall m).isNone).length ≤ 1
  role : ∀ m ∈ turn, (answeredCall m).isNone = true → m.role = message.role

theorem readPart_contentPart (block : ContentBlock) : block.contentPart.map readPart = block.part?.map some := by
  cases block with
  | text _ | image _ | thinking _ _ | redactedThinking _ =>
    simp [ContentBlock.contentPart, ContentBlock.part?, textPart, imagePart, thinkingPart, redactedThinkingPart, readPart,
      Json.get, Json.pointer, Json.asStr, Assoc.get]
  | _ => rfl

theorem mapM_filterMap {α β γ : Type} {f : α → Option β} {g : α → Option γ} {read : β → Option γ} {as : List α}
    (h : ∀ a ∈ as, (f a).map read = (g a).map some) : (as.filterMap f).mapM read = some (as.filterMap g) := by
  induction as with
  | nil => rfl
  | cons a as ih =>
    have hrest := ih fun a' ha' => h a' (List.mem_cons_of_mem _ ha')
    have ha := h a List.mem_cons_self
    rcases hf : f a with _ | b
    · rw [hf] at ha
      have hg : g a = none := Option.map_eq_none_iff.1 ha.symm
      rw [List.filterMap_cons_none hf, List.filterMap_cons_none hg, hrest]
    rw [hf] at ha
    obtain ⟨c, hg, hread⟩ := Option.map_eq_some_iff.1 ha.symm
    rw [List.filterMap_cons_some hf, List.filterMap_cons_some hg, List.mapM_cons, ← hread, hrest]
    rfl

theorem readParts_resultContent (content : ToolResultContent) :
    readParts (resultContent content) = some content.readAs := by
  cases content with
  | text _ => rfl
  | blocks contents =>
    have hread (block : TextOrImageBlock) : readPart block.part = some block.readAs := by
      cases block with
      | text _ | image _ =>
        simp [TextOrImageBlock.part, TextOrImageBlock.readAs, textPart, imagePart, readPart, Json.get,
          Json.pointer, Json.asStr, Assoc.get]
    show (contents.map (·.part)).mapM readPart = _
    rw [← List.filterMap_eq_map, ToolResultContent.readAs, ← List.filterMap_eq_map]
    exact mapM_filterMap fun block _ => congrArg some (hread block)

section
variable {numbers : NumberText} {parse : String → Option Json}

def ArgumentsRead (numbers : NumberText) (parse : String → Option Json) (message : AnthropicMessage) : Prop :=
  ∀ id name input, .toolUse id name input ∈ message.contentBlocks →
    parse (String.ofList (Json.print numbers input)) = some input

theorem readCall_toolCall (block : ContentBlock) (h : ∀ id name input, block = .toolUse id name input →
      parse (String.ofList (Json.print numbers input)) = some input) :
    (block.toolCall numbers).map (readCall parse) = block.call?.map some := by
  cases block with
  | toolUse id name input =>
    simp [ContentBlock.toolCall, ContentBlock.call?, toolCallEntry, readCall, Json.get, Json.pointer, Json.asStr,
      Assoc.get, h id name input rfl]
  | _ => rfl

theorem turnMessage_read (role : String) (blocks : List ContentBlock)
    (h : ∀ id name input, .toolUse id name input ∈ blocks →
      parse (String.ofList (Json.print numbers input)) = some input) :
    (turnMessage numbers role blocks = none ∧ blocks.filterMap (·.part?) = [] ∧
      blocks.filterMap (·.call?) = []) ∨
    ∃ m, turnMessage numbers role blocks = some m ∧ m.role = role ∧ answeredCall m = none ∧
      readParts m.content = some (blocks.filterMap (·.part?)) ∧
      readCalls parse m = some (blocks.filterMap (·.call?)) := by
  have hparts : (blocks.filterMap (·.contentPart)).mapM readPart = some (blocks.filterMap (·.part?)) :=
    mapM_filterMap fun block _ => readPart_contentPart block
  have hcalls : (blocks.filterMap (·.toolCall numbers)).mapM (readCall parse) =
      some (blocks.filterMap (·.call?)) :=
    mapM_filterMap fun block hblock => readCall_toolCall block fun id name input heq =>
      h id name input (heq ▸ hblock)
  by_cases hempty : (blocks.filterMap (·.contentPart)).isEmpty && (blocks.filterMap (·.toolCall numbers)).isEmpty
  · obtain ⟨hnoparts, hnocalls⟩ := Bool.and_eq_true_iff.1 hempty
    rw [List.isEmpty_iff] at hnoparts hnocalls
    rw [hnoparts] at hparts
    rw [hnocalls] at hcalls
    exact .inl ⟨if_pos hempty, (Option.some.inj hparts).symm, (Option.some.inj hcalls).symm⟩
  · refine .inr ⟨_, if_neg hempty, rfl, ?_, ?_, ?_⟩
    · rw [answeredCall]
      dsimp only
      split <;> rfl
    · dsimp only
      split
      · rename_i hnone
        rw [List.isEmpty_iff.1 hnone] at hparts
        exact hparts
      · exact hparts
    · rw [readCalls]
      dsimp only
      split
      · rename_i hnone
        split at hnone
        · rename_i hnocalls
          rw [List.isEmpty_iff.1 hnocalls] at hcalls
          exact hcalls
        · cases hnone
      · rename_i calls hsome
        split at hsome
        · cases hsome
        · cases hsome
          exact hcalls

theorem turnLaw_of_append {message : AnthropicMessage} {results rest : List Message}
    (hresults : ∀ m ∈ results, (answeredCall m).isSome = true) (hrest : ∀ m ∈ rest, answeredCall m = none)
    (hread : results.map (fun m => (m.role, answeredCall m, readParts m.content)) =
      (message.contentBlocks.filterMap (·.result?)).map fun (id, parts) => ("tool", some id, some parts))
    (hparts : (rest.mapM fun m => readParts m.content).map (·.flatten) =
      some (message.contentBlocks.filterMap (·.part?)))
    (hcalls : (rest.mapM (readCalls parse)).map (·.flatten) = some (message.contentBlocks.filterMap (·.call?)))
    (hsingle : rest.length ≤ 1) (hrole : ∀ m ∈ rest, m.role = message.role) :
    TurnLaw parse message (results ++ rest) := by
  have hsome : (results ++ rest).filter (fun m => (answeredCall m).isSome) = results := by
    rw [List.filter_append, List.filter_eq_self.2 hresults,
      List.filter_eq_nil_iff.2 fun m hm => by rw [hrest m hm]; exact Bool.false_ne_true, List.append_nil]
  have hnone : (results ++ rest).filter (fun m => (answeredCall m).isNone) = rest := by
    have hno (m : Message) (hm : m ∈ results) : ¬(answeredCall m).isNone = true := by
      rw [← Option.not_isSome, hresults m hm]
      exact Bool.false_ne_true
    rw [List.filter_append, List.filter_eq_nil_iff.2 hno, List.nil_append]
    exact List.filter_eq_self.2 fun m hm => by rw [hrest m hm]; rfl
  refine ⟨by rw [hsome, hread], by rw [hnone, hparts], by rw [hnone, hcalls], by rwa [hnone], ?_⟩
  intro m hm hisNone
  rcases List.mem_append.1 hm with hm | hm
  · rw [← Option.not_isSome, hresults m hm] at hisNone
    cases hisNone
  · exact hrole m hm

theorem answeredCall_results {blocks : List ContentBlock} {m : Message}
    (hm : m ∈ blocks.filterMap (·.resultMessage)) : (answeredCall m).isSome = true := by
  obtain ⟨block, -, hblock⟩ := List.mem_filterMap.1 hm
  cases block with
  | toolResult id content =>
    cases hblock
    rfl
  | _ => cases hblock

theorem read_results (blocks : List ContentBlock) :
    (blocks.filterMap (·.resultMessage)).map (fun m => (m.role, answeredCall m, readParts m.content)) =
      (blocks.filterMap (·.result?)).map fun (id, parts) => ("tool", some id, some parts) := by
  rw [List.map_filterMap, List.map_filterMap]
  refine List.filterMap_congr fun block _ => ?_
  cases block with
  | toolResult id content =>
    show some ("tool", some id, readParts (resultContent content)) = _
    rw [readParts_resultContent]
    rfl
  | _ => rfl

theorem turnLaw_translateMessage (message : AnthropicMessage) (h : ArgumentsRead numbers parse message) :
    TurnLaw parse message (translateMessage numbers message) := by
  cases hcontent : message.content with
  | text text =>
    have hblocks : message.contentBlocks = [.text text] := by rw [AnthropicMessage.contentBlocks, hcontent]
    have hturn : translateMessage numbers message = [] ++ [plainMessage message.role text] := by
      rw [translateMessage, hcontent]
      rfl
    rw [hturn]
    refine turnLaw_of_append (fun _ hm => absurd hm List.not_mem_nil) ?_ ?_ ?_ ?_ (Nat.le_refl _) ?_
    · intro m hm
      rw [List.mem_singleton.1 hm]
      rfl
    · rw [hblocks]
      rfl
    · rw [hblocks]
      rfl
    · rw [hblocks]
      rfl
    · intro m hm
      rw [List.mem_singleton.1 hm]
      rfl
  | blocks blocks =>
    have hblocks : message.contentBlocks = blocks := by rw [AnthropicMessage.contentBlocks, hcontent]
    have hturn : translateMessage numbers message =
        blocks.filterMap (·.resultMessage) ++ (turnMessage numbers message.role blocks).toList := by
      rw [translateMessage, hcontent]
    rw [ArgumentsRead, hblocks] at h
    have hresult : ∀ m ∈ blocks.filterMap (·.resultMessage), (answeredCall m).isSome = true :=
      fun _ => answeredCall_results
    have hread := read_results blocks
    rw [hturn]
    rcases turnMessage_read message.role blocks h with
      ⟨hturnNone, hparts, hcalls⟩ | ⟨m, hturnSome, hrole, hnot, hparts, hcalls⟩
    · rw [hturnNone]
      refine turnLaw_of_append hresult (fun _ hm => absurd hm List.not_mem_nil) ?_ ?_ ?_ (Nat.zero_le _)
        fun _ hm => absurd hm List.not_mem_nil
      · rw [hblocks, hread]
      · rw [hblocks, hparts]
        rfl
      · rw [hblocks, hcalls]
        rfl
    · rw [hturnSome]
      refine turnLaw_of_append hresult ?_ ?_ ?_ ?_ (Nat.le_refl _) ?_
      · intro m' hm'
        rw [List.mem_singleton.1 hm', hnot]
      · rw [hblocks, hread]
      · rw [hblocks, Option.toList_some, List.mapM_cons, hparts]
        exact congrArg some (List.append_nil _)
      · rw [hblocks, Option.toList_some, List.mapM_cons, hcalls]
        exact congrArg some (List.append_nil _)
      · intro m' hm'
        rw [List.mem_singleton.1 hm', hrole]

end

/-! ### What becomes of the fields -/

def translatedKeys : List String :=
  ["stop", "tools", "tool_choice", "parallel_tool_calls", "thinking", "user", "top_p"]

def translated (req : AnthropicRequest) (key : String) : Option Json :=
  if key = "stop" then
    if req.stopSequences = [] then none else some (.array (req.stopSequences.map .string))
  else if key = "tools" then if req.tools.isEmpty then none else some (translateTools req.tools)
  else if key = "tool_choice" then req.toolChoice.map (·.value)
  else if key = "parallel_tool_calls" then
    if req.toolChoice.bind (·.disableParallel) = some true then some (.bool false) else none
  else if key = "thinking" then req.thinking.bind thinkingParam
  else if key = "user" then req.userId.map .string
  else if key = "top_p" then req.topP.map fun t => floatValue t.1
  else none

theorem typedFields_eq (req : AnthropicRequest) : typedFields req =
    translatedKeys.foldl (fun extra key => insertSome extra key (translated req key)) [] := by
  have hstop : (if req.stopSequences.isEmpty then [] else
      Assoc.insert [] "stop" (.array (req.stopSequences.map .string))) =
        insertSome [] "stop" (translated req "stop") := by
    by_cases hempty : req.stopSequences = [] <;> simp [translated, hempty, insertSome]
  have htools (extra : Json.Map) : (if req.tools.isEmpty then extra else
      Assoc.insert extra "tools" (translateTools req.tools)) =
        insertSome extra "tools" (translated req "tools") := by
    cases hempty : req.tools.isEmpty <;> simp [translated, hempty, insertSome]
  have hchoice (extra : Json.Map) : (match req.toolChoice with
      | some choice => translateToolChoice choice extra
      | none => extra) =
        insertSome (insertSome extra "tool_choice" (translated req "tool_choice")) "parallel_tool_calls"
          (translated req "parallel_tool_calls") := by
    rcases hchoice : req.toolChoice with _ | choice
    · simp [translated, hchoice, insertSome]
    by_cases hdisable : choice.disableParallel = some true <;>
      simp [translated, hchoice, hdisable, insertSome, translateToolChoice]
  simp only [typedFields, hstop, htools, hchoice]
  rfl

theorem get_foldl_insertSome (values : String → Option Json) {keys : List String} (extra : Json.Map) (k : String) :
    Assoc.get (keys.foldl (fun extra key => insertSome extra key (values key)) extra) k =
      if k ∈ keys then (values k).or (Assoc.get extra k) else Assoc.get extra k := by
  induction keys generalizing extra with
  | nil => rfl
  | cons key keys ih =>
    have hget : Assoc.get (insertSome extra key (values key)) k =
        if k = key then (values k).or (Assoc.get extra k) else Assoc.get extra k := by
      by_cases hk : k = key
      · rw [if_pos hk, hk]
        cases values key <;> simp [insertSome, Assoc.get_insert]
      · rw [if_neg hk]
        cases values key <;> simp [insertSome, Assoc.get_insert, hk]
    rw [List.foldl_cons, ih, hget]
    by_cases hk : k = key
    · cases hvalue : values k <;> simp [hk]
    · simp [hk]

theorem get_typedFields (req : AnthropicRequest) {k : String} (hk : k ∈ translatedKeys) :
    Assoc.get (typedFields req) k = translated req k := by
  rw [typedFields_eq, get_foldl_insertSome (translated req), if_pos hk]
  simp

/-- The messages say what the turns say, in their order, and the translated fields are as translated. -/
structure TranslationLaw (parse : String → Option Json) (req : AnthropicRequest) (out : OpenAIRequest) : Prop where
  turns : ∃ turns : List (List Message), out.messages = (systemMessage req).toList ++ turns.flatten ∧
    List.Forall₂ (TurnLaw parse) req.messages turns
  fields : ∀ key ∈ translatedKeys, Assoc.get out.extra key = translated req key

/-- An unknown field with the name of a translated one has the value that this is translated to. -/
def NoOverride (req : AnthropicRequest) : Prop :=
  ∀ key ∈ ["stop", "parallel_tool_calls", "user"], ∀ value, Assoc.get req.extra key = some value →
    translated req key = some value

theorem field_or_colliding {key : String} (h : key ∈ translatedKeys) :
    key ∈ requestFields ∨ key ∈ ["stop", "parallel_tool_calls", "user"] := by
  revert key
  decide

theorem translate_keeps_iff (numbers : NumberText) (parse : String → Option Json) {req : AnthropicRequest}
    {out : OpenAIRequest} (hout : translate numbers req = .ok out)
    (hparse : ∀ message ∈ req.messages, ArgumentsRead numbers parse message) :
    TranslationLaw parse req out ↔ NoOverride req := by
  obtain ⟨hmessages, hextra⟩ := translate_eq_ok numbers hout
  have hget {key : String} (hkey : key ∈ translatedKeys) :
      Assoc.get out.extra key = (Assoc.get req.extra key).or (translated req key) := by
    rw [hextra, allFields, Assoc.get_foldl_insert (Json.nodupKeys_object.1 req.extra_nodup).1,
      get_typedFields req hkey]
  constructor
  · intro hlaw key hkey value hvalue
    have hmem : key ∈ translatedKeys := by
      revert key
      simp [translatedKeys]
    rw [← hlaw.fields key hmem, hget hmem, hvalue]
    rfl
  · intro hno
    refine ⟨⟨req.messages.map (translateMessage numbers), ?_, ?_⟩, fun key hkey => ?_⟩
    · rw [hmessages, List.flatMap]
    · rw [List.forall₂_map_right_iff, List.forall₂_same]
      exact fun message hmem => turnLaw_translateMessage message (hparse message hmem)
    · rw [hget hkey]
      rcases hvalue : Assoc.get req.extra key with _ | value
      · rfl
      rcases field_or_colliding hkey with hfield | hcolliding
      · rw [Assoc.get_eq_none (req.extra_fields key hfield)] at hvalue
        cases hvalue
      · exact (hno key hcolliding value hvalue).symm

def callRequest (field : String) (field_unknown : field ∉ requestFields) : AnthropicRequest where
  model := "claude"
  messages :=
    [⟨"assistant", .blocks [.thinking "hm" "sig", .toolUse "call_1" "search" (.object [])]⟩,
      ⟨"user", .blocks [.toolResult "call_1" (.text "found"), .text "go on"]⟩]
  system := none
  maxTokens := 1024
  temperature := none
  topP := none
  stopSequences := ["END"]
  stream := false
  tools := []
  toolChoice := none
  thinking := none
  userId := none
  extra := [(field, .string "HALT")]
  extra_nodup := by simp [Assoc.keys, Json.nodupKeys]
  extra_fields := by
    intro known hknown hmem
    obtain rfl : known = field := List.mem_singleton.1 hmem
    exact field_unknown hknown

def parseEmptyObject (text : String) : Option Json := if text = "\x7b\x7d" then some (.object []) else none

theorem translate_keeps_callRequest : ∃ out, translate Json.wireNumbers (callRequest "container" (by decide)) = .ok out ∧
      TranslationLaw parseEmptyObject (callRequest "container" (by decide)) out := by
  refine ⟨_, rfl, (translate_keeps_iff Json.wireNumbers parseEmptyObject rfl ?_).2 ?_⟩
  · intro message hmessage id name input hinput
    have hempty : input = .object [] := by
      rcases List.mem_cons.1 hmessage with rfl | hmessage
      · exact (by simpa [AnthropicMessage.contentBlocks] using hinput :
          id = "call_1" ∧ name = "search" ∧ input = .object []).2.2
      · obtain rfl := List.mem_singleton.1 hmessage
        simp [AnthropicMessage.contentBlocks] at hinput
    rw [hempty]
    rfl
  · intro key hkey value hvalue
    have hnone : ∀ key ∈ ["stop", "parallel_tool_calls", "user"],
        Assoc.get (callRequest "container" (by decide)).extra key = none := by
      decide
    rw [hnone key hkey] at hvalue
    cases hvalue

theorem unknown_stop_overrides : ∃ out, translate Json.wireNumbers (callRequest "stop" (by decide)) = .ok out ∧
      ¬TranslationLaw parseEmptyObject (callRequest "stop" (by decide)) out := by
  refine ⟨_, rfl, fun hlaw => ?_⟩
  have hstop := hlaw.fields "stop" (by decide)
  revert hstop
  decide

end ObeyGateway.Anthropic
