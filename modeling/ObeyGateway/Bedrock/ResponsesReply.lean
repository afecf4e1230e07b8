import ObeyGateway.Lib.JsonPrint
import ObeyGateway.Lib.StrSlice

/-!
# Replies of the Mantle Responses endpoint

What `chat_completion_responses_api` of `providers/bedrock.rs` makes of a 2xx reply; `none` is a panic. The reply is
lost in three places: at the snippet for the log, which is cut at a byte, in the exit for compaction-only replies, which
leaves the reasoning out, and in the token counts, which wrap (`reply_law_iff`).
-/

namespace ObeyGateway.Bedrock
open Json

structure ResponsesOutput where
  text : String := ""
  toolCalls : List Json := []
  reasoning : String := ""
  incompleteMaxTokens : Bool := false

def strAt (v : Json) (key : String) : Option String := (v.get key).bind asStr

def itemsAt (v : Json) (key : String) : List Json := ((v.get key).bind asArray).getD []

def partTexts (v : Json) (key : String) : String := String.join ((itemsAt v key).filterMap (strAt · "text"))

section
variable (numbers : NumberText)

def argumentsOf (item : Json) : String :=
  match item.get "arguments" with
  | some (.string s) => s
  | some .null | none => "\x7b\x7d"
  | some other => String.ofList (print numbers other)

/-- A `function_call` without a name is no call. -/
def toolCall (item : Json) : Option Json :=
  let name := (strAt item "name").getD ""
  if name = "" then none
  else some (.object [("function", .object [("arguments", .string (argumentsOf numbers item)), ("name", .string name)]),
    ("id", .string ((strAt item "call_id").getD "")), ("type", .string "function")])

def pushItem (out : ResponsesOutput) (item : Json) : ResponsesOutput :=
  match strAt item "type" with
  | some "message" => { out with text := out.text ++ partTexts item "content" }
  | some "function_call" => { out with toolCalls := out.toolCalls ++ (toolCall numbers item).toList }
  | some "reasoning" => { out with reasoning := out.reasoning ++ partTexts item "summary" ++ partTexts item "content" }
  | _ => out

def incompleteMaxTokens (value : Json) : Bool :=
  strAt value "status" = some "incomplete" && (value.get "incomplete_details").bind (strAt · "reason") = some "max_output_tokens"

def responsesOutputToChat (value : Json) : ResponsesOutput :=
  { (itemsAt value "output").foldl (pushItem numbers) {} with incompleteMaxTokens := incompleteMaxTokens value }

/-- What is set of an `OpenAIResponse`. -/
structure ChatReply where
  model : String
  content : String
  messageExtra : Json.Map
  finishReason : String
  promptTokens : UInt32
  completionTokens : UInt32
  totalTokens : UInt32
  extra : Json.Map

def saturatingAdd (a b : UInt32) : UInt32 := if a.toNat + b.toNat < 2 ^ 32 then a + b else 0xffffffff

def openaiResponseFromText (model content : String) (promptTokens completionTokens : UInt32) (finishReason : String) : ChatReply :=
  ⟨model, content, [], finishReason, promptTokens, completionTokens, saturatingAdd promptTokens completionTokens, []⟩

/-- `value.to_string()`, cut for the log -/
def snippet (value : Json) : Option (List Char) :=
  let s := print numbers value
  if 800 < StrSlice.size s then StrSlice.sliceTo s 800 else some s

def compactionSummaries (value : Json) : List Json := (itemsAt value "output").filter fun item => (item.get "encrypted_content").isSome

def reportedTokens (value : Json) (key : String) : UInt64 := (((value.get "usage").bind (·.get key)).bind asU64).getD 0

/-- `str::trim` leaves nothing. -/
def isBlank (s : String) : Bool := (Text.trim s.toList).isEmpty

def finishReasonOf (toolCalls : List Json) (incomplete : Bool) : String :=
  if toolCalls ≠ [] then "tool_calls" else if incomplete then "length" else "stop"

def listField (key : String) (items : List Json) : Json.Map := if items = [] then [] else [(key, .array items)]

def compactionReply (response : ChatReply) (summaries : List Json) : ChatReply :=
  { response with messageExtra := [("compaction", .array summaries)], extra := [("compaction_output", .array summaries)] }

def attach (response : ChatReply) (toolCalls : List Json) (reasoning : String) (summaries : List Json) : ChatReply :=
  { response with
    messageExtra := listField "compaction" summaries ++
      (if reasoning = "" then [] else [("reasoning_content", .string reasoning)]) ++ listField "tool_calls" toolCalls
    extra := listField "compaction_output" summaries }

/-- The reply part of `chat_completion_responses_api` -/
def mantleReply (model : String) (value : Json) : Option ChatReply :=
  let parsed := responsesOutputToChat numbers value
  let content := if parsed.text = "" then (strAt value "output_text").getD "" else parsed.text
  let summaries := compactionSummaries value
  let promptTokens := (reportedTokens value "input_tokens").toUInt32
  let completionTokens := (reportedTokens value "output_tokens").toUInt32
  if isBlank content ∧ parsed.toolCalls = [] ∧ summaries ≠ [] then
    some (compactionReply (openaiResponseFromText model "" promptTokens completionTokens "stop") summaries)
  else if isBlank content ∧ parsed.toolCalls = [] ∧ snippet numbers value = none then none
  else
    let finishReason := finishReasonOf parsed.toolCalls parsed.incompleteMaxTokens
    some (attach (openaiResponseFromText model content promptTokens completionTokens finishReason) parsed.toolCalls
      parsed.reasoning summaries)

/-! ### What the reply says -/

def itemsOf (value : Json) (type : String) : List Json := (itemsAt value "output").filter (strAt · "type" = some type)

def answerText (value : Json) : String :=
  let text := String.join ((itemsOf value "message").map (partTexts · "content"))
  if text = "" then (strAt value "output_text").getD "" else text

def calls (value : Json) : List Json := (itemsOf value "function_call").filterMap (toolCall numbers)

def reasoningText (value : Json) : String :=
  String.join ((itemsOf value "reasoning").map fun item => partTexts item "summary" ++ partTexts item "content")

def capped (n : UInt64) : Nat := min n.toNat (2 ^ 32 - 1)

structure ReplyLaw (value : Json) (reply : ChatReply) : Prop where
  content : reply.content = answerText value
  toolCalls : Assoc.get reply.messageExtra "tool_calls" = if calls numbers value = [] then none else some (.array (calls numbers value))
  reasoning : reasoningText value ≠ "" → Assoc.get reply.messageExtra "reasoning_content" = some (.string (reasoningText value))
  compaction : Assoc.get reply.messageExtra "compaction" =
    if compactionSummaries value = [] then none else some (.array (compactionSummaries value))
  finishReason : reply.finishReason = finishReasonOf (calls numbers value) (incompleteMaxTokens value)
  promptTokens : reply.promptTokens.toNat = capped (reportedTokens value "input_tokens")
  completionTokens : reply.completionTokens.toNat = capped (reportedTokens value "output_tokens")

/-- A count that the cast to 32 bits leaves what the cap makes of it. -/
def CountFits (n : UInt64) : Prop := n.toNat < 2 ^ 32 ∨ n.toNat % 2 ^ 32 = 2 ^ 32 - 1

def NothingLost (value : Json) : Prop :=
  if compactionSummaries value = [] then
    StrSlice.size (print numbers value) ≤ 800 ∨ StrSlice.IsBoundary (print numbers value) 800
  else answerText value = "" ∧ reasoningText value = "" ∧ incompleteMaxTokens value = false

end

section
variable {numbers : NumberText} {value : Json}

theorem foldl_pushItem (items : List Json) (out : ResponsesOutput) : items.foldl (pushItem numbers) out =
    { out with
      text := out.text ++ String.join ((items.filter (strAt · "type" = some "message")).map (partTexts · "content"))
      toolCalls := out.toolCalls ++ (items.filter (strAt · "type" = some "function_call")).filterMap (toolCall numbers)
      reasoning := out.reasoning ++ String.join ((items.filter (strAt · "type" = some "reasoning")).map fun item =>
        partTexts item "summary" ++ partTexts item "content") } := by
  induction items generalizing out with
  | nil => simp
  | cons item items ih =>
    rw [List.foldl_cons, ih]
    unfold pushItem
    split
    · next h => simp [h, String.append_assoc]
    · next h =>
      cases hcall : toolCall numbers item <;> simp [h, hcall]
    · next h => simp [h, String.append_assoc]
    · next hmessage hcall hreasoning =>
      have hne {type : String} (h : strAt item "type" = some type → False) :
          (item :: items).filter (strAt · "type" = some type) = items.filter (strAt · "type" = some type) :=
        List.filter_cons_of_neg fun heq => h (of_decide_eq_true heq)
      rw [hne hmessage, hne hcall, hne hreasoning]

theorem toNat_cast (n : UInt64) : n.toUInt32.toNat = capped n ↔ CountFits n := by
  simp only [capped, CountFits, UInt64.toNat_toUInt32]
  omega

theorem snippet_eq_none : snippet numbers value = none ↔
    ¬ (StrSlice.size (print numbers value) ≤ 800 ∨ StrSlice.IsBoundary (print numbers value) 800) := by
  unfold snippet
  rw [← StrSlice.isSome_sliceTo]
  by_cases h : 800 < StrSlice.size (print numbers value)
  · simp [h, not_le.2 h]
  · simp [h, not_lt.1 h]

theorem responsesOutputToChat_eq : responsesOutputToChat numbers value =
    ⟨String.join ((itemsOf value "message").map (partTexts · "content")), calls numbers value, reasoningText value,
      incompleteMaxTokens value⟩ := by
  rw [responsesOutputToChat, foldl_pushItem]
  simp [itemsOf, calls, reasoningText]

def fullReply (numbers : NumberText) (model : String) (value : Json) : ChatReply :=
  attach (openaiResponseFromText model (answerText value) (reportedTokens value "input_tokens").toUInt32
      (reportedTokens value "output_tokens").toUInt32 (finishReasonOf (calls numbers value) (incompleteMaxTokens value)))
    (calls numbers value) (reasoningText value) (compactionSummaries value)

theorem mantleReply_eq (model : String) : mantleReply numbers model value =
    if isBlank (answerText value) ∧ calls numbers value = [] ∧ compactionSummaries value ≠ [] then
      some (compactionReply (openaiResponseFromText model "" (reportedTokens value "input_tokens").toUInt32
        (reportedTokens value "output_tokens").toUInt32 "stop") (compactionSummaries value))
    else if isBlank (answerText value) ∧ calls numbers value = [] ∧ snippet numbers value = none then none
    else some (fullReply numbers model value) := by
  unfold mantleReply
  rw [responsesOutputToChat_eq]
  rfl

theorem get_listField (key k : String) (items : List Json) : Assoc.get (listField key items) k =
    if k = key ∧ items ≠ [] then some (.array items) else none := by
  unfold listField
  by_cases hitems : items = []
  · simp [hitems, Assoc.get]
  · by_cases hk : key = k
    · simp [hitems, hk, Assoc.get]
    · simp [hitems, hk, Ne.symm hk, Assoc.get]

theorem fullReply_law (model : String) : ReplyLaw numbers value (fullReply numbers model value) ↔
    CountFits (reportedTokens value "input_tokens") ∧ CountFits (reportedTokens value "output_tokens") := by
  rw [← toNat_cast, ← toNat_cast]
  refine ⟨fun h => ⟨h.promptTokens, h.completionTokens⟩, fun ⟨hprompt, hcompletion⟩ => ?_⟩
  constructor
  case content | finishReason => rfl
  case promptTokens => exact hprompt
  case completionTokens => exact hcompletion
  all_goals
    simp only [fullReply, attach, Assoc.get_append, get_listField]
    by_cases hreasoning : reasoningText value = "" <;> simp [hreasoning, Assoc.get]

end

theorem reply_law_iff (numbers : NumberText) (model : String) (value : Json) :
    (∃ reply, mantleReply numbers model value = some reply ∧ ReplyLaw numbers value reply) ↔
      CountFits (reportedTokens value "input_tokens") ∧ CountFits (reportedTokens value "output_tokens") ∧
        (isBlank (answerText value) = true → calls numbers value = [] → NothingLost numbers value) := by
  rw [mantleReply_eq]
  by_cases hempty : isBlank (answerText value) = true ∧ calls numbers value = []
  · obtain ⟨hblank, hcalls⟩ := hempty
    by_cases hsummaries : compactionSummaries value = []
    · rw [if_neg fun h => h.2.2 hsummaries, NothingLost, if_pos hsummaries]
      by_cases hsnippet : snippet numbers value = none
      · rw [if_pos ⟨hblank, hcalls, hsnippet⟩]
        simp [hblank, hcalls, snippet_eq_none.1 hsnippet]
      · rw [if_neg fun h => hsnippet h.2.2]
        have hfits := not_not.1 (mt snippet_eq_none.2 hsnippet)
        simp only [Option.some.injEq, exists_eq_left', fullReply_law]
        exact ⟨fun h => ⟨h.1, h.2, fun _ _ => hfits⟩, fun h => ⟨h.1, h.2.1⟩⟩
    · rw [if_pos ⟨hblank, hcalls, hsummaries⟩, NothingLost, if_neg hsummaries, ← toNat_cast, ← toNat_cast]
      constructor
      · rintro ⟨_, hreply, h⟩
        obtain rfl := Option.some.inj hreply
        refine ⟨h.promptTokens, h.completionTokens, fun _ _ => ⟨h.content.symm, ?_, ?_⟩⟩
        · by_contra hreasoning
          exact absurd (h.reasoning hreasoning) (by simp [compactionReply, Assoc.get])
        · have hstop : "stop" = finishReasonOf [] (incompleteMaxTokens value) := hcalls ▸ h.finishReason
          cases hincomplete : incompleteMaxTokens value with
          | false => rfl
          | true => exact absurd (hincomplete ▸ hstop) (by decide)
      · rintro ⟨hprompt, hcompletion, hlost⟩
        obtain ⟨hanswer, hreasoning, hincomplete⟩ := hlost hblank hcalls
        refine ⟨_, rfl, ?_⟩
        exact ⟨hanswer.symm, by simp [compactionReply, hcalls, Assoc.get], absurd hreasoning,
          by simp [compactionReply, hsummaries, Assoc.get], by rw [hcalls, hincomplete]; rfl, hprompt, hcompletion⟩
  · rw [if_neg fun h => hempty ⟨h.1, h.2.1⟩, if_neg fun h => hempty ⟨h.1, h.2.1⟩]
    simp only [Option.some.injEq, exists_eq_left', fullReply_law]
    exact ⟨fun h => ⟨h.1, h.2, fun hblank hcalls => absurd ⟨hblank, hcalls⟩ hempty⟩, fun h => ⟨h.1, h.2.1⟩⟩

theorem snippet_panics : mantleReply wireNumbers "model" (.object [("status", .string (String.ofList (List.replicate 400 'é')))]) = none := by
  have hescape : escapeChar 'é' = ['é'] := by decide
  have hprint (n : Nat) : print wireNumbers (.object [("status", .string (String.ofList (List.replicate n 'é')))]) =
      openBrace :: (printString "status" ++ ':' :: quote :: (List.replicate n 'é' ++ [quote, closeBrace])) := by
    have hflat : (List.replicate n 'é').flatMap escapeChar = List.replicate n 'é' := by
      induction n with
      | zero => rfl
      | succ n ih => rw [List.replicate_succ, List.flatMap_cons, ih, hescape, List.singleton_append]
    simp [print, printAlg, printField, commaJoin, printString, hflat]
  have hsnippet : snippet wireNumbers (.object [("status", .string (String.ofList (List.replicate 400 'é')))]) = none := by
    rw [snippet, hprint]
    decide +kernel
  rw [mantleReply_eq, if_neg fun h => h.2.2 rfl]
  exact if_pos ⟨by decide, rfl, hsnippet⟩

end ObeyGateway.Bedrock
