import ObeyGateway.Models.OpenAI
import ObeyGateway.Router.XmlToolCalls

/-!
# Tool history as text (`reverse_translate_tool_history`)

A model that writes its calls as markup gets them back so: calls of the gateway (`call_xlat_n`) are appended to the text
as `<use_tool>` tags, and the results behind them become user messages. Messages are rewritten in their places
(`reverseTranslateToolHistory_forall₂`). When the results stand directly behind their calls, a tool message that is left
has its call left too (`reverseTranslateToolHistory_answered`).
-/

namespace ObeyGateway.Xml
open Text Models

def textOfPart (part : Json) : List Char :=
  if (part.get "type").bind Json.asStr = some "text" then (((part.get "text").bind Json.asStr).getD "").toList else []

/-- `Message::content_as_text` -/
def contentAsText (serde : XmlSerde) (m : Message) : List Char :=
  match m.content with
  | .string s => s.toList
  | .array parts => parts.flatMap textOfPart
  | .null => []
  | other => serde.toStr other

def toolCalls (m : Message) : List Json := ((Assoc.get m.extra "tool_calls").bind Json.asArray).getD []

def callId (tc : Json) : Option String := (tc.get "id").bind Json.asStr

def isXlat (m : Message) : Bool :=
  m.role = "assistant" && (toolCalls m).any fun tc => (callId tc).any fun id => (stripPrefix "call_xlat_" id.toList).isSome

def callFunction (tc : Json) : XmlCall where
  name := ((((tc.get "function").bind (·.get "name")).bind Json.asStr).getD "unknown").toList
  arguments :=
    ((((tc.get "function").bind (·.get "arguments")).bind Json.asStr).map String.toList).getD
      [Json.openBrace, Json.closeBrace]

def useHead : List Char := "<use_tool name=\"".toList

def useClose : List Char := "</use_tool>".toList

def useOpen (name : List Char) : List Char := useHead ++ (name ++ ['"', '>'])

def useTool (call : XmlCall) : List Char := useOpen call.name ++ (call.arguments ++ useClose)

def xmlContent (serde : XmlSerde) (m : Message) : List Char :=
  contentAsText serde m ++ ((toolCalls m).map callFunction).flatMap useTool

def toolCallId (m : Message) : Option String := (Assoc.get m.extra "tool_call_id").bind Json.asStr

def resultContent (serde : XmlSerde) (m : Message) : List Char :=
  "[Tool Result: ".toList ++ ((toolCallId m).getD "tool").toList ++ "]\n".toList ++ contentAsText serde m

def withText (m : Message) (role : String) (text : List Char) (field : String) : Message where
  role := role
  content := .string (String.ofList text)
  extra := Assoc.erase m.extra field
  content_nodup := rfl
  extra_nodup := by
    obtain ⟨hkeys, hvalues⟩ := Json.nodupKeys_object.1 m.extra_nodup
    exact Json.nodupKeys_object.2 ⟨Assoc.nodup_erase hkeys, fun f hf => hvalues f (List.mem_of_mem_filter hf)⟩
  extra_role := fun h => m.extra_role (Assoc.mem_keys_erase.1 h).2
  extra_content := fun h => m.extra_content (Assoc.mem_keys_erase.1 h).2

def toXmlMessage (serde : XmlSerde) (m : Message) : Message := withText m m.role (xmlContent serde m) "tool_calls"

def toUserMessage (serde : XmlSerde) (m : Message) : Message := withText m "user" (resultContent serde m) "tool_call_id"

def rewriteMessage (serde : XmlSerde) (inResults : Bool) (m : Message) : Message × Bool :=
  if inResults = true ∧ m.role = "tool" then (toUserMessage serde m, true)
  else if isXlat m then (toXmlMessage serde m, true)
  else (m, false)

def reverseFrom (serde : XmlSerde) : (inResults : Bool) → List Message → List Message
  | _, [] => []
  | inResults, m :: messages =>
    (rewriteMessage serde inResults m).1 :: reverseFrom serde (rewriteMessage serde inResults m).2 messages

def reverseTranslateToolHistory (serde : XmlSerde) (messages : List Message) : List Message :=
  reverseFrom serde false messages

def Rewritten (serde : XmlSerde) (m m' : Message) : Prop :=
  m' = m ∨ isXlat m = true ∧ m' = toXmlMessage serde m ∨ m.role = "tool" ∧ m' = toUserMessage serde m

variable {serde : XmlSerde} {inResults : Bool} {m : Message} {messages rest : List Message}

theorem rewriteMessage_rewritten (inResults : Bool) (m : Message) :
    Rewritten serde m (rewriteMessage serde inResults m).1 := by
  unfold rewriteMessage
  split_ifs with htool hxlat
  · exact .inr (.inr ⟨htool.2, rfl⟩)
  · exact .inr (.inl ⟨hxlat, rfl⟩)
  · exact .inl rfl

theorem reverseFrom_forall₂ (inResults : Bool) (messages : List Message) :
    List.Forall₂ (Rewritten serde) messages (reverseFrom serde inResults messages) := by
  induction messages generalizing inResults with
  | nil => exact .nil
  | cons m messages ih => exact .cons (rewriteMessage_rewritten inResults m) (ih _)

theorem reverseTranslateToolHistory_forall₂ (messages : List Message) :
    List.Forall₂ (Rewritten serde) messages (reverseTranslateToolHistory serde messages) :=
  reverseFrom_forall₂ false messages

def resultsAfter (serde : XmlSerde) : (inResults : Bool) → List Message → Bool
  | inResults, [] => inResults
  | inResults, m :: messages => resultsAfter serde (rewriteMessage serde inResults m).2 messages

theorem reverseFrom_append (inResults : Bool) (messages rest : List Message) :
    reverseFrom serde inResults (messages ++ rest) =
      reverseFrom serde inResults messages ++ reverseFrom serde (resultsAfter serde inResults messages) rest := by
  induction messages generalizing inResults with
  | nil => rfl
  | cons m messages ih =>
    rw [List.cons_append, reverseFrom, ih]
    rfl

theorem resultsAfter_append (inResults : Bool) (messages rest : List Message) :
    resultsAfter serde inResults (messages ++ rest) = resultsAfter serde (resultsAfter serde inResults messages) rest := by
  induction messages generalizing inResults with
  | nil => rfl
  | cons m messages ih => exact ih _

theorem resultsAfter_tools (h : ∀ m ∈ messages, m.role = "tool") : resultsAfter serde true messages = true := by
  induction messages with
  | nil => rfl
  | cons m messages ih =>
    rw [List.forall_mem_cons] at h
    have hstep : (rewriteMessage serde true m).2 = true := by rw [rewriteMessage, if_pos ⟨rfl, h.1⟩]
    rw [resultsAfter, hstep]
    exact ih h.2

theorem rewriteMessage_xlat (h : isXlat m = true) (inResults : Bool) :
    rewriteMessage serde inResults m = (toXmlMessage serde m, true) := by
  have hrole : m.role = "assistant" := by
    rw [isXlat, Bool.and_eq_true] at h
    simpa using h.1
  rw [rewriteMessage, if_neg (by simp [hrole]), if_pos h]

theorem length_reverseFrom (inResults : Bool) (messages : List Message) :
    (reverseFrom serde inResults messages).length = messages.length :=
  (reverseFrom_forall₂ inResults messages).length_eq.symm

theorem reverseFrom_eq_append {before after : List Message} {t : Message}
    (h : reverseFrom serde inResults messages = before ++ t :: after) :
    ∃ pre m post, messages = pre ++ m :: post ∧ pre.length = before.length ∧ before = reverseFrom serde inResults pre ∧
      t = (rewriteMessage serde (resultsAfter serde inResults pre) m).1 := by
  have hlength : before.length < messages.length := by
    have hlen := congrArg List.length h
    rw [length_reverseFrom, List.length_append, List.length_cons] at hlen
    omega
  have hsplit : messages = messages.take before.length ++ messages[before.length] :: messages.drop (before.length + 1) := by
    rw [List.getElem_cons_drop, List.take_append_drop]
  have htake : (messages.take before.length).length = before.length := List.length_take_of_le hlength.le
  refine ⟨_, _, _, hsplit, htake, ?_⟩
  rw [hsplit, reverseFrom_append, reverseFrom] at h
  obtain ⟨hbefore, htail⟩ := List.append_inj h.symm (by rw [length_reverseFrom, htake])
  exact ⟨hbefore, (List.cons.inj htail).1⟩

/-- An assistant message with the call `id`. -/
def calls (id : String) (m : Message) : Bool := m.role = "assistant" && (toolCalls m).any (callId · = some id)

/-- Between a tool message and the nearest message with its call, if it is the gateway's, are only tool messages. -/
def Direct (messages : List Message) : Prop :=
  ∀ before m between t after id, messages = before ++ m :: (between ++ t :: after) → isXlat m = true →
    calls id m = true → (∀ b ∈ between, calls id b = false) → t.role = "tool" → toolCallId t = some id →
    ∀ b ∈ between, b.role = "tool"

theorem mem_reverseFrom_of_calls {id : String} (hcalls : calls id m = true) (hxlat : isXlat m = false)
    (inResults : Bool) (before between : List Message) :
    m ∈ reverseFrom serde inResults (before ++ m :: between) := by
  have hrole : m.role = "assistant" := by
    rw [calls, Bool.and_eq_true] at hcalls
    simpa using hcalls.1
  have hstep : ∀ s, rewriteMessage serde s m = (m, false) := by
    intro s
    rw [rewriteMessage, if_neg (by simp [hrole]), if_neg (by simp [hxlat])]
  rw [reverseFrom_append, reverseFrom, hstep]
  exact List.mem_append_right _ List.mem_cons_self

/-- A tool message that is left keeps the call that it had. -/
theorem reverseTranslateToolHistory_answered (h : Direct messages) {before after : List Message} {t : Message}
    {id : String} (hout : reverseTranslateToolHistory serde messages = before ++ t :: after) (hrole : t.role = "tool")
    (hid : toolCallId t = some id) (hcall : ∃ m ∈ messages.take before.length, calls id m = true) :
    ∃ m ∈ before, calls id m = true := by
  obtain ⟨pre, t', post, rfl, hlength, rfl, ht⟩ := reverseFrom_eq_append hout
  rw [← hlength, List.take_left] at hcall
  obtain ⟨pre, m, between, rfl, hm, hbetween⟩ := Search.exists_last hcall
  rcases hxlat : isXlat m with _ | _
  · exact ⟨m, mem_reverseFrom_of_calls hm hxlat false pre between, hm⟩
  -- the tool message stands directly behind the call, so it was rewritten
  have hsame : t' = t := by
    rcases rewriteMessage_rewritten (resultsAfter serde false (pre ++ m :: between)) t' with hsame | ⟨hx, hxml⟩ | ⟨-, huser⟩
    · exact (ht.trans hsame).symm
    · have hrole' : t'.role = "tool" := by
        rw [ht, hxml] at hrole
        exact hrole
      rw [isXlat, hrole'] at hx
      cases hx
    · rw [ht, huser] at hrole
      exact absurd hrole (by decide : "user" ≠ "tool")
  have htools : ∀ b ∈ between, b.role = "tool" :=
    h pre m between t post id (by simp [hsame]) hxlat hm hbetween hrole hid
  have hresults : resultsAfter serde false (pre ++ m :: between) = true := by
    rw [resultsAfter_append, resultsAfter, rewriteMessage_xlat hxlat]
    exact resultsAfter_tools htools
  rw [hresults, hsame, rewriteMessage, if_pos ⟨rfl, hrole⟩] at ht
  rw [ht] at hrole
  exact absurd hrole (by decide : "user" ≠ "tool")

end ObeyGateway.Xml
