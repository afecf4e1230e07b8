import ObeyGateway.Lib.Checks
import ObeyGateway.Models.OpenAI

/-!
# Chat messages as Codex input

`convert_messages` and `convert_user_array_content` of `codex/translate_request.rs`. Each message becomes its own items:
what a message says is in the items that it adds (`MessageCarried`). An assistant message with tool calls becomes these
calls only, and its text is dropped.
-/

namespace ObeyGateway.Codex.Input

open Models

inductive CodexError
  | translation (message : String)
  | unsupportedFeature (feature : String)
deriving DecidableEq

def strOf (v : Json) (key : String) : Option String := (v.get key).bind Json.asStr

def textOfPart (part : Json) : Option String := if strOf part "type" = some "text" then strOf part "text" else none

/-- `Message::content_as_text`, where other values are written by `serde_json` -/
def contentAsText (toText : Json → String) (m : Message) : String :=
  match m.content with
  | .string s => s
  | .array parts => String.join (parts.filterMap textOfPart)
  | .null => ""
  | other => toText other

def imageUrl : Json → Option String
  | .string url => some url
  | .object image => (Assoc.get image "url").bind Json.asStr
  | _ => none

def imageDetail (part : Json) : Option Json :=
  ((part.get "image_url").bind (·.get "detail")).or (part.get "detail")

def inputImage (url : String) (detail : Option Json) : Json :=
  .object ((detail.map fun d => ("detail", d)).toList ++ [("image_url", .string url), ("type", .string "input_image")])

def convertPart (part : Json) : Except CodexError Json :=
  match strOf part "type" with
  | some "text" => .ok (.object [("text", (part.get "text").getD (.string "")), ("type", .string "input_text")])
  | some "image_url" =>
    match (part.get "image_url").bind imageUrl with
    | none => .error (.translation "image_url content part missing string image_url.url")
    | some url => .ok (inputImage url (imageDetail part))
  | some "input_audio" => .error (.unsupportedFeature "input_audio")
  | _ => .ok part

def convertUserArrayContent (parts : List Json) : Except CodexError (List Json) := parts.mapM convertPart

def messageItem (role : String) (content : List Json) : Json :=
  .object [("content", .array content), ("role", .string role), ("type", .string "message")]

def textItem (role kind text : String) : Json :=
  messageItem role [.object [("text", .string text), ("type", .string kind)]]

def functionCall (callId name arguments : String) : Json :=
  .object [("arguments", .string arguments), ("call_id", .string callId), ("name", .string name),
    ("type", .string "function_call")]

def functionCallOutput (callId output : String) : Json :=
  .object [("call_id", .string callId), ("output", .string output), ("type", .string "function_call_output")]

def callId (c : Json) : String := (strOf c "id").getD ""

def callName (c : Json) : String := ((c.get "function").bind (strOf · "name")).getD ""

def callArguments (toText : Json → String) (c : Json) : String :=
  match (c.get "function").bind (·.get "arguments") with
  | some (.string s) => s
  | some other => toText other
  | none => ""

structure Converted where
  out : List Json
  callIds : List String

namespace Converted

def empty : Converted := ⟨[], []⟩

def push (s : Converted) (item : Json) : Converted := { s with out := s.out ++ [item] }

def call (toText : Json → String) (s : Converted) (c : Json) : Converted where
  out := s.out ++ [functionCall (callId c) (callName c) (callArguments toText c)]
  callIds := if callId c = "" then s.callIds else s.callIds ++ [callId c]

end Converted

/-- The entries of the `tool_calls` of a message, if they are an array. -/
def toolCalls (m : Message) : List Json := ((Assoc.get m.extra "tool_calls").bind Json.asArray).getD []

def toolCallId (m : Message) : String := ((Assoc.get m.extra "tool_call_id").bind Json.asStr).getD ""

section
variable (toText : Json → String)

def convertMessage (s : Converted) (m : Message) : Except CodexError Converted :=
  if m.role = "system" ∨ m.role = "developer" then .ok s
  else if m.role = "user" then
    match m.content with
    | .array parts => do return s.push (messageItem "user" (← convertUserArrayContent parts))
    | _ => .ok (s.push (textItem "user" "input_text" (contentAsText toText m)))
  else if m.role = "assistant" then
    if (toolCalls m).isEmpty then
      if contentAsText toText m = "" then .ok s
      else .ok (s.push (textItem "assistant" "output_text" (contentAsText toText m)))
    else .ok ((toolCalls m).foldl (Converted.call toText) s)
  else if m.role = "tool" then
    if toolCallId m ≠ "" ∧ toolCallId m ∈ s.callIds then
      .ok (s.push (functionCallOutput (toolCallId m) (contentAsText toText m)))
    else .ok (s.push (textItem "user" "input_text" (contentAsText toText m)))
  else .ok (s.push (textItem m.role "input_text" (contentAsText toText m)))

def convertMessages (messages : List Message) : Except CodexError (List Json) := do
  return (← messages.foldlM (convertMessage toText) .empty).out

def texts (m : Message) : List String :=
  match m.content with
  | .string s => [s]
  | .array parts => parts.filterMap textOfPart
  | _ => []

def userParts (m : Message) : List Json := if m.role = "user" then m.content.asArray.getD [] else []

def itemParts (item : Json) : List Json := ((item.get "content").bind Json.asArray).getD []

def itemTexts (item : Json) : List String := (strOf item "output").toList ++ (itemParts item).filterMap (strOf · "text")

def IsCall (item : Json) : Prop := strOf item "type" = some "function_call"

instance : DecidablePred IsCall := fun _ => inferInstanceAs (Decidable (_ = _))

def CallOf (c item : Json) : Prop :=
  strOf item "call_id" = some (callId c) ∧ strOf item "name" = some (callName c) ∧
    strOf item "arguments" = some (callArguments toText c)

def ImageOf (part content : Json) : Prop :=
  strOf content "type" = some "input_image" ∧ strOf content "image_url" = (part.get "image_url").bind imageUrl ∧
    content.get "detail" = imageDetail part

def Called (items : List Json) (id : String) : Prop :=
  id ≠ "" ∧ ∃ item ∈ items, IsCall item ∧ strOf item "call_id" = some id

structure MessageCarried (old : List Json) (m : Message) (added : List Json) : Prop where
  texts : m.role = "user" ∨ m.role = "assistant" ∨ m.role = "tool" → ∀ t ∈ texts m, t ≠ "" →
    ∃ item ∈ added, ∃ u ∈ itemTexts item, t.toList <:+: u.toList
  images : ∀ part ∈ userParts m, strOf part "type" = some "image_url" →
    ∃ item ∈ added, ∃ content ∈ itemParts item, ImageOf part content
  calls : List.Forall₂ (CallOf toText) (toolCalls m) (added.filter (IsCall ·))
  output : m.role = "tool" → ∃ item, added = [item] ∧
    (Called old (toolCallId m) → strOf item "type" = some "function_call_output" ∧
      strOf item "call_id" = some (toolCallId m)) ∧
    (¬ Called old (toolCallId m) → strOf item "type" = some "message" ∧ strOf item "role" = some "user")

/-- Each message is carried by the items that it adds, and the items come in the order of the messages. -/
def CarriedLaw (messages : List Message) (items : List Json) : Prop :=
  ∀ before m after, messages = before ++ m :: after → ∃ old added rest, convertMessages toText before = .ok old ∧
    convertMessages toText (before ++ [m]) = .ok (old ++ added) ∧ items = old ++ added ++ rest ∧
    MessageCarried toText old m added

def CallsAlone (m : Message) : Prop := toolCalls m ≠ [] → m.role = "assistant" ∧ ∀ t ∈ texts m, t = ""

end

section
variable {toText : Json → String} {s s' : Converted} {m : Message}

theorem infix_join {t : String} {ts : List String} (h : t ∈ ts) : t.toList <:+: (String.join ts).toList := by
  obtain ⟨before, after, rfl⟩ := List.append_of_mem h
  rw [String.toList_join, List.flatMap_append, List.flatMap_cons]
  exact ⟨_, _, List.append_assoc _ _ _⟩

theorem infix_contentAsText {t : String} (h : t ∈ texts m) : t.toList <:+: (contentAsText toText m).toList := by
  rw [texts] at h
  rw [contentAsText]
  split at h
  · rename_i hcontent
    rw [List.mem_singleton] at h
    rw [hcontent, h]
  · rename_i hcontent
    rw [hcontent]
    exact infix_join h
  · cases h

def Converted.Inv (s : Converted) : Prop := ∀ id, id ∈ s.callIds ↔ Called s.out id

variable {items : List Json}

theorem called_concat {item : Json} {id : String} :
    Called (items ++ [item]) id ↔ Called items id ∨ id ≠ "" ∧ IsCall item ∧ strOf item "call_id" = some id := by
  simp only [Called, List.mem_append, List.mem_singleton]
  constructor
  · rintro ⟨hid, item', hitem | rfl, hcall⟩
    · exact .inl ⟨hid, item', hitem, hcall⟩
    · exact .inr ⟨hid, hcall⟩
  · rintro (⟨hid, item', hitem, hcall⟩ | ⟨hid, hcall⟩)
    · exact ⟨hid, item', .inl hitem, hcall⟩
    · exact ⟨hid, item, .inr rfl, hcall⟩

theorem inv_empty : Converted.empty.Inv := fun _ => ⟨fun h => (by cases h), fun ⟨_, _, h, _⟩ => (by cases h)⟩

theorem Converted.Inv.push (hinv : s.Inv) {item : Json} (hitem : ¬ IsCall item) : (s.push item).Inv := fun id => by
  rw [Converted.push, called_concat, hinv id]
  exact (or_iff_left fun h => hitem h.2.1).symm

theorem Converted.Inv.call (hinv : s.Inv) (c : Json) : (s.call toText c).Inv := fun id => by
  have hitem : IsCall (functionCall (callId c) (callName c) (callArguments toText c)) := rfl
  have hname : strOf (functionCall (callId c) (callName c) (callArguments toText c)) "call_id" = some (callId c) := rfl
  rw [Converted.call, called_concat, hname, and_iff_right hitem, Option.some.injEq]
  dsimp only
  split
  · rename_i hempty
    rw [hinv id]
    refine (or_iff_left ?_).symm
    rintro ⟨hid, rfl⟩
    exact hid hempty
  · rename_i hid
    rw [List.mem_append, List.mem_singleton, hinv id]
    refine or_congr_right ⟨?_, fun h => h.2.symm⟩
    rintro rfl
    exact ⟨hid, rfl⟩

def callItem (toText : Json → String) (c : Json) : Json := functionCall (callId c) (callName c) (callArguments toText c)

theorem foldl_call (hinv : s.Inv) (calls : List Json) :
    (calls.foldl (Converted.call toText) s).out = s.out ++ calls.map (callItem toText) ∧
      (calls.foldl (Converted.call toText) s).Inv := by
  induction calls generalizing s with
  | nil => exact ⟨(List.append_nil _).symm, hinv⟩
  | cons c calls ih =>
    obtain ⟨hout, hinv'⟩ := ih (hinv.call c)
    refine ⟨hout.trans ?_, hinv'⟩
    rw [Converted.call, List.append_assoc]
    rfl

/-! ### One message -/

variable {old : List Json}

theorem carried_iff_of_no_call {added : List Json} (hrole : m.role ≠ "assistant") (hnone : ∀ item ∈ added, ¬ IsCall item)
    (htexts : m.role = "user" ∨ m.role = "tool" → ∀ t ∈ texts m, ∃ item ∈ added, ∃ u ∈ itemTexts item, t.toList <:+: u.toList)
    (himages : ∀ part ∈ userParts m, strOf part "type" = some "image_url" →
      ∃ item ∈ added, ∃ content ∈ itemParts item, ImageOf part content)
    (houtput : m.role = "tool" → ∃ item, added = [item] ∧
      (Called old (toolCallId m) → strOf item "type" = some "function_call_output" ∧
        strOf item "call_id" = some (toolCallId m)) ∧
      (¬ Called old (toolCallId m) → strOf item "type" = some "message" ∧ strOf item "role" = some "user")) :
    MessageCarried toText old m added ↔ CallsAlone m := by
  have hfilter : added.filter (IsCall ·) = [] :=
    List.filter_eq_nil_iff.2 fun item hitem => by simpa using hnone item hitem
  constructor
  · intro hcarried hcalls
    have hnil := hcarried.calls
    rw [hfilter, List.forall₂_nil_right_iff] at hnil
    exact absurd hnil hcalls
  · intro halone
    have hnil : toolCalls m = [] := by
      by_contra hcalls
      exact hrole (halone hcalls).1
    refine ⟨fun h t ht _ => htexts ?_ t ht, himages, ?_, houtput⟩
    · rcases h with h | h | h
      · exact .inl h
      · exact absurd h hrole
      · exact .inr h
    · rw [hnil, hfilter]
      exact .nil

theorem userParts_of_ne (h : m.role ≠ "user") : userParts m = [] := if_neg h

theorem not_isCall_messageItem (role : String) (content : List Json) : ¬ IsCall (messageItem role content) := by
  intro h
  have htype : some "message" = some "function_call" := h
  exact absurd htype (by decide)

theorem carried_textItem {role kind : String} (hassistant : m.role ≠ "assistant")
    (htool : m.role ≠ "tool") (hparts : userParts m = []) :
    MessageCarried toText old m [textItem role kind (contentAsText toText m)] ↔ CallsAlone m := by
  refine carried_iff_of_no_call hassistant ?_ ?_ ?_ fun h => absurd h htool
  · exact List.forall_mem_singleton.2 (not_isCall_messageItem _ _)
  · intro _ t ht
    exact ⟨_, List.mem_singleton_self _, _, List.mem_singleton_self _, infix_contentAsText ht⟩
  · rw [hparts]
    exact fun part hpart => by cases hpart

theorem convertPart_text {part content : Json} {t : String} (ht : textOfPart part = some t)
    (h : convertPart part = .ok content) : strOf content "text" = some t := by
  rw [textOfPart] at ht
  split at ht
  · rename_i htype
    rw [convertPart, htype] at h
    obtain rfl := Except.ok.inj h
    rcases htext : part.get "text" with _ | text
    · rw [strOf, htext] at ht
      cases ht
    rw [strOf, htext] at ht
    exact ht
  · cases ht

theorem convertPart_image {part content : Json} (hpart : strOf part "type" = some "image_url")
    (h : convertPart part = .ok content) : ImageOf part content := by
  rw [convertPart, hpart] at h
  rcases hurl : (part.get "image_url").bind imageUrl with _ | url
  · rw [hurl] at h
    cases h
  rw [hurl] at h
  obtain rfl : inputImage url (imageDetail part) = content := Except.ok.inj h
  rw [ImageOf, hurl]
  cases imageDetail part with
  | none | some => exact ⟨rfl, rfl, rfl⟩

theorem exists_converted {parts content : List Json} (h : convertUserArrayContent parts = .ok content) {part : Json}
    (hpart : part ∈ parts) : ∃ q ∈ content, convertPart part = .ok q := by
  have hall := Checks.mapM_eq_ok_iff.1 h
  clear h
  induction hall with
  | nil => cases hpart
  | cons hread _ ih =>
    rcases List.mem_cons.1 hpart with rfl | hpart
    · exact ⟨_, List.mem_cons_self, hread⟩
    · obtain ⟨q, hq, hconverted⟩ := ih hpart
      exact ⟨q, List.mem_cons_of_mem _ hq, hconverted⟩

theorem carried_user {parts content : List Json} (hrole : m.role = "user") (hcontent : m.content = .array parts)
    (h : convertUserArrayContent parts = .ok content) :
    MessageCarried toText old m [messageItem "user" content] ↔ CallsAlone m := by
  refine carried_iff_of_no_call (by rw [hrole]; decide) ?_ ?_ ?_ fun h => absurd (hrole ▸ h) (by decide)
  · exact List.forall_mem_singleton.2 (not_isCall_messageItem _ _)
  · intro _ t ht
    rw [texts, hcontent] at ht
    obtain ⟨part, hpart, htext⟩ := List.mem_filterMap.1 ht
    obtain ⟨q, hq, hconverted⟩ := exists_converted h hpart
    refine ⟨_, List.mem_singleton_self _, t, ?_, List.infix_rfl⟩
    exact List.mem_append_right _ (List.mem_filterMap.2 ⟨q, hq, convertPart_text htext hconverted⟩)
  · intro part hpart himage
    rw [userParts, if_pos hrole, hcontent] at hpart
    obtain ⟨q, hq, hconverted⟩ := exists_converted h hpart
    exact ⟨_, List.mem_singleton_self _, q, hq, convertPart_image himage hconverted⟩

theorem carried_calls (hrole : m.role = "assistant") (hcalls : toolCalls m ≠ []) :
    MessageCarried toText old m ((toolCalls m).map (callItem toText)) ↔ CallsAlone m := by
  constructor
  · intro hcarried _
    refine ⟨hrole, fun t ht => ?_⟩
    by_contra hne
    obtain ⟨item, hitem, u, hu, -⟩ := hcarried.texts (.inr (.inl hrole)) t ht hne
    obtain ⟨c, -, rfl⟩ := List.mem_map.1 hitem
    cases hu
  · intro halone
    refine ⟨fun _ t ht hne => absurd ((halone hcalls).2 t ht) hne, ?_, ?_, fun h => absurd (hrole ▸ h) (by decide)⟩
    · rw [userParts_of_ne (by rw [hrole]; decide)]
      exact fun part hpart => by cases hpart
    · have hall : ((toolCalls m).map (callItem toText)).filter (IsCall ·) = (toolCalls m).map (callItem toText) := by
        refine List.filter_eq_self.2 fun item hitem => ?_
        obtain ⟨c, -, rfl⟩ := List.mem_map.1 hitem
        rfl
      rw [hall, List.forall₂_map_right_iff]
      exact List.forall₂_same.2 fun c _ => ⟨rfl, rfl, rfl⟩

theorem carried_assistant {added : List Json} (hrole : m.role = "assistant") (hcalls : toolCalls m = [])
    (hnone : ∀ item ∈ added, ¬ IsCall item)
    (htexts : ∀ t ∈ texts m, t ≠ "" → ∃ item ∈ added, ∃ u ∈ itemTexts item, t.toList <:+: u.toList) :
    MessageCarried toText old m added ↔ CallsAlone m := by
  refine iff_of_true ⟨fun _ => htexts, ?_, ?_, fun h => absurd (hrole ▸ h) (by decide)⟩ fun h => absurd hcalls h
  · rw [userParts_of_ne (by rw [hrole]; decide)]
    exact fun part hpart => by cases hpart
  · rw [hcalls, List.filter_eq_nil_iff.2 fun item hitem => by simpa using hnone item hitem]
    exact .nil

theorem carried_tool {item : Json} (hrole : m.role = "tool") (hcall : ¬ IsCall item)
    (htexts : itemTexts item = [contentAsText toText m])
    (houtput : (Called old (toolCallId m) → strOf item "type" = some "function_call_output" ∧
        strOf item "call_id" = some (toolCallId m)) ∧
      (¬ Called old (toolCallId m) → strOf item "type" = some "message" ∧ strOf item "role" = some "user")) :
    MessageCarried toText old m [item] ↔ CallsAlone m := by
  refine carried_iff_of_no_call (by rw [hrole]; decide) (List.forall_mem_singleton.2 hcall) ?_ ?_
    fun _ => ⟨item, rfl, houtput⟩
  · intro _ t ht
    exact ⟨item, List.mem_singleton_self _, _, htexts ▸ List.mem_singleton_self _, infix_contentAsText ht⟩
  · rw [userParts_of_ne (by rw [hrole]; decide)]
    exact fun part hpart => by cases hpart

theorem convertMessage_spec (hinv : s.Inv) (h : convertMessage toText s m = .ok s') :
    ∃ added, s'.out = s.out ++ added ∧ s'.Inv ∧ (MessageCarried toText s.out m added ↔ CallsAlone m) := by
  have hmessage := fun role kind => not_isCall_messageItem role [.object [("text", .string (contentAsText toText m)),
    ("type", .string kind)]]
  rw [convertMessage] at h
  split at h
  · -- system and developer messages are skipped
    rename_i hrole
    obtain rfl := Except.ok.inj h
    obtain ⟨huser, hassistant, htool⟩ : m.role ≠ "user" ∧ m.role ≠ "assistant" ∧ m.role ≠ "tool" := by
      rcases hrole with hrole | hrole <;> rw [hrole] <;> decide
    refine ⟨[], (List.append_nil _).symm, hinv, carried_iff_of_no_call hassistant ?_ ?_ ?_ fun h => absurd h htool⟩
    · exact fun item hitem => by cases hitem
    · rintro (h | h)
      · exact absurd h huser
      · exact absurd h htool
    · rw [userParts_of_ne huser]
      exact fun part hpart => by cases hpart
  · split at h
    · rename_i hrole
      split at h
      · rename_i parts hcontent
        obtain ⟨content, hconverted, hs'⟩ := Checks.bind_eq_ok_iff.1 h
        obtain rfl := Checks.pure_eq_ok_iff.1 hs'
        exact ⟨_, rfl, hinv.push (not_isCall_messageItem _ _), carried_user hrole hcontent hconverted⟩
      · rename_i hcontent
        obtain rfl := Except.ok.inj h
        refine ⟨_, rfl, hinv.push (hmessage _ _), carried_textItem (by rw [hrole]; decide) (by rw [hrole]; decide) ?_⟩
        rw [userParts, if_pos hrole]
        cases hm : m.content with
        | array parts => exact absurd hm (hcontent parts)
        | _ => rfl
    · split at h
      · rename_i hrole
        split at h
        · rename_i hempty
          have hcalls := List.isEmpty_iff.1 hempty
          split at h
          · rename_i hnone
            obtain rfl := Except.ok.inj h
            refine ⟨[], (List.append_nil _).symm, hinv, carried_assistant hrole hcalls ?_ ?_⟩
            · exact fun item hitem => by cases hitem
            · intro t ht hne
              have hinfix : t.toList <:+: (contentAsText toText m).toList := infix_contentAsText ht
              rw [hnone] at hinfix
              exact absurd (String.toList_eq_nil_iff.1 (List.infix_nil.1 hinfix)) hne
          · obtain rfl := Except.ok.inj h
            refine ⟨_, rfl, hinv.push (hmessage _ _), carried_assistant hrole hcalls ?_ ?_⟩
            · exact List.forall_mem_singleton.2 (hmessage _ _)
            · intro t ht _
              exact ⟨_, List.mem_singleton_self _, _, List.mem_singleton_self _, infix_contentAsText ht⟩
        · rename_i hcalls
          obtain rfl := Except.ok.inj h
          obtain ⟨hout, hinv'⟩ := foldl_call hinv (toolCalls m)
          exact ⟨_, hout, hinv', carried_calls hrole fun hnil => hcalls (List.isEmpty_iff.2 hnil)⟩
      · split at h
        · rename_i hrole
          split at h
          · rename_i hcalled
            obtain rfl := Except.ok.inj h
            have hcall : ¬ IsCall (functionCallOutput (toolCallId m) (contentAsText toText m)) := by
              intro hcall
              have htype : some "function_call_output" = some "function_call" := hcall
              exact absurd htype (by decide)
            refine ⟨_, rfl, hinv.push hcall, carried_tool hrole hcall rfl ⟨fun _ => ⟨rfl, rfl⟩, fun hnot => ?_⟩⟩
            exact absurd ((hinv _).1 hcalled.2) hnot
          · rename_i hnot
            obtain rfl := Except.ok.inj h
            refine ⟨_, rfl, hinv.push (hmessage _ _), carried_tool hrole (hmessage _ _) rfl
              ⟨fun hcalled => absurd ⟨hcalled.1, (hinv _).2 hcalled⟩ hnot, fun _ => ⟨rfl, rfl⟩⟩⟩
        · rename_i huser hassistant htool
          obtain rfl := Except.ok.inj h
          exact ⟨_, rfl, hinv.push (hmessage _ _), carried_textItem hassistant htool (userParts_of_ne huser)⟩

theorem foldlM_spec (hinv : s.Inv) {messages : List Message}
    (h : messages.foldlM (convertMessage toText) s = .ok s') : (∃ added, s'.out = s.out ++ added) ∧ s'.Inv := by
  induction messages generalizing s with
  | nil =>
    obtain rfl := Checks.pure_eq_ok_iff.1 h
    exact ⟨⟨[], (List.append_nil _).symm⟩, hinv⟩
  | cons m messages ih =>
    rw [List.foldlM_cons] at h
    obtain ⟨s₁, h₁, h⟩ := Checks.bind_eq_ok_iff.1 h
    obtain ⟨added, hadded, hinv₁, -⟩ := convertMessage_spec hinv h₁
    obtain ⟨⟨more, hmore⟩, hinv'⟩ := ih hinv₁ h
    exact ⟨⟨added ++ more, by rw [hmore, hadded, List.append_assoc]⟩, hinv'⟩

theorem convertMessages_eq_ok {messages : List Message} : convertMessages toText messages = .ok items ↔
      ∃ s, messages.foldlM (convertMessage toText) .empty = .ok s ∧ s.out = items := by
  rw [convertMessages, Checks.bind_eq_ok_iff]
  simp only [Checks.pure_eq_ok_iff]

theorem convert_split {before after : List Message} (h : convertMessages toText (before ++ m :: after) = .ok items) :
    ∃ s s' rest, before.foldlM (convertMessage toText) .empty = .ok s ∧ s.Inv ∧ convertMessage toText s m = .ok s' ∧
      items = s'.out ++ rest := by
  obtain ⟨last, hlast, rfl⟩ := convertMessages_eq_ok.1 h
  rw [List.foldlM_append] at hlast
  obtain ⟨s, hs, hlast⟩ := Checks.bind_eq_ok_iff.1 hlast
  rw [List.foldlM_cons] at hlast
  obtain ⟨s', hs', hlast⟩ := Checks.bind_eq_ok_iff.1 hlast
  have hinv := (foldlM_spec inv_empty hs).2
  obtain ⟨-, -, hinv', -⟩ := convertMessage_spec hinv hs'
  obtain ⟨⟨rest, hrest⟩, -⟩ := foldlM_spec hinv' hlast
  exact ⟨s, s', rest, hs, hinv, hs', hrest⟩

theorem convertMessages_concat {before : List Message} (hs : before.foldlM (convertMessage toText) .empty = .ok s)
    (hs' : convertMessage toText s m = .ok s') : convertMessages toText (before ++ [m]) = .ok s'.out := by
  refine convertMessages_eq_ok.2 ⟨s', ?_, rfl⟩
  rw [List.foldlM_append, hs]
  show [m].foldlM (convertMessage toText) s = _
  rw [List.foldlM_cons, hs']
  rfl

/-- Nothing is lost exactly if calls are only in assistant messages without a text. -/
theorem carried_law_iff {messages : List Message} {items : List Json} (h : convertMessages toText messages = .ok items) :
    CarriedLaw toText messages items ↔ ∀ m ∈ messages, CallsAlone m := by
  constructor
  · intro hlaw m hm
    obtain ⟨before, after, rfl⟩ := List.append_of_mem hm
    obtain ⟨old, added, -, hold, hnew, -, hcarried⟩ := hlaw before m after rfl
    obtain ⟨s, s', -, hs, hinv, hs', -⟩ := convert_split h
    obtain ⟨added', hout, -, hiff⟩ := convertMessage_spec hinv hs'
    obtain rfl : old = s.out :=
      Except.ok.inj (hold.symm.trans (convertMessages_eq_ok.2 ⟨s, hs, rfl⟩))
    obtain rfl : added = added' := by
      have hsame := Except.ok.inj (hnew.symm.trans (convertMessages_concat hs hs'))
      rw [hout] at hsame
      exact List.append_cancel_left hsame
    exact hiff.1 hcarried
  · rintro hall before m after rfl
    obtain ⟨s, s', rest, hs, hinv, hs', hitems⟩ := convert_split h
    obtain ⟨added, hout, -, hiff⟩ := convertMessage_spec hinv hs'
    refine ⟨s.out, added, rest, convertMessages_eq_ok.2 ⟨s, hs, rfl⟩, ?_, hout ▸ hitems, hiff.2 (hall m ?_)⟩
    · rw [convertMessages_concat hs hs', hout]
    · exact List.mem_append_right _ List.mem_cons_self

end

def searchCall : Json :=
  .object [("function", .object [("arguments", .string "q"), ("name", .string "search")]), ("id", .string "call_1")]

def callExtra : Json.Map := [("tool_calls", .array [searchCall])]

def answerExtra : Json.Map := [("tool_call_id", .string "call_1")]

theorem nodupKeys_content (text : String) : (Json.string text).nodupKeys = true := rfl

theorem nodupKeys_callExtra : (Json.object callExtra).nodupKeys = true := by decide +kernel

theorem nodupKeys_answerExtra : (Json.object answerExtra).nodupKeys = true := by decide +kernel

theorem role_callExtra : "role" ∉ Assoc.keys callExtra := by decide

theorem content_callExtra : "content" ∉ Assoc.keys callExtra := by decide

theorem role_answerExtra : "role" ∉ Assoc.keys answerExtra := by decide

theorem content_answerExtra : "content" ∉ Assoc.keys answerExtra := by decide

def callMessage (text : String) : Message where
  role := "assistant"
  content := .string text
  extra := callExtra
  content_nodup := nodupKeys_content text
  extra_nodup := nodupKeys_callExtra
  extra_role := role_callExtra
  extra_content := content_callExtra

def answerMessage : Message where
  role := "tool"
  content := .string "found"
  extra := answerExtra
  content_nodup := nodupKeys_content "found"
  extra_nodup := nodupKeys_answerExtra
  extra_role := role_answerExtra
  extra_content := content_answerExtra

theorem carried_law_search : ∃ items, convertMessages (fun _ => "") [callMessage "", answerMessage] = .ok items ∧
    CarriedLaw (fun _ => "") [callMessage "", answerMessage] items := by
  refine ⟨_, rfl, (carried_law_iff rfl).2 ?_⟩
  refine List.forall_mem_cons.2 ⟨fun _ => ⟨rfl, ?_⟩, List.forall_mem_singleton.2 fun hcalls => absurd rfl hcalls⟩
  exact List.forall_mem_singleton.2 rfl

/-- The text beside a call is in none of the items. -/
theorem text_beside_call_lost : convertMessages (fun _ => "") [callMessage "Let me search."] =
      .ok [functionCall "call_1" "search" "q"] ∧
    ¬ CarriedLaw (fun _ => "") [callMessage "Let me search."] [functionCall "call_1" "search" "q"] := by
  refine ⟨rfl, fun hlaw => ?_⟩
  obtain ⟨old, added, rest, hold, -, hitems, hcarried⟩ := hlaw [] _ [] rfl
  obtain ⟨item, hitem, u, hu, -⟩ := hcarried.texts (.inr (.inl rfl)) "Let me search." (List.mem_singleton_self _)
    (by decide)
  have hmem : item ∈ [functionCall "call_1" "search" "q"] := by
    rw [hitems]
    exact List.mem_append_left _ (List.mem_append_right _ hitem)
  rw [List.mem_singleton.1 hmem] at hu
  cases hu

end ObeyGateway.Codex.Input
