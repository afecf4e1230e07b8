import Mathlib.Data.List.Range
import ObeyGateway.Codex.TranslateResponse
import ObeyGateway.Lib.Run

/-!
# Streamed and accumulated answers

What a client puts together from the chunks is compared with the accumulated answer. A fragment of arguments goes to the
call of its item in the stream, but always to the last call in the accumulator, which compares ids of items with ids of
calls. So the two agree exactly when every fragment is of the call that was opened last (`InOrder`).
-/

namespace ObeyGateway.Codex

structure ChatMessage where
  text : String
  toolCalls : List ToolCallBuilder
  finishReason : Option String
deriving DecidableEq

def strAt (v : Json) (key : String) : Option String := (v.get key).bind Json.asStr

def functionAt (v : Json) (key : String) : Option String := (v.get "function").bind (strAt · key)

def itemsAt (v : Json) (key : String) : List Json := ((v.get key).bind Json.asArray).getD []

def readToolCall (v : Json) : ToolCallBuilder :=
  ⟨(strAt v "id").getD "", (functionAt v "name").getD "", (functionAt v "arguments").getD ""⟩

def ChatMessage.ofBody (body : Json) : Option ChatMessage := do
  let choice ← (itemsAt body "choices").head?
  let message ← choice.get "message"
  return ⟨(strAt message "content").getD "", (itemsAt message "tool_calls").map readToolCall, strAt choice "finish_reason"⟩

structure ChatClient where
  text : String := ""
  toolCalls : List (UInt64 × ToolCallBuilder) := []
  finishReason : Option String := none

def ToolCallBuilder.merge (tc : ToolCallBuilder) (fragment : Json) : ToolCallBuilder :=
  ⟨(strAt fragment "id").getD tc.id, (functionAt fragment "name").getD tc.name,
    tc.arguments ++ (functionAt fragment "arguments").getD ""⟩

/-- The first fragment of an index opens a call, a later one goes on with it. -/
def mergeFragment (calls : List (UInt64 × ToolCallBuilder)) (fragment : Json) : List (UInt64 × ToolCallBuilder) :=
  match (fragment.get "index").bind Json.asU64 with
  | none => calls
  | some index =>
    if index ∈ calls.map (·.1) then calls.map fun c => if c.1 = index then (c.1, c.2.merge fragment) else c
    else calls ++ [(index, readToolCall fragment)]

namespace ChatClient
variable (client : ChatClient)

def chunk (body : Json) : ChatClient :=
  match (itemsAt body "choices").head? with
  | none => client
  | some choice =>
    let delta := (choice.get "delta").getD .null
    { text := client.text ++ (strAt delta "content").getD ""
      toolCalls := (itemsAt delta "tool_calls").foldl mergeFragment client.toolCalls
      finishReason := (strAt choice "finish_reason").or client.finishReason }

def item : StreamItem → ChatClient
  | .chunk body => client.chunk body
  | .done => client

def message : ChatMessage := ⟨client.text, client.toolCalls.map (·.2), client.finishReason⟩

end ChatClient

def ChatMessage.ofItems (items : List (Except TranslateError StreamItem)) : ChatMessage :=
  (items.foldl (fun client item => item.toOption.elim client client.item) ({} : ChatClient)).message

structure Seen where
  added : List String := []
  failed : Bool := false

def Seen.after (seen : Seen) : ResponsesEvent → Seen
  | .outputItemAdded itemId kind _ _ _ =>
    if kind = "function_call" then { seen with added := seen.added ++ [itemId] } else seen
  | .failed _ _ => { seen with failed := true }
  | .error _ _ => { seen with failed := true }
  | _ => seen

/-- A call has an item that is new and an id that no item of a call has, a fragment names the item of a call; `itemIds` are
those of all calls. -/
def Fresh (itemIds : List String) (seen : Seen) : ResponsesEvent → Prop
  | .outputItemAdded itemId kind callId _ _ =>
    kind = "function_call" → itemId ∉ seen.added ∧ itemId ∈ itemIds ∧ ∃ c, callId = some c ∧ c ∉ itemIds
  | .functionCallArgumentsDelta itemId _ _ => itemId ∈ seen.added
  | .completed _ _ => False
  | _ => True

/-- A fragment is of the last call, only empty ones come after a failure, and the calls can be counted in 32 bits. -/
def InOrder (seen : Seen) : ResponsesEvent → Prop
  | .outputTextDelta _ delta _ => delta = "" ∨ seen.failed = false
  | .outputItemAdded _ kind _ _ _ => kind = "function_call" → seen.failed = false ∧ seen.added.length < 2 ^ 32
  | .functionCallArgumentsDelta itemId delta _ => delta = "" ∨ seen.failed = false ∧ seen.added.getLast? = some itemId
  | _ => True

def callItem : ResponsesEvent → Option String
  | .outputItemAdded itemId kind _ _ _ => if kind = "function_call" then some itemId else none
  | _ => none

def WellFormed (events : List ResponsesEvent) : Prop :=
  Run.Along Seen.after (Fresh (events.filterMap callItem)) {} events

structure Carried (events : List ResponsesEvent) (response : CompletedPayload) : Prop where
  text : (∃ t ∈ outputTexts response.output, t ≠ "") →
    ∃ itemId delta n, ResponsesEvent.outputTextDelta itemId delta n ∈ events ∧ delta ≠ ""
  calls : (∃ item ∈ response.output, item.kind = "function_call") → ∃ event ∈ events, (callItem event).isSome = true

inductive Action
  | quiet
  | text (delta : String)
  | call (itemId id name : String)
  | fragment (itemId delta : String)
  | fail

def action : ResponsesEvent → Action
  | .outputTextDelta _ delta _ => .text delta
  | .outputItemAdded itemId kind callId name _ =>
    if kind = "function_call" then .call itemId (callId.getD "") (name.getD "") else .quiet
  | .functionCallArgumentsDelta itemId delta _ => .fragment itemId delta
  | .failed _ _ => .fail
  | .error _ _ => .fail
  | _ => .quiet

/-- Of the accumulator, the translator and its client, what the answers depend on. -/
structure View where
  seen : Seen := {}
  text : String := ""
  calls : List ToolCallBuilder := []
  errored : Bool := false
  map : List (String × UInt32) := []
  next : UInt32 := 0
  client : ChatClient := {}

def openCall (calls : List (UInt64 × ToolCallBuilder)) (index : UInt64) (id name : String) : List (UInt64 × ToolCallBuilder) :=
  if index ∈ calls.map (·.1) then calls.map fun c => if c.1 = index then (c.1, ⟨id, name, c.2.arguments⟩) else c
  else calls ++ [(index, ⟨id, name, ""⟩)]

def pushFragment (calls : List (UInt64 × ToolCallBuilder)) (index : UInt64) (delta : String) :
    List (UInt64 × ToolCallBuilder) :=
  if index ∈ calls.map (·.1) then calls.map fun c => if c.1 = index then (c.1, c.2.push delta) else c
  else calls ++ [(index, ⟨"", "", delta⟩)]

def View.fragmentIndex (v : View) (itemId : String) : UInt32 :=
  (Assoc.get v.map itemId).getD (if v.next = 0 then 0 else v.next - 1)

/-- The accumulator gives a fragment to its last call, the client to the call of the item. -/
def View.step (v : View) : Action → View
  | .quiet => v
  | .text delta =>
    { v with
      text := v.text ++ delta
      client := if v.seen.failed then v.client else { v.client with text := v.client.text ++ delta } }
  | .call itemId id name =>
    { v with
      seen := { v.seen with added := v.seen.added ++ [itemId] }
      calls := v.calls ++ [⟨id, name, ""⟩]
      map := if v.seen.failed then v.map else Assoc.put v.map itemId v.next
      next := if v.seen.failed then v.next else v.next + 1
      client :=
        if v.seen.failed then v.client
        else { v.client with toolCalls := openCall v.client.toolCalls v.next.toUInt64 id name } }
  | .fragment itemId delta =>
    { v with
      calls := v.calls.modify (v.calls.length - 1) (ToolCallBuilder.push delta)
      client :=
        if v.seen.failed then v.client
        else
          { v.client with
            toolCalls := pushFragment v.client.toolCalls (v.fragmentIndex itemId).toUInt64 delta } }
  | .fail =>
    { v with
      seen := { v.seen with failed := true }
      errored := true
      client := if v.seen.failed then v.client else { v.client with finishReason := some "error" } }

structure Base (itemIds : List String) (v : View) : Prop where
  length : v.calls.length = v.seen.added.length
  ids : ∀ tc ∈ v.calls, tc.id ∉ itemIds
  added : ∀ i ∈ v.seen.added, i ∈ itemIds
  nodup : v.seen.added.Nodup
  errored : v.errored = v.seen.failed
  finish : v.seen.failed = true → v.client.finishReason = some "error"
  mapped : ∀ item k, Assoc.get v.map item = some k → k.toUInt64 ∈ v.client.toolCalls.map (·.1)
  known : v.seen.failed = false → ∀ item ∈ v.seen.added, (Assoc.get v.map item).isSome = true

def callNumber (i : Nat) : UInt64 := (UInt32.ofNat i).toUInt64

structure Synced (v : View) : Prop where
  text : v.text = v.client.text
  calls : v.calls = v.client.toolCalls.map (·.2)
  keys : v.client.toolCalls.map (·.1) = (List.range v.seen.added.length).map callNumber
  bound : v.seen.added.length ≤ 2 ^ 32
  index : ∀ i (h : i < v.seen.added.length), Assoc.get v.map v.seen.added[i] = some (UInt32.ofNat i)
  next : v.next = UInt32.ofNat v.seen.added.length

def argsLength (calls : List ToolCallBuilder) (i : Nat) : Nat := (calls[i]?).elim 0 (·.arguments.length)

/-- A difference that stays: more calls or text than the client has, an earlier call with less, or more past a
failure. -/
def Broken (v : View) : Prop :=
  v.client.toolCalls.length < v.calls.length ∨ v.client.text.length < v.text.length ∨
    (∃ i, i + 1 < v.calls.length ∧ argsLength v.calls i < argsLength (v.client.toolCalls.map (·.2)) i) ∨
    v.seen.failed = true ∧ ∃ i, argsLength (v.client.toolCalls.map (·.2)) i < argsLength v.calls i

/-- `Fresh` of an action. -/
def FreshAction (itemIds : List String) (seen : Seen) : Action → Prop
  | .call itemId id _ => itemId ∉ seen.added ∧ itemId ∈ itemIds ∧ id ∉ itemIds
  | .fragment itemId _ => itemId ∈ seen.added
  | _ => True

/-- `InOrder` of an action. -/
def InOrderAction (seen : Seen) : Action → Prop
  | .text delta => delta = "" ∨ seen.failed = false
  | .call _ _ _ => seen.failed = false ∧ seen.added.length < 2 ^ 32
  | .fragment itemId delta => delta = "" ∨ seen.failed = false ∧ seen.added.getLast? = some itemId
  | _ => True

section
variable (state : StreamTranslatorState) (client : ChatClient)

theorem itemsAt_choices (delta finish : Json) (usage : Option Json) {body : Json}
    (h : state.formatChunk delta finish usage = .chunk body) :
    (itemsAt body "choices").head? = some (.object [("delta", delta), ("finish_reason", finish), ("index", .number (.posInt 0))]) := by
  cases h
  simp [itemsAt, Json.get, Assoc.get, Json.asArray]

theorem item_formatChunk (delta finish : Json) (usage : Option Json) : client.item (state.formatChunk delta finish usage) =
      { text := client.text ++ (strAt delta "content").getD ""
        toolCalls := (itemsAt delta "tool_calls").foldl mergeFragment client.toolCalls
        finishReason := finish.asStr.or client.finishReason } := by
  obtain ⟨body, hbody⟩ : ∃ body, state.formatChunk delta finish usage = .chunk body := ⟨_, rfl⟩
  rw [hbody]
  show client.chunk body = _
  unfold ChatClient.chunk
  rw [itemsAt_choices state delta finish usage hbody]
  simp [Json.get, Assoc.get, strAt]

def ChatClient.items (items : List StreamItem) : ChatClient := items.foldl ChatClient.item client

theorem items_outputTextDelta (itemId delta : String) (n : UInt64) :
    client.items (state.translateEvent (.outputTextDelta itemId delta n)).2 = { client with text := client.text ++ delta } := by
  simp only [ChatClient.items, StreamTranslatorState.translateEvent, List.foldl_cons, List.foldl_nil, item_formatChunk]
  cases state.firstTextEmitted <;> simp [strAt, itemsAt, Json.get, Assoc.get, Json.asStr]

theorem items_outputItemAdded (itemId : String) (callId name : Option String) (n : UInt64) :
    client.items (state.translateEvent (.outputItemAdded itemId "function_call" callId name n)).2 =
      { client with
        toolCalls := openCall client.toolCalls state.nextToolIndex.toUInt64 (callId.getD "") (name.getD "") } := by
  simp only [ChatClient.items, StreamTranslatorState.translateEvent, if_true, List.foldl_cons, List.foldl_nil, item_formatChunk]
  simp [strAt, itemsAt, Json.get, Assoc.get, Json.asStr, Json.asArray, mergeFragment, indexJson, Json.asU64, functionAt,
    readToolCall, ToolCallBuilder.merge, openCall]

theorem items_functionCallArgumentsDelta (itemId delta : String) (n : UInt64) :
    client.items (state.translateEvent (.functionCallArgumentsDelta itemId delta n)).2 =
      { client with toolCalls := pushFragment client.toolCalls (state.fragmentIndex itemId).toUInt64 delta } := by
  simp only [ChatClient.items, StreamTranslatorState.translateEvent, List.foldl_cons, List.foldl_nil, item_formatChunk]
  simp [strAt, itemsAt, Json.get, Assoc.get, Json.asStr, Json.asArray, mergeFragment, indexJson, Json.asU64, functionAt,
    readToolCall, ToolCallBuilder.merge, pushFragment, ToolCallBuilder.push]

theorem item_finish (reason : String) (usage : Option Json) :
    client.item (state.formatChunk (.object []) (.string reason) usage) = { client with finishReason := some reason } := by
  rw [item_formatChunk]
  simp [strAt, itemsAt, Json.get, Assoc.get, Json.asStr]

theorem items_failed (error : ErrorPayload) (n : UInt64) :
    client.items (state.translateEvent (.failed error n)).2 = { client with finishReason := some "error" } :=
  item_finish state client "error" none

theorem items_error (error : ErrorPayload) (n : UInt64) :
    client.items (state.translateEvent (.error error n)).2 = { client with finishReason := some "error" } :=
  item_finish state client "error" none

theorem items_completed (response : CompletedPayload) (n : UInt64) :
    client.items (state.translateEvent (.completed response n)).2 =
      { client with finishReason := some (finishReason response) } :=
  item_finish state client (finishReason response) (response.usage.map fun u => (UsageOutput.ofUsage u).toJson)

end

/-! ### Calls by position -/

variable {i : Nat}

theorem callNumber_inj {j : Nat} (hi : i < 2 ^ 32) (hj : j < 2 ^ 32) (h : callNumber i = callNumber j) : i = j := by
  have hnat := congrArg UInt64.toNat h
  simp only [callNumber, UInt32.toNat_toUInt64, UInt32.toNat_ofNat'] at hnat
  omega

theorem callNumber_wraps : callNumber (2 ^ 32) = callNumber 0 := by decide

section
variable {calls : List (UInt64 × ToolCallBuilder)} {k : UInt64} {delta id name : String}

theorem keys_map_of_fst {g : UInt64 × ToolCallBuilder → UInt64 × ToolCallBuilder} (h : ∀ c, (g c).1 = c.1) :
    (calls.map g).map (·.1) = calls.map (·.1) := by
  rw [List.map_map]
  exact List.map_congr_left fun c _ => h c

theorem keys_pushFragment (h : k ∈ calls.map (·.1)) (delta : String) :
    (pushFragment calls k delta).map (·.1) = calls.map (·.1) := by
  rw [pushFragment, if_pos h]
  refine keys_map_of_fst fun c => ?_
  split_ifs <;> rfl

theorem length_pushFragment (h : k ∈ calls.map (·.1)) (delta : String) :
    (pushFragment calls k delta).length = calls.length := by
  have hkeys := congrArg List.length (keys_pushFragment h delta)
  rwa [List.length_map, List.length_map] at hkeys

theorem keys_openCall : calls.map (·.1) ⊆ (openCall calls k id name).map (·.1) ∧ k ∈ (openCall calls k id name).map (·.1) := by
  unfold openCall
  split_ifs with hk
  · rw [keys_map_of_fst]
    · exact ⟨fun _ h => h, hk⟩
    · intro c
      split_ifs <;> rfl
  · rw [List.map_append]
    exact ⟨fun _ h => List.mem_append_left _ h, List.mem_append_right _ List.mem_cons_self⟩

theorem length_openCall_le (calls : List (UInt64 × ToolCallBuilder)) (k : UInt64) (id name : String) :
    (openCall calls k id name).length ≤ calls.length + 1 := by
  unfold openCall
  split_ifs
  · rw [List.length_map]
    omega
  · simp

theorem argsLength_map_le {g : UInt64 × ToolCallBuilder → UInt64 × ToolCallBuilder}
    (h : ∀ c, c.2.arguments.length ≤ (g c).2.arguments.length) (i : Nat) :
    argsLength (calls.map (·.2)) i ≤ argsLength ((calls.map g).map (·.2)) i := by
  simp only [argsLength, List.getElem?_map]
  cases calls[i]? with
  | none => exact le_refl _
  | some c => exact h c

theorem argsLength_append_le (more : List (UInt64 × ToolCallBuilder)) (i : Nat) :
    argsLength (calls.map (·.2)) i ≤ argsLength ((calls ++ more).map (·.2)) i := by
  simp only [argsLength, List.getElem?_map]
  rcases hget : calls[i]? with _ | c
  · exact Nat.zero_le _
  rw [List.getElem?_append_left (List.getElem?_eq_some_iff.1 hget).1, hget]

theorem argsLength_pushFragment_le (i : Nat) :
    argsLength (calls.map (·.2)) i ≤ argsLength ((pushFragment calls k delta).map (·.2)) i := by
  unfold pushFragment
  split_ifs
  · refine argsLength_map_le (fun c => ?_) i
    split_ifs
    · simp [ToolCallBuilder.push]
    · exact le_refl _
  · exact argsLength_append_le _ i

theorem argsLength_openCall_le (i : Nat) :
    argsLength (calls.map (·.2)) i ≤ argsLength ((openCall calls k id name).map (·.2)) i := by
  unfold openCall
  split_ifs
  · refine argsLength_map_le (fun c => ?_) i
    split_ifs <;> exact le_refl _
  · exact argsLength_append_le _ i

theorem pushFragment_callNumber {n i : Nat} (hkeys : calls.map (·.1) = (List.range n).map callNumber) (hn : n ≤ 2 ^ 32)
    (hi : i < n) (delta : String) :
    (pushFragment calls (callNumber i) delta).map (·.2) = (calls.map (·.2)).modify i (ToolCallBuilder.push delta) := by
  have hmem : callNumber i ∈ calls.map (·.1) := by
    rw [hkeys]
    exact List.mem_map_of_mem (List.mem_range.2 hi)
  have hlength : calls.length = n := by
    have hlengths := congrArg List.length hkeys
    simpa using hlengths
  rw [pushFragment, if_pos hmem, List.map_map]
  refine List.ext_getElem (by simp) fun j hj _ => ?_
  rw [List.length_map] at hj
  have hkey : calls[j].1 = callNumber j := by
    have hget : (calls.map (·.1))[j]? = ((List.range n).map callNumber)[j]? := by rw [hkeys]
    simpa [hj, hlength ▸ hj] using hget
  rw [List.getElem_map, List.getElem_modify, List.getElem_map, Function.comp_apply, hkey]
  by_cases hij : i = j
  · rw [if_pos (by rw [hij]), if_pos hij]
  · rw [if_neg, if_neg hij]
    exact fun heq => hij (callNumber_inj (by omega) (by omega) heq).symm

end

theorem push_empty (tc : ToolCallBuilder) : tc.push "" = tc := by
  rw [ToolCallBuilder.push, String.append_empty]

theorem modify_push_empty (calls : List ToolCallBuilder) (i : Nat) : calls.modify i (ToolCallBuilder.push "") = calls := by
  have hid : ToolCallBuilder.push "" = id := funext push_empty
  rw [hid, List.modify_id]

theorem eq_of_getLast {items : List String} (h : items.Nodup) (hi : i < items.length)
    (hlast : items.getLast? = some items[i]) : items.length - 1 = i := by
  rw [List.getLast?_eq_getElem?] at hlast
  obtain ⟨_, heq⟩ := List.getElem?_eq_some_iff.1 hlast
  exact (h.getElem_inj_iff).1 heq

theorem argsLength_modify_self {calls : List ToolCallBuilder} (hi : i < calls.length) (delta : String) :
    argsLength (calls.modify i (ToolCallBuilder.push delta)) i = argsLength calls i + delta.length := by
  simp [argsLength, ToolCallBuilder.push, hi]

theorem argsLength_modify_of_ne {calls : List ToolCallBuilder} {j : Nat} (h : i ≠ j) (delta : String) :
    argsLength (calls.modify i (ToolCallBuilder.push delta)) j = argsLength calls j := by
  simp [argsLength, h]

theorem argsLength_modify_le (calls : List ToolCallBuilder) (i j : Nat) (delta : String) :
    argsLength calls j ≤ argsLength (calls.modify i (ToolCallBuilder.push delta)) j := by
  by_cases h : i = j
  · subst h
    by_cases hi : i < calls.length
    · rw [argsLength_modify_self hi]
      omega
    · simp [argsLength, List.getElem?_eq_none (not_lt.1 hi)]
  · rw [argsLength_modify_of_ne h]

/-! ### Steps -/

section
variable {itemIds : List String} {v : View} {a : Action}

theorem Base.key_mem (h : Base itemIds v) (hrunning : v.seen.failed = false) {item : String} (hitem : item ∈ v.seen.added) :
    (v.fragmentIndex item).toUInt64 ∈ v.client.toolCalls.map (·.1) := by
  obtain ⟨k, hk⟩ := Option.isSome_iff_exists.1 (h.known hrunning item hitem)
  rw [View.fragmentIndex, hk, Option.getD_some]
  exact h.mapped item k hk

theorem base_step (h : Base itemIds v) (ha : FreshAction itemIds v.seen a) : Base itemIds (v.step a) := by
  cases a with
  | quiet => exact h
  | text delta =>
    refine ⟨h.length, h.ids, h.added, h.nodup, h.errored, fun hfailed => ?_, fun item k hk => ?_, h.known⟩
    · have hfinish := h.finish hfailed
      simp only [View.step]
      split_ifs <;> exact hfinish
    · have hmapped := h.mapped item k hk
      simp only [View.step]
      split_ifs <;> exact hmapped
  | call itemId id name =>
    obtain ⟨hnew, hitem, hid⟩ := ha
    refine ⟨?_, ?_, ?_, ?_, h.errored, fun hfailed => ?_, fun item k hk => ?_, fun hrunning item hadded => ?_⟩
    · simp [View.step, h.length]
    · intro tc htc
      rcases List.mem_append.1 htc with htc | htc
      · exact h.ids tc htc
      · rw [List.mem_singleton.1 htc]
        exact hid
    · intro i hi
      rcases List.mem_append.1 hi with hi | hi
      · exact h.added i hi
      · rw [List.mem_singleton.1 hi]
        exact hitem
    · exact List.nodup_append.2 ⟨h.nodup, List.nodup_singleton _, fun i hi j hj heq => hnew (by
        rw [← List.mem_singleton.1 hj, ← heq]
        exact hi)⟩
    · have hfailed' : v.seen.failed = true := hfailed
      simp only [View.step, hfailed', if_true]
      exact h.finish hfailed'
    · cases hfailed : v.seen.failed with
      | true =>
        simp only [View.step, hfailed, if_true] at hk ⊢
        exact h.mapped item k hk
      | false =>
        simp only [View.step, hfailed, Bool.false_eq_true, if_false] at hk ⊢
        by_cases heq : itemId = item
        · subst heq
          rw [Assoc.get_put_self] at hk
          cases hk
          exact keys_openCall.2
        · rw [Assoc.get_put_of_ne fun h' => heq h'.symm] at hk
          exact keys_openCall.1 (h.mapped item k hk)
    · have hrunning' : v.seen.failed = false := hrunning
      simp only [View.step, hrunning', Bool.false_eq_true, if_false]
      by_cases heq : itemId = item
      · subst heq
        rw [Assoc.get_put_self]
        rfl
      · rw [Assoc.get_put_of_ne fun h' => heq h'.symm]
        refine h.known hrunning' item ((List.mem_append.1 hadded).resolve_right fun hmem => heq ?_)
        exact (List.mem_singleton.1 hmem).symm
  | fragment itemId delta =>
    refine ⟨?_, ?_, h.added, h.nodup, h.errored, fun hfailed => ?_, fun item k hk => ?_, h.known⟩
    · rw [View.step, List.length_modify]
      exact h.length
    · intro tc htc
      obtain ⟨j, hj, rfl⟩ := List.mem_iff_getElem.1 htc
      simp only [View.step, List.getElem_modify]
      rw [View.step, List.length_modify] at hj
      have hold : v.calls[j].id ∉ itemIds := h.ids _ (List.getElem_mem hj)
      split_ifs <;> exact hold
    · have hfinish := h.finish hfailed
      simp only [View.step]
      split_ifs <;> exact hfinish
    · have hmapped := h.mapped item k hk
      simp only [View.step]
      split_ifs with hfailed
      · exact hmapped
      · rw [keys_pushFragment (h.key_mem (by simpa using hfailed) ha)]
        exact hmapped
  | fail =>
    refine ⟨h.length, h.ids, h.added, h.nodup, rfl, fun _ => ?_, fun item k hk => ?_, fun hrunning => ?_⟩
    · simp only [View.step]
      split_ifs with hfailed
      · exact h.finish hfailed
      · rfl
    · have hmapped := h.mapped item k hk
      simp only [View.step]
      split_ifs <;> exact hmapped
    · cases hrunning

theorem Synced.length_client (h : Synced v) : v.client.toolCalls.length = v.calls.length := by
  rw [h.calls, List.length_map]

theorem Synced.position (h : Synced v) {item : String} (hitem : item ∈ v.seen.added) :
    ∃ i, ∃ hi : i < v.seen.added.length, v.seen.added[i] = item ∧ (v.fragmentIndex item).toUInt64 = callNumber i := by
  obtain ⟨i, hi, rfl⟩ := List.mem_iff_getElem.1 hitem
  refine ⟨i, hi, rfl, ?_⟩
  rw [View.fragmentIndex, h.index i hi]
  rfl

theorem synced_step (hb : Base itemIds v) (h : Synced v) (ha : FreshAction itemIds v.seen a)
    (ho : InOrderAction v.seen a) : Synced (v.step a) := by
  cases a with
  | quiet => exact h
  | text delta =>
    rcases ho with rfl | hrunning
    · refine ⟨?_, ?_, ?_, h.bound, h.index, h.next⟩
      · simp only [View.step, String.append_empty, ite_self]
        exact h.text
      · simp only [View.step, String.append_empty, ite_self]
        exact h.calls
      · simp only [View.step, String.append_empty, ite_self]
        exact h.keys
    · simp only [View.step, hrunning, Bool.false_eq_true, if_false]
      exact ⟨congrArg (· ++ delta) h.text, h.calls, h.keys, h.bound, h.index, h.next⟩
  | call itemId id name =>
    obtain ⟨hrunning, hbound⟩ := ho
    obtain ⟨hnew, -, -⟩ := ha
    have hnumber : v.next.toUInt64 = callNumber v.seen.added.length := by
      rw [h.next]
      rfl
    have hfree : callNumber v.seen.added.length ∉ v.client.toolCalls.map (·.1) := by
      rw [h.keys]
      intro hmem
      obtain ⟨i, hi, heq⟩ := List.mem_map.1 hmem
      have hi := List.mem_range.1 hi
      have heq := callNumber_inj (by omega) hbound heq
      omega
    have hopen : openCall v.client.toolCalls v.next.toUInt64 id name =
        v.client.toolCalls ++ [(callNumber v.seen.added.length, ⟨id, name, ""⟩)] := by
      rw [hnumber, openCall, if_neg hfree]
    simp only [View.step, hrunning, Bool.false_eq_true, if_false, hopen]
    refine ⟨h.text, ?_, ?_, ?_, fun i hi => ?_, ?_⟩
    · rw [List.map_append, ← h.calls]
      rfl
    · rw [List.map_append, h.keys, List.length_append, List.length_singleton, List.range_succ, List.map_append]
      rfl
    · rw [List.length_append, List.length_singleton]
      omega
    · dsimp only
      by_cases hlast : i < v.seen.added.length
      · rw [List.getElem_append_left hlast, Assoc.get_put_of_ne, h.index i hlast]
        rintro heq
        exact hnew (heq ▸ List.getElem_mem hlast)
      · have hi' : i = v.seen.added.length := by
          rw [List.length_append, List.length_singleton] at hi
          omega
        subst hi'
        rw [List.getElem_concat_length rfl, Assoc.get_put_self, h.next]
    · rw [List.length_append, List.length_singleton, h.next, UInt32.ofNat_add]
      rfl
  | fragment itemId delta =>
    obtain ⟨i, hi, hitem, hindex⟩ := h.position ha
    have hpush := pushFragment_callNumber h.keys h.bound hi delta
    rw [← h.calls] at hpush
    have hmem : (v.fragmentIndex itemId).toUInt64 ∈ v.client.toolCalls.map (·.1) := by
      rw [hindex, h.keys]
      exact List.mem_map_of_mem (List.mem_range.2 hi)
    have hboth : v.calls.modify (v.calls.length - 1) (ToolCallBuilder.push delta) = v.calls.modify i (ToolCallBuilder.push delta) := by
      rcases ho with rfl | ⟨-, hlast⟩
      · rw [modify_push_empty, modify_push_empty]
      · rw [hb.length, eq_of_getLast hb.nodup hi (hitem ▸ hlast)]
    cases hfailed : v.seen.failed with
    | true =>
      obtain rfl : delta = "" := by
        rcases ho with rfl | ⟨hrunning, -⟩
        · rfl
        · rw [hfailed] at hrunning
          cases hrunning
      simp only [View.step, hfailed, if_true, modify_push_empty]
      exact ⟨h.text, h.calls, h.keys, h.bound, h.index, h.next⟩
    | false =>
      simp only [View.step, hfailed, Bool.false_eq_true, if_false]
      refine ⟨h.text, ?_, ?_, h.bound, h.index, h.next⟩
      · rw [hboth, hindex, hpush]
      · rw [keys_pushFragment hmem]
        exact h.keys
  | fail =>
    simp only [View.step]
    split_ifs <;> exact ⟨h.text, h.calls, h.keys, h.bound, h.index, h.next⟩

theorem broken_of_not_inOrder (hb : Base itemIds v) (h : Synced v) (ha : FreshAction itemIds v.seen a)
    (ho : ¬ InOrderAction v.seen a) : Broken (v.step a) := by
  cases a with
  | quiet => exact absurd trivial ho
  | text delta =>
    obtain ⟨hdelta, hfailed⟩ := not_or.1 ho
    have hpos : 0 < delta.length := Nat.pos_of_ne_zero fun hzero => hdelta (String.length_eq_zero_iff.1 hzero)
    refine .inr (.inl ?_)
    simp only [View.step, eq_true_of_ne_false hfailed, if_true, String.length_append, h.text]
    omega
  | call itemId id name =>
    refine .inl ?_
    have hlength := h.length_client
    cases hfailed : v.seen.failed with
    | true =>
      simp only [View.step, hfailed, if_true, List.length_append, List.length_singleton]
      omega
    | false =>
      have hfull : v.seen.added.length = 2 ^ 32 := by
        have hbound := h.bound
        have hnot : ¬ v.seen.added.length < 2 ^ 32 := fun hlt => ho ⟨hfailed, hlt⟩
        omega
      have hnumber : v.next.toUInt64 ∈ v.client.toolCalls.map (·.1) := by
        have hnext : v.next.toUInt64 = callNumber 0 := by
          rw [h.next, hfull]
          exact callNumber_wraps
        rw [hnext, h.keys, hfull]
        exact List.mem_map_of_mem (List.mem_range.2 (Nat.two_pow_pos 32))
      simp only [View.step, hfailed, Bool.false_eq_true, if_false, openCall, if_pos hnumber, List.length_map,
        List.length_append, List.length_singleton]
      omega
  | fragment itemId delta =>
    obtain ⟨hdelta, hnot⟩ := not_or.1 ho
    have hpos : 0 < delta.length := Nat.pos_of_ne_zero fun hzero => hdelta (String.length_eq_zero_iff.1 hzero)
    obtain ⟨i, hi, hitem, hindex⟩ := h.position ha
    have hcalls := hb.length
    cases hfailed : v.seen.failed with
    | true =>
      refine .inr (.inr (.inr ⟨hfailed, v.calls.length - 1, ?_⟩))
      simp only [View.step, hfailed, if_true]
      rw [argsLength_modify_self (by omega), ← h.calls]
      omega
    | false =>
      have hlast : v.calls.length - 1 ≠ i := by
        rintro rfl
        refine hnot ⟨hfailed, ?_⟩
        rw [List.getLast?_eq_getElem?, ← hitem, ← hcalls]
        exact List.getElem?_eq_getElem (by omega)
      refine .inr (.inr (.inl ⟨i, ?_, ?_⟩))
      · rw [View.step, List.length_modify]
        omega
      · simp only [View.step, hfailed, Bool.false_eq_true, if_false]
        rw [hindex, pushFragment_callNumber h.keys h.bound hi, ← h.calls, argsLength_modify_self (by omega),
          argsLength_modify_of_ne hlast]
        omega
  | fail => exact absurd trivial ho

theorem broken_step (hb : Base itemIds v) (h : Broken v) (ha : FreshAction itemIds v.seen a) : Broken (v.step a) := by
  cases a with
  | quiet => exact h
  | text delta =>
    rcases h with h | h | h | ⟨hfailed, h⟩
    · refine .inl ?_
      simp only [View.step]
      split_ifs <;> exact h
    · refine .inr (.inl ?_)
      simp only [View.step, String.length_append]
      split_ifs
      · omega
      · rw [String.length_append]
        omega
    · refine .inr (.inr (.inl ?_))
      simp only [View.step]
      split_ifs <;> exact h
    · refine .inr (.inr (.inr ⟨hfailed, ?_⟩))
      simp only [View.step, hfailed, if_true]
      exact h
  | call itemId id name =>
    have happend (i : Nat) (hi : i < v.calls.length) : argsLength (v.calls ++ [⟨id, name, ""⟩]) i = argsLength v.calls i := by
      rw [argsLength, argsLength, List.getElem?_append_left hi]
    rcases h with h | h | ⟨i, hi, h⟩ | ⟨hfailed, i, h⟩
    · refine .inl ?_
      simp only [View.step, List.length_append, List.length_singleton]
      split_ifs
      · omega
      · have hle := length_openCall_le v.client.toolCalls v.next.toUInt64 id name
        dsimp only
        omega
    · refine .inr (.inl ?_)
      simp only [View.step]
      split_ifs <;> exact h
    · refine .inr (.inr (.inl ⟨i, ?_, ?_⟩))
      · simp only [View.step, List.length_append, List.length_singleton]
        omega
      · simp only [View.step]
        rw [happend i (by omega)]
        split_ifs
        · exact h
        · exact h.trans_le (argsLength_openCall_le i)
    · refine .inr (.inr (.inr ⟨hfailed, i, ?_⟩))
      have hi : i < v.calls.length := by
        by_contra hnot
        rw [argsLength, argsLength, List.getElem?_eq_none (not_lt.1 hnot)] at h
        exact absurd h (Nat.not_lt_zero _)
      simp only [View.step, hfailed, if_true]
      rw [happend i hi]
      exact h
  | fragment itemId delta =>
    rcases h with h | h | ⟨i, hi, h⟩ | ⟨hfailed, i, h⟩
    · refine .inl ?_
      simp only [View.step, List.length_modify]
      split_ifs with hfailed
      · exact h
      · rw [length_pushFragment (hb.key_mem (by simpa using hfailed) ha)]
        exact h
    · refine .inr (.inl ?_)
      simp only [View.step]
      split_ifs <;> exact h
    · refine .inr (.inr (.inl ⟨i, ?_, ?_⟩))
      · rw [View.step, List.length_modify]
        exact hi
      · simp only [View.step]
        rw [argsLength_modify_of_ne (by omega)]
        split_ifs
        · exact h
        · exact h.trans_le (argsLength_pushFragment_le i)
    · refine .inr (.inr (.inr ⟨hfailed, i, ?_⟩))
      simp only [View.step, hfailed, if_true]
      exact h.trans_le (argsLength_modify_le _ _ _ _)
  | fail =>
    rcases h with h | h | h | ⟨-, h⟩
    · refine .inl ?_
      simp only [View.step]
      split_ifs <;> exact h
    · refine .inr (.inl ?_)
      simp only [View.step]
      split_ifs <;> exact h
    · refine .inr (.inr (.inl ?_))
      simp only [View.step]
      split_ifs <;> exact h
    · refine .inr (.inr (.inr ⟨rfl, ?_⟩))
      simp only [View.step]
      split_ifs <;> exact h

theorem Broken.not_agree (h : Broken v) (htext : v.text = v.client.text) (hcalls : v.calls = v.client.toolCalls.map (·.2)) :
    False := by
  rcases h with h | h | ⟨i, -, h⟩ | ⟨-, i, h⟩
  · rw [hcalls, List.length_map] at h
    exact lt_irrefl _ h
  · rw [htext] at h
    exact lt_irrefl _ h
  · rw [hcalls] at h
    exact lt_irrefl _ h
  · rw [hcalls] at h
    exact lt_irrefl _ h

end

/-! ### The translators as views -/

/-- The accumulator, and the translator with a client behind it, over the same events. -/
structure Both where
  seen : Seen := {}
  acc : ResponseAccumulator := {}
  state : StreamTranslatorState
  client : ChatClient := {}

namespace Both

def step (s : Both) (event : ResponsesEvent) : Both where
  seen := s.seen.after event
  acc := s.acc.event event
  state := if s.state.finished then s.state else (s.state.translateEvent event).1
  client := if s.state.finished then s.client else s.client.items (s.state.translateEvent event).2

def view (s : Both) : View where
  seen := s.seen
  text := s.acc.text
  calls := s.acc.toolCalls
  errored := s.acc.errored
  map := s.state.toolIndexMap
  next := s.state.nextToolIndex
  client := s.client

end Both

variable {itemIds : List String} {event : ResponsesEvent}

theorem freshAction {seen : Seen} (h : Fresh itemIds seen event) : FreshAction itemIds seen (action event) := by
  cases event with
  | outputItemAdded itemId kind callId name n =>
    simp only [action]
    split_ifs with hkind
    · obtain ⟨hnew, hitem, c, rfl, hc⟩ := h hkind
      exact ⟨hnew, hitem, hc⟩
    · trivial
  | functionCallArgumentsDelta itemId delta n => exact h
  | _ => trivial

theorem inOrderAction_iff {seen : Seen} : InOrderAction seen (action event) ↔ InOrder seen event := by
  cases event with
  | outputItemAdded itemId kind callId name n =>
    simp only [action, InOrder]
    split_ifs with hkind
    · exact ⟨fun h _ => h, fun h => h hkind⟩
    · exact iff_of_true trivial fun hkind' => absurd hkind' hkind
  | _ => exact Iff.rfl

theorem callIndex_of_forall (acc : ResponseAccumulator) (itemId : String) (h : ∀ tc ∈ acc.toolCalls, tc.id ≠ itemId)
    (hne : acc.toolCalls ≠ []) : acc.callIndex itemId = some (acc.toolCalls.length - 1) := by
  have hnone : acc.toolCalls.reverse.findIdx? (fun tc => decide (tc.id = itemId)) = none := by
    rw [List.findIdx?_eq_none_iff]
    intro tc htc
    exact decide_eq_false (h tc (List.mem_reverse.1 htc))
  rw [ResponseAccumulator.callIndex, rposition, hnone, Option.map_none, Option.none_or, if_neg]
  rw [List.isEmpty_iff]
  exact hne

theorem view_step {s : Both} (hfinished : s.state.finished = s.seen.failed) (hb : Base itemIds s.view) (h : Fresh itemIds s.seen event) :
    (s.step event).view = s.view.step (action event) ∧ (s.step event).state.finished = (s.step event).seen.failed := by
  cases event with
  | completed response n => exact absurd h id
  | created id model n =>
    unfold Both.step Both.view
    constructor
    · dsimp only [Seen.after, action, View.step, ResponseAccumulator.event, StreamTranslatorState.translateEvent]
      split_ifs <;> rfl
    · dsimp only [Seen.after, StreamTranslatorState.translateEvent]
      split_ifs <;> exact hfinished
  | outputTextDelta itemId delta n =>
    unfold Both.step Both.view
    rw [items_outputTextDelta]
    constructor
    · dsimp only [Seen.after, action, View.step, ResponseAccumulator.event, StreamTranslatorState.translateEvent]
      rw [hfinished]
      split_ifs <;> rfl
    · dsimp only [Seen.after, StreamTranslatorState.translateEvent]
      split_ifs <;> exact hfinished
  | outputTextDone itemId text n =>
    unfold Both.step Both.view
    constructor
    · dsimp only [Seen.after, action, View.step, ResponseAccumulator.event, StreamTranslatorState.translateEvent]
      split_ifs <;> rfl
    · dsimp only [Seen.after, StreamTranslatorState.translateEvent]
      split_ifs <;> exact hfinished
  | outputItemAdded itemId kind callId name n =>
    by_cases hkind : kind = "function_call"
    · subst hkind
      obtain ⟨-, -, c, rfl, -⟩ := h rfl
      unfold Both.step Both.view
      rw [items_outputItemAdded]
      constructor
      · simp only [Seen.after, action, View.step, ResponseAccumulator.event, StreamTranslatorState.translateEvent, if_true,
          Option.getD_some]
        rw [hfinished]
        split_ifs <;> rfl
      · simp only [Seen.after, StreamTranslatorState.translateEvent, if_true]
        split_ifs <;> exact hfinished
    · unfold Both.step Both.view
      simp only [Seen.after, action, View.step, ResponseAccumulator.event, StreamTranslatorState.translateEvent, if_neg hkind]
      constructor
      · split_ifs <;> rfl
      · split_ifs <;> exact hfinished
  | functionCallArgumentsDelta itemId delta n =>
    have hcalls : s.acc.toolCalls ≠ [] := by
      intro hnil
      have hlength := hb.length
      rw [show s.view.calls = [] from hnil, List.length_nil] at hlength
      exact List.ne_nil_of_mem h (List.eq_nil_of_length_eq_zero hlength.symm)
    have hindex := callIndex_of_forall s.acc itemId
      (fun tc htc heq => hb.ids tc htc (heq ▸ hb.added itemId h)) hcalls
    unfold Both.step Both.view
    rw [items_functionCallArgumentsDelta]
    constructor
    · dsimp only [Seen.after, action, View.step, ResponseAccumulator.event, StreamTranslatorState.translateEvent]
      rw [hfinished, hindex]
      split_ifs <;> rfl
    · dsimp only [Seen.after, StreamTranslatorState.translateEvent]
      split_ifs <;> exact hfinished
  | failed error n =>
    unfold Both.step Both.view
    rw [items_failed]
    constructor
    · dsimp only [Seen.after, action, View.step, ResponseAccumulator.event, StreamTranslatorState.translateEvent]
      rw [hfinished]
      split_ifs <;> rfl
    · dsimp only [Seen.after, StreamTranslatorState.translateEvent]
      split_ifs with h
      · exact h
      · rfl
  | error error n =>
    unfold Both.step Both.view
    rw [items_error]
    constructor
    · dsimp only [Seen.after, action, View.step, ResponseAccumulator.event, StreamTranslatorState.translateEvent]
      rw [hfinished]
      split_ifs <;> rfl
    · dsimp only [Seen.after, StreamTranslatorState.translateEvent]
      split_ifs with h
      · exact h
      · rfl
  | other kind n =>
    unfold Both.step Both.view
    constructor
    · dsimp only [Seen.after, action, View.step, ResponseAccumulator.event, StreamTranslatorState.translateEvent]
      split_ifs <;> rfl
    · dsimp only [Seen.after, StreamTranslatorState.translateEvent]
      split_ifs <;> exact hfinished

theorem readToolCall_toJson (tc : ToolCallBuilder) : readToolCall tc.toJson = tc := by
  simp [readToolCall, ToolCallBuilder.toJson, strAt, functionAt, Json.get, Assoc.get, Json.asStr]

theorem ofBody_body (acc : ResponseAccumulator) (createdTs : UInt64) :
    ChatMessage.ofBody (acc.body createdTs) = some ⟨acc.text, acc.toolCalls, some acc.finishReasonStr⟩ := by
  have hchoice : (itemsAt (acc.body createdTs) "choices").head? =
      some (.object [("finish_reason", .string acc.finishReasonStr), ("index", .number (.posInt 0)), ("message", acc.message)]) := by
    simp [ResponseAccumulator.body, itemsAt, Json.get, Assoc.get, Json.asArray]
  have htext : (strAt acc.message "content").getD "" = acc.text := by
    have hcontent : acc.message.get "content" = some acc.content := by
      simp [ResponseAccumulator.message, Json.get, Assoc.get]
    rw [strAt, hcontent, Option.bind_some, ResponseAccumulator.content]
    by_cases hempty : acc.text.isEmpty = true
    · rw [String.isEmpty_iff.1 hempty]
      cases acc.toolCalls <;> rfl
    · simp [hempty, Json.asStr]
  have hcalls : (itemsAt acc.message "tool_calls").map readToolCall = acc.toolCalls := by
    have hread : acc.toolCalls.map (readToolCall ∘ ToolCallBuilder.toJson) = acc.toolCalls :=
      (List.map_congr_left fun tc _ => readToolCall_toJson tc).trans (List.map_id _)
    rcases hnil : acc.toolCalls with _ | ⟨tc, more⟩
    · simp [ResponseAccumulator.message, hnil, itemsAt, Json.get, Assoc.get]
    rw [hnil] at hread
    simp only [ResponseAccumulator.message, hnil, itemsAt, Json.get, Assoc.get]
    simpa [Json.asArray] using hread
  unfold ChatMessage.ofBody
  rw [hchoice]
  simp [Json.get, Assoc.get, strAt, Json.asStr, hcalls] at htext ⊢
  exact htext

def ChatClient.take (client : ChatClient) (items : List (Except TranslateError StreamItem)) : ChatClient :=
  items.foldl (fun client item => item.toOption.elim client client.item) client

theorem take_map_ok (client : ChatClient) (items : List StreamItem) : client.take (items.map .ok) = client.items items := by
  rw [ChatClient.take, List.foldl_map]
  rfl

theorem take_append (client : ChatClient) (items more : List (Except TranslateError StreamItem)) :
    client.take (items ++ more) = (client.take items).take more := List.foldl_append

theorem items_of_finished {state : StreamTranslatorState} (h : state.finished = true) (events : List ResponsesEvent) :
    state.items events = [] := by
  cases events <;> simp [StreamTranslatorState.items, h]

theorem step_of_finished {s : Both} (h : s.state.finished = true) (event : ResponsesEvent) :
    (s.step event).state = s.state ∧ (s.step event).client = s.client := by
  simp [Both.step, h]

theorem run_of_finished {s : Both} (h : s.state.finished = true) (events : List ResponsesEvent) :
    (Run.run Both.step s events).state = s.state ∧ (Run.run Both.step s events).client = s.client := by
  induction events generalizing s with
  | nil => exact ⟨rfl, rfl⟩
  | cons event events ih =>
    obtain ⟨hstate, hclient⟩ := step_of_finished h event
    obtain ⟨hrun, hrunClient⟩ := ih (s := s.step event) (by rw [hstate]; exact h)
    exact ⟨hrun.trans hstate, hrunClient.trans hclient⟩

theorem take_items (s : Both) (events : List ResponsesEvent) (response : CompletedPayload) (n : UInt64) :
    s.client.take (s.state.items (events ++ [.completed response n])) =
      if (Run.run Both.step s events).state.finished then (Run.run Both.step s events).client
      else { (Run.run Both.step s events).client with finishReason := some (finishReason response) } := by
  induction events generalizing s with
  | nil =>
    rw [List.nil_append, Run.run_nil]
    cases hfinished : s.state.finished with
    | true => simp [items_of_finished hfinished, ChatClient.take]
    | false =>
      have hend : (s.state.translateEvent (.completed response n)).1.items [] = [] := items_of_finished rfl []
      rw [StreamTranslatorState.items, if_neg (by rw [hfinished]; exact Bool.false_ne_true), hend, List.append_nil, take_map_ok,
        items_completed]
      simp
  | cons event events ih =>
    rw [Run.run_cons, List.cons_append]
    cases hfinished : s.state.finished with
    | true =>
      obtain ⟨hstate, hclient⟩ := step_of_finished hfinished event
      obtain ⟨hrun, hrunClient⟩ := run_of_finished (s := s.step event) (by rw [hstate]; exact hfinished) events
      rw [items_of_finished hfinished, hrun, hrunClient, hstate, hclient, hfinished]
      simp [ChatClient.take]
    | false =>
      have hnext := ih (s.step event)
      have hstate : (s.step event).state = (s.state.translateEvent event).1 := by simp [Both.step, hfinished]
      have hclient : (s.step event).client = s.client.items (s.state.translateEvent event).2 := by simp [Both.step, hfinished]
      rw [StreamTranslatorState.items, if_neg (by rw [hfinished]; exact Bool.false_ne_true), take_append, take_map_ok, ← hclient,
        ← hstate, hnext]

/-! ### What is carried -/

section
variable {acc : ResponseAccumulator} {event : ResponsesEvent} {events : List ResponsesEvent}

theorem run_acc (s : Both) (events : List ResponsesEvent) :
    (Run.run Both.step s events).acc = events.foldl ResponseAccumulator.event s.acc := by
  induction events generalizing s with
  | nil => rfl
  | cons event events ih => exact ih (s.step event)

theorem event_le (acc : ResponseAccumulator) (h : ∀ response n, event ≠ .completed response n) :
    acc.text.length ≤ (acc.event event).text.length ∧ acc.toolCalls.length ≤ (acc.event event).toolCalls.length := by
  cases event with
  | completed response n => exact absurd rfl (h response n)
  | outputTextDelta itemId delta n =>
    refine ⟨?_, le_refl _⟩
    simp only [ResponseAccumulator.event, String.length_append]
    omega
  | outputItemAdded itemId kind callId name n =>
    unfold ResponseAccumulator.event
    dsimp only
    split_ifs
    · refine ⟨le_refl _, ?_⟩
      rw [List.length_append]
      omega
    · exact ⟨le_refl _, le_refl _⟩
  | functionCallArgumentsDelta itemId delta n =>
    unfold ResponseAccumulator.event
    dsimp only
    split
    · refine ⟨le_refl _, ?_⟩
      rw [List.length_modify]
    · exact ⟨le_refl _, le_refl _⟩
  | _ => exact ⟨le_refl _, le_refl _⟩

theorem foldl_event_le (acc : ResponseAccumulator) (events : List ResponsesEvent)
    (h : ∀ event ∈ events, ∀ response n, event ≠ .completed response n) :
    acc.text.length ≤ (events.foldl ResponseAccumulator.event acc).text.length ∧
      acc.toolCalls.length ≤ (events.foldl ResponseAccumulator.event acc).toolCalls.length := by
  induction events generalizing acc with
  | nil => exact ⟨le_refl _, le_refl _⟩
  | cons event events ih =>
    obtain ⟨hevent, hevents⟩ := List.forall_mem_cons.1 h
    obtain ⟨htext, hcalls⟩ := event_le acc hevent
    obtain ⟨htexts, hcallss⟩ := ih (acc.event event) hevents
    exact ⟨htext.trans htexts, hcalls.trans hcallss⟩

theorem foldl_event_pos (h : ∀ event ∈ events, ∀ response n, event ≠ .completed response n) (hmem : event ∈ events) :
    ((∃ itemId delta n, event = .outputTextDelta itemId delta n ∧ delta ≠ "") →
      (events.foldl ResponseAccumulator.event acc).text ≠ "") ∧
    ((callItem event).isSome = true → (events.foldl ResponseAccumulator.event acc).toolCalls ≠ []) := by
  obtain ⟨before, after, rfl⟩ := List.append_of_mem hmem
  rw [List.foldl_append, List.foldl_cons]
  generalize before.foldl ResponseAccumulator.event acc = acc
  obtain ⟨htext, hcalls⟩ := foldl_event_le (acc.event event) after fun e he =>
    h e (List.mem_append_right _ (List.mem_cons_of_mem _ he))
  constructor
  · rintro ⟨itemId, delta, n, rfl, hdelta⟩ hempty
    rw [hempty, ResponseAccumulator.event, String.length_append] at htext
    have hzero : delta.length = 0 := by
      have hlength : "".length = 0 := rfl
      omega
    exact hdelta (String.length_eq_zero_iff.1 hzero)
  · intro hitem hnil
    rw [hnil] at hcalls
    cases event with
    | outputItemAdded itemId kind callId name n =>
      simp only [callItem] at hitem
      split_ifs at hitem with hkind
      · rw [ResponseAccumulator.event, if_pos hkind, List.length_append] at hcalls
        simp at hcalls
      · cases hitem
    | _ => cases hitem

theorem backfill_foldl {text : String} (h : text ≠ "") (texts : List String) :
    texts.foldl (fun text t => if text.isEmpty then text ++ t else text) text = text := by
  induction texts with
  | nil => rfl
  | cons t texts ih =>
    have hempty : text.isEmpty = false := by
      rw [← Bool.not_eq_true, String.isEmpty_iff]
      exact h
    rw [List.foldl_cons, if_neg (by rw [hempty]; exact Bool.false_ne_true), ih]

theorem backfill_foldl_empty {texts : List String} (h : ∀ t ∈ texts, t = "") :
    texts.foldl (fun text t => if text.isEmpty then text ++ t else text) "" = "" := by
  induction texts with
  | nil => rfl
  | cons t texts ih =>
    obtain ⟨rfl, hrest⟩ := List.forall_mem_cons.1 h
    rw [List.foldl_cons, String.append_empty, ite_self, ih hrest]

theorem Carried.backfill {response : CompletedPayload} (h : Carried events response) (acc : ResponseAccumulator)
    (hevents : ∀ event ∈ events, ∀ response n, event ≠ .completed response n) :
    backfillText (events.foldl ResponseAccumulator.event acc).text response.output =
        (events.foldl ResponseAccumulator.event acc).text ∧
      backfillToolCalls (events.foldl ResponseAccumulator.event acc).toolCalls response.output =
        (events.foldl ResponseAccumulator.event acc).toolCalls := by
  constructor
  · by_cases htexts : ∃ t ∈ outputTexts response.output, t ≠ ""
    · obtain ⟨itemId, delta, n, hmem, hdelta⟩ := h.text htexts
      exact backfill_foldl ((foldl_event_pos hevents hmem).1 ⟨itemId, delta, n, rfl, hdelta⟩) _
    · have hempty : ∀ t ∈ outputTexts response.output, t = "" := fun t ht => by
        by_contra hne
        exact htexts ⟨t, ht, hne⟩
      by_cases htext : (events.foldl ResponseAccumulator.event acc).text = ""
      · rw [htext]
        exact backfill_foldl_empty hempty
      · exact backfill_foldl htext _
  · unfold backfillToolCalls
    by_cases hcalls : ∃ item ∈ response.output, item.kind = "function_call"
    · obtain ⟨event, hmem, hitem⟩ := h.calls hcalls
      exact if_neg fun hnil => (foldl_event_pos hevents hmem).2 hitem (List.isEmpty_iff.1 hnil)
    · have hfilter : response.output.filter (fun item => decide (item.kind = "function_call")) = [] :=
        List.filter_eq_nil_iff.2 fun item hitem hkind => hcalls ⟨item, hitem, of_decide_eq_true hkind⟩
      rw [hfilter]
      split_ifs with hnil
      · exact (List.isEmpty_iff.1 hnil).symm
      · rfl

end

theorem base_init (itemIds : List String) (state : StreamTranslatorState) (h : state.toolIndexMap = []) :
    Base itemIds ({ state := state } : Both).view := by
  refine ⟨rfl, fun _ h => absurd h List.not_mem_nil, fun _ h => absurd h List.not_mem_nil, List.nodup_nil, rfl, fun h => ?_,
    fun item k hk => ?_, fun _ _ h => absurd h List.not_mem_nil⟩
  · cases h
  · have hk : Assoc.get state.toolIndexMap item = some k := hk
    rw [h] at hk
    cases hk

theorem synced_init (state : StreamTranslatorState) (h : state.nextToolIndex = 0) :
    Synced ({ state := state } : Both).view :=
  ⟨rfl, rfl, rfl, Nat.zero_le _, fun _ h => absurd h (Nat.not_lt_zero _), h⟩

theorem not_completed_of_fresh {seen : Seen} {events : List ResponsesEvent}
    (h : Run.Along Seen.after (Fresh itemIds) seen events) : ∀ event ∈ events, ∀ response n, event ≠ .completed response n := by
  induction events generalizing seen with
  | nil => exact fun _ h => absurd h List.not_mem_nil
  | cons event events ih =>
    refine List.forall_mem_cons.2 ⟨?_, ih h.2⟩
    rintro response n rfl
    exact h.1

theorem messages_eq_iff (s₀ : Both) (hacc : s₀.acc = {}) (hclient : s₀.client = {})
    {events : List ResponsesEvent} {response : CompletedPayload} (n : UInt64) (createdTs : UInt64)
    (hnot : ∀ event ∈ events, ∀ response n, event ≠ .completed response n) (hcarried : Carried events response)
    (hfinished : (Run.run Both.step s₀ events).state.finished = (Run.run Both.step s₀ events).seen.failed)
    (hbase : Base itemIds (Run.run Both.step s₀ events).view) :
    (accumulate createdTs (events ++ [.completed response n])).toOption.bind ChatMessage.ofBody =
        some (ChatMessage.ofItems (s₀.state.items (events ++ [.completed response n]))) ↔
      (Run.run Both.step s₀ events).view.text = (Run.run Both.step s₀ events).view.client.text ∧
        (Run.run Both.step s₀ events).view.calls = (Run.run Both.step s₀ events).view.client.toolCalls.map (·.2) := by
  have hitems : ChatMessage.ofItems (s₀.state.items (events ++ [.completed response n])) =
      (s₀.client.take (s₀.state.items (events ++ [.completed response n]))).message := by
    rw [hclient]
    rfl
  have hrun := run_acc s₀ events
  have hbackfill := hcarried.backfill s₀.acc hnot
  rw [← hrun] at hbackfill
  have haccumulate : (accumulate createdTs (events ++ [.completed response n])).toOption.bind ChatMessage.ofBody =
      some ⟨(Run.run Both.step s₀ events).acc.text, (Run.run Both.step s₀ events).acc.toolCalls,
        some (if (Run.run Both.step s₀ events).acc.errored then "error" else finishReason response)⟩ := by
    have hfold : (events ++ [ResponsesEvent.completed response n]).foldl ResponseAccumulator.event {} =
        (Run.run Both.step s₀ events).acc.event (.completed response n) := by
      rw [List.foldl_append, hrun, hacc]
      rfl
    unfold accumulate
    rw [hfold, if_pos (by rfl)]
    show ChatMessage.ofBody _ = _
    rw [ofBody_body]
    simp only [ResponseAccumulator.event, hbackfill.1, hbackfill.2, ResponseAccumulator.finishReasonStr, Option.getD_some]
  rw [haccumulate, hitems, take_items, hfinished]
  have herrored : (Run.run Both.step s₀ events).acc.errored = (Run.run Both.step s₀ events).seen.failed := hbase.errored
  rw [herrored, Option.some_inj]
  cases hfailed : (Run.run Both.step s₀ events).seen.failed with
  | true =>
    have hfinish : (Run.run Both.step s₀ events).client.finishReason = some "error" := hbase.finish hfailed
    simp [ChatClient.message, Both.view, hfinish]
  | false => simp [ChatClient.message, Both.view]

/-- The accumulated message is what a client makes of the stream when, and only when, the events are in order. -/
theorem codex_answers (createdTs createdTs' : UInt64) (model : String) {events : List ResponsesEvent}
    {response : CompletedPayload} (n : UInt64) (hevents : WellFormed events) (hcarried : Carried events response) :
    (accumulate createdTs (events ++ [.completed response n])).toOption.bind ChatMessage.ofBody =
        some (ChatMessage.ofItems (streamTranslate createdTs' (events ++ [.completed response n]) model)) ↔
      Run.Along Seen.after InOrder {} events := by
  have hnot := not_completed_of_fresh hevents
  let s₀ : Both := { state := { model := model, createdTs := createdTs' } }
  let itemIds := events.filterMap callItem
  have hfresh : Run.Along Both.step (fun s e => Fresh itemIds s.seen e) s₀ events :=
    (Run.along_proj fun _ _ => rfl).2 hevents
  have horder : Run.Along Both.step (fun s e => InOrder s.seen e) s₀ events ↔ Run.Along Seen.after InOrder {} events :=
    Run.along_proj fun _ _ => rfl
  have hstart : s₀.state.finished = s₀.seen.failed ∧ Base itemIds s₀.view := ⟨rfl, base_init itemIds _ rfl⟩
  have hJ (s : Both) (e : ResponsesEvent) (h : s.state.finished = s.seen.failed ∧ Base itemIds s.view)
      (he : Fresh itemIds s.seen e) : (s.step e).state.finished = (s.step e).seen.failed ∧ Base itemIds (s.step e).view := by
    obtain ⟨hview, hfinished⟩ := view_step h.1 h.2 he
    refine ⟨hfinished, ?_⟩
    rw [hview]
    exact base_step h.2 (freshAction he)
  obtain ⟨hfinished, hbase⟩ := Run.invariant (I := fun s : Both => s.state.finished = s.seen.failed ∧ Base itemIds s.view)
    hJ hstart hfresh
  have hend := Run.invariant_or_broken (J := fun s : Both => s.state.finished = s.seen.failed ∧ Base itemIds s.view)
    (I := fun s : Both => Synced s.view) (B := fun s : Both => Broken s.view) (P := fun s e => InOrder s.seen e) hJ
    (fun s e h he hs ho => by
      rw [(view_step h.1 h.2 he).1]
      exact synced_step h.2 hs (freshAction he) (inOrderAction_iff.2 ho))
    (fun s e h he hs ho => by
      rw [(view_step h.1 h.2 he).1]
      exact broken_of_not_inOrder h.2 hs (freshAction he) fun ho' => ho (inOrderAction_iff.1 ho'))
    (fun s e h he hs => by
      rw [(view_step h.1 h.2 he).1]
      exact broken_step h.2 hs (freshAction he))
    hstart (synced_init _ rfl) hfresh
  rw [← horder]
  refine (messages_eq_iff s₀ rfl rfl n createdTs hnot hcarried hfinished hbase).trans ?_
  rcases hend with ⟨halong, hsynced⟩ | ⟨halong, hbroken⟩
  · exact iff_of_true ⟨hsynced.text, hsynced.calls⟩ halong
  · exact iff_of_false (fun h => hbroken.not_agree h.1 h.2) halong

def weatherCall (itemId callId : String) : ResponsesEvent := .outputItemAdded itemId "function_call" (some callId) (some "weather") 0

def plainResponse : CompletedPayload := ⟨"resp", "model", [], none, none⟩

def crossedEvents : List ResponsesEvent :=
  [weatherCall "fc_1" "call_1", weatherCall "fc_2" "call_2", .functionCallArgumentsDelta "fc_1" "paris" 0]

theorem crossed_answers : WellFormed crossedEvents ∧ Carried crossedEvents plainResponse ∧
    (accumulate 0 (crossedEvents ++ [.completed plainResponse 0])).toOption.bind ChatMessage.ofBody =
      some ⟨"", [⟨"call_1", "weather", ""⟩, ⟨"call_2", "weather", "paris"⟩], some "stop"⟩ ∧
    (accumulate 0 (crossedEvents ++ [.completed plainResponse 0])).toOption.bind ChatMessage.ofBody ≠
      some (ChatMessage.ofItems (streamTranslate 0 (crossedEvents ++ [.completed plainResponse 0]) "model")) := by
  refine ⟨?_, ⟨?_, ?_⟩, by decide +kernel, by decide +kernel⟩
  · simp [WellFormed, crossedEvents, weatherCall, Run.Along, Fresh, Seen.after, callItem]
  · rintro ⟨t, ht, -⟩
    cases ht
  · rintro ⟨item, hitem, -⟩
    cases hitem

def orderedEvents : List ResponsesEvent :=
  [weatherCall "fc_1" "call_1", .functionCallArgumentsDelta "fc_1" "paris" 0, weatherCall "fc_2" "call_2",
    .outputTextDelta "msg_1" "Let us see." 0, .functionCallArgumentsDelta "fc_2" "rome" 0]

theorem codex_answers_ordered :
    (accumulate 0 (orderedEvents ++ [.completed plainResponse 0])).toOption.bind ChatMessage.ofBody =
      some (ChatMessage.ofItems (streamTranslate 0 (orderedEvents ++ [.completed plainResponse 0]) "model")) := by
  refine (codex_answers 0 0 "model" 0 ?_ ⟨?_, ?_⟩).2 ?_
  · simp [WellFormed, orderedEvents, weatherCall, Run.Along, Fresh, Seen.after, callItem]
  · rintro ⟨t, ht, -⟩
    cases ht
  · rintro ⟨item, hitem, -⟩
    cases hitem
  · simp [orderedEvents, weatherCall, Run.Along, InOrder, Seen.after]

end ObeyGateway.Codex
