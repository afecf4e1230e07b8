import ObeyGateway.Compression.Links

/-!
# Cache breakpoints

`router/cache_inject.rs`. Markers that the client has set are stripped; then at most one marker less than
the provider accepts is placed: on the last tool definition, on the first system message, and on the
newest message of the conversation's tail, where the oldest of the others makes room when all are taken.
-/

namespace ObeyGateway.Router.CacheInject

open Models
open Json (NumberText)
open Compression (rposition)

def cacheControlKey : String := "cache_control"

structure CacheInjectorConfig where
  maxBreakpoints : UInt32
  cacheMinTokens : UInt32

structure CacheUsage where
  cacheCreationInputTokens : UInt64

inductive CacheInjectError
  | tooManyBreakpoints (placed maxBreakpoints : Nat)

inductive Marker
  | lastToolDefinition
  | message (index : Nat)
deriving DecidableEq

def ephemeralMarker : Json := .object [("type", .string "ephemeral")]

/-- `map.remove(CACHE_CONTROL_KEY)`, if the value is a map -/
def unmarkValue : Json → Json
  | .object map => .object (Assoc.erase map cacheControlKey)
  | value => value

/-- `map.insert(CACHE_CONTROL_KEY, ephemeral_marker())`, if the value is a map -/
def markValue : Json → Option Json
  | .object map => some (.object (Assoc.insert map cacheControlKey ephemeralMarker))
  | _ => none

def hasMarker (value : Json) : Bool := (value.get cacheControlKey).isSome

def markLastBlock : List Json → Option (List Json)
  | [] => none
  | block :: blocks =>
    match markLastBlock blocks with
    | some blocks' => some (block :: blocks')
    | none => (markValue block).map (· :: blocks)

/-- `tools.last_mut()?.as_object_mut()`, changed by `f` -/
def modifyLast (f : Json → Json) : List Json → List Json
  | [] => []
  | [tool] => [f tool]
  | tool :: tools => tool :: modifyLast f tools

theorem nodupKeys_unmarkValue {value : Json} (h : value.nodupKeys = true) : (unmarkValue value).nodupKeys = true := by
  cases value with
  | object map =>
    rw [Json.nodupKeys_object] at h
    exact Json.nodupKeys_object.2 ⟨Assoc.nodup_erase h.1, fun f hf => h.2 f (List.mem_filter.1 hf).1⟩
  | _ => exact h

theorem nodupKeys_markValue {value value' : Json} (h : value.nodupKeys = true) (hm : markValue value = some value') :
    value'.nodupKeys = true := by
  cases value with
  | object map =>
    cases hm
    exact Json.nodupKeys_insert h rfl
  | _ => cases hm

theorem nodupKeys_markLastBlock {blocks blocks' : List Json} (h : ∀ b ∈ blocks, b.nodupKeys = true)
    (hm : markLastBlock blocks = some blocks') : ∀ b ∈ blocks', b.nodupKeys = true := by
  induction blocks generalizing blocks' with
  | nil => cases hm
  | cons block blocks ih =>
    rw [List.forall_mem_cons] at h
    rw [markLastBlock] at hm
    split at hm
    · rename_i rest hrest
      cases hm
      exact List.forall_mem_cons.2 ⟨h.1, ih h.2 hrest⟩
    · obtain ⟨b, hb, rfl⟩ := Option.map_eq_some_iff.1 hm
      exact List.forall_mem_cons.2 ⟨nodupKeys_markValue h.1 hb, h.2⟩

theorem nodupKeys_modifyLast {f : Json → Json} (hf : ∀ v, v.nodupKeys = true → (f v).nodupKeys = true)
    {tools : List Json} (h : ∀ t ∈ tools, t.nodupKeys = true) : ∀ t ∈ modifyLast f tools, t.nodupKeys = true := by
  induction tools with
  | nil => exact h
  | cons tool tools ih =>
    rw [List.forall_mem_cons] at h
    cases tools with
    | nil => exact List.forall_mem_cons.2 ⟨hf _ h.1, by simp⟩
    | cons tool' tools => exact List.forall_mem_cons.2 ⟨h.1, ih h.2⟩

theorem notMem_extra {key : String} {message : Message} {extra : Json.Map} (hne : key ≠ cacheControlKey)
    (hkey : key ∉ Assoc.keys message.extra)
    (hkeys : ∀ k ∈ Assoc.keys extra, k = cacheControlKey ∨ k ∈ Assoc.keys message.extra) : key ∉ Assoc.keys extra := by
  intro h
  rcases hkeys key h with h | h
  · exact hne h
  · exact hkey h

theorem role_ne_key : "role" ≠ cacheControlKey := by decide

theorem content_ne_key : "content" ≠ cacheControlKey := by decide

def withParts (message : Message) (content : Json) (extra : Json.Map) (hcontent : content.nodupKeys = true)
    (hextra : (Json.object extra).nodupKeys = true)
    (hkeys : ∀ k ∈ Assoc.keys extra, k = cacheControlKey ∨ k ∈ Assoc.keys message.extra) : Message where
  role := message.role
  content
  extra
  content_nodup := hcontent
  extra_nodup := hextra
  extra_role := notMem_extra role_ne_key message.extra_role hkeys
  extra_content := notMem_extra content_ne_key message.extra_content hkeys

def unmarkContent : Json → Json
  | .array blocks => .array (blocks.map unmarkValue)
  | content => content

theorem nodupKeys_unmarkContent {content : Json} (h : content.nodupKeys = true) :
    (unmarkContent content).nodupKeys = true := by
  cases content with
  | array blocks =>
    rw [Json.nodupKeys_array] at h
    refine Json.nodupKeys_array.2 fun v hv => ?_
    obtain ⟨b, hb, rfl⟩ := List.mem_map.1 hv
    exact nodupKeys_unmarkValue (h b hb)
  | _ => exact h

/-- What `strip_client_markers` does to each message, too. -/
def unmarkMessage (message : Message) : Message :=
  withParts message (unmarkContent message.content) (Assoc.erase message.extra cacheControlKey)
    (nodupKeys_unmarkContent message.content_nodup) (nodupKeys_unmarkValue message.extra_nodup)
    fun _ hk => .inr (Assoc.mem_keys_erase.1 hk).2

def wrapped (text : String) : Json :=
  .object [("cache_control", ephemeralMarker), ("text", .string text), ("type", .string "text")]

def markContent : Json → Option Json
  | .string text => some (.array [wrapped text])
  | .array blocks => (markLastBlock blocks).map .array
  | _ => none

theorem nodupKeys_markContent {content content' : Json} (h : content.nodupKeys = true)
    (hm : markContent content = some content') : content'.nodupKeys = true := by
  cases content with
  | string text =>
    cases hm
    rfl
  | array blocks =>
    obtain ⟨blocks', hb, rfl⟩ := Option.map_eq_some_iff.1 hm
    exact Json.nodupKeys_array.2 (nodupKeys_markLastBlock (Json.nodupKeys_array.1 h) hb)
  | _ => cases hm

def markMessage (message : Message) : Message :=
  match h : markContent message.content with
  | some content =>
    withParts message content message.extra (nodupKeys_markContent message.content_nodup h) message.extra_nodup
      fun _ hk => .inr hk
  | none =>
    withParts message message.content (Assoc.insert message.extra cacheControlKey ephemeralMarker) message.content_nodup
      (Json.nodupKeys_insert message.extra_nodup rfl) fun _ hk => Assoc.mem_keys_insert.1 hk

def messageHasMarker (message : Message) : Bool :=
  if (Assoc.get message.extra cacheControlKey).isSome then true
  else
    match message.content with
    | .array blocks => blocks.any hasMarker
    | _ => false

/-- `request.extra.get_mut("tools")`, changed by `f` if it is an array -/
def modifyTools (f : List Json → List Json) : Json → Json
  | .array tools => .array (f tools)
  | value => value

def modifyToolsField (f : List Json → List Json) (extra : Json.Map) : Json.Map :=
  extra.map fun p => (p.1, if p.1 = "tools" then modifyTools f p.2 else p.2)

theorem nodupKeys_modifyTools {f : List Json → List Json} {value : Json}
    (hf : ∀ tools, (∀ t ∈ tools, t.nodupKeys = true) → ∀ t ∈ f tools, t.nodupKeys = true)
    (h : value.nodupKeys = true) : (modifyTools f value).nodupKeys = true := by
  cases value with
  | array tools => exact Json.nodupKeys_array.2 (hf tools (Json.nodupKeys_array.1 h))
  | _ => exact h

theorem nodupKeys_modifyToolsField {f : List Json → List Json} {extra : Json.Map}
    (hf : ∀ tools, (∀ t ∈ tools, t.nodupKeys = true) → ∀ t ∈ f tools, t.nodupKeys = true)
    (h : (Json.object extra).nodupKeys = true) : (Json.object (modifyToolsField f extra)).nodupKeys = true := by
  rw [Json.nodupKeys_object] at h
  rw [modifyToolsField, Json.nodupKeys_object, Assoc.keys_map]
  refine ⟨h.1, fun p hp => ?_⟩
  obtain ⟨q, hq, rfl⟩ := List.mem_map.1 hp
  dsimp only
  split
  · exact nodupKeys_modifyTools hf (h.2 q hq)
  · exact h.2 q hq

def withTools (request : OpenAIRequest) (f : List Json → List Json)
    (hf : ∀ tools, (∀ t ∈ tools, t.nodupKeys = true) → ∀ t ∈ f tools, t.nodupKeys = true) : OpenAIRequest :=
  { request with
    extra := modifyToolsField f request.extra
    extra_nodup := nodupKeys_modifyToolsField hf request.extra_nodup }

def tools (request : OpenAIRequest) : List Json := ((Assoc.get request.extra "tools").bind Json.asArray).getD []

/-- `last_tool_definition_mut(request).is_some()` -/
def hasLastToolDefinition (request : OpenAIRequest) : Bool :=
  ((tools request).getLast?.bind Json.asObject).isSome

def lastToolDefinitionHasMarker (request : OpenAIRequest) : Bool := (tools request).getLast?.any hasMarker

theorem nodupKeys_getD_markValue {value : Json} (h : value.nodupKeys = true) :
    ((markValue value).getD value).nodupKeys = true := by
  cases hm : markValue value with
  | none => exact h
  | some value' => exact nodupKeys_markValue h hm

def markLastToolDefinition (request : OpenAIRequest) : OpenAIRequest :=
  withTools request (modifyLast fun t => (markValue t).getD t)
    fun _ => nodupKeys_modifyLast fun _ => nodupKeys_getD_markValue

def unmarkLastToolDefinition (request : OpenAIRequest) : OpenAIRequest :=
  withTools request (modifyLast unmarkValue) fun _ => nodupKeys_modifyLast fun _ => nodupKeys_unmarkValue

theorem nodupKeys_map_unmarkValue {items : List Json} (h : ∀ t ∈ items, t.nodupKeys = true) :
    ∀ t ∈ items.map unmarkValue, t.nodupKeys = true := by
  intro t ht
  obtain ⟨u, hu, rfl⟩ := List.mem_map.1 ht
  exact nodupKeys_unmarkValue (h u hu)

def stripClientMarkers (request : OpenAIRequest) : OpenAIRequest :=
  { withTools request (·.map unmarkValue) (fun _ => nodupKeys_map_unmarkValue) with
    messages := request.messages.map unmarkMessage }

/-- `u64::saturating_add` -/
def saturatingAdd (a b : Nat) : Nat := min (a + b) (2 ^ 64 - 1)

def isCjk (c : Char) : Bool :=
  [(0x2E80, 0x2EFF), (0x2F00, 0x2FDF), (0x3040, 0x30FF), (0x3100, 0x312F), (0x31A0, 0x31BF), (0x31C0, 0x31EF),
    (0x3400, 0x4DBF), (0x4E00, 0x9FFF), (0xAC00, 0xD7AF), (0xF900, 0xFAFF), (0x20000, 0x2FA1F)].any
      fun range => range.1 ≤ c.toNat && c.toNat ≤ range.2

/-- `TokenCounter::estimate_heuristic` -/
def estimateHeuristic (text : List Char) : Nat :=
  if text.isEmpty then 0
  else
    let totalChars := text.length
    let cjkChars := text.countP isCjk
    let charsPerToken := if min (totalChars * 30) (2 ^ 64 - 1) < min (cjkChars * 100) (2 ^ 64 - 1) then 2 else 4
    min ((totalChars + charsPerToken - 1) / charsPerToken) (2 ^ 32 - 1)

section
variable (numbers : NumberText)

def estimateValueTokens (value : Json) : Nat := estimateHeuristic (value.print numbers)

def estimateBlockTokens (block : Json) : Nat :=
  match (block.get "text").bind Json.asStr with
  | some text => estimateHeuristic text.toList
  | none => estimateValueTokens numbers block

def estimateContentTokens : Json → Nat
  | .null => 0
  | .string text => estimateHeuristic text.toList
  | .array blocks => (blocks.map (estimateBlockTokens numbers)).foldl saturatingAdd 0
  | other => estimateValueTokens numbers other

def estimateMessageTokens (message : Message) : Nat :=
  let tokens := saturatingAdd (estimateHeuristic message.role.toList) 4
  let tokens := saturatingAdd tokens (estimateContentTokens numbers message.content)
  message.extra.foldl
    (fun tokens p => saturatingAdd (saturatingAdd tokens (estimateHeuristic p.1.toList)) (estimateValueTokens numbers p.2))
    tokens

def toolsTokens (request : OpenAIRequest) : Nat :=
  ((Assoc.get request.extra "tools").map (estimateValueTokens numbers)).getD 0

def prefixInclusiveFrom (cumulative : Nat) : List Message → List Nat
  | [] => []
  | message :: messages =>
    let cumulative := saturatingAdd cumulative (estimateMessageTokens numbers message)
    cumulative :: prefixInclusiveFrom cumulative messages

def prefixInclusive (request : OpenAIRequest) : List Nat :=
  prefixInclusiveFrom numbers (toolsTokens numbers request) request.messages

end

def newestCacheableMessageIndex (messages : List Message) : Option Nat :=
  let isCandidate (m : Message) := !messageHasMarker m && !(m.role == "user" || m.role == "system")
  (rposition (fun m => m.role == "tool" && isCandidate m) messages).or <|
    (rposition (fun m => m.role == "assistant" && isCandidate m) messages).or <|
      rposition isCandidate messages

def countMarkers (request : OpenAIRequest) : Nat :=
  (if lastToolDefinitionHasMarker request then 1 else 0) + request.messages.countP messageHasMarker

structure Placement where
  request : OpenAIRequest
  placed : Nat
  markers : List Marker

/-- `f(&mut request.messages[index])` -/
def modifyMessage (f : Message → Message) (index : Nat) (request : OpenAIRequest) : OpenAIRequest :=
  { request with messages := request.messages.modify index f }

/-- What one call is given besides the request: the threshold, the slots, the estimates. -/
structure Budget where
  threshold : Nat
  explicitBudget : Nat
  toolsTokens : Nat
  prefixInclusive : List Nat

variable (b : Budget)

def placeOnTools (request : OpenAIRequest) : Placement :=
  if b.threshold ≤ b.toolsTokens && hasLastToolDefinition request then
    { request := markLastToolDefinition request, placed := 1, markers := [.lastToolDefinition] }
  else { request, placed := 0, markers := [] }

def placeOnSystem (p : Placement) : Placement :=
  if p.placed < b.explicitBudget then
    match p.request.messages.findIdx? (·.role == "system") with
    | some index =>
      if b.threshold ≤ b.prefixInclusive.getD index 0 then
        { request := modifyMessage markMessage index p.request, placed := p.placed + 1
          markers := p.markers ++ [.message index] }
      else p
    | none => p
  else p

def unmark (request : OpenAIRequest) : Marker → OpenAIRequest
  | .lastToolDefinition => unmarkLastToolDefinition request
  | .message index => modifyMessage unmarkMessage index request

/-- Priority 3: the tail, after a turn that wrote to the cache. -/
def advance (p : Placement) : Placement :=
  match newestCacheableMessageIndex p.request.messages with
  | some index =>
    if b.threshold ≤ b.prefixInclusive.getD index 0 then
      if p.placed < b.explicitBudget then
        { p with
          request := modifyMessage markMessage index p.request
          markers := p.markers ++ [.message index] }
      else
        match p.markers with
        | oldest :: markers =>
          { p with
            request := modifyMessage markMessage index (unmark p.request oldest)
            markers := markers ++ [.message index] }
        | [] => p
    else p
  | none => p

def injectExplicitCacheBreakpoints (numbers : NumberText) (request : OpenAIRequest) (cfg : CacheInjectorConfig)
    (priorUsage : Option CacheUsage) : OpenAIRequest × Except CacheInjectError Unit :=
  let request := stripClientMarkers request
  let explicitBudget := cfg.maxBreakpoints.toNat - 1
  if explicitBudget = 0 then (request, .ok ())
  else
    let b : Budget :=
      { threshold := (cfg.cacheMinTokens.toNat * 11 + 9) / 10, explicitBudget
        toolsTokens := toolsTokens numbers request, prefixInclusive := prefixInclusive numbers request }
    let p := placeOnSystem b (placeOnTools b request)
    let priorCreatedCache := priorUsage.any (0 < ·.cacheCreationInputTokens)
    let p := if priorCreatedCache then advance b p else p
    let total := countMarkers p.request
    if cfg.maxBreakpoints.toNat < total then
      (p.request, .error (.tooManyBreakpoints total cfg.maxBreakpoints.toNat))
    else (p.request, .ok ())

end ObeyGateway.Router.CacheInject
