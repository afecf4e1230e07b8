import ObeyGateway.ToolCompression.Namespaces

/-!
# Resolving drill-downs

`tool_compression/resolver.rs`. The calls of a response that the stages have made up are answered here, and
the conversation goes on with the message of the assistant and the answers. The message is mirrored as it
is, with its other calls, and these are not answered (`resolution_wellFormed_iff`).
-/

namespace ObeyGateway.ToolCompression

def SESSION_CACHE_HINT : String :=
  "\n\nSession cache: these schemas remain valid for the rest of the session. Reuse them for all subsequent calls to these tools and do not call get_tools_in_namespace for this namespace again."

def REDRILL_HINT : String :=
  "\n\nSession cache: you already retrieved these schemas earlier in this session; they remain valid and callable. Do NOT call the discovery tool for this target again — reuse the schemas already provided."

def hasNsPrefix (name : String) : Bool := nsPrefix.toList.isPrefixOf name.toList

def nsSuffix (name : String) : String := String.ofList (name.toList.drop nsPrefix.length)

def isSynthetic (name : String) : Bool :=
  name = getToolSchema || name = getToolsInNamespace || hasNsPrefix name

def emptyArguments : String := "\x7b\x7d"

namespace Call

def name? (tc : Json) : Option String := (tc.pointer ["function", "name"]).bind (·.asStr)

def arguments (tc : Json) : String := ((tc.pointer ["function", "arguments"]).bind (·.asStr)).getD emptyArguments

def id? (tc : Json) : Option String := (tc.get "id").bind (·.asStr)

def isSynthetic (tc : Json) : Bool := (name? tc).any ToolCompression.isSynthetic

end Call

def toolFunctionName (tool : Json) : Option String := (tool.pointer ["function", "name"]).bind (·.asStr)

section
variable (parse : String → Option Json) (pretty : Json → String)

def discoveryKey (name arguments : String) : Option String :=
  if name = getToolsInNamespace then
    (((parse arguments).bind (·.get "namespace")).bind (·.asStr)).map ("ns:" ++ ·)
  else if name = getToolSchema then
    (((parse arguments).bind (·.get "tool_name")).bind (·.asStr)).map ("tool:" ++ ·)
  else if hasNsPrefix name then some ("ns:" ++ nsSuffix name)
  else none

def drilledNamespace (name arguments : String) : Option String :=
  if name = getToolsInNamespace then ((parse arguments).bind (·.get "namespace")).bind (·.asStr)
  else if hasNsPrefix name then some (nsSuffix name)
  else none

structure Resolution where
  disclosed : List String
  toolResults : List Json
  injected : List Json

namespace Resolution

def empty : Resolution := ⟨[], [], []⟩

def inject (r : Resolution) (maxReinject : Nat) (schemas : List Json) : Resolution × Nat :=
  let injected := r.injected ++ schemas
  let disclosed := r.disclosed ++ schemas.filterMap toolFunctionName
  if 0 < maxReinject ∧ maxReinject < injected.length then
    ({ r with disclosed := disclosed.take maxReinject, injected := injected.take maxReinject },
      injected.length - maxReinject)
  else ({ r with disclosed, injected }, 0)

end Resolution

def unresolved (name : String) (originalTools : List ToolDefinition) : String :=
  "Error resolving " ++ name ++ ": invalid arguments or unknown target. Available tools: " ++
    ", ".intercalate (originalTools.map (·.name))

def omittedNote (excess : Nat) (ns : String) : String :=
  "\n\nNote: " ++ toString excess ++ " additional tool(s) in namespace '" ++ ns ++
    "' were omitted from the callable tool list to stay within the provider's tool-count limit. Request a specific tool with get_tool_schema to make it callable this turn."

def hint (name arguments : String) (alreadyDisclosed : List String) : String :=
  let known := alreadyDisclosed.contains ((discoveryKey parse name arguments).getD "")
  if name = getToolsInNamespace || hasNsPrefix name then if known then REDRILL_HINT else SESSION_CACHE_HINT
  else if name = getToolSchema then if known then REDRILL_HINT else ""
  else ""

def toolResult (callId content : String) : Json :=
  .object [("content", .string content), ("role", .string "tool"), ("tool_call_id", .string callId)]

def resolveCall (originalTools : List ToolDefinition) (maxReinject : Nat) (alreadyDisclosed : List String)
    (r : Resolution) (tc : Json) : Resolution :=
  match Call.name? tc with
  | none => r
  | some name =>
    if isSynthetic name then
      let arguments := Call.arguments tc
      let content := match resolveSyntheticToolCall name (parse arguments) originalTools with
        | some value => pretty value
        | none => unresolved name originalTools
      let (r, note) :=
        if name = getToolSchema then
          let toolName := ((parse arguments).bind (·.get "tool_name")).bind (·.asStr)
          ({ r with disclosed := r.disclosed ++ toolName.toList }, "")
        else
          match drilledNamespace parse name arguments with
          | none => (r, "")
          | some ns =>
            let (r, excess) := r.inject maxReinject (toolsInNamespace ns originalTools)
            (r, if 0 < excess then omittedNote excess ns else "")
      let content := content ++ note ++ hint parse name arguments alreadyDisclosed
      { r with toolResults := r.toolResults ++ [toolResult ((Call.id? tc).getD "") content] }
    else r

def appendMessages (more : List Json) : Json → Json
  | .array messages => .array (messages ++ more)
  | v => v

def insertTool (tools : List Json) (tool : Json) : List Json :=
  match toolFunctionName tool with
  | some name => if name ∈ tools.filterMap toolFunctionName then tools else tools ++ [tool]
  | none => tools ++ [tool]

def injectTools (injected : List Json) : Json → Json
  | .array tools => .array (injected.foldl insertTool tools)
  | v => v

def firstMessage (resp : Json) : Option Json := do
  let first ← (← (resp.get "choices").bind (·.asArray)).head?
  first.get "message"

def resolveSyntheticInResponse (resp req : Json) (originalTools : List ToolDefinition) (maxReinject : Nat)
    (alreadyDisclosed : List String) : Option (List String × Json) := do
  let message ← firstMessage resp
  let toolCalls ← (message.get "tool_calls").bind (·.asArray)
  let r := toolCalls.foldl (resolveCall parse pretty originalTools maxReinject alreadyDisclosed) .empty
  if r.toolResults.isEmpty then none
  else
    let req := req.update ["messages"] (appendMessages (message :: r.toolResults))
    let req := if r.injected.isEmpty then req else req.update ["tools"] (injectTools r.injected)
    some (r.disclosed, req)

end

section
variable {parse : String → Option Json} {pretty : Json → String} {originalTools : List ToolDefinition}
  {maxReinject : Nat} {alreadyDisclosed : List String}

def answeredId (message : Json) : Option String :=
  if (message.get "role").bind (·.asStr) = some "tool" then (message.get "tool_call_id").bind (·.asStr) else none

theorem answeredId_toolResult (callId content : String) : answeredId (toolResult callId content) = some callId := by
  simp [answeredId, toolResult, Json.get, Json.asStr, Assoc.get]

theorem toolResults_resolveCall (r : Resolution) (tc : Json) :
    (resolveCall parse pretty originalTools maxReinject alreadyDisclosed r tc).toolResults.map answeredId =
      r.toolResults.map answeredId ++ if Call.isSynthetic tc then [some ((Call.id? tc).getD "")] else [] := by
  unfold resolveCall Call.isSynthetic
  rcases Call.name? tc with _ | name
  · simp
  rw [Option.any_some]
  by_cases hsynthetic : isSynthetic name = true
  · rw [if_pos hsynthetic]
    simp only [hsynthetic, if_true, List.map_append, List.map_singleton, answeredId_toolResult]
    congr 2
    split
    · rfl
    · split
      · rfl
      · rw [Resolution.inject]
        split <;> rfl
  · simp [hsynthetic]

theorem toolResults_foldl (toolCalls : List Json) (r : Resolution) :
    (toolCalls.foldl (resolveCall parse pretty originalTools maxReinject alreadyDisclosed) r).toolResults.map
        answeredId =
      r.toolResults.map answeredId ++ (toolCalls.filter Call.isSynthetic).map fun tc => some ((Call.id? tc).getD "") := by
  induction toolCalls generalizing r with
  | nil => simp
  | cons tc toolCalls ih =>
    rw [List.foldl_cons, ih, toolResults_resolveCall, List.append_assoc]
    by_cases hsynthetic : Call.isSynthetic tc = true
    · rw [if_pos hsynthetic, List.filter_cons_of_pos hsynthetic]
      rfl
    · rw [if_neg hsynthetic, List.filter_cons_of_neg hsynthetic]
      rfl

def toolNames (req : Json) : List String :=
  ((req.get "tools").bind (·.asArray)).elim [] (·.filterMap toolFunctionName)

theorem nodup_insertTool {tools : List Json} (h : (tools.filterMap toolFunctionName).Nodup) (tool : Json) :
    ((insertTool tools tool).filterMap toolFunctionName).Nodup := by
  unfold insertTool
  split
  · rename_i name hname
    split
    · exact h
    · rename_i hnew
      rw [List.filterMap_append, List.filterMap_cons_some hname, List.filterMap_nil]
      refine List.nodup_append.2 ⟨h, List.nodup_singleton _, ?_⟩
      rintro old hold _ hmem rfl
      exact hnew (List.mem_singleton.1 hmem ▸ hold)
  · rename_i hname
    rw [List.filterMap_append, List.filterMap_cons_none hname, List.filterMap_nil, List.append_nil]
    exact h

theorem nodup_foldl_insertTool {tools : List Json} (h : (tools.filterMap toolFunctionName).Nodup)
    (injected : List Json) : ((injected.foldl insertTool tools).filterMap toolFunctionName).Nodup := by
  induction injected generalizing tools with
  | nil => exact h
  | cons tool injected ih => exact ih (nodup_insertTool h tool)

theorem nodup_toolNames_inject {req : Json} (h : (toolNames req).Nodup) (injected : List Json) :
    (toolNames (req.update ["tools"] (injectTools injected))).Nodup := by
  rw [toolNames, Json.get_update, if_pos rfl]
  rw [toolNames] at h
  rcases hget : req.get "tools" with _ | v
  · exact List.nodup_nil
  rw [hget] at h
  cases v with
  | array tools => exact nodup_foldl_insertTool h injected
  | _ => exact List.nodup_nil

/-- The message of the assistant and an answer for each of its calls are appended, and no tool is there twice. -/
structure WellFormed (message : Json) (toolCalls : List Json) (req req' : Json) : Prop where
  messages : ∃ old answers, (req.get "messages").bind (·.asArray) = some old ∧
    (req'.get "messages").bind (·.asArray) = some (old ++ message :: answers) ∧
    (answers.map answeredId).Perm (toolCalls.map Call.id?)
  tools : (toolNames req).Nodup → (toolNames req').Nodup

section
variable {resp req req' message : Json} {toolCalls : List Json} {disclosed : List String}

theorem resolve_eq_fold (hmessage : firstMessage resp = some message)
    (hcalls : (message.get "tool_calls").bind (·.asArray) = some toolCalls)
    (h : resolveSyntheticInResponse parse pretty resp req originalTools maxReinject alreadyDisclosed =
      some (disclosed, req')) :
    ∃ r, toolCalls.foldl (resolveCall parse pretty originalTools maxReinject alreadyDisclosed) .empty = r ∧
      disclosed = r.disclosed ∧
      ((r.injected = [] ∧ req' = req.update ["messages"] (appendMessages (message :: r.toolResults))) ∨
        req' = (req.update ["messages"] (appendMessages (message :: r.toolResults))).update ["tools"]
          (injectTools r.injected)) := by
  unfold resolveSyntheticInResponse at h
  rw [hmessage, Option.bind_eq_bind, Option.bind_some, hcalls, Option.bind_eq_bind, Option.bind_some] at h
  dsimp only at h
  refine ⟨_, rfl, ?_⟩
  split at h
  · cases h
  · split at h
    · rename_i hnone
      cases h
      exact ⟨rfl, .inl ⟨List.isEmpty_iff.1 hnone, rfl⟩⟩
    · cases h
      exact ⟨rfl, .inr rfl⟩

theorem resolve_eq_some (hmessage : firstMessage resp = some message)
    (hcalls : (message.get "tool_calls").bind (·.asArray) = some toolCalls)
    (h : resolveSyntheticInResponse parse pretty resp req originalTools maxReinject alreadyDisclosed =
      some (disclosed, req')) :
    ∃ answers injected, answers.map answeredId =
        (toolCalls.filter Call.isSynthetic).map (fun tc => some ((Call.id? tc).getD "")) ∧
      (req' = req.update ["messages"] (appendMessages (message :: answers)) ∨
        req' = (req.update ["messages"] (appendMessages (message :: answers))).update ["tools"]
          (injectTools injected)) := by
  obtain ⟨r, hr, -, hreq⟩ := resolve_eq_fold hmessage hcalls h
  refine ⟨r.toolResults, r.injected, hr ▸ toolResults_foldl toolCalls .empty, ?_⟩
  rcases hreq with ⟨-, hreq⟩ | hreq
  · exact .inl hreq
  · exact .inr hreq

theorem get_messages_update (more : List Json) :
    ((req.update ["messages"] (appendMessages more)).get "messages").bind (·.asArray) =
      ((req.get "messages").bind (·.asArray)).map (· ++ more) := by
  rw [Json.get_update, if_pos rfl]
  cases req.get "messages" with
  | none => rfl
  | some v => cases v <;> rfl

theorem resolution_wellFormed_iff (hmessage : firstMessage resp = some message)
    (hcalls : (message.get "tool_calls").bind (·.asArray) = some toolCalls)
    (hsome : ∀ tc ∈ toolCalls, (Call.id? tc).isSome = true)
    (h : resolveSyntheticInResponse parse pretty resp req originalTools maxReinject alreadyDisclosed =
      some (disclosed, req')) :
    WellFormed message toolCalls req req' ↔
      ((req.get "messages").bind (·.asArray)).isSome = true ∧ ∀ tc ∈ toolCalls, Call.isSynthetic tc = true := by
  obtain ⟨answers, injected, hanswers, hreq⟩ := resolve_eq_some hmessage hcalls h
  have hmessages : (req'.get "messages").bind (·.asArray) =
      ((req.get "messages").bind (·.asArray)).map (· ++ message :: answers) := by
    rcases hreq with rfl | rfl
    · exact get_messages_update _
    · rw [Json.get_update, if_neg (by decide)]
      exact get_messages_update _
  have htools : (toolNames req).Nodup → (toolNames req').Nodup := by
    intro hnodup
    have hkept : toolNames (req.update ["messages"] (appendMessages (message :: answers))) = toolNames req := by
      rw [toolNames, Json.get_update, if_neg (by decide), toolNames]
    rcases hreq with rfl | rfl
    · rwa [hkept]
    · exact nodup_toolNames_inject (by rwa [hkept]) injected
  have hanswered : answers.map answeredId = (toolCalls.filter Call.isSynthetic).map Call.id? := by
    rw [hanswers]
    refine List.map_congr_left fun tc htc => ?_
    obtain ⟨id, hid⟩ := Option.isSome_iff_exists.1 (hsome tc (List.mem_filter.1 htc).1)
    rw [hid, Option.getD_some]
  constructor
  · rintro ⟨⟨old, appended, hold, hnew, hperm⟩, -⟩
    refine ⟨by rw [hold]; rfl, ?_⟩
    rw [hmessages, hold, Option.map_some, Option.some.injEq, List.append_cancel_left_eq, List.cons.injEq] at hnew
    rw [← hnew.2, hanswered] at hperm
    have hlength := hperm.length_eq
    rw [List.length_map, List.length_map, List.length_filter_eq_length_iff] at hlength
    exact hlength
  · rintro ⟨hold, hall⟩
    obtain ⟨old, hold⟩ := Option.isSome_iff_exists.1 hold
    refine ⟨⟨old, answers, hold, by rw [hmessages, hold, Option.map_some], ?_⟩, htools⟩
    rw [hanswered, List.filter_eq_self.2 hall]

end

end

def callJson (id name : String) : Json :=
  .object [("function", .object [("arguments", .string emptyArguments), ("name", .string name)]), ("id", .string id),
    ("type", .string "function")]

def assistantJson (calls : List Json) : Json :=
  .object [("role", .string "assistant"), ("tool_calls", .array calls)]

def responseJson (calls : List Json) : Json :=
  .object [("choices", .array [.object [("message", assistantJson calls)]])]

def requestJson : Json := .object [("messages", .array []), ("tools", .array [])]

def parseEmpty (text : String) : Option Json := if text = emptyArguments then some (.object []) else none

def drillDowns : List Json := [callJson "call_1" getToolsInNamespace, callJson "call_2" "ns_fs"]

def mixedCalls : List Json := [callJson "call_1" getToolsInNamespace, callJson "call_2" "fs_read"]

theorem resolution_wellFormed_drillDowns : ∃ disclosed req',
    resolveSyntheticInResponse parseEmpty (fun _ => "[]") (responseJson drillDowns) requestJson [] 0 [] =
      some (disclosed, req') ∧ WellFormed (assistantJson drillDowns) drillDowns requestJson req' := by
  have hresolved : (resolveSyntheticInResponse parseEmpty (fun _ => "[]") (responseJson drillDowns) requestJson
      [] 0 []).isSome = true := by decide
  obtain ⟨⟨disclosed, req'⟩, h⟩ := Option.isSome_iff_exists.1 hresolved
  exact ⟨disclosed, req', h, (resolution_wellFormed_iff rfl rfl (by decide) h).2 (by decide)⟩

/-- A drill-down and a call of the client's own tool, which is left without an answer. -/
theorem mixed_calls_unanswered : (mixedCalls.map Call.id?).Nodup ∧ ∃ disclosed req',
    resolveSyntheticInResponse parseEmpty (fun _ => "[]") (responseJson mixedCalls) requestJson [] 0 [] =
      some (disclosed, req') ∧ ¬WellFormed (assistantJson mixedCalls) mixedCalls requestJson req' := by
  refine ⟨by decide, _, _, rfl, ?_⟩
  rintro ⟨⟨old, answers, hold, hnew, hperm⟩, -⟩
  have hcount := congrArg (·.map List.length) hnew
  have htwo : answers.length = 2 := by
    have hlength := hperm.length_eq
    rwa [List.length_map, List.length_map] at hlength
  rw [Option.map_some, List.length_append, List.length_cons, htwo] at hcount
  cases hold
  revert hcount
  decide

end ObeyGateway.ToolCompression
