import ObeyGateway.Lib.CappedBatches
import ObeyGateway.ToolCompression.Resolver

/-!
# What a turn discloses

`resolve_synthetic_in_response` of `tool_compression/resolver.rs`. The names that it returns are to be callable in the
next turn. The tools of a drilled namespace are put into the request, but the tool of a `get_tool_schema` is only
named: it is callable if the request has it already, or a drill-down of the same turn put it there.
-/

namespace ObeyGateway.ToolCompression

open CappedBatches

section
variable (parse : String → Option Json) (pretty : Json → String) (originalTools : List ToolDefinition) (maxReinject : Nat)
  (alreadyDisclosed : List String)

namespace Call

def schema? (tc : Json) : Option String :=
  (name? tc).bind fun name =>
    if name = getToolSchema then ((parse (arguments tc)).bind (·.get "tool_name")).bind (·.asStr) else none

def drilled? (tc : Json) : Option String := (name? tc).bind fun name => drilledNamespace parse name (arguments tc)

def drilledTools (tc : Json) : List ToolDefinition :=
  (drilled? parse tc).elim [] fun ns => originalTools.filter (belongsTo ns)

/-- What a call does to the names that are returned and to the tools that are put into the request. -/
def event (tc : Json) : Event String :=
  match schema? parse tc with
  | some toolName => .extra toolName
  | none => .batch ((drilledTools parse originalTools tc).map (·.name))

def answer (tc : Json) (name note : String) : Json :=
  let content := match resolveSyntheticToolCall name (parse (arguments tc)) originalTools with
    | some value => pretty value
    | none => unresolved name originalTools
  toolResult ((id? tc).getD "") (content ++ note ++ hint parse name (arguments tc) alreadyDisclosed)

end Call

def note (excess : Nat) (ns : String) : String := if 0 < excess then omittedNote excess ns else ""

def turnTools (toolCalls : List Json) : List ToolDefinition := toolCalls.flatMap (Call.drilledTools parse originalTools)

def cappedTools (toolCalls : List Json) : List ToolDefinition :=
  if 0 < maxReinject then (turnTools parse originalTools toolCalls).take maxReinject
  else turnTools parse originalTools toolCalls

section
variable (toolCalls : List Json) (req req' : Json) (disclosed : List String)

/-- The answer to the call behind these counts so many tools of the namespace as omitted. -/
def Noted (before : List Json) (tc : Json) (ns : String) (omitted : Nat) : Prop :=
  ∃ old new name, (req.get "messages").bind (·.asArray) = some old ∧ (req'.get "messages").bind (·.asArray) = some new ∧
    Call.name? tc = some name ∧ new[old.length + 1 + (before.filter Call.isSynthetic).length]? =
      some (Call.answer parse pretty originalTools alreadyDisclosed tc name (omittedNote omitted ns))

/-- What is returned can be called, and each tool of a drilled namespace is returned or counted. -/
structure DisclosureLaw : Prop where
  callable : ∀ n ∈ disclosed, (∃ t ∈ originalTools, t.name = n) ∧ n ∈ toolNames req'
  accounted : ∀ before tc after ns, toolCalls = before ++ tc :: after → Call.drilled? parse tc = some ns →
    ∃ omitted, (originalTools.filter (belongsTo ns)).countP (·.name ∉ disclosed) ≤ omitted ∧
      (0 < omitted → Noted parse pretty originalTools alreadyDisclosed req req' before tc ns omitted)

def DrilledNamed : Prop :=
  ∀ tc ∈ toolCalls, ∀ t ∈ Call.drilledTools parse originalTools tc, toolFunctionName t.raw = some t.name

def TurnOverflows : Prop := Overflows maxReinject (turnTools parse originalTools toolCalls).length

structure DisclosureConditions : Prop where
  named : DrilledNamed parse originalTools toolCalls
  tools : ((req.get "tools").bind (·.asArray)).isSome = true ∨
    ∀ tc ∈ toolCalls, Call.drilledTools parse originalTools tc = []
  messages : TurnOverflows parse originalTools maxReinject toolCalls →
    ((req.get "messages").bind (·.asArray)).isSome = true
  full : TurnOverflows parse originalTools maxReinject toolCalls → ∀ before tc after name,
    toolCalls = before ++ tc :: after → Call.schema? parse tc = some name →
      maxReinject ≤ (turnTools parse originalTools before).length
  schemas : ∀ before tc after name, toolCalls = before ++ tc :: after → Call.schema? parse tc = some name →
    (TurnOverflows parse originalTools maxReinject toolCalls →
      ∀ later ∈ after, Call.drilledTools parse originalTools later = []) →
    (∃ t ∈ originalTools, t.name = name) ∧
      (name ∈ toolNames req ∨ ∃ t ∈ cappedTools parse originalTools maxReinject toolCalls, t.name = name)

def turnNames : List String := names (toolCalls.map (Call.event parse originalTools))

end

end

section
variable {parse : String → Option Json} {pretty : Json → String} {originalTools : List ToolDefinition}
  {maxReinject : Nat} {alreadyDisclosed : List String}

theorem drilledNamespace_getToolSchema (arguments : String) : drilledNamespace parse getToolSchema arguments = none := by
  rw [drilledNamespace, if_neg (by decide), if_neg (by decide)]

variable {name : String}

theorem drilledNamespace_of_not_synthetic (h : ¬ isSynthetic name = true) (arguments : String) :
    drilledNamespace parse name arguments = none := by
  rw [isSynthetic, Bool.or_eq_true, Bool.or_eq_true, not_or, not_or, decide_eq_true_iff, decide_eq_true_iff] at h
  rw [drilledNamespace, if_neg h.1.2, if_neg h.2]

variable {tc : Json}

theorem Call.drilledTools_of_schema (h : Call.schema? parse tc = some name) :
    Call.drilledTools parse originalTools tc = [] := by
  rw [Call.schema?] at h
  rw [Call.drilledTools, Call.drilled?]
  rcases hname : Call.name? tc with _ | called
  · rfl
  rw [hname, Option.bind_some] at h
  split at h
  · rename_i hschema
    rw [Option.bind_some, hschema, drilledNamespace_getToolSchema]
    rfl
  · cases h

theorem Call.held_event (tc : Json) :
    (Call.event parse originalTools tc).held = (Call.drilledTools parse originalTools tc).map (·.name) := by
  rw [Call.event]
  split
  · rename_i h
    rw [Call.drilledTools_of_schema h]
    rfl
  · rfl

theorem Call.event_eq_extra : Call.event parse originalTools tc = .extra name ↔ Call.schema? parse tc = some name := by
  rw [Call.event]
  cases Call.schema? parse tc with
  | none | some => simp

variable {ns : String}

theorem Call.event_of_drilled (h : Call.drilled? parse tc = some ns) :
    Call.event parse originalTools tc = .batch ((originalTools.filter (belongsTo ns)).map (·.name)) := by
  rw [Call.event, Call.drilledTools, h]
  rcases hschema : Call.schema? parse tc with _ | name
  · rfl
  rw [Call.schema?] at hschema
  rw [Call.drilled?] at h
  rcases hname : Call.name? tc with _ | called
  · rw [hname] at h
    cases h
  rw [hname, Option.bind_some] at h hschema
  split at hschema
  · rename_i hcalled
    rw [hcalled, drilledNamespace_getToolSchema] at h
    cases h
  · cases hschema

theorem batches_events (toolCalls : List Json) :
    batches (toolCalls.map (Call.event parse originalTools)) = (turnTools parse originalTools toolCalls).map (·.name) := by
  induction toolCalls with
  | nil => rfl
  | cons tc toolCalls ih =>
    show (Call.event parse originalTools tc).held ++ batches _ = (_ ++ turnTools parse originalTools toolCalls).map _
    rw [ih, Call.held_event, List.map_append]

def Resolution.Tracks (r : Resolution) (s : TwoLists String) : Prop :=
  r.disclosed = s.named ∧ r.injected.map toolFunctionName = s.held.map some

variable {tools : List Json}

theorem filterMap_of_map_eq {names : List String} (h : tools.map toolFunctionName = names.map some) :
    tools.filterMap toolFunctionName = names := by
  have hsome := congrArg (List.filterMap id) h
  rwa [List.filterMap_map, List.filterMap_map, Function.id_comp, Function.id_comp, List.filterMap_some] at hsome

variable (maxReinject) in
theorem Resolution.Tracks.inject {r : Resolution} {s : TwoLists String} (h : r.Tracks s) {tools : List ToolDefinition}
    (hnamed : ∀ t ∈ tools, toolFunctionName t.raw = some t.name) :
    (r.inject maxReinject (tools.map (·.raw))).1.Tracks
        (TwoLists.trim maxReinject ⟨s.named ++ tools.map (·.name), s.held ++ tools.map (·.name)⟩) ∧
      (r.inject maxReinject (tools.map (·.raw))).2 = omitted maxReinject s (tools.map (·.name)) := by
  have hnames : (tools.map (·.raw)).map toolFunctionName = (tools.map (·.name)).map some := by
    rw [List.map_map, List.map_map]
    exact List.map_congr_left fun t ht => hnamed t ht
  have hboth : (r.injected ++ tools.map (·.raw)).map toolFunctionName = (s.held ++ tools.map (·.name)).map some := by
    rw [List.map_append, List.map_append, h.2, hnames]
  have hlength : (r.injected ++ tools.map (·.raw)).length = (s.held ++ tools.map (·.name)).length := by
    have hlength := congrArg List.length hboth
    rwa [List.length_map, List.length_map] at hlength
  rw [Resolution.inject, omitted, TwoLists.trim, filterMap_of_map_eq hnames, hlength, h.1]
  by_cases hover : Overflows maxReinject (s.held ++ tools.map (·.name)).length
  · have hcut : 0 < maxReinject ∧ maxReinject < (s.held ++ tools.map (·.name)).length := hover
    rw [if_pos hcut, if_pos hover, if_pos hover]
    refine ⟨⟨rfl, ?_⟩, rfl⟩
    show ((r.injected ++ tools.map (·.raw)).take maxReinject).map toolFunctionName = _
    rw [List.map_take, hboth, ← List.map_take]
  · have hcut : ¬ (0 < maxReinject ∧ maxReinject < (s.held ++ tools.map (·.name)).length) := hover
    rw [if_neg hcut, if_neg hover, if_neg hover]
    exact ⟨⟨rfl, hboth⟩, rfl⟩

theorem tracks_resolveCall {r : Resolution} {s : TwoLists String} (h : r.Tracks s)
    (hfits : step maxReinject s (.batch []) = s)
    (hnamed : ∀ t ∈ Call.drilledTools parse originalTools tc, toolFunctionName t.raw = some t.name) :
    (resolveCall parse pretty originalTools maxReinject alreadyDisclosed r tc).Tracks
      (step maxReinject s (Call.event parse originalTools tc)) := by
  rw [Call.drilledTools, Call.drilled?] at hnamed
  rw [resolveCall, Call.event, Call.schema?, Call.drilledTools, Call.drilled?]
  rcases hname : Call.name? tc with _ | name
  · show r.Tracks (step maxReinject s (.batch []))
    rwa [hfits]
  rw [hname, Option.bind_some] at hnamed
  rw [Option.bind_some, Option.bind_some]
  by_cases hsynthetic : isSynthetic name = true
  · by_cases hschema : name = getToolSchema
    · simp only [if_true, hschema]
      rw [drilledNamespace_getToolSchema]
      rcases ((parse (Call.arguments tc)).bind (·.get "tool_name")).bind (·.asStr) with _ | toolName
      · show Resolution.Tracks _ (step maxReinject s (.batch []))
        rw [hfits]
        refine ⟨?_, h.2⟩
        show r.disclosed ++ [] = s.named
        rw [List.append_nil, h.1]
      refine ⟨?_, h.2⟩
      show r.disclosed ++ [toolName] = s.named ++ [toolName]
      rw [h.1]
    · simp only [hsynthetic, if_true, if_neg hschema]
      rcases hns : drilledNamespace parse name (Call.arguments tc) with _ | ns
      · show Resolution.Tracks _ (step maxReinject s (.batch []))
        rw [hfits]
        exact h
      rw [hns] at hnamed
      exact (h.inject maxReinject hnamed).1
  · have hnone : drilledNamespace parse name (Call.arguments tc) = none :=
      drilledNamespace_of_not_synthetic hsynthetic _
    have hschema : ¬ name = getToolSchema := fun heq => hsynthetic (by rw [heq]; decide)
    rw [if_neg hschema, hnone]
    simp only [if_neg hsynthetic]
    show r.Tracks (step maxReinject s (.batch []))
    rwa [hfits]

theorem tracks_foldl {toolCalls : List Json} (hnamed : DrilledNamed parse originalTools toolCalls) :
    (toolCalls.foldl (resolveCall parse pretty originalTools maxReinject alreadyDisclosed) .empty).Tracks
      (run maxReinject (toolCalls.map (Call.event parse originalTools))) := by
  induction toolCalls using List.reverseRecOn with
  | nil => exact ⟨rfl, rfl⟩
  | append_singleton toolCalls tc ih =>
    rw [List.foldl_concat, List.map_append, List.map_singleton, run_concat]
    refine tracks_resolveCall (ih fun tc htc => hnamed tc (List.mem_append_left _ htc)) (step_batch_nil _ _) ?_
    exact hnamed tc (List.mem_append_right _ (List.mem_singleton_self tc))

theorem Resolution.toolResults_inject (r : Resolution) (schemas : List Json) :
    (r.inject maxReinject schemas).1.toolResults = r.toolResults := by
  rw [Resolution.inject]
  split <;> rfl

variable (pretty originalTools maxReinject alreadyDisclosed)

theorem toolResults_prefix (toolCalls : List Json) (r : Resolution) :
    r.toolResults <+: (toolCalls.foldl (resolveCall parse pretty originalTools maxReinject alreadyDisclosed) r).toolResults := by
  induction toolCalls generalizing r with
  | nil => exact List.prefix_rfl
  | cons tc toolCalls ih =>
    refine List.IsPrefix.trans ?_ (ih _)
    rw [resolveCall]
    rcases Call.name? tc with _ | name
    · exact List.prefix_rfl
    by_cases hsynthetic : isSynthetic name = true
    · simp only [hsynthetic, if_true]
      by_cases hschema : name = getToolSchema
      · simp only [if_pos hschema]
        exact List.prefix_append _ _
      · simp only [if_neg hschema]
        rcases drilledNamespace parse name (Call.arguments tc) with _ | ns
        · exact List.prefix_append _ _
        show r.toolResults <+: (r.inject maxReinject _).1.toolResults ++ _
        rw [Resolution.toolResults_inject]
        exact List.prefix_append _ _
    · simp only [hsynthetic]
      exact List.prefix_rfl

theorem toolResults_drilled (r : Resolution) (h : Call.drilled? parse tc = some ns) : ∃ name, Call.name? tc = some name ∧
      (resolveCall parse pretty originalTools maxReinject alreadyDisclosed r tc).toolResults = r.toolResults ++
        [Call.answer parse pretty originalTools alreadyDisclosed tc name
          (note (r.inject maxReinject (toolsInNamespace ns originalTools)).2 ns)] := by
  rw [Call.drilled?] at h
  rcases hname : Call.name? tc with _ | name
  · rw [hname] at h
    cases h
  rw [hname, Option.bind_some] at h
  refine ⟨name, rfl, ?_⟩
  have hsynthetic : isSynthetic name = true := by
    by_contra hnot
    rw [drilledNamespace_of_not_synthetic hnot] at h
    cases h
  have hschema : ¬ name = getToolSchema := by
    rintro rfl
    rw [drilledNamespace_getToolSchema] at h
    cases h
  rw [resolveCall, hname]
  simp only [hsynthetic, if_true, if_neg hschema, h]
  show (r.inject maxReinject _).1.toolResults ++ _ = _
  rw [Resolution.toolResults_inject]
  rfl

theorem answer_of_drilled {before after : List Json}
    (hnamed : DrilledNamed parse originalTools (before ++ tc :: after)) (h : Call.drilled? parse tc = some ns) :
    ∃ name, Call.name? tc = some name ∧
      ((before ++ tc :: after).foldl (resolveCall parse pretty originalTools maxReinject alreadyDisclosed)
          .empty).toolResults[(before.filter Call.isSynthetic).length]? =
        some (Call.answer parse pretty originalTools alreadyDisclosed tc name
          (note (omitted maxReinject (run maxReinject (before.map (Call.event parse originalTools)))
            ((originalTools.filter (belongsTo ns)).map (·.name))) ns)) := by
  set r := before.foldl (resolveCall parse pretty originalTools maxReinject alreadyDisclosed) .empty with hr
  obtain ⟨name, hname, hresult⟩ := toolResults_drilled pretty originalTools maxReinject alreadyDisclosed r h
  have htools : Call.drilledTools parse originalTools tc = originalTools.filter (belongsTo ns) := by
    rw [Call.drilledTools, h]
    rfl
  have htracks : r.Tracks (run maxReinject (before.map (Call.event parse originalTools))) :=
    tracks_foldl fun tc htc => hnamed tc (List.mem_append_left _ htc)
  have hcount := (htracks.inject maxReinject (htools ▸ hnamed tc (List.mem_append_right _ List.mem_cons_self))).2
  have hanswered : r.toolResults.map answeredId = _ := toolResults_foldl before .empty
  have hlength : r.toolResults.length = (before.filter Call.isSynthetic).length := by
    have hlength := congrArg List.length hanswered
    rw [List.length_map, List.length_append, List.length_map, List.length_map] at hlength
    exact hlength.trans (Nat.zero_add _)
  refine ⟨name, hname, ?_⟩
  obtain ⟨rest, hrest⟩ := toolResults_prefix pretty originalTools maxReinject alreadyDisclosed after
    (resolveCall parse pretty originalTools maxReinject alreadyDisclosed r tc)
  rw [List.foldl_append, List.foldl_cons, ← hr, ← hrest, hresult, toolsInNamespace, hcount, ← hlength, List.append_assoc,
    List.getElem?_append_right (Nat.le_refl _), Nat.sub_self]
  rfl

variable {pretty originalTools alreadyDisclosed}

theorem omittedNote_injective {m n : Nat} (h : omittedNote m ns = omittedNote n ns) : m = n := by
  have hlist := congrArg String.toList h
  simp only [omittedNote, String.toList_append, List.append_assoc, Nat.toString_eq_repr, Nat.toList_repr] at hlist
  have hdigits : ∀ n, ' ' ∉ Json.digits n := fun n hblank => by
    have hdigit := Json.isDigit_of_mem_digits hblank
    revert hdigit
    decide
  exact Json.digits_injective (Search.append_cons_inj (hdigits m) (hdigits n) (List.append_cancel_left hlist)).1

theorem Call.answer_note {a b : String} (h : Call.answer parse pretty originalTools alreadyDisclosed tc name a =
      Call.answer parse pretty originalTools alreadyDisclosed tc name b) : a = b := by
  rw [Call.answer, Call.answer, toolResult, toolResult] at h
  simp only [Json.object.injEq, List.cons.injEq, Prod.mk.injEq, Json.string.injEq, true_and, and_true] at h
  exact (String.append_right_inj _).1 ((String.append_left_inj _).1 h)

theorem mem_insertTool {tool : Json} : name ∈ (insertTool tools tool).filterMap toolFunctionName ↔
      name ∈ tools.filterMap toolFunctionName ∨ toolFunctionName tool = some name := by
  rw [insertTool]
  rcases htool : toolFunctionName tool with _ | called
  · simp [htool]
  dsimp only
  split
  · rename_i hold
    refine ⟨.inl, ?_⟩
    rintro (hmem | hsome)
    · exact hmem
    · obtain rfl := Option.some.inj hsome
      exact hold
  · rw [List.filterMap_append, List.mem_append, List.filterMap_cons_some htool, List.filterMap_nil, List.mem_singleton,
      Option.some.injEq, eq_comm (a := called)]

theorem mem_foldl_insertTool {injected : List Json} : name ∈ (injected.foldl insertTool tools).filterMap toolFunctionName ↔
      name ∈ tools.filterMap toolFunctionName ∨ name ∈ injected.filterMap toolFunctionName := by
  induction injected generalizing tools with
  | nil => simp
  | cons tool injected ih =>
    rw [List.foldl_cons, ih, mem_insertTool, or_assoc]
    rcases htool : toolFunctionName tool with _ | called
    · simp [htool]
    rw [List.filterMap_cons_some htool, List.mem_cons, Option.some.injEq, eq_comm (a := called)]

theorem mem_toolNames_inject {req : Json} {injected : List Json} :
    name ∈ toolNames (req.update ["tools"] (injectTools injected)) ↔ name ∈ toolNames req ∨
      ((req.get "tools").bind (·.asArray)).isSome = true ∧ name ∈ injected.filterMap toolFunctionName := by
  rw [toolNames, toolNames, Json.get_update, if_pos rfl]
  rcases req.get "tools" with _ | v
  · simp
  cases v with
  | array tools =>
    show name ∈ (injected.foldl insertTool tools).filterMap toolFunctionName ↔
      name ∈ tools.filterMap toolFunctionName ∨ true = true ∧ _
    rw [mem_foldl_insertTool]
    simp
  | _ => simp [Json.asArray, injectTools, Json.update]

end

section
variable {parse : String → Option Json} {pretty : Json → String} {originalTools : List ToolDefinition}
  {maxReinject : Nat} {alreadyDisclosed : List String} {resp req req' message : Json} {toolCalls : List Json}
  {disclosed : List String}

theorem resolve_lists (hmessage : firstMessage resp = some message)
    (hcalls : (message.get "tool_calls").bind (·.asArray) = some toolCalls)
    (h : resolveSyntheticInResponse parse pretty resp req originalTools maxReinject alreadyDisclosed =
      some (disclosed, req')) :
    ∃ r, toolCalls.foldl (resolveCall parse pretty originalTools maxReinject alreadyDisclosed) .empty = r ∧
      disclosed = r.disclosed ∧
      (req'.get "messages").bind (·.asArray) =
        ((req.get "messages").bind (·.asArray)).map (· ++ message :: r.toolResults) ∧
      ∀ name, name ∈ toolNames req' ↔ name ∈ toolNames req ∨
        ((req.get "tools").bind (·.asArray)).isSome = true ∧ name ∈ r.injected.filterMap toolFunctionName := by
  obtain ⟨r, hr, hdisclosed, hreq⟩ := resolve_eq_fold hmessage hcalls h
  refine ⟨r, hr, hdisclosed, ?_⟩
  have hkept : ∀ f, (req.update ["messages"] f).get "tools" = req.get "tools" := fun f => by
    rw [Json.get_update, if_neg (by decide)]
  rcases hreq with ⟨hnone, rfl⟩ | rfl
  · refine ⟨get_messages_update _, fun name => ?_⟩
    rw [toolNames, hkept, hnone, toolNames]
    simp
  · refine ⟨?_, fun name => ?_⟩
    · rw [Json.get_update, if_neg (by decide)]
      exact get_messages_update _
    · rw [mem_toolNames_inject, hkept, toolNames, hkept, toolNames]

theorem split_events {before after : List (Event String)} {e : Event String}
    (h : toolCalls.map (Call.event parse originalTools) = before ++ e :: after) :
    ∃ before' tc after', toolCalls = before' ++ tc :: after' ∧ before'.map (Call.event parse originalTools) = before ∧
      Call.event parse originalTools tc = e ∧ after'.map (Call.event parse originalTools) = after := by
  obtain ⟨before', rest, rfl, hbefore, hrest⟩ := List.map_eq_append_iff.1 h
  obtain ⟨tc, after', rfl, htc, hafter⟩ := List.map_eq_cons_iff.1 hrest
  exact ⟨before', tc, after', rfl, hbefore, htc, hafter⟩

theorem overflows_events : Overflows maxReinject (batches (toolCalls.map (Call.event parse originalTools))).length ↔
    TurnOverflows parse originalTools maxReinject toolCalls := by
  rw [batches_events, List.length_map, TurnOverflows]

theorem fullBeforeExtra_events : FullBeforeExtra maxReinject (toolCalls.map (Call.event parse originalTools)) ↔
      (TurnOverflows parse originalTools maxReinject toolCalls → ∀ before tc after name,
        toolCalls = before ++ tc :: after → Call.schema? parse tc = some name →
          maxReinject ≤ (turnTools parse originalTools before).length) := by
  rw [FullBeforeExtra, overflows_events]
  refine forall_congr' fun _ => ⟨fun h before tc after name hsplit hschema => ?_, fun h before name after hsplit => ?_⟩
  · have hfull := h (before.map (Call.event parse originalTools)) name (after.map (Call.event parse originalTools))
      (by rw [hsplit, List.map_append, List.map_cons, Call.event_eq_extra.2 hschema])
    rwa [batches_events, List.length_map] at hfull
  · obtain ⟨before', tc, after', htoolCalls, rfl, htc, -⟩ := split_events hsplit
    rw [batches_events, List.length_map]
    exact h before' tc after' name htoolCalls (Call.event_eq_extra.1 htc)

theorem held_events : (run maxReinject (toolCalls.map (Call.event parse originalTools))).held =
    (cappedTools parse originalTools maxReinject toolCalls).map (·.name) := by
  rw [run_eq, batches_events, cappedTools, List.length_map]
  by_cases hcap : 0 < maxReinject
  · rw [if_pos hcap, List.map_take]
    by_cases hover : Overflows maxReinject (turnTools parse originalTools toolCalls).length
    · rw [if_pos hover]
    · rw [if_neg hover, List.take_of_length_le]
      rw [List.length_map]
      exact Nat.le_of_not_lt fun hlt => hover ⟨hcap, hlt⟩
  · rw [if_neg hcap, if_neg fun hover : Overflows _ _ => hcap hover.1]

theorem mem_turnTools {t : ToolDefinition} : t ∈ turnTools parse originalTools toolCalls ↔
    ∃ tc ∈ toolCalls, t ∈ Call.drilledTools parse originalTools tc := List.mem_flatMap

theorem mem_original_of_drilled {tc : Json} {t : ToolDefinition} (h : t ∈ Call.drilledTools parse originalTools tc) :
    t ∈ originalTools := by
  rw [Call.drilledTools] at h
  rcases hns : Call.drilled? parse tc with _ | ns
  · rw [hns] at h
    cases h
  rw [hns] at h
  exact (List.mem_filter.1 h).1

theorem cappedTools_subset : cappedTools parse originalTools maxReinject toolCalls ⊆
    turnTools parse originalTools toolCalls := by
  rw [cappedTools]
  split
  · exact List.take_subset _ _
  · exact List.Subset.refl _

theorem mem_named_events
    (hfull : FullBeforeExtra maxReinject (toolCalls.map (Call.event parse originalTools))) {name : String} :
    name ∈ (run maxReinject (toolCalls.map (Call.event parse originalTools))).named ↔
      (∃ t ∈ cappedTools parse originalTools maxReinject toolCalls, t.name = name) ∨
        ∃ before tc after, toolCalls = before ++ tc :: after ∧ Call.schema? parse tc = some name ∧
          (TurnOverflows parse originalTools maxReinject toolCalls →
            ∀ later ∈ after, Call.drilledTools parse originalTools later = []) := by
  rw [mem_named_iff hfull, held_events, List.mem_map, overflows_events]
  have hnone : ∀ after : List Json, batches (after.map (Call.event parse originalTools)) = [] ↔
      ∀ later ∈ after, Call.drilledTools parse originalTools later = [] := fun after => by
    rw [batches_events, List.map_eq_nil_iff, turnTools, List.flatMap_eq_nil_iff]
  refine or_congr_right ⟨?_, ?_⟩
  · rintro ⟨before, after, hsplit, hlast⟩
    obtain ⟨before', tc, after', htoolCalls, -, htc, rfl⟩ := split_events hsplit
    exact ⟨before', tc, after', htoolCalls, Call.event_eq_extra.1 htc, fun hover => (hnone after').1 (hlast hover)⟩
  · rintro ⟨before, tc, after, rfl, hschema, hlast⟩
    refine ⟨before.map (Call.event parse originalTools), after.map (Call.event parse originalTools), ?_,
      fun hover => (hnone after).2 (hlast hover)⟩
    rw [List.map_append, List.map_cons, Call.event_eq_extra.2 hschema]

theorem countP_names (ns : String) (disclosed : List String) :
    (originalTools.filter (belongsTo ns)).countP (·.name ∉ disclosed) =
      ((originalTools.filter (belongsTo ns)).map (·.name)).countP (· ∉ disclosed) := by
  rw [List.countP_map]
  rfl

def omittedBehind (parse : String → Option Json) (originalTools : List ToolDefinition) (maxReinject : Nat)
    (before : List Json) (ns : String) : Nat :=
  omitted maxReinject (run maxReinject (before.map (Call.event parse originalTools)))
    ((originalTools.filter (belongsTo ns)).map (·.name))

theorem resolve_spec (hmessage : firstMessage resp = some message)
    (hcalls : (message.get "tool_calls").bind (·.asArray) = some toolCalls)
    (h : resolveSyntheticInResponse parse pretty resp req originalTools maxReinject alreadyDisclosed =
      some (disclosed, req')) (hnamed : DrilledNamed parse originalTools toolCalls) :
    disclosed = (run maxReinject (toolCalls.map (Call.event parse originalTools))).named ∧
    (∀ name, name ∈ toolNames req' ↔ name ∈ toolNames req ∨ ((req.get "tools").bind (·.asArray)).isSome = true ∧
      ∃ t ∈ cappedTools parse originalTools maxReinject toolCalls, t.name = name) ∧
    ∃ answers, (req'.get "messages").bind (·.asArray) =
        ((req.get "messages").bind (·.asArray)).map (· ++ message :: answers) ∧
      ∀ before tc after ns, toolCalls = before ++ tc :: after → Call.drilled? parse tc = some ns →
        ∃ name, Call.name? tc = some name ∧ answers[(before.filter Call.isSynthetic).length]? =
          some (Call.answer parse pretty originalTools alreadyDisclosed tc name
            (note (omittedBehind parse originalTools maxReinject before ns) ns)) := by
  obtain ⟨r, hr, hdisclosed, hmessages, htools⟩ := resolve_lists hmessage hcalls h
  have htracks : r.Tracks (run maxReinject (toolCalls.map (Call.event parse originalTools))) := hr ▸ tracks_foldl hnamed
  refine ⟨hdisclosed.trans htracks.1, fun name => ?_, r.toolResults, hmessages, ?_⟩
  · rw [htools, filterMap_of_map_eq htracks.2, held_events, List.mem_map]
  · rintro before tc after ns rfl hns
    rw [← hr]
    exact answer_of_drilled pretty originalTools maxReinject alreadyDisclosed hnamed hns

theorem getElem?_answers (old : List Json) (message : Json) (answers : List Json) (k : Nat) :
    (old ++ message :: answers)[old.length + 1 + k]? = answers[k]? := by
  rw [List.getElem?_append_right (by omega), Nat.add_assoc, Nat.add_sub_cancel_left, Nat.add_comm,
    List.getElem?_cons_succ]

theorem law_of_conditions (hmessage : firstMessage resp = some message)
    (hcalls : (message.get "tool_calls").bind (·.asArray) = some toolCalls)
    (h : resolveSyntheticInResponse parse pretty resp req originalTools maxReinject alreadyDisclosed =
      some (disclosed, req')) (hcond : DisclosureConditions parse originalTools maxReinject toolCalls req) :
    DisclosureLaw parse pretty originalTools alreadyDisclosed toolCalls req req' disclosed := by
  obtain ⟨hdisclosed, htools, answers, hmessages, hanswers⟩ := resolve_spec hmessage hcalls h hcond.named
  have hfull := fullBeforeExtra_events.2 hcond.full
  have hcapped : ∀ t ∈ cappedTools parse originalTools maxReinject toolCalls,
      (∃ t' ∈ originalTools, t'.name = t.name) ∧ t.name ∈ toolNames req' := by
    intro t ht
    obtain ⟨tc, htc, hdrilled⟩ := mem_turnTools.1 (cappedTools_subset ht)
    refine ⟨⟨t, mem_original_of_drilled hdrilled, rfl⟩, (htools _).2 (.inr ⟨?_, t, ht, rfl⟩)⟩
    rcases hcond.tools with harray | hnone
    · exact harray
    · rw [hnone tc htc] at hdrilled
      cases hdrilled
  refine ⟨fun n hn => ?_, fun before tc after ns hsplit hns => ?_⟩
  · rw [hdisclosed, mem_named_events hfull] at hn
    rcases hn with ⟨t, ht, rfl⟩ | ⟨before, tc, after, hsplit, hschema, hlast⟩
    · exact hcapped t ht
    · obtain ⟨horiginal, hmem⟩ := hcond.schemas before tc after n hsplit hschema hlast
      refine ⟨horiginal, ?_⟩
      rcases hmem with hmem | ⟨t, ht, rfl⟩
      · exact (htools n).2 (.inl hmem)
      · exact (hcapped t ht).2
  · have hevents : toolCalls.map (Call.event parse originalTools) = before.map (Call.event parse originalTools) ++
        .batch ((originalTools.filter (belongsTo ns)).map (·.name)) :: after.map (Call.event parse originalTools) := by
      rw [hsplit, List.map_append, List.map_cons, Call.event_of_drilled hns]
    refine ⟨omittedBehind parse originalTools maxReinject before ns, ?_, fun hpos => ?_⟩
    · rw [countP_names, hdisclosed]
      exact accounted_of_full hfull _ _ _ hevents
    · have hover := overflows_events.1 (overflows_of_omitted hevents hpos)
      obtain ⟨old, hold⟩ := Option.isSome_iff_exists.1 (hcond.messages hover)
      obtain ⟨name, hname, hanswer⟩ := hanswers before tc after ns hsplit hns
      refine ⟨old, old ++ message :: answers, name, hold, by rw [hmessages, hold]; rfl, hname, ?_⟩
      rw [getElem?_answers, hanswer, note, if_pos hpos]

/-! ### Where no name comes twice -/

theorem omitted_of_noted {before : List Json} {tc : Json} {ns : String} {count : Nat} {answers : List Json}
    (hmessages : (req'.get "messages").bind (·.asArray) =
      ((req.get "messages").bind (·.asArray)).map (· ++ message :: answers))
    (hanswer : ∃ name, Call.name? tc = some name ∧ answers[(before.filter Call.isSynthetic).length]? =
      some (Call.answer parse pretty originalTools alreadyDisclosed tc name
        (note (omittedBehind parse originalTools maxReinject before ns) ns)))
    (hnoted : Noted parse pretty originalTools alreadyDisclosed req req' before tc ns count) :
    omittedBehind parse originalTools maxReinject before ns = count := by
  obtain ⟨old, new, name, hold, hnew, hname, hget⟩ := hnoted
  obtain ⟨name', hname', hanswer⟩ := hanswer
  obtain rfl : name = name' := Option.some.inj (hname.symm.trans hname')
  rw [hold, hnew, Option.map_some, Option.some.injEq] at hmessages
  rw [hmessages, getElem?_answers, hanswer] at hget
  have hnote := Call.answer_note (Option.some.inj hget)
  rw [note] at hnote
  split at hnote
  · exact omittedNote_injective hnote
  · have hempty := congrArg String.toList hnote
    simp [omittedNote] at hempty

theorem accounted_of_law (hmessage : firstMessage resp = some message)
    (hcalls : (message.get "tool_calls").bind (·.asArray) = some toolCalls)
    (h : resolveSyntheticInResponse parse pretty resp req originalTools maxReinject alreadyDisclosed =
      some (disclosed, req')) (hnamed : DrilledNamed parse originalTools toolCalls)
    (hlaw : DisclosureLaw parse pretty originalTools alreadyDisclosed toolCalls req req' disclosed) :
    Accounted maxReinject (toolCalls.map (Call.event parse originalTools)) := by
  obtain ⟨hdisclosed, -, answers, hmessages, hanswers⟩ := resolve_spec hmessage hcalls h hnamed
  intro before ys after hsplit
  obtain ⟨before', tc, after', htoolCalls, rfl, htc, -⟩ := split_events hsplit
  rcases hns : Call.drilled? parse tc with _ | ns
  · have hempty : (Call.event parse originalTools tc).held = _ := Call.held_event tc
    rw [htc, Call.drilledTools, hns] at hempty
    obtain rfl : ys = [] := hempty
    exact Nat.zero_le _
  obtain rfl : (originalTools.filter (belongsTo ns)).map (·.name) = ys :=
    Event.batch.inj ((Call.event_of_drilled hns).symm.trans htc)
  obtain ⟨count, hcount, hnoted⟩ := hlaw.accounted before' tc after' ns htoolCalls hns
  rw [countP_names, hdisclosed] at hcount
  refine hcount.trans ?_
  rcases Nat.eq_zero_or_pos count with rfl | hpos
  · exact Nat.zero_le _
  · exact (omitted_of_noted hmessages (hanswers before' tc after' ns htoolCalls hns) (hnoted hpos)).ge

theorem toolNames_of_no_array {req : Json} (h : ¬ ((req.get "tools").bind (·.asArray)).isSome = true) :
    toolNames req = [] := by
  rw [toolNames, Option.not_isSome_iff_eq_none.1 h]
  rfl

theorem conditions_of_law (hmessage : firstMessage resp = some message)
    (hcalls : (message.get "tool_calls").bind (·.asArray) = some toolCalls)
    (h : resolveSyntheticInResponse parse pretty resp req originalTools maxReinject alreadyDisclosed =
      some (disclosed, req')) (hnamed : DrilledNamed parse originalTools toolCalls)
    (hnodup : (turnNames parse originalTools toolCalls).Nodup)
    (hlaw : DisclosureLaw parse pretty originalTools alreadyDisclosed toolCalls req req' disclosed) :
    DisclosureConditions parse originalTools maxReinject toolCalls req := by
  have hfull := full_of_accounted hnodup (accounted_of_law hmessage hcalls h hnamed hlaw)
  obtain ⟨hdisclosed, htools, answers, hmessages, hanswers⟩ := resolve_spec hmessage hcalls h hnamed
  refine ⟨hnamed, ?_, fun hover => ?_, fullBeforeExtra_events.1 hfull, ?_⟩
  · -- a drilled tool is returned, and only an array of tools could take it
    by_contra hnot
    rw [not_or, not_forall] at hnot
    obtain ⟨harray, tc, hdrilled⟩ := hnot
    obtain ⟨htc, hne⟩ := Classical.not_imp.1 hdrilled
    obtain ⟨t, ht⟩ := List.exists_mem_of_ne_nil _ hne
    have hturn : turnTools parse originalTools toolCalls ≠ [] := List.ne_nil_of_mem (mem_turnTools.2 ⟨tc, htc, ht⟩)
    have hcapped : cappedTools parse originalTools maxReinject toolCalls ≠ [] := by
      rw [cappedTools]
      split
      · rename_i hcap
        rw [Ne, List.take_eq_nil_iff]
        rintro (hzero | hnil)
        · omega
        · exact hturn hnil
      · exact hturn
    obtain ⟨t', ht'⟩ := List.exists_mem_of_ne_nil _ hcapped
    have hcallable := (hlaw.callable t'.name (hdisclosed ▸ (mem_named_events hfull).2 (.inl ⟨t', ht', rfl⟩))).2
    rw [htools, toolNames_of_no_array harray] at hcallable
    rcases hcallable with hmem | ⟨hsome, -⟩
    · cases hmem
    · exact harray hsome
  · -- one of the drilled tools is missing, so that there is a note
    obtain ⟨x, hx, hmissing⟩ := exists_missing hnodup hfull (overflows_events.2 hover)
    rw [batches_events] at hx
    obtain ⟨t, ht, rfl⟩ := List.mem_map.1 hx
    obtain ⟨tc, htc, ht⟩ := mem_turnTools.1 ht
    obtain ⟨before, after, hsplit⟩ := List.append_of_mem htc
    rw [Call.drilledTools] at ht
    rcases hns : Call.drilled? parse tc with _ | ns
    · rw [hns] at ht
      cases ht
    rw [hns] at ht
    obtain ⟨count, hcount, hnoted⟩ := hlaw.accounted before tc after ns hsplit hns
    have hpos : 0 < (originalTools.filter (belongsTo ns)).countP (·.name ∉ disclosed) :=
      List.countP_pos_iff.2 ⟨t, ht, by rw [hdisclosed]; exact decide_eq_true hmissing⟩
    obtain ⟨old, -, -, hold, -⟩ := hnoted (hpos.trans_le hcount)
    rw [hold]
    rfl
  · intro before tc after name hsplit hschema hlast
    obtain ⟨horiginal, hmem⟩ := hlaw.callable name
      (hdisclosed ▸ (mem_named_events hfull).2 (.inr ⟨before, tc, after, hsplit, hschema, hlast⟩))
    rw [htools] at hmem
    exact ⟨horiginal, hmem.imp_right And.right⟩

/-- Under the conditions what is disclosed is callable and accounted for; where no name comes twice in the turn, and
each drilled tool has its name, only then. -/
theorem disclosure_law_iff (hmessage : firstMessage resp = some message)
    (hcalls : (message.get "tool_calls").bind (·.asArray) = some toolCalls)
    (h : resolveSyntheticInResponse parse pretty resp req originalTools maxReinject alreadyDisclosed =
      some (disclosed, req')) :
    (DisclosureConditions parse originalTools maxReinject toolCalls req →
      DisclosureLaw parse pretty originalTools alreadyDisclosed toolCalls req req' disclosed) ∧
    (DrilledNamed parse originalTools toolCalls → (turnNames parse originalTools toolCalls).Nodup →
      DisclosureLaw parse pretty originalTools alreadyDisclosed toolCalls req req' disclosed →
        DisclosureConditions parse originalTools maxReinject toolCalls req) :=
  ⟨law_of_conditions hmessage hcalls h, conditions_of_law hmessage hcalls h⟩

end

def githubDrill : List Json := [callJson "call_1" "ns_github"]

/-- One tool of the two fits, and the answer counts the other. -/
theorem disclosure_law_github : ∃ req',
    resolveSyntheticInResponse parseEmpty (fun _ => "[]") (responseJson githubDrill) requestJson repoTools 1 [] =
      some (["github_list"], req') ∧
    DisclosureLaw parseEmpty (fun _ => "[]") repoTools [] githubDrill requestJson req' ["github_list"] := by
  have hresolved : (resolveSyntheticInResponse parseEmpty (fun _ => "[]") (responseJson githubDrill) requestJson
      repoTools 1 []).map Prod.fst = some ["github_list"] := by decide +kernel
  obtain ⟨⟨disclosed, req'⟩, h, hdisclosed⟩ := Option.map_eq_some_iff.1 hresolved
  obtain rfl : disclosed = ["github_list"] := hdisclosed
  have hnamed : ∀ tc ∈ githubDrill, ∀ t ∈ Call.drilledTools parseEmpty repoTools tc,
      toolFunctionName t.raw = some t.name := by decide +kernel
  have hnone : ∀ tc ∈ githubDrill, Call.schema? parseEmpty tc = none := by decide +kernel
  have hno : ∀ before tc after name, githubDrill = before ++ tc :: after → Call.schema? parseEmpty tc ≠ some name := by
    intro before tc after name hsplit
    rw [hnone tc (hsplit ▸ List.mem_append_right _ List.mem_cons_self)]
    exact (Option.some_ne_none name).symm
  exact ⟨req', h, (disclosure_law_iff rfl rfl h).1 ⟨hnamed, .inl rfl, fun _ => rfl,
    fun _ before tc after name hsplit hschema => absurd hschema (hno before tc after name hsplit),
    fun before tc after name hsplit hschema => absurd hschema (hno before tc after name hsplit)⟩⟩

def schemaArguments : String := "\x7b\"tool_name\":\"github_list\"\x7d"

def parseSchema (text : String) : Option Json :=
  if text = schemaArguments then some (.object [("tool_name", .string "github_list")]) else none

def schemaCall : Json :=
  .object [("function", .object [("arguments", .string schemaArguments), ("name", .string getToolSchema)]),
    ("id", .string "call_1"), ("type", .string "function")]

/-- The tool is named as disclosed, but the request does not get it. -/
theorem schema_not_callable : ∃ req',
    resolveSyntheticInResponse parseSchema (fun _ => "[]") (responseJson [schemaCall]) requestJson repoTools 0 [] =
      some (["github_list"], req') ∧ "github_list" ∉ toolNames req' ∧
    ¬ DisclosureLaw parseSchema (fun _ => "[]") repoTools [] [schemaCall] requestJson req' ["github_list"] := by
  have hnot : "github_list" ∉ toolNames (requestJson.update ["messages"] (appendMessages (assistantJson [schemaCall] ::
      [Call.answer parseSchema (fun _ => "[]") repoTools [] schemaCall getToolSchema ""]))) := by decide +kernel
  exact ⟨_, rfl, hnot, fun hlaw => hnot (hlaw.callable _ (List.mem_singleton_self _)).2⟩

end ObeyGateway.ToolCompression
