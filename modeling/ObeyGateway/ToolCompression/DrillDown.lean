import ObeyGateway.ToolCompression.Resolver

/-!
# The drill-down loop

`tool_compression/middleware.rs`, `ToolCompressionService::call`. As long as the provider calls a drill-down tool the
gateway answers the call and asks again; after the budget these tools are withdrawn and there is one more turn.
`run_spec` says what a run comes to. A tool is told to be a drill-down by its name, also where it is the client's own
(`drillDown_law_iff`).
-/

namespace ObeyGateway.ToolCompression

def MAX_SYNTHETIC_RESOLUTION_STEPS : Nat := 6

def MAX_SYNTHETIC_RESOLUTION_STEPS_CEILING : Nat := 32

/-- The addition saturates, far above the ceiling. -/
def syntheticStepBudget (namespaceCount : Nat) : Nat :=
  min (max (namespaceCount + 4) MAX_SYNTHETIC_RESOLUTION_STEPS) MAX_SYNTHETIC_RESOLUTION_STEPS_CEILING

/-- An error, a body that cannot be collected or is not JSON, or one that is, after its events are put together. -/
inductive Answer
  | failed
  | unread
  | unparsed
  | parsed (sse : Bool) (json : Json)

/-- What the client gets: the error, an empty body, an answer as it came, or a body made up here. -/
inductive Reply
  | failed
  | empty
  | relayed (answer : Answer)
  | composed (sse : Bool) (json : Json)

/-- `/choices/0` -/
def firstChoice (resp : Json) : Option Json :=
  match resp.get "choices" with
  | some (.array choices) => choices.head?
  | some v => v.get "0"
  | none => none

def toolCallsAt (key : String) (resp : Json) : Option (List Json) :=
  (((firstChoice resp).bind (·.get key)).bind (·.get "tool_calls")).bind (·.asArray)

def Answer.calls : Answer → List Json
  | .parsed _ json => (toolCallsAt "message" json).getD []
  | _ => []

/-- A body for a stream has the message as a delta. -/
def Reply.calls : Reply → List Json
  | .relayed answer => answer.calls
  | .composed sse json => (toolCallsAt (if sse then "delta" else "message") json).getD []
  | _ => []

def Answer.callsSynthetic (answer : Answer) : Bool := answer.calls.any Call.isSynthetic

/-- `as_i64`, and zero without it -/
def createdOf (resp : Json) : Json :=
  match resp.get "created" with
  | some (.number (.posInt n)) => .number (.posInt (if n ≤ 0x7FFFFFFFFFFFFFFF then n else 0))
  | some (.number (.negInt n)) => .number (.negInt n)
  | _ => .number (.posInt 0)

def localChoice (key content : String) : Json :=
  .object [(key, .object [("content", .string content), ("role", .string "assistant")]),
    ("finish_reason", .string "stop"), ("index", .number (.posInt 0))]

def setChoices (choices : Json) : Json → Json
  | .object fields => .object (Assoc.insert fields "choices" choices)
  | _ => .object [("choices", choices)]

def frameLocalAssistantResponse (resp : Json) (content : String) (sse : Bool) : Json :=
  if sse then
    .object [("choices", .array [localChoice "delta" content]), ("created", createdOf resp),
      ("id", .string (((resp.get "id").bind (·.asStr)).getD "chatcmpl-tc")),
      ("model", .string (((resp.get "model").bind (·.asStr)).getD "")),
      ("object", .string "chat.completion.chunk")]
  else setChoices (.array [localChoice "message" content]) resp

section
variable (parse : String → Option Json) (originalTools : List ToolDefinition)

def syntheticNote (call : Json) : Option String :=
  let name := (Call.name? call).getD ""
  let argument (key : String) := ((parse (Call.arguments call)).bind (·.get key)).bind (·.asStr)
  if isSynthetic name then
    match if hasNsPrefix name then some (nsSuffix name) else argument "namespace" with
    | some ns =>
      let names := (toolsInNamespace ns originalTools).filterMap toolFunctionName
      if names.isEmpty then some ("Namespace '" ++ ns ++ "' contains no tools.")
      else some ("Tools in namespace '" ++ ns ++ "': " ++ ", ".intercalate names ++ ".")
    | none =>
      match argument "tool_name" with
      | some toolName => some ("Requested schema for tool '" ++ toolName ++ "'.")
      | none => some ("Unresolved tool-discovery request '" ++ name ++ "'.")
  else none

def sanitizeSyntheticResponse (resp : Json) (sse : Bool) : Option Json := do
  let calls ← toolCallsAt "message" resp
  let notes := calls.filterMap (syntheticNote parse originalTools)
  if notes.isEmpty then none
  else
    some (frameLocalAssistantResponse resp
      ("Tool discovery could not be completed within the configured budget. " ++ " ".intercalate notes ++
        " Call the listed tools directly by name.") sse)

end

def withdrawSyntheticTools (req : Json) (originalTools : List ToolDefinition) : Json :=
  match req with
  | .object fields =>
    match Assoc.get fields "tools" with
    | some (.array tools) =>
      let kept := tools.filter fun tool => !(toolFunctionName tool).any isSynthetic
      if kept.isEmpty then
        if originalTools.isEmpty then .object (Assoc.erase fields "tools")
        else .object (Assoc.insert fields "tools" (.array (originalTools.map (·.raw))))
      else .object (Assoc.insert fields "tools" (.array kept))
    | _ => req
  | _ => req

/-- What the loop reads: the client's tools, the stages' tools, the cap, and whether there is a session. -/
structure DrillDown where
  parse : String → Option Json
  pretty : Json → String
  originalTools : List ToolDefinition
  tools : List ToolDefinition
  disclosureMaxTools : Nat
  hasSession : Bool

/-- The response at the head of the loop is the answer of number `steps`. -/
structure LoopState where
  req : Json
  steps : Nat
  withdrawn : Bool
  alreadyDisclosed : List String

/-- The targets of a response; a call without a `function` is read as one. -/
def discoveryTargets (parse : String → Option Json) (resp : Json) : List String :=
  ((toolCallsAt "message" resp).getD []).filterMap fun call =>
    let fnObj := (call.get "function").getD call
    ((fnObj.get "name").bind (·.asStr)).bind fun name =>
      discoveryKey parse name (((fnObj.get "arguments").bind (·.asStr)).getD emptyArguments)

namespace DrillDown
variable (d : DrillDown)

def syntheticInjected : Bool := d.tools.any (isSynthetic ·.name)

def namespaceCount : Nat := d.tools.countP (hasNsPrefix ·.name)

def stepBudget : Nat := syntheticStepBudget d.namespaceCount

def round (s : LoopState) (answer : Answer) : Reply ⊕ LoopState :=
  match answer with
  | .failed => .inl .failed
  | .unread => .inl .empty
  | .unparsed => .inl (.relayed answer)
  | .parsed sse resp =>
    if d.stepBudget ≤ s.steps ∧ s.withdrawn = true then
      match sanitizeSyntheticResponse d.parse d.originalTools resp sse with
      | some sanitized => .inl (.composed sse sanitized)
      | none => .inl (.relayed answer)
    else
      let s := if d.stepBudget ≤ s.steps then
          { s with req := withdrawSyntheticTools s.req d.originalTools, withdrawn := true }
        else s
      match resolveSyntheticInResponse d.parse d.pretty resp s.req d.originalTools d.disclosureMaxTools
          s.alreadyDisclosed with
      | some (_, req) =>
        .inr { s with
          req
          steps := s.steps + 1
          alreadyDisclosed :=
            if d.hasSession then s.alreadyDisclosed ++ discoveryTargets d.parse resp else s.alreadyDisclosed }
      | none => .inl (.relayed answer)

def run (answers : Nat → Answer) : Nat → LoopState → Option (Reply × List Json)
  | 0, _ => none
  | fuel + 1, s =>
    match d.round s (answers s.steps) with
    | .inl reply => some (reply, [])
    | .inr s' => (run answers fuel s').map fun out => (out.1, s'.req :: out.2)

def call (answers : Nat → Answer) (fuel : Nat) (req : Json) (alreadyDisclosed : List String) :
    Option (Reply × List Json) :=
  match answers 0 with
  | .failed => some (.failed, [])
  | answer =>
    if d.syntheticInjected then d.run answers fuel ⟨req, 0, false, alreadyDisclosed⟩
    else some (.relayed answer, [])

end DrillDown

structure SingleChoice where
  sse : Bool
  json : Json
  choice : Json
  single : json.get "choices" = some (.array [choice])

namespace SingleChoice
variable (a : SingleChoice)

def answer : Answer := .parsed a.sse a.json

theorem firstChoice_eq : firstChoice a.json = some a.choice := by
  rw [firstChoice, a.single]
  rfl

theorem firstMessage_eq : firstMessage a.json = a.choice.get "message" := by
  rw [firstMessage, a.single]
  rfl

theorem toolCallsAt_eq : toolCallsAt "message" a.json =
    ((a.choice.get "message").bind (·.get "tool_calls")).bind (·.asArray) := by
  rw [toolCallsAt, firstChoice_eq]
  rfl

end SingleChoice

section
variable {parse : String → Option Json} {pretty : Json → String} {originalTools : List ToolDefinition}

theorem callsSynthetic_eq (a : SingleChoice) : a.answer.callsSynthetic =
    (((a.choice.get "message").bind (·.get "tool_calls")).bind (·.asArray)).elim false (·.any Call.isSynthetic) := by
  rw [← a.toolCallsAt_eq, Answer.callsSynthetic, SingleChoice.answer, Answer.calls]
  cases toolCallsAt "message" a.json <;> rfl

theorem isEmpty_toolResults (toolCalls : List Json) (maxReinject : Nat) (alreadyDisclosed : List String) :
    (toolCalls.foldl (resolveCall parse pretty originalTools maxReinject alreadyDisclosed)
      .empty).toolResults.isEmpty = !toolCalls.any Call.isSynthetic := by
  have hresults := congrArg List.isEmpty (toolResults_foldl toolCalls .empty :
    (toolCalls.foldl (resolveCall parse pretty originalTools maxReinject alreadyDisclosed) .empty).toolResults.map
      answeredId = _)
  rw [List.isEmpty_map] at hresults
  rw [hresults, Bool.eq_iff_iff, List.isEmpty_iff]
  simp [Resolution.empty]

theorem resolve_isSome (a : SingleChoice) (req : Json) (maxReinject : Nat) (alreadyDisclosed : List String) :
    (resolveSyntheticInResponse parse pretty a.json req originalTools maxReinject alreadyDisclosed).isSome =
      a.answer.callsSynthetic := by
  rw [callsSynthetic_eq, resolveSyntheticInResponse, a.firstMessage_eq]
  rcases a.choice.get "message" with _ | message
  · rfl
  rw [Option.bind_eq_bind, Option.bind_some, Option.bind_some]
  rcases (message.get "tool_calls").bind (·.asArray) with _ | toolCalls
  · rfl
  rw [Option.bind_eq_bind, Option.bind_some, Option.elim_some]
  dsimp only
  rw [isEmpty_toolResults]
  cases toolCalls.any Call.isSynthetic <;> rfl

theorem syntheticNote_isSome (call : Json) : (syntheticNote parse originalTools call).isSome = Call.isSynthetic call := by
  have hname : isSynthetic ((Call.name? call).getD "") = Call.isSynthetic call := by
    rw [Call.isSynthetic]
    cases Call.name? call with
    | none => decide
    | some name => rfl
  rw [← hname, syntheticNote]
  rcases isSynthetic ((Call.name? call).getD "") with _ | _
  · rfl
  dsimp only
  rw [if_pos rfl]
  split
  · split <;> rfl
  · split <;> rfl

theorem sanitize_isSome (a : SingleChoice) (sse : Bool) :
    (sanitizeSyntheticResponse parse originalTools a.json sse).isSome = a.answer.callsSynthetic := by
  rw [callsSynthetic_eq, sanitizeSyntheticResponse, a.toolCallsAt_eq]
  rcases ((a.choice.get "message").bind (·.get "tool_calls")).bind (·.asArray) with _ | toolCalls
  · rfl
  rw [Option.bind_eq_bind, Option.bind_some, Option.elim_some]
  have hnotes : (toolCalls.filterMap (syntheticNote parse originalTools)).isEmpty =
      !toolCalls.any Call.isSynthetic := by
    rw [Bool.eq_iff_iff, List.isEmpty_iff, List.filterMap_eq_nil_iff]
    simp [← Option.not_isSome_iff_eq_none, syntheticNote_isSome]
  dsimp only
  rw [hnotes]
  cases toolCalls.any Call.isSynthetic <;> rfl

theorem calls_sanitize {resp body : Json} {sse : Bool}
    (h : sanitizeSyntheticResponse parse originalTools resp sse = some body) :
    (Reply.composed sse body).calls = [] := by
  unfold sanitizeSyntheticResponse at h
  obtain ⟨toolCalls, -, h⟩ := Option.bind_eq_some_iff.1 h
  dsimp only at h
  split at h
  · cases h
  · cases h
    generalize "Tool discovery could not be completed within the configured budget. " ++ _ ++ _ = content
    cases sse with
    | true => simp [Reply.calls, toolCallsAt, firstChoice, frameLocalAssistantResponse, localChoice, Json.get, Assoc.get]
    | false =>
      have hchoice : firstChoice (frameLocalAssistantResponse resp content false) =
          some (localChoice "message" content) := by
        rw [firstChoice, frameLocalAssistantResponse, if_neg Bool.false_ne_true]
        cases resp with
        | object fields => rw [setChoices, Json.get, Assoc.get_insert_self]; rfl
        | _ => rfl
      rw [Reply.calls, toolCallsAt, hchoice]
      simp [localChoice, Json.get, Assoc.get]

end

namespace DrillDown
variable (d : DrillDown)

def Timely (s : LoopState) : Prop := s.withdrawn = decide (d.stepBudget < s.steps)

variable {d} {s : LoopState} {a : SingleChoice}

theorem round_relays (h : a.answer.callsSynthetic = false) : d.round s a.answer = .inl (.relayed a.answer) := by
  have hsanitize : sanitizeSyntheticResponse d.parse d.originalTools a.json a.sse = none := by
    rw [← Option.not_isSome_iff_eq_none, sanitize_isSome, h]
    exact Bool.false_ne_true
  have hresolve (req : Json) (disclosed : List String) : resolveSyntheticInResponse d.parse d.pretty a.json req
      d.originalTools d.disclosureMaxTools disclosed = none := by
    rw [← Option.not_isSome_iff_eq_none, resolve_isSome, h]
    exact Bool.false_ne_true
  dsimp only [round, SingleChoice.answer]
  rw [hsanitize]
  simp only [hresolve, ite_self]

theorem round_composes (hs : d.Timely s) (hsteps : d.stepBudget < s.steps) (h : a.answer.callsSynthetic = true) :
    ∃ body, d.round s a.answer = .inl (.composed a.sse body) ∧ (Reply.composed a.sse body).calls = [] := by
  have hsome : (sanitizeSyntheticResponse d.parse d.originalTools a.json a.sse).isSome = true := by
    rw [sanitize_isSome, h]
  obtain ⟨body, hbody⟩ := Option.isSome_iff_exists.1 hsome
  refine ⟨body, ?_, calls_sanitize hbody⟩
  dsimp only [round, SingleChoice.answer]
  rw [if_pos ⟨hsteps.le, by rw [hs, decide_eq_true hsteps]⟩, hbody]

theorem round_resubmits (hs : d.Timely s) (hsteps : s.steps ≤ d.stepBudget) (h : a.answer.callsSynthetic = true) :
    ∃ s', d.round s a.answer = .inr s' ∧ s'.steps = s.steps + 1 ∧ d.Timely s' := by
  have hresolve (req : Json) (disclosed : List String) : ∃ r, resolveSyntheticInResponse d.parse d.pretty a.json req
      d.originalTools d.disclosureMaxTools disclosed = some r := by
    rw [← Option.isSome_iff_exists, resolve_isSome, h]
  have hpending : s.withdrawn = false := by rw [hs, decide_eq_false (Nat.not_lt.2 hsteps)]
  dsimp only [round, SingleChoice.answer]
  rw [if_neg (by rw [hpending]; rintro ⟨-, h⟩; cases h)]
  rcases hsteps.lt_or_eq with hlt | heq
  · obtain ⟨r, hr⟩ := hresolve s.req s.alreadyDisclosed
    rw [if_neg (Nat.not_le.2 hlt), hr]
    refine ⟨_, rfl, rfl, ?_⟩
    rw [Timely, hpending, decide_eq_false (Nat.not_lt.2 hlt)]
  · obtain ⟨r, hr⟩ := hresolve (withdrawSyntheticTools s.req d.originalTools) s.alreadyDisclosed
    rw [if_pos heq.ge, hr]
    refine ⟨_, rfl, rfl, ?_⟩
    rw [Timely, decide_eq_true (Nat.lt_succ_of_le heq.ge)]

variable (d) in
/-- What a run that stops at answer `n` gives: the answer, or something that calls nothing. -/
def StopsAt (answers : Nat → SingleChoice) (n : Nat) (reply : Reply) : Prop :=
  if (answers n).answer.callsSynthetic then
    n = d.stepBudget + 1 ∧ reply.calls = [] ∧ ∀ answer, reply ≠ .relayed answer
  else reply = .relayed (answers n).answer

theorem run_spec (answers : Nat → SingleChoice) {fuel : Nat} (hs : d.Timely s) (hsteps : s.steps ≤ d.stepBudget + 1)
    (hfuel : d.stepBudget + 2 ≤ fuel + s.steps) :
    ∃ reply requests, d.run (fun k => (answers k).answer) fuel s = some (reply, requests) ∧
      s.steps + requests.length ≤ d.stepBudget + 1 ∧
      (∀ k, s.steps ≤ k → k < s.steps + requests.length → (answers k).answer.callsSynthetic = true) ∧
      d.StopsAt answers (s.steps + requests.length) reply := by
  induction fuel generalizing s with
  | zero => omega
  | succ fuel ih =>
    rw [run]
    by_cases hcalls : (answers s.steps).answer.callsSynthetic = true
    · rcases Nat.lt_or_ge d.stepBudget s.steps with hlast | hmore
      · obtain ⟨body, hround, hbody⟩ := round_composes hs hlast hcalls
        refine ⟨_, [], by rw [hround], hsteps, fun k hle hlt => absurd hlt (Nat.not_lt.2 hle), ?_⟩
        rw [StopsAt, List.length_nil, Nat.add_zero, if_pos hcalls]
        exact ⟨by omega, hbody, fun _ h => by cases h⟩
      · obtain ⟨s', hround, hnext, hs'⟩ := round_resubmits hs hmore hcalls
        obtain ⟨reply, requests, hrun, hle, hprev, hstop⟩ := ih hs' (by omega) (by omega)
        have hlength : s.steps + (s'.req :: requests).length = s'.steps + requests.length := by
          rw [List.length_cons, hnext]
          omega
        refine ⟨reply, s'.req :: requests, by rw [hround]; dsimp only; rw [hrun]; rfl, by omega, ?_, by rwa [hlength]⟩
        intro k hk hlt
        rcases hk.lt_or_eq with hk | rfl
        · exact hprev k (by omega) (by omega)
        · exact hcalls
    · refine ⟨_, [], by rw [round_relays (Bool.eq_false_iff.2 hcalls)], hsteps,
        fun k hle hlt => absurd hlt (Nat.not_lt.2 hle), ?_⟩
      rw [StopsAt, List.length_nil, Nat.add_zero, if_neg hcalls]

theorem run_mono {answers : Nat → Answer} {fuel fuel' : Nat} {out : Reply × List Json} (hle : fuel ≤ fuel')
    (h : d.run answers fuel s = some out) : d.run answers fuel' s = some out := by
  induction fuel generalizing s fuel' out with
  | zero => cases h
  | succ fuel ih =>
    cases fuel' with
    | zero => omega
    | succ fuel' =>
      rw [run] at h ⊢
      split at h
      · exact h
      · obtain ⟨rest, hrest, rfl⟩ := Option.map_eq_some_iff.1 h
        rw [ih (Nat.le_of_succ_le_succ hle) hrest]
        rfl

variable (d) in
def supplied (name : String) : Bool := d.originalTools.any (·.name = name)

variable (d) in
def leaks (tc : Json) : Bool := (Call.name? tc).any fun name => isSynthetic name && !d.supplied name

variable (d) in
def callsOnlySupplied (answer : Answer) : Bool := answer.calls.all fun tc => (Call.name? tc).any d.supplied

variable (d) in
structure LoopLaw (answers : Nat → SingleChoice) (out : Reply × List Json) : Prop where
  bounded : out.2.length ≤ d.stepBudget + 1 ∧ out.2.length ≤ 33
  closed : ∀ tc ∈ out.1.calls, d.leaks tc = false
  relayed : ∀ k ≤ out.2.length, d.callsOnlySupplied (answers k).answer = true → out.1 = .relayed (answers k).answer

variable (d) in
/-- No answer that the loop comes to calls only the client's tools and among them one with the name of a drill-down. -/
def NoClash (answers : Nat → SingleChoice) : Prop :=
  if d.syntheticInjected then
    ∀ k ≤ d.stepBudget + 1, (∀ j < k, (answers j).answer.callsSynthetic = true) →
      d.callsOnlySupplied (answers k).answer = true → (answers k).answer.callsSynthetic = false
  else ∀ tc ∈ (answers 0).answer.calls, d.leaks tc = false

theorem stepBudget_le : d.stepBudget ≤ 32 := Nat.min_le_right _ _

theorem leaks_eq_false {tc : Json} (h : Call.isSynthetic tc = false) : d.leaks tc = false := by
  rw [Call.isSynthetic] at h
  rw [leaks]
  rcases hname : Call.name? tc with _ | name
  · rfl
  rw [hname, Option.any_some] at h
  rw [Option.any_some, h, Bool.false_and]

variable {answers : Nat → SingleChoice} {reply : Reply}

theorem StopsAt.closed {n : Nat} (h : d.StopsAt answers n reply) : ∀ tc ∈ reply.calls, d.leaks tc = false := by
  rw [StopsAt] at h
  split at h
  · rw [h.2.1]
    exact fun tc htc => absurd htc List.not_mem_nil
  · rename_i hcalls
    subst h
    intro tc htc
    exact leaks_eq_false (Bool.eq_false_iff.2 fun htrue => hcalls (List.any_eq_true.2 ⟨tc, htc, htrue⟩))

theorem StopsAt.eq_relayed {n : Nat} (h : d.StopsAt answers n reply) (hcalls : (answers n).answer.callsSynthetic = false) :
    reply = .relayed (answers n).answer := by
  rwa [StopsAt, if_neg (Bool.eq_false_iff.1 hcalls)] at h

theorem StopsAt.callsSynthetic {n : Nat} {answer : Answer}
    (h : d.StopsAt answers n (.relayed answer)) : answer.callsSynthetic = false := by
  rw [StopsAt] at h
  split at h
  · exact absurd rfl (h.2.2 answer)
  · rename_i hcalls
    cases h
    exact Bool.eq_false_iff.2 hcalls

theorem law_iff_of_stopsAt {requests : List Json}
    (hinjected : d.syntheticInjected = true) (hle : requests.length ≤ d.stepBudget + 1)
    (hprev : ∀ k < requests.length, (answers k).answer.callsSynthetic = true)
    (hstop : d.StopsAt answers requests.length reply) :
    d.LoopLaw answers (reply, requests) ↔ d.NoClash answers := by
  have hbudget : d.stepBudget ≤ 32 := stepBudget_le
  rw [NoClash, if_pos hinjected]
  constructor
  · intro hlaw k hk hreached honly
    -- the loop comes to answer `k`: the answer it stops at is synthetic only after the budget
    have hkle : k ≤ requests.length := by
      by_contra hlt
      have hsynthetic := hreached requests.length (by omega)
      rw [StopsAt, if_pos hsynthetic] at hstop
      omega
    have hreply := hlaw.relayed k hkle honly
    dsimp only at hreply
    subst hreply
    exact hstop.callsSynthetic
  · intro hclash
    refine ⟨⟨hle, by dsimp only; omega⟩, hstop.closed, ?_⟩
    intro k hk honly
    have hnone := hclash k (by dsimp only at hk; omega) (fun j hj => hprev j (by dsimp only at hk; omega)) honly
    obtain hlt | rfl := (show k ≤ requests.length from hk).lt_or_eq
    · rw [hprev k hlt] at hnone
      cases hnone
    · exact hstop.eq_relayed hnone

/-- The loop ends, and its law holds when no answer clashes. -/
theorem drillDown_law_iff (answers : Nat → SingleChoice) (req : Json) (alreadyDisclosed : List String) :
    ∃ out, (∀ fuel, d.stepBudget + 2 ≤ fuel →
        d.call (fun k => (answers k).answer) fuel req alreadyDisclosed = some out) ∧
      (d.LoopLaw answers out ↔ d.NoClash answers) := by
  by_cases hinjected : d.syntheticInjected = true
  · have htimely : d.Timely ⟨req, 0, false, alreadyDisclosed⟩ :=
      (decide_eq_false (Nat.not_lt_zero _)).symm
    obtain ⟨reply, requests, hrun, hle, hprev, hstop⟩ :=
      run_spec answers htimely (Nat.zero_le _) (le_refl (d.stepBudget + 2))
    rw [Nat.zero_add] at hle hstop
    refine ⟨(reply, requests), fun fuel hfuel => ?_, law_iff_of_stopsAt hinjected hle ?_ hstop⟩
    · show (if _ then _ else _) = _
      rw [if_pos hinjected]
      exact run_mono hfuel hrun
    · exact fun k hk => hprev k (Nat.zero_le k) (by rwa [Nat.zero_add])
  · refine ⟨(.relayed (answers 0).answer, []), fun fuel _ => ?_, ?_⟩
    · show (if _ then _ else _) = _
      rw [if_neg hinjected]
    · rw [NoClash, if_neg hinjected]
      refine ⟨fun hlaw => hlaw.closed, fun hclosed => ⟨⟨Nat.zero_le _, Nat.zero_le _⟩, hclosed, ?_⟩⟩
      intro k hk _
      rw [Nat.le_zero.1 hk]

def answerWith (calls : List Json) : SingleChoice where
  sse := false
  json := responseJson calls
  choice := .object [("message", assistantJson calls)]
  single := rfl

def clientTool : DrillDown where
  parse := parseEmpty
  pretty := fun _ => "[]"
  originalTools := [bareTool "ns_custom"]
  tools := [bareTool "ns_custom"]
  disclosureMaxTools := 0
  hasSession := false

def callsTheTool : Nat → SingleChoice
  | 0 => answerWith [callJson "call_1" "ns_custom"]
  | _ => answerWith []

/-- The call of the client's tool is taken for a drill-down, and the client never sees it. -/
theorem client_tool_intercepted : clientTool.callsOnlySupplied (callsTheTool 0).answer = true ∧
    ∃ out, clientTool.call (fun k => (callsTheTool k).answer) (clientTool.stepBudget + 2) requestJson [] = some out ∧
      ¬clientTool.LoopLaw callsTheTool out := by
  refine ⟨by decide, _, rfl, ?_⟩
  intro hlaw
  have hrelayed := hlaw.relayed 0 (Nat.zero_le _) (by decide)
  have hcalls := congrArg (fun reply : Reply => reply.calls.length) hrelayed
  revert hcalls
  decide

end DrillDown

end ObeyGateway.ToolCompression
