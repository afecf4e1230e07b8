import ObeyGateway.Lib.Firsts
import ObeyGateway.Responses.StreamLaw

/-!
# The provider's ids in a response stream (`handle_tool_call`, `final_response`)

The first fragment of a call opens an item, under its id or under one that is drawn; a later one can only give the item
another name. The id and the name that some fragment brings are those of the item at the end exactly if the first
fragment has the id and no empty name comes after the name (`identity_kept_iff`).
-/

namespace ObeyGateway.Responses

open Firsts

def fragmentIndex (fragment : Json) : Nat := (((fragment.get "index").bind (·.asU64)).getD 0).toNat

def fragmentId (fragment : Json) : Option String := (fragment.get "id").bind (·.asStr)

def fragmentName (fragment : Json) : Option String := ((fragment.get "function").bind (·.get "name")).bind (·.asStr)

def chunkFragments (chunk : Json) : List Json :=
  (((((chunk.get "choices").bind (·.asArray)).bind (·.head?)).bind (·.get "delta")).bind fun delta =>
    (delta.get "tool_calls").bind (·.asArray)).getD []

def callFragments (chunks : List Json) (index : Nat) : List Json :=
  (chunks.flatMap chunkFragments).filter (fragmentIndex · = index)

def callIndices (chunks : List Json) : List Nat :=
  (firsts fragmentIndex [] (chunks.flatMap chunkFragments)).map fragmentIndex

def Brings (read : Json → Option String) (fragments : List Json) (text : String) : Prop :=
  text ≠ "" ∧ ∃ front fragment back, fragments = front ++ fragment :: back ∧ read fragment = some text ∧
    ∀ other ∈ front ++ back, read other = none ∨ read other = some ""

def OutputItem.asCall : OutputItem → Option OutputFunctionCall
  | .functionCall call => some call
  | _ => none

def endingCalls (events : List ResponsesSseEvent) : List OutputFunctionCall :=
  ((events.getLast?.bind (·.body.response)).map (·.output.filterMap (·.asCall))).getD []

/-- The calls at the end are those of the provider, in the order of their indices, under the id and the name that it
gave. -/
def IdentityKept (uuid : Nat → String) (createdTs : Int) (model : String) (instructions : Option String)
    (chunks : List Json) (usage : Option ResponsesUsage) : Prop :=
  List.Forall₂ (fun index call => ∀ id name, Brings fragmentId (callFragments chunks index) id →
      Brings fragmentName (callFragments chunks index) name → call.callId = id ∧ call.name = name)
    (callIndices chunks) (endingCalls (streamEvents uuid createdTs model instructions chunks usage))

def ItemSlot.callIndex : ItemSlot → Option Nat
  | .functionCall toolIndex => some toolIndex
  | _ => none

def lastName (fragments : List Json) : String := (fragments.filterMap fragmentName).getLast?.getD ""

inductive CallAfter (uuid : Nat → String) : List Json → Option FunctionCallState → Prop
  | untouched : CallAfter uuid [] none
  | given {first : Json} {rest : List Json} {state : FunctionCallState} (hid : fragmentId first = some state.callId)
    (hname : state.name = lastName (first :: rest)) : CallAfter uuid (first :: rest) (some state)
  | drawn {first : Json} {rest : List Json} {state : FunctionCallState} {n : Nat} (hid : fragmentId first = none)
    (hcall : state.callId = "call_" ++ uuid n) (hname : state.name = lastName (first :: rest)) :
    CallAfter uuid (first :: rest) (some state)

structure CallsAfter (uuid : Nat → String) (fragments : List Json) (t : ResponsesStreamTranslator) : Prop where
  order : t.orderedItems.filterMap (·.callIndex) = (firsts fragmentIndex [] fragments).map fragmentIndex
  calls : ∀ k, CallAfter uuid (fragments.filter (fragmentIndex · = k)) (t.currentFunctionCallItems k)

section
variable {uuid : Nat → String} {fragments : List Json} {t t' : ResponsesStreamTranslator} {s : Feed}

structure SameCalls (t t' : ResponsesStreamTranslator) : Prop where
  order : t'.orderedItems.filterMap (·.callIndex) = t.orderedItems.filterMap (·.callIndex)
  calls : t'.currentFunctionCallItems = t.currentFunctionCallItems

theorem SameCalls.refl (t : ResponsesStreamTranslator) : SameCalls t t := ⟨rfl, rfl⟩

theorem SameCalls.trans {t'' : ResponsesStreamTranslator} (h : SameCalls t t') (h' : SameCalls t' t'') : SameCalls t t'' :=
  ⟨h'.order.trans h.order, h'.calls.trans h.calls⟩

theorem CallsAfter.same (h : CallsAfter uuid fragments t) (hsame : SameCalls t t') : CallsAfter uuid fragments t' :=
  ⟨hsame.order.trans h.order, fun k => by rw [hsame.calls]; exact h.calls k⟩

theorem sameCalls_start (s : Feed) : SameCalls s.1 s.start.1 := by
  unfold Feed.start
  split <;> exact ⟨rfl, rfl⟩

theorem sameCalls_noteFinishReason (t : ResponsesStreamTranslator) (choice : Json) :
    SameCalls t (Feed.noteFinishReason t choice) := by
  unfold Feed.noteFinishReason
  split <;> exact ⟨rfl, rfl⟩

theorem sameCalls_handleReasoning (s : Feed) (text : String) : SameCalls s.1 (s.handleReasoning uuid text).1 := by
  have hensure : SameCalls s.1 (s.ensureReasoningItem uuid).1 := by
    unfold Feed.ensureReasoningItem
    split
    · exact .refl _
    · exact ⟨by simp [Feed.push, ItemSlot.callIndex], rfl⟩
  exact hensure.trans ⟨rfl, rfl⟩

theorem sameCalls_handlePart (s : Feed) (kind : PartKind) (text : String) :
    SameCalls s.1 (s.handlePart uuid kind text).1 := by
  have hmessage : SameCalls s.1 (s.ensureMessageItem uuid).1 := by
    unfold Feed.ensureMessageItem
    split
    · exact .refl _
    · exact ⟨by simp [Feed.push, ItemSlot.callIndex], rfl⟩
  have hpart : ∀ s : Feed, SameCalls s.1 (s.ensurePart kind).1 := by
    intro s
    unfold Feed.ensurePart
    split
    · exact .refl _
    · cases kind <;> exact ⟨rfl, rfl⟩
  refine (hmessage.trans (hpart _)).trans ?_
  unfold Feed.handlePart
  cases kind <;> exact ⟨rfl, rfl⟩

theorem sameCalls_feedContentPart (s : Feed) (part : Json) : SameCalls s.1 (s.feedContentPart uuid part).1 := by
  unfold Feed.feedContentPart
  split
  all_goals
    split
    · exact sameCalls_handlePart s _ _
    · exact .refl _

theorem sameCalls_feedContent (s : Feed) (content : Option Json) : SameCalls s.1 (s.feedContent uuid content).1 := by
  unfold Feed.feedContent
  split
  · split
    · exact .refl _
    · exact sameCalls_handlePart s _ _
  · rename_i parts
    induction parts generalizing s with
    | nil => exact .refl _
    | cons part parts ih => exact (sameCalls_feedContentPart s part).trans (ih _)
  · exact .refl _

theorem sameCalls_feedReasoning (s : Feed) (delta : Json) : SameCalls s.1 (s.feedReasoning uuid delta).1 := by
  unfold Feed.feedReasoning
  split
  · exact sameCalls_handleReasoning s _
  · exact .refl _

theorem sameCalls_feedRefusal (s : Feed) (delta : Json) : SameCalls s.1 (s.feedRefusal uuid delta).1 := by
  unfold Feed.feedRefusal
  split
  · exact sameCalls_handlePart s _ _
  · exact .refl _

/-! ### A fragment of a call -/

theorem lastName_append_none {fragment : Json} (h : fragmentName fragment = none) :
    lastName (fragments ++ [fragment]) = lastName fragments := by
  rw [lastName, List.filterMap_append, List.filterMap_cons_none h, List.filterMap_nil, List.append_nil, lastName]

theorem lastName_append_some {fragment : Json} {name : String} (h : fragmentName fragment = some name) :
    lastName (fragments ++ [fragment]) = name := by
  rw [lastName, List.filterMap_append, List.filterMap_cons_some h, List.filterMap_nil, List.getLast?_concat,
    Option.getD_some]

theorem callAfter_first (fragment : Json) (n : Nat) {state : FunctionCallState}
    (hid : state.callId = (fragmentId fragment).getD ("call_" ++ uuid n))
    (hname : state.name = (fragmentName fragment).getD "") : CallAfter uuid [fragment] (some state) := by
  have hlast : state.name = lastName [fragment] := by
    rw [hname]
    cases h : fragmentName fragment <;> simp [lastName, h]
  rcases h : fragmentId fragment with _ | id
  · rw [h] at hid
    exact .drawn h hid hlast
  rw [h] at hid
  exact .given (h.trans (congrArg some hid.symm)) hlast

theorem CallAfter.append {state state' : FunctionCallState} (h : CallAfter uuid fragments (some state)) (fragment : Json)
    (hid : state'.callId = state.callId) (hname : state'.name = (fragmentName fragment).getD state.name) :
    CallAfter uuid (fragments ++ [fragment]) (some state') := by
  have hlast : state.name = lastName fragments → state'.name = lastName (fragments ++ [fragment]) := by
    intro hstate
    rw [hname]
    cases hfragment : fragmentName fragment with
    | none => rw [lastName_append_none hfragment, Option.getD_none, hstate]
    | some name => rw [lastName_append_some hfragment, Option.getD_some]
  cases h with
  | given hfirst hstate => exact .given (hfirst.trans (congrArg some hid.symm)) (hlast hstate)
  | drawn hfirst hcall hstate => exact .drawn hfirst (hid.trans hcall) (hlast hstate)

theorem CallAfter.congr {state state' : FunctionCallState} (h : CallAfter uuid fragments (some state))
    (hid : state'.callId = state.callId) (hname : state'.name = state.name) : CallAfter uuid fragments (some state') := by
  cases h with
  | given hfirst hstate => exact .given (hfirst.trans (congrArg some hid.symm)) (hname.trans hstate)
  | drawn hfirst hcall hstate => exact .drawn hfirst (hid.trans hcall) (hname.trans hstate)

theorem CallAfter.eq_nil (h : CallAfter uuid fragments none) : fragments = [] := by
  cases h
  rfl

theorem CallsAfter.pushArguments (h : CallsAfter uuid fragments s.1) (index : Nat) (fragment : String) :
    CallsAfter uuid fragments (s.pushArguments index fragment).1 := by
  unfold Feed.pushArguments
  split
  · rename_i state hstate
    refine ⟨h.order, fun k => ?_⟩
    show CallAfter uuid _ (Function.update s.1.currentFunctionCallItems index _ k)
    by_cases hk : k = index
    · subst hk
      rw [Function.update_self]
      have hcall := h.calls k
      rw [hstate] at hcall
      exact hcall.congr rfl rfl
    · rw [Function.update_of_ne hk]
      exact h.calls k
  · exact h

theorem CallsAfter.ensureFunctionCall (h : CallsAfter uuid fragments s.1) (fragment : Json) :
    CallsAfter uuid (fragments ++ [fragment])
      (s.ensureFunctionCall uuid (fragmentIndex fragment) (fragmentId fragment) (fragmentName fragment)).1 := by
  have hother : ∀ k, k ≠ fragmentIndex fragment → (fragments ++ [fragment]).filter (fragmentIndex · = k) =
      fragments.filter (fragmentIndex · = k) := by
    intro k hk
    rw [List.filter_append, List.filter_cons_of_neg (by simpa using fun h => hk h.symm), List.filter_nil, List.append_nil]
  have hself : (fragments ++ [fragment]).filter (fragmentIndex · = fragmentIndex fragment) =
      fragments.filter (fragmentIndex · = fragmentIndex fragment) ++ [fragment] := by
    rw [List.filter_append, List.filter_cons_of_pos (by simp), List.filter_nil]
  have hcall := h.calls (fragmentIndex fragment)
  unfold Feed.ensureFunctionCall
  rcases hstate : s.1.currentFunctionCallItems (fragmentIndex fragment) with _ | state
  · rw [hstate] at hcall
    have hnil := hcall.eq_nil
    have hnew : fragmentIndex fragment ∉ fragments.map fragmentIndex := by
      intro hmem
      obtain ⟨f, hf, hindex⟩ := List.mem_map.1 hmem
      exact List.not_mem_nil (hnil ▸ List.mem_filter.2 ⟨hf, decide_eq_true hindex⟩)
    dsimp only
    refine ⟨?_, fun k => ?_⟩
    · rw [firsts_concat_new List.not_mem_nil hnew, List.map_append, ← h.order]
      simp [Feed.push, ItemSlot.callIndex]
    · show CallAfter uuid _ (Function.update s.1.currentFunctionCallItems (fragmentIndex fragment) _ k)
      by_cases hk : k = fragmentIndex fragment
      · subst hk
        rw [Function.update_self, hself, hnil]
        exact callAfter_first fragment (s.1.drawn + 1) rfl rfl
      · rw [Function.update_of_ne hk, hother k hk]
        exact h.calls k
  rw [hstate] at hcall
  have hknown : fragmentIndex fragment ∈ fragments.map fragmentIndex := by
    by_contra hnot
    have hnil : fragments.filter (fragmentIndex · = fragmentIndex fragment) = [] := by
      rw [List.filter_eq_nil_iff]
      intro f hf hindex
      exact hnot (List.mem_map.2 ⟨f, hf, of_decide_eq_true hindex⟩)
    rw [hnil] at hcall
    cases hcall
  have horder : (firsts fragmentIndex [] (fragments ++ [fragment])).map fragmentIndex =
      (firsts fragmentIndex [] fragments).map fragmentIndex := by
    rw [firsts_concat_known (Or.inr hknown)]
  dsimp only
  rcases hname : fragmentName fragment with _ | name
  · refine ⟨h.order.trans horder.symm, fun k => ?_⟩
    by_cases hk : k = fragmentIndex fragment
    · subst hk
      rw [hself]
      dsimp only
      rw [hstate]
      exact hcall.append fragment rfl (by rw [hname]; rfl)
    · rw [hother k hk]
      exact h.calls k
  refine ⟨h.order.trans horder.symm, fun k => ?_⟩
  show CallAfter uuid _ (Function.update s.1.currentFunctionCallItems (fragmentIndex fragment) _ k)
  by_cases hk : k = fragmentIndex fragment
  · subst hk
    rw [hself, Function.update_self]
    exact hcall.append fragment rfl (by rw [hname]; rfl)
  · rw [Function.update_of_ne hk, hother k hk]
    exact h.calls k

theorem CallsAfter.handleToolCall (h : CallsAfter uuid fragments s.1) (fragment : Json) :
    CallsAfter uuid (fragments ++ [fragment]) (s.handleToolCall uuid fragment).1 := by
  have hensure := h.ensureFunctionCall fragment
  unfold Feed.handleToolCall
  dsimp only
  split
  · exact CallsAfter.pushArguments hensure _ _
  · exact hensure

theorem CallsAfter.foldl (h : CallsAfter uuid fragments s.1) (more : List Json) :
    CallsAfter uuid (fragments ++ more) (more.foldl (Feed.handleToolCall uuid) s).1 := by
  induction more generalizing fragments s with
  | nil => rwa [List.append_nil]
  | cons fragment more ih =>
    rw [List.append_cons]
    exact ih (h.handleToolCall fragment)

theorem CallsAfter.feedChunk (h : CallsAfter uuid fragments s.1) (chunk : Json) :
    CallsAfter uuid (fragments ++ chunkFragments chunk) (s.feedChunk uuid chunk).1 := by
  unfold Feed.feedChunk chunkFragments
  rcases hchoice : ((chunk.get "choices").bind (·.asArray)).bind (·.head?) with _ | choice
  · simpa using h
  have hstarted := (h.same (sameCalls_noteFinishReason s.1 choice)).same
    (sameCalls_start (Feed.noteFinishReason s.1 choice, s.2))
  dsimp only
  rcases hdelta : choice.get "delta" with _ | delta
  · simpa [hdelta] using hstarted
  rw [Option.bind_some, hdelta, Option.bind_some]
  have hparts := ((hstarted.same (@sameCalls_feedReasoning uuid _ delta)).same
    (@sameCalls_feedContent uuid _ (delta.get "content"))).same (@sameCalls_feedRefusal uuid _ delta)
  unfold Feed.feedDelta Feed.feedToolCalls
  dsimp only
  cases hcalls : (delta.get "tool_calls").bind (·.asArray) with
  | none => simpa using hparts
  | some toolCalls => exact hparts.foldl toolCalls

theorem callsAfter_foldl (h : CallsAfter uuid fragments s.1) (chunks : List Json) :
    CallsAfter uuid (fragments ++ chunks.flatMap chunkFragments) (chunks.foldl (Feed.feedChunk uuid) s).1 := by
  induction chunks generalizing fragments s with
  | nil => simpa using h
  | cons chunk chunks ih =>
    rw [List.flatMap_cons, ← List.append_assoc]
    exact ih (h.feedChunk chunk)

/-! ### The calls at the end -/

theorem sameCalls_finish (uuid : Nat → String) (createdTs : Int) (model : String) (instructions : Option String)
    (chunks : List Json) (usage : Option ResponsesUsage) : ∃ t : ResponsesStreamTranslator,
    CallsAfter uuid (chunks.flatMap chunkFragments) t ∧
      endingCalls (streamEvents uuid createdTs model instructions chunks usage) =
        (t.orderedItems.filterMap t.slotItem).filterMap (·.asCall) := by
  have hnew : CallsAfter uuid [] (ResponsesStreamTranslator.new uuid createdTs model instructions) :=
    ⟨rfl, fun _ => .untouched⟩
  have hrun := callsAfter_foldl (s := (ResponsesStreamTranslator.new uuid createdTs model instructions, [])) hnew chunks
  rw [List.nil_append] at hrun
  refine ⟨_, hrun.same (sameCalls_start _), ?_⟩
  obtain ⟨-, response, hresponse, houtput⟩ := terminal_phase
    (t := (chunks.foldl (Feed.feedChunk uuid) (.new uuid createdTs model instructions, [])).start.1) usage
  rw [← houtput, endingCalls, streamEvents, Feed.finish]
  rw [List.foldl_append, List.foldl_cons, List.foldl_nil, Feed.push, List.getLast?_concat, Option.bind_some, hresponse]
  rfl

theorem filterMap_asCall (t : ResponsesStreamTranslator) (slots : List ItemSlot) :
    (slots.filterMap t.slotItem).filterMap (·.asCall) = (slots.filterMap (·.callIndex)).filterMap fun k =>
      (t.currentFunctionCallItems k).map ResponsesStreamTranslator.buildFunctionCall := by
  rw [List.filterMap_filterMap, List.filterMap_filterMap]
  refine List.filterMap_congr fun slot _ => ?_
  cases slot with
  | reasoning => cases h : t.reasoningItemId <;> simp [ResponsesStreamTranslator.slotItem, ItemSlot.callIndex, h, OutputItem.asCall]
  | message => cases h : t.currentMessageItemId <;> simp [ResponsesStreamTranslator.slotItem, ItemSlot.callIndex, h, OutputItem.asCall]
  | functionCall k =>
    cases h : t.currentFunctionCallItems k <;> simp [ResponsesStreamTranslator.slotItem, ItemSlot.callIndex, h, OutputItem.asCall]

theorem forall₂_filterMap_iff {α β : Type} {R : α → β → Prop} {f : α → Option β} {l : List α}
    (h : ∀ a ∈ l, (f a).isSome = true) : List.Forall₂ R l (l.filterMap f) ↔ ∀ a ∈ l, ∀ b ∈ f a, R a b := by
  induction l with
  | nil => simp
  | cons a l ih =>
    obtain ⟨ha, hl⟩ := List.forall_mem_cons.1 h
    obtain ⟨b, hb⟩ := Option.isSome_iff_exists.1 ha
    rw [List.filterMap_cons_some hb, List.forall₂_cons, ih hl, List.forall_mem_cons, hb]
    simp

end

section
variable {uuid : Nat → String} {fragments chunks : List Json} {state : FunctionCallState} {id name : String}

theorem Brings.ne_nil {read : Json → Option String} {text : String} (h : Brings read fragments text) : fragments ≠ [] := by
  obtain ⟨-, front, fragment, back, rfl, -⟩ := h
  simp

theorem Brings.of_singleton {read : Json → Option String} {text : String} {fragment : Json}
    (h : Brings read [fragment] text) : read fragment = some text := by
  obtain ⟨-, front, fragment', back, hsplit, hread, -⟩ := h
  cases front with
  | nil =>
    obtain ⟨rfl, -⟩ := List.cons_eq_cons.1 hsplit
    exact hread
  | cons f front => simp at hsplit

theorem CallAfter.callId_iff (h : CallAfter uuid fragments (some state))
    (hfresh : ∀ n, id ≠ "call_" ++ uuid n) : state.callId = id ↔ fragments.head?.bind fragmentId = some id := by
  cases h with
  | given hid hname =>
    rw [List.head?_cons, Option.bind_some, hid, Option.some.injEq]
  | drawn hid hcall hname =>
    rw [List.head?_cons, Option.bind_some, hid, hcall]
    exact iff_of_false (fun h => hfresh _ h.symm) (by simp)

theorem CallAfter.name_iff (h : CallAfter uuid fragments (some state)) (hne : name ≠ "") :
    state.name = name ↔ (fragments.filterMap fragmentName).getLast? = some name := by
  have hname : state.name = lastName fragments := by cases h <;> assumption
  rw [hname, lastName]
  cases hlast : (fragments.filterMap fragmentName).getLast? with
  | none => exact iff_of_false (fun h => hne h.symm) (by simp)
  | some last => simp

/-- A stream keeps the provider's ids and names exactly if the first fragment of each call has the id and no fragment
behind the one with the name has a name. -/
theorem identity_kept_iff (createdTs : Int) (model : String) (instructions : Option String) (usage : Option ResponsesUsage)
    (hfresh : ∀ fragment ∈ chunks.flatMap chunkFragments, ∀ n, fragmentId fragment ≠ some ("call_" ++ uuid n)) :
    IdentityKept uuid createdTs model instructions chunks usage ↔
      ∀ index id name, Brings fragmentId (callFragments chunks index) id →
        Brings fragmentName (callFragments chunks index) name →
          (callFragments chunks index).head?.bind fragmentId = some id ∧
            ((callFragments chunks index).filterMap fragmentName).getLast? = some name := by
  obtain ⟨t, hcalls, hending⟩ := sameCalls_finish uuid createdTs model instructions chunks usage
  have hnew : ∀ index id, Brings fragmentId (callFragments chunks index) id → ∀ n, id ≠ "call_" ++ uuid n := by
    rintro index id ⟨-, front, fragment, back, hsplit, hid, -⟩ n rfl
    have hmem : fragment ∈ callFragments chunks index := by
      rw [hsplit]
      exact List.mem_append_right _ List.mem_cons_self
    exact hfresh fragment (List.mem_filter.1 hmem).1 n hid
  have hopen : ∀ index ∈ callIndices chunks, (t.currentFunctionCallItems index).isSome = true := by
    intro index hindex
    have hcall := hcalls.calls index
    cases hstate : t.currentFunctionCallItems index with
    | some state => rfl
    | none =>
      rw [hstate] at hcall
      obtain ⟨fragment, hfragment, hsame⟩ := List.mem_map.1 (mem_keys_firsts.1 hindex).1
      have hmem : fragment ∈ (chunks.flatMap chunkFragments).filter (fragmentIndex · = index) :=
        List.mem_filter.2 ⟨hfragment, decide_eq_true hsame⟩
      rw [hcall.eq_nil] at hmem
      cases hmem
  rw [IdentityKept, hending, filterMap_asCall, hcalls.order, ← callIndices, forall₂_filterMap_iff (by simpa using hopen)]
  constructor
  · intro h index id name hid hname
    have hindex : index ∈ callIndices chunks := by
      obtain ⟨fragment, hfragment⟩ := List.exists_mem_of_ne_nil _ hid.ne_nil
      obtain ⟨hmem, hsame⟩ := List.mem_filter.1 hfragment
      exact mem_keys_firsts.2 ⟨List.mem_map.2 ⟨fragment, hmem, of_decide_eq_true hsame⟩, List.not_mem_nil⟩
    obtain ⟨state, hstate⟩ := Option.isSome_iff_exists.1 (hopen index hindex)
    have hcall := hcalls.calls index
    rw [hstate] at hcall
    obtain ⟨hsameId, hsameName⟩ := h index hindex (ResponsesStreamTranslator.buildFunctionCall state)
      (by rw [hstate]; rfl) id name hid hname
    exact ⟨(hcall.callId_iff (hnew index id hid)).1 hsameId, (hcall.name_iff hname.1).1 hsameName⟩
  · intro h index hindex call hmem id name hid hname
    obtain ⟨state, hstate, rfl⟩ := Option.map_eq_some_iff.1 hmem
    have hcall := hcalls.calls index
    rw [hstate] at hcall
    obtain ⟨hfirst, hlast⟩ := h index id name hid hname
    exact ⟨(hcall.callId_iff (hnew index id hid)).2 hfirst, (hcall.name_iff hname.1).2 hlast⟩

end

def fragmentChunk (fields : List (String × Json)) : Json := chunkJson (.object [("tool_calls", .array [.object fields])])

def functionField (fields : List (String × String)) : String × Json :=
  ("function", .object (fields.map fun (name, text) => (name, .string text)))

def wholeFields : List (String × Json) := [functionField [("name", "read")], ("id", .string "toolu_1")]

def wholeFragment : Json := .object wholeFields

def wholeCall : List Json := [fragmentChunk wholeFields]

theorem identity_kept_whole : IdentityKept unaryId 0 "gpt" none wholeCall none := by
  refine (identity_kept_iff 0 "gpt" none none ?_).2 ?_
  · intro fragment hfragment n hid
    obtain rfl := List.mem_singleton.1 hfragment
    have hid : "toolu_1" = "call_" ++ unaryId n := Option.some.inj hid
    have hchars := congrArg String.toList hid
    rw [String.toList_append] at hchars
    cases hchars
  · intro index id name hid hname
    have hfragments : callFragments wholeCall index = [wholeFragment] := by
      by_cases hindex : 0 = index
      · subst hindex
        rfl
      · have hnone : callFragments wholeCall index = [] := by
          refine List.filter_eq_nil_iff.2 fun fragment hfragment hsame => hindex ?_
          obtain rfl := List.mem_singleton.1 hfragment
          exact of_decide_eq_true hsame
        exact absurd hnone hid.ne_nil
    rw [hfragments] at hid hname ⊢
    rw [List.head?_cons, Option.bind_some, List.filterMap_cons_some hname.of_singleton]
    exact ⟨hid.of_singleton, rfl⟩

def nameFields : List (String × Json) := [functionField [("name", "read")]]

def idFields : List (String × Json) := [functionField [("arguments", "[]"), ("name", "")], ("id", .string "toolu_1")]

def lateId : List Json := [fragmentChunk nameFields, fragmentChunk idFields]

/-- The item has the id that was drawn and no name. -/
theorem late_id_lost : endingCalls (streamEvents unaryId 0 "gpt" none lateId none) =
      [⟨"fc_x", "call_xx", "", "[]", "completed", []⟩] ∧
    Brings fragmentId (callFragments lateId 0) "toolu_1" ∧ Brings fragmentName (callFragments lateId 0) "read" ∧
    ¬ IdentityKept unaryId 0 "gpt" none lateId none := by
  have hending : endingCalls (streamEvents unaryId 0 "gpt" none lateId none) =
      [⟨"fc_x", "call_xx", "", "[]", "completed", []⟩] := by decide +kernel
  have hid : Brings fragmentId (callFragments lateId 0) "toolu_1" :=
    ⟨by decide, [.object nameFields], .object idFields, [], rfl, rfl, by decide⟩
  have hname : Brings fragmentName (callFragments lateId 0) "read" := 
    ⟨by decide, [], .object nameFields, [.object idFields], rfl, rfl, by decide⟩
  refine ⟨hending, hid, hname, fun h => ?_⟩
  rw [IdentityKept, hending] at h
  obtain ⟨hfirst, -⟩ := List.forall₂_cons.1 (show List.Forall₂ _ [0] _ from h)
  have hsame := (hfirst "toolu_1" "read" hid hname).1
  revert hsame
  decide

end ObeyGateway.Responses
