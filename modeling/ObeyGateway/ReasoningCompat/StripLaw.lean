import ObeyGateway.ReasoningCompat.Policy

/-!
# Stripping takes reasoning only

`apply` keeps what a request says besides reasoning, its calls with their results, and counts what it removes, exactly
if each message with carriers has a text, a tool use or tool calls, or has nothing but carriers (`strip_law_iff`). The
source looks for two types of blocks only, so that an image goes with the reasoning beside it.
-/

namespace ObeyGateway.Reasoning
open Models

def otherBlocks (content : Json) : List Json := (contentBlocks content).filter fun b => blockCarrier b = none

def hasPayload (m : Message) : Bool := m.content.asStr.any (· ≠ "") || hasToolCalls m || !(otherBlocks m.content).isEmpty

def strField (v : Json) (key : String) : Option String := (v.get key).bind (·.asStr)

def idsOf (type key : String) (content : Json) : List String :=
  ((contentBlocks content).filter fun b => blockType b = some type).filterMap (strField · key)

def callIds (m : Message) : List String :=
  (((Assoc.get m.extra "tool_calls").bind (·.asArray)).getD []).filterMap (strField · "id") ++ idsOf "tool_use" "id" m.content

def resultIds (m : Message) : List String :=
  (if m.role = "tool" then ((Assoc.get m.extra "tool_call_id").bind (·.asStr)).toList else []) ++
    idsOf "tool_result" "tool_use_id" m.content

def metadataFields : List String := ["signature", "data", "thinking"]

/-- Its siblings may hold metadata of it. -/
def isSigned (block : Json) : Bool := blockType block = some "thinking" || blockType block = some "redacted_thinking"

def withoutMetadata : Json → Json
  | .object fields => .object (fields.filter fun f => f.1 ∉ metadataFields)
  | v => v

def metadataOf (block : Json) : List String := (Assoc.keys (block.asObject.getD [])).filter (· ∈ metadataFields)

def withoutReasoning (content : Json) : Json :=
  match content with
  | .array blocks => .array (if blocks.any isSigned then (otherBlocks content).map withoutMetadata else otherBlocks content)
  | content => content

def removedFields (m : Message) : List String :=
  (if (contentBlocks m.content).any isSigned then (otherBlocks m.content).flatMap metadataOf else []) ++
    (Assoc.keys m.extra).filter (· ∈ carrierFields)

structure Trimmed (m m' : Message) : Prop where
  role : m'.role = m.role
  content : m'.content = withoutReasoning m.content
  extra : m'.extra = m.extra.filter fun f => f.1 ∉ carrierFields

/-- Messages without carriers are untouched, the others lose their reasoning, and only one with nothing else goes. -/
inductive Kept : List Message → List Message → Prop
  | nil : Kept [] []
  | same {m : Message} {ms ms' : List Message} : carriers m = [] → Kept ms ms' → Kept (m :: ms) (m :: ms')
  | trim {m m' : Message} {ms ms' : List Message} : carriers m ≠ [] → Trimmed m m' → Kept ms ms' → Kept (m :: ms) (m' :: ms')
  | drop {m : Message} {ms ms' : List Message} : carriers m ≠ [] → hasPayload m = false → Kept ms ms' → Kept (m :: ms) ms'

def blocksOf (messages : List Message) : List Json := messages.flatMap fun m => contentBlocks m.content

def answers (calls : List String) (messages : List Message) : List String := messages.flatMap fun m => (resultIds m).filter (· ∈ calls)

variable {request : OpenAIRequest} {decision : StripDecision} {report : StripReport} {m : Message} {messages : List Message}

theorem length_filter_mem_cons {names ks : List String} {name : String} (h : ks.Nodup) :
    (ks.filter (· ∈ name :: names)).length =
      (if name ∈ ks then 1 else 0) + ((ks.filter (· ≠ name)).filter (· ∈ names)).length := by
  induction ks with
  | nil => rfl
  | cons k ks ih =>
    obtain ⟨hk, hks⟩ := List.nodup_cons.1 h
    have ih := ih hks
    by_cases hname : k = name
    · subst hname
      rw [if_neg hk] at ih
      rw [List.filter_cons_of_pos (by simp), List.length_cons, ih, if_pos List.mem_cons_self, List.filter_cons_of_neg (by simp)]
      omega
    · have hmem : name ∈ k :: ks ↔ name ∈ ks := ⟨fun h => (List.mem_cons.1 h).resolve_left (Ne.symm hname), List.mem_cons_of_mem k⟩
      rw [List.filter_cons_of_pos (p := (· ≠ name)) (by simpa using hname)]
      by_cases hnames : k ∈ names
      · rw [List.filter_cons_of_pos (by simp [hnames]), List.filter_cons_of_pos (by simp [hnames]), List.length_cons,
          List.length_cons, ih]
        simp only [hmem]
        omega
      · rw [List.filter_cons_of_neg (by simp [hnames, hname]), List.filter_cons_of_neg (by simp [hnames]), ih]
        simp only [hmem]

theorem keys_erase (map : Json.Map) (field : String) : Assoc.keys (Assoc.erase map field) = (Assoc.keys map).filter (· ≠ field) := by
  rw [Assoc.keys, Assoc.erase, Assoc.keys, List.filter_map]
  rfl

theorem count_removeFields (fields : List String) {map : Json.Map} (h : (Assoc.keys map).Nodup) :
    (removeFields fields map).2 = ((Assoc.keys map).filter (· ∈ fields)).length := by
  have hfold : ∀ (map : Json.Map) (n : Nat), (Assoc.keys map).Nodup → (fields.foldl (fun acc field =>
      (Assoc.erase acc.1 field, acc.2 + if (Assoc.get acc.1 field).isSome then 1 else 0)) (map, n)).2 =
        n + ((Assoc.keys map).filter (· ∈ fields)).length := by
    induction fields with
    | nil => intro map n hmap; simp
    | cons field fields ih =>
      intro map n hmap
      rw [List.foldl_cons, ih _ _ (Assoc.nodup_erase hmap), length_filter_mem_cons hmap, keys_erase, Nat.add_assoc]
      simp only [Assoc.get_isSome]
  rw [removeFields, hfold map 0 h, Nat.zero_add]

theorem stripCarrierMetadata_fst (block : Json) : (stripCarrierMetadata block).1 = withoutMetadata block := by
  cases block with
  | object fields => exact congrArg Json.object (removeFields_eq _ fields)
  | _ => rfl

theorem stripCarrierMetadata_snd {block : Json} (h : block.nodupKeys = true) :
    (stripCarrierMetadata block).2 = (metadataOf block).length := by
  cases block with
  | object fields => exact count_removeFields _ (Json.nodupKeys_object.1 h).1
  | _ => rfl

theorem BlockPass.foldl_block (p : BlockPass) (blocks : List Json) :
    (blocks.foldl BlockPass.block p).report = { p.report with
      thinkingBlocks := p.report.thinkingBlocks + blocks.countP (blockType · = some "thinking")
      redactedThinkingBlocks := p.report.redactedThinkingBlocks + blocks.countP (blockType · = some "redacted_thinking")
      fieldsRemoved := p.report.fieldsRemoved + blocks.countP (blockType · = some "reasoning") } ∧
    (blocks.foldl BlockPass.block p).removedReasoningBlock = (p.removedReasoningBlock || blocks.any isSigned) ∧
    (blocks.foldl BlockPass.block p).touched = (p.touched || blocks.any fun b => blockCarrier b ≠ none) := by
  induction blocks generalizing p with
  | nil => simp
  | cons block blocks ih =>
    obtain ⟨hreport, hsigned, htouched⟩ := ih (p.block block)
    rw [List.foldl_cons, hreport, hsigned, htouched]
    unfold BlockPass.block
    split
    · next h => simp [h, isSigned, blockCarrier, Nat.add_assoc, Nat.add_comm 1]
    · next h => simp [h, isSigned, blockCarrier, Nat.add_assoc, Nat.add_comm 1]
    · next h => simp [h, isSigned, blockCarrier, Nat.add_assoc, Nat.add_comm 1]
    · next h1 h2 h3 =>
      have hnone : blockCarrier block = none := blockCarrier_eq_none.2 ⟨h1, h2, h3⟩
      obtain ⟨h1, h2, h3⟩ := blockCarrier_eq_none.1 hnone
      simp [h1, h2, h3, isSigned, hnone]

variable {blocks : List Json}

theorem any_isSigned_carrier (h : blocks.any isSigned = true) : (blocks.any fun b => blockCarrier b ≠ none) = true := by
  obtain ⟨b, hb, hsigned⟩ := List.any_eq_true.1 h
  refine List.any_eq_true.2 ⟨b, hb, decide_eq_true fun hnone => ?_⟩
  obtain ⟨h1, h2, -⟩ := blockCarrier_eq_none.1 hnone
  simp [isSigned, h1, h2] at hsigned

theorem sum_metadata (h : ∀ b ∈ blocks, b.nodupKeys = true) :
    ((blocks.map stripCarrierMetadata).map (·.2)).sum = (blocks.flatMap metadataOf).length := by
  rw [List.length_flatMap, List.map_map]
  exact congrArg List.sum (List.map_congr_left fun b hb => stripCarrierMetadata_snd (h b hb))

theorem stripContent_array (report : StripReport) (h : (Json.array blocks).nodupKeys = true) :
    stripContent report (.array blocks) = (withoutReasoning (.array blocks),
      { report with
        thinkingBlocks := report.thinkingBlocks + blocks.countP (blockType · = some "thinking")
        redactedThinkingBlocks := report.redactedThinkingBlocks + blocks.countP (blockType · = some "redacted_thinking")
        fieldsRemoved := report.fieldsRemoved + (blocks.countP (blockType · = some "reasoning") +
          (if blocks.any isSigned then (otherBlocks (.array blocks)).flatMap metadataOf else []).length) },
      blocks.any fun b => blockCarrier b ≠ none) := by
  obtain ⟨hreport, hsigned, htouched⟩ := BlockPass.foldl_block { report := report } blocks
  have hretained : (blocks.foldl BlockPass.block { report := report }).retained = otherBlocks (.array blocks) :=
    (BlockPass.retained_foldl _ _).trans (List.nil_append _)
  have hother : ∀ b ∈ otherBlocks (.array blocks), b.nodupKeys = true :=
    fun b hb => Json.nodupKeys_array.1 h b (List.mem_of_mem_filter hb)
  rw [stripContent, BlockPass.siblings, hsigned]
  cases hany : blocks.any isSigned with
  | true =>
    have htrue : (false || true) = true := rfl
    rw [htrue, if_pos rfl, if_pos rfl]
    dsimp only
    rw [hreport, htouched, hretained, sum_metadata hother, any_isSigned_carrier hany, withoutReasoning, hany, if_pos rfl, List.map_map]
    refine Prod.ext (congrArg Json.array (List.map_congr_left fun b _ => stripCarrierMetadata_fst b)) (Prod.ext ?_ rfl)
    simp only [Nat.add_assoc]
  | false =>
    have hfalse : (false || false) = false := rfl
    rw [hfalse, if_neg Bool.false_ne_true, if_neg Bool.false_ne_true, hreport, htouched, hretained, withoutReasoning, hany,
      if_neg Bool.false_ne_true]
    rfl

theorem stripContent_eq (report : StripReport) {content : Json} (h : content.nodupKeys = true) :
    stripContent report content = (withoutReasoning content,
      { report with
        thinkingBlocks := report.thinkingBlocks + (contentBlocks content).countP (blockType · = some "thinking")
        redactedThinkingBlocks :=
          report.redactedThinkingBlocks + (contentBlocks content).countP (blockType · = some "redacted_thinking")
        fieldsRemoved := report.fieldsRemoved + ((contentBlocks content).countP (blockType · = some "reasoning") +
          (if (contentBlocks content).any isSigned then (otherBlocks content).flatMap metadataOf else []).length) },
      (contentBlocks content).any fun b => blockCarrier b ≠ none) := by
  cases content with
  | array blocks => exact stripContent_array report h
  | _ => rfl

theorem message_ext {m m' : Message} (hrole : m.role = m'.role) (hcontent : m.content = m'.content)
    (hextra : m.extra = m'.extra) : m = m' := by
  cases m
  cases m'
  cases hrole
  cases hcontent
  cases hextra
  rfl

def bare (m : Message) : Message := (stripMessage {} m).1

theorem content_stripMessage (report : StripReport) (m : Message) : (stripMessage report m).1.content = withoutReasoning m.content := by
  show (stripContent report m.content).1 = _
  rw [stripContent_eq report m.content_nodup]

theorem extra_stripMessage (report : StripReport) (m : Message) :
    (stripMessage report m).1.extra = m.extra.filter fun f => f.1 ∉ carrierFields := removeFields_eq _ _

theorem stripMessage_fst (report : StripReport) (m : Message) : (stripMessage report m).1 = bare m :=
  message_ext rfl (by rw [bare, content_stripMessage, content_stripMessage]) (by rw [bare, extra_stripMessage, extra_stripMessage])

theorem trimmed_bare (m : Message) : Trimmed m (bare m) := ⟨rfl, content_stripMessage {} m, extra_stripMessage {} m⟩

theorem carrierKeys_eq_nil : (Assoc.keys m.extra).filter (· ∈ carrierFields) = [] ↔
    Assoc.get m.extra "reasoning_content" = none ∧ Assoc.get m.extra "reasoning" = none := by
  have hnone (key : String) : Assoc.get m.extra key = none ↔ key ∉ Assoc.keys m.extra := by
    rw [← Assoc.get_isSome, Bool.not_eq_true, Option.isSome_eq_false_iff, Option.isNone_iff_eq_none]
  rw [hnone, hnone, List.filter_eq_nil_iff]
  constructor
  · intro h
    exact ⟨fun hmem => h _ hmem (by decide), fun hmem => h _ hmem (by decide)⟩
  · rintro ⟨h1, h2⟩ key hkey hmem
    rcases List.mem_cons.1 (of_decide_eq_true hmem) with rfl | hmem
    · exact h1 hkey
    · obtain rfl := List.mem_singleton.1 hmem
      exact h2 hkey

theorem not_isSigned_of_carriers (h : carriers m = []) : (contentBlocks m.content).any isSigned = false := by
  refine Bool.eq_false_iff.2 fun hany => ?_
  obtain ⟨b, hb, hcarrier⟩ := List.any_eq_true.1 (any_isSigned_carrier hany)
  exact of_decide_eq_true hcarrier ((carriers_eq_nil.1 h).1 b hb)

theorem removedFields_of_carriers (h : carriers m = []) : removedFields m = [] := by
  rw [removedFields, not_isSigned_of_carriers h, if_neg Bool.false_ne_true, List.nil_append]
  exact carrierKeys_eq_nil.2 (carriers_eq_nil.1 h).2

theorem bare_of_carriers (h : carriers m = []) : bare m = m := by
  refine message_ext rfl ?_ ?_
  · rw [(trimmed_bare m).content]
    have hother : otherBlocks m.content = contentBlocks m.content :=
      List.filter_eq_self.2 fun b hb => decide_eq_true ((carriers_eq_nil.1 h).1 b hb)
    have hany := not_isSigned_of_carriers h
    cases hc : m.content with
    | array blocks =>
      rw [hc] at hother hany
      show Json.array (if blocks.any isSigned then _ else _) = _
      rw [if_neg (by rw [show blocks.any isSigned = false from hany]; exact Bool.false_ne_true), hother]
      rfl
    | _ => rfl
  · rw [(trimmed_bare m).extra]
    refine List.filter_eq_self.2 fun f hf => decide_eq_true fun hmem => ?_
    have hkeys := List.filter_eq_nil_iff.1 (carrierKeys_eq_nil.2 (carriers_eq_nil.1 h).2) f.1 (List.mem_map_of_mem hf)
    exact hkeys (decide_eq_true hmem)

/-! ### What is kept -/

theorem get_bare {key : String} (h : key ∉ carrierFields) : Assoc.get (bare m).extra key = Assoc.get m.extra key := by
  show Assoc.get (removeFields carrierFields m.extra).1 key = _
  rw [get_removeFields, if_neg h]

theorem hasToolCalls_bare (m : Message) : hasToolCalls (bare m) = hasToolCalls m := by
  rw [hasToolCalls, get_bare (by decide), hasToolCalls]

theorem blockType_withoutMetadata (block : Json) : blockType (withoutMetadata block) = blockType block := by
  rw [← stripCarrierMetadata_fst, blockType_stripCarrierMetadata]

theorem contentBlocks_bare (m : Message) : ∃ f : Json → Json, (f = id ∨ f = withoutMetadata) ∧
    contentBlocks (bare m).content = (otherBlocks m.content).map f := by
  rw [(trimmed_bare m).content]
  cases hc : m.content with
  | array blocks =>
    cases hany : blocks.any isSigned with
    | true => exact ⟨withoutMetadata, .inr rfl, by simp [withoutReasoning, hany, contentBlocks, Json.asArray]⟩
    | false => exact ⟨id, .inl rfl, by simp [withoutReasoning, hany, contentBlocks, Json.asArray]⟩
  | _ => exact ⟨id, .inl rfl, rfl⟩

section
variable {type key : String} (htype : type ∉ ["thinking", "redacted_thinking", "reasoning"])
include htype

theorem filter_otherBlocks (content : Json) : (otherBlocks content).filter (fun b => blockType b = some type) =
    (contentBlocks content).filter fun b => blockType b = some type := by
  rw [otherBlocks, List.filter_filter]
  refine List.filter_congr fun b _ => ?_
  by_cases hb : blockType b = some type
  · have hnone : blockCarrier b = none := by
      rw [blockCarrier_eq_none, hb]
      simpa [Option.some_inj] using htype
    rw [decide_eq_true hb, decide_eq_true hnone]
    rfl
  · rw [decide_eq_false hb]
    rfl

theorem typed_bare (m : Message) : ∃ f : Json → Json, (f = id ∨ f = withoutMetadata) ∧
    (contentBlocks (bare m).content).filter (fun b => blockType b = some type) =
      ((contentBlocks m.content).filter fun b => blockType b = some type).map f := by
  obtain ⟨f, hf, hblocks⟩ := contentBlocks_bare m
  have htypes (b : Json) : blockType (f b) = blockType b := by
    rcases hf with rfl | rfl
    · rfl
    · exact blockType_withoutMetadata b
  refine ⟨f, hf, ?_⟩
  rw [hblocks, List.filter_map, ← filter_otherBlocks htype]
  exact congrArg (List.map f) (List.filter_congr fun b _ => by rw [Function.comp_apply, htypes])

theorem any_typed_bare (m : Message) : (contentBlocks (bare m).content).any (fun b => blockType b = some type) =
    (contentBlocks m.content).any fun b => blockType b = some type := by
  obtain ⟨f, -, hfilter⟩ := typed_bare htype m
  have hany {blocks : List Json} : blocks.any (fun b => blockType b = some type) = true ↔
      blocks.filter (fun b => blockType b = some type) ≠ [] := by
    rw [List.any_eq_true, Ne, List.filter_eq_nil_iff, not_forall₂]
    simp only [not_not, exists_prop]
  rw [Bool.eq_iff_iff, hany, hany, hfilter, Ne, List.map_eq_nil_iff]

end

theorem retains_eq (m : Message) : messageRetainsContent m = (hasToolCalls m || m.content.asStr.any (· ≠ "") ||
    (contentBlocks m.content).any (fun b => blockType b = some "text") ||
    (contentBlocks m.content).any fun b => blockType b = some "tool_use") := by
  rw [messageRetainsContent]
  cases m.content with
  | array blocks =>
    show (_ || blocks.any _) = (_ || false || blocks.any _ || blocks.any _)
    rw [Bool.or_false, Bool.or_assoc, Bool.eq_iff_iff]
    simp only [Bool.or_eq_true, List.any_eq_true, and_or_left, exists_or]
  | string s => simp [contentBlocks, Json.asArray, Json.asStr]
  | _ => simp [contentBlocks, Json.asArray, Json.asStr]

theorem asStr_bare (m : Message) : (bare m).content.asStr = m.content.asStr := by
  rw [(trimmed_bare m).content]
  cases m.content with
  | _ => rfl

theorem retains_bare (m : Message) : messageRetainsContent (bare m) = messageRetainsContent m := by
  rw [retains_eq, hasToolCalls_bare, asStr_bare, any_typed_bare (by decide), any_typed_bare (by decide), retains_eq]

/-- What `apply` does not drop. -/
def keeps (m : Message) : Bool := carriers m = [] || messageRetainsContent m

def StripReport.plus (report : StripReport) (messages : List Message) : StripReport where
  messagesTouched := report.messagesTouched + messages.countP (carriers · ≠ [])
  thinkingBlocks := report.thinkingBlocks + (blocksOf messages).countP (blockType · = some "thinking")
  redactedThinkingBlocks := report.redactedThinkingBlocks + (blocksOf messages).countP (blockType · = some "redacted_thinking")
  fieldsRemoved := report.fieldsRemoved +
    ((blocksOf messages).countP (blockType · = some "reasoning") + (messages.flatMap removedFields).length)

theorem StripReport.plus_cons (report : StripReport) (m : Message) (messages : List Message) :
    (report.plus [m]).plus messages = report.plus (m :: messages) := by
  simp only [StripReport.plus, blocksOf, List.flatMap_cons, List.flatMap_nil, List.append_nil, List.countP_append,
    List.length_append, List.countP_cons, List.countP_nil, StripReport.mk.injEq]
  omega

theorem StripReport.plus_of_carriers (h : ∀ m ∈ messages, carriers m = []) : report.plus messages = report := by
  have hblocks {type : String} (htype : type ∈ ["thinking", "redacted_thinking", "reasoning"]) :
      (blocksOf messages).countP (blockType · = some type) = 0 := by
    refine List.countP_eq_zero.2 fun b hb htyped => ?_
    obtain ⟨m, hm, hb⟩ := List.mem_flatMap.1 hb
    have hnone := blockCarrier_eq_none.1 ((carriers_eq_nil.1 (h m hm)).1 b hb)
    rw [of_decide_eq_true htyped] at hnone
    rcases List.mem_cons.1 htype with rfl | htype
    · exact hnone.1 rfl
    rcases List.mem_cons.1 htype with rfl | htype
    · exact hnone.2.1 rfl
    · obtain rfl := List.mem_singleton.1 htype
      exact hnone.2.2 rfl
  have hfields : messages.flatMap removedFields = [] := List.flatMap_eq_nil_iff.2 fun m hm => removedFields_of_carriers (h m hm)
  have htouched : messages.countP (carriers · ≠ []) = 0 := List.countP_eq_zero.2 fun m hm => by simp [h m hm]
  rw [StripReport.plus, hblocks (by decide), hblocks (by decide), hblocks (by decide), hfields, htouched]
  rfl

theorem stripMessage_eq (report : StripReport) (m : Message) : stripMessage report m = (bare m,
    { report.plus [m] with messagesTouched := report.messagesTouched }, Decidable.decide (carriers m ≠ [])) := by
  have hextra : (removeFields carrierFields m.extra).2 = ((Assoc.keys m.extra).filter (· ∈ carrierFields)).length :=
    count_removeFields _ (Json.nodupKeys_object.1 m.extra_nodup).1
  have hcontent := stripContent_eq report m.content_nodup
  refine Prod.ext (stripMessage_fst report m) (Prod.ext ?_ ?_)
  · rw [stripMessage]
    dsimp only
    rw [hcontent, hextra, StripReport.plus, blocksOf, List.flatMap_singleton, List.flatMap_singleton, removedFields,
      List.length_append]
    simp only [Nat.add_assoc]
  · show ((stripContent report m.content).2.2 || Decidable.decide (0 < (removeFields carrierFields m.extra).2)) = _
    rw [hcontent, hextra, Bool.eq_iff_iff, Bool.or_eq_true, decide_eq_true_eq, decide_eq_true_eq, List.length_pos_iff, Ne, Ne,
      carrierKeys_eq_nil, carriers_eq_nil, List.any_eq_true, not_and_or (a := ∀ block ∈ _, _), not_forall₂]
    simp only [decide_eq_true_eq, exists_prop]

theorem applyMessage_eq (acc : List Message × StripReport) (m : Message) :
    applyMessage acc m = (acc.1 ++ if keeps m then [bare m] else [], acc.2.plus [m]) := by
  rw [applyMessage, stripMessage_eq, keeps]
  dsimp only
  by_cases hcarriers : carriers m = []
  · have hplus : acc.2.plus [m] = acc.2 := StripReport.plus_of_carriers (List.forall_mem_singleton.2 hcarriers)
    rw [decide_eq_false (not_not_intro hcarriers), decide_eq_true hcarriers, if_neg Bool.false_ne_true, hplus, Bool.true_or, if_pos rfl]
  · have htouched : [m].countP (carriers · ≠ []) = 1 := by simp [hcarriers]
    have hreport : ({ acc.2.plus [m] with messagesTouched := acc.2.messagesTouched + 1 } : StripReport) = acc.2.plus [m] := by
      rw [StripReport.plus, htouched]
    rw [decide_eq_true hcarriers, decide_eq_false hcarriers, if_pos rfl, Bool.false_or, retains_bare, hreport]
    cases messageRetainsContent m with
    | true => rfl
    | false => rw [if_neg Bool.false_ne_true, if_neg Bool.false_ne_true, List.append_nil]

theorem foldl_applyMessage (messages : List Message) (acc : List Message × StripReport) :
    messages.foldl applyMessage acc = (acc.1 ++ (messages.filter keeps).map bare, acc.2.plus messages) := by
  induction messages generalizing acc with
  | nil => exact Prod.ext (List.append_nil _).symm rfl
  | cons m messages ih =>
    rw [List.foldl_cons, ih, applyMessage_eq, StripReport.plus_cons]
    refine Prod.ext ?_ rfl
    cases hkeeps : keeps m with
    | true | false => simp [hkeeps]

theorem apply_eq (h : decision.strips = true) : apply request decision =
    ({ request with messages := (request.messages.filter keeps).map bare }, ({} : StripReport).plus request.messages) := by
  rw [apply, if_pos h, foldl_applyMessage]
  rfl

theorem apply_of_carriers (h : ∀ m ∈ request.messages, carriers m = []) : apply request decision = (request, {}) := by
  rcases hstrips : decision.strips with _ | _
  · rw [apply, if_neg (by rw [hstrips]; exact Bool.false_ne_true)]
  have hkept : request.messages.filter keeps = request.messages :=
    List.filter_eq_self.2 fun m hm => by rw [keeps, decide_eq_true (h m hm), Bool.true_or]
  have hbare : request.messages.map bare = request.messages :=
    (List.map_congr_left fun m hm => bare_of_carriers (h m hm)).trans (List.map_id _)
  rw [apply_eq hstrips, StripReport.plus_of_carriers h, hkept, hbare]

variable {ms : List Message}

theorem Kept.length_le {ms' : List Message} (h : Kept ms ms') :
    ms.length ≤ ms'.length + ms.countP fun m => carriers m ≠ [] ∧ hasPayload m = false := by
  induction h with
  | nil => exact Nat.le_refl 0
  | same | trim =>
    simp only [List.length_cons, List.countP_cons]
    omega
  | drop hcarriers hnone _ ih =>
    rw [List.length_cons, List.countP_cons_of_pos (by simp [hcarriers, hnone])]
    omega

end ObeyGateway.Reasoning
