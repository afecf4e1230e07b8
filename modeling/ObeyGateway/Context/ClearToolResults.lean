import ObeyGateway.Router.ToolHistory

/-!
# Clearing old tool results (`context/strategies.rs`)

Going back from the newest batch, `keep_recent` batches with results are kept; but the place from which on
is kept is moved for these alone, while the batches without results are counted in it. So an unanswered
message with calls costs the oldest kept batch its results (`clear_law_iff`).
-/

namespace ObeyGateway.Context

open Models
open Xml (toolCalls callId toolCallId)

structure Batch where
  owner : Nat
  results : List Nat
deriving DecidableEq

def Batch.answered (b : Batch) : Bool := !b.results.isEmpty

def calls (m : Message) (id : String) : Bool := (toolCalls m).any (callId · = some id)

def callsNamed (m : Message) (id : String) (names : List String) : Bool :=
  (toolCalls m).any fun call =>
    callId call = some id && ((call.pointer ["function", "name"]).bind Json.asStr).any (names.contains ·)

def hasToolCalls (m : Message) : Bool := m.role = "assistant" && (Assoc.get m.extra "tool_calls").isSome

def findOwner (messages : List Message) (batches : List Batch) (id : String) : Option Nat :=
  (batches.zipIdx.reverse.find? fun b => (messages[b.1.owner]?).any (calls · id)).map (·.2)

def addMessage (messages : List Message) (batches : List Batch) (index : Nat) (m : Message) : List Batch :=
  if m.role = "tool" then
    match (toolCallId m).bind (findOwner messages batches) with
    | some b => batches.modify b fun batch => { batch with results := batch.results ++ [index] }
    | none => batches ++ [⟨index, [index]⟩]
  else if hasToolCalls m then batches ++ [⟨index, []⟩]
  else batches

def buildBatches (messages : List Message) : List Batch :=
  messages.zipIdx.foldl (fun batches m => addMessage messages batches m.2 m.1) []

/-- The walk back from the newest batch: what has been kept, and `clearable_from`. -/
def clearableFrom (keepRecent : Nat) : Nat → Nat → List Batch → Nat
  | _, boundary, [] => boundary
  | kept, boundary, b :: batches =>
    if keepRecent ≤ kept then boundary
    else if b.answered then clearableFrom keepRecent (kept + 1) (boundary - 1) batches
    else clearableFrom keepRecent kept boundary batches

def excludedBy (excludeTools : List String) (messages : List Message) (position : Nat) : Bool :=
  ((messages[position]?).bind toolCallId).any fun id =>
    (messages.take position).any fun m => m.role = "assistant" && callsNamed m id excludeTools

theorem nodupKeys_text (text : String) : (Json.string text).nodupKeys = true := rfl

def withContent (text : String) (m : Message) : Message :=
  { m with content := .string text, content_nodup := nodupKeys_text text }

def clearAt (excludeTools : List String) (placeholder : String) (s : List Message × Nat) (position : Nat) :
    List Message × Nat :=
  if excludedBy excludeTools s.1 position then s
  else (s.1.modify position (withContent placeholder), s.2 + 1)

def clearToolResults (messages : List Message) (keepRecent : Nat) (excludeTools : List String) (placeholder : String) :
    List Message × Nat :=
  let batches := buildBatches messages
  let boundary := clearableFrom keepRecent 0 batches.length batches.reverse
  ((batches.take boundary).flatMap (·.results)).foldl (clearAt excludeTools placeholder) (messages, 0)

def keptResults (messages : List Message) (keepRecent : Nat) : List Nat :=
  let answered := (buildBatches messages).filter (·.answered)
  (answered.drop (answered.length - keepRecent)).flatMap (·.results)

def newestResults (messages : List Message) (count : Nat) : List Nat :=
  let batches := buildBatches messages
  (batches.drop (batches.length - count)).flatMap (·.results)

def Old (messages : List Message) (keepRecent : Nat) (excludeTools : List String) (i : Nat) : Prop :=
  (∃ m ∈ messages[i]?, m.role = "tool") ∧ i ∉ keptResults messages keepRecent ∧
    excludedBy excludeTools messages i = false

instance (messages : List Message) (keepRecent : Nat) (excludeTools : List String) :
    DecidablePred (Old messages keepRecent excludeTools) := fun _ =>
  inferInstanceAs (Decidable (_ ∧ _ ∧ _))

structure ClearLaw (messages : List Message) (keepRecent : Nat) (excludeTools : List String) (placeholder : String)
    (out : List Message × Nat) : Prop where
  replaced : out.1 = messages.mapIdx fun i m =>
    if Old messages keepRecent excludeTools i then withContent placeholder m else m
  cleared : out.2 = (List.range messages.length).countP (Old messages keepRecent excludeTools ·)

section
variable {messages : List Message}

theorem flatMap_modify_perm {b : Nat} {batches : List Batch} (hb : b < batches.length) (i : Nat) :
    ((batches.modify b fun batch => { batch with results := batch.results ++ [i] }).flatMap (·.results)).Perm
      (batches.flatMap (·.results) ++ [i]) := by
  induction batches generalizing b with
  | nil => simp at hb
  | cons batch batches ih =>
    cases b with
    | zero =>
      simp only [List.modify_zero_cons, List.flatMap_cons, List.append_assoc]
      exact List.perm_append_comm.append_left _
    | succ b =>
      simp only [List.modify_succ_cons, List.flatMap_cons, List.append_assoc]
      exact (ih (by simpa using hb)).append_left _

theorem findOwner_lt {batches : List Batch} {id : String} {b : Nat} (h : findOwner messages batches id = some b) :
    b < batches.length := by
  obtain ⟨⟨batch, b'⟩, hfind, rfl⟩ := Option.map_eq_some_iff.1 h
  have hmem := List.mem_reverse.1 (List.mem_of_find?_eq_some hfind)
  exact (List.mem_zipIdx' hmem).1

variable (messages : List Message)

theorem addMessage_results (batches : List Batch) (i : Nat) (m : Message) :
    ((addMessage messages batches i m).flatMap (·.results)).Perm
      (batches.flatMap (·.results) ++ if m.role = "tool" then [i] else []) := by
  unfold addMessage
  by_cases htool : m.role = "tool"
  · rw [if_pos htool, if_pos htool]
    rcases howner : (toolCallId m).bind (findOwner messages batches) with _ | b
    · simp
    obtain ⟨id, -, hfind⟩ := Option.bind_eq_some_iff.1 howner
    exact flatMap_modify_perm (findOwner_lt hfind) i
  · rw [if_neg htool, if_neg htool]
    split <;> simp

def toolPositions (messages : List Message) : List Nat := (messages.zipIdx.filter (·.1.role = "tool")).map (·.2)

theorem mem_toolPositions {i : Nat} : i ∈ toolPositions messages ↔ ∃ m ∈ messages[i]?, m.role = "tool" := by
  simp only [toolPositions, List.mem_map, List.mem_filter, List.mem_zipIdx_iff_getElem?, decide_eq_true_eq,
    Option.mem_def]
  constructor
  · rintro ⟨⟨m, j⟩, ⟨hm, hrole⟩, rfl⟩
    exact ⟨m, hm, hrole⟩
  · rintro ⟨m, hm, hrole⟩
    exact ⟨(m, i), ⟨hm, hrole⟩, rfl⟩

theorem nodup_toolPositions : (toolPositions messages).Nodup := by
  have hsub : (toolPositions messages).Sublist (messages.zipIdx.map (·.2)) := List.filter_sublist.map _
  exact hsub.nodup (by simpa using List.nodup_range')

theorem buildBatches_results :
    ((buildBatches messages).flatMap (·.results)).Perm (toolPositions messages) := by
  have hfold : ∀ (l : List (Message × Nat)) (batches : List Batch),
      ((l.foldl (fun batches m => addMessage messages batches m.2 m.1) batches).flatMap (·.results)).Perm
        (batches.flatMap (·.results) ++ (l.filter (·.1.role = "tool")).map (·.2)) := by
    intro l
    induction l with
    | nil => simp
    | cons m l ih =>
      intro batches
      refine (ih _).trans (((addMessage_results messages batches m.2 m.1).append_right _).trans ?_)
      by_cases htool : m.1.role = "tool" <;> simp [htool]
  exact hfold messages.zipIdx []

end

theorem clearableFrom_eq (keepRecent kept boundary : Nat) (batches : List Batch) :
    clearableFrom keepRecent kept boundary batches = boundary - min (keepRecent - kept) (batches.countP Batch.answered) := by
  induction batches generalizing kept boundary with
  | nil => simp [clearableFrom]
  | cons b batches ih =>
    rw [clearableFrom]
    by_cases hkept : keepRecent ≤ kept
    · rw [if_pos hkept]
      omega
    · rw [if_neg hkept]
      by_cases hanswered : b.answered = true
      · rw [if_pos hanswered, ih, List.countP_cons_of_pos hanswered]
        omega
      · rw [if_neg hanswered, ih, List.countP_cons_of_neg hanswered]

section
variable {excludeTools : List String} {placeholder : String}

theorem excludedBy_modify (messages : List Message) (j i : Nat) :
    excludedBy excludeTools (messages.modify j (withContent placeholder)) i = excludedBy excludeTools messages i := by
  have hid : ((messages.modify j (withContent placeholder))[i]?).bind toolCallId = (messages[i]?).bind toolCallId := by
    rw [List.getElem?_modify]
    cases messages[i]? with
    | none => rfl
    | some m => by_cases hji : j = i <;> simp [hji, withContent, toolCallId]
  have hany : ∀ (q : Message → Bool), (∀ m, q (withContent placeholder m) = q m) →
      ∀ l : List Message, ∀ j, (l.modify j (withContent placeholder)).any q = l.any q := by
    intro q hq l
    induction l with
    | nil => simp
    | cons m l ih =>
      intro j
      cases j with
      | zero => simp [hq]
      | succ j => simp [ih]
  unfold excludedBy
  rw [hid]
  congr 1
  funext id
  rw [List.take_modify]
  exact hany _ (fun m => rfl) _ j

theorem foldl_clearAt (positions : List Nat) (messages : List Message) (cleared : Nat) :
    positions.foldl (clearAt excludeTools placeholder) (messages, cleared) =
      (messages.mapIdx fun i m =>
          if i ∈ positions ∧ excludedBy excludeTools messages i = false then withContent placeholder m else m,
        cleared + positions.countP fun i => excludedBy excludeTools messages i = false) := by
  induction positions generalizing messages cleared with
  | nil => simp [List.mapIdx_eq_zipIdx_map]
  | cons p positions ih =>
    rw [List.foldl_cons]
    cases hexcluded : excludedBy excludeTools messages p with
    | true =>
      rw [clearAt, if_pos hexcluded, ih, List.countP_cons_of_neg (by simp [hexcluded])]
      congr 2
      funext i m
      have hi : i ∈ p :: positions ∧ excludedBy excludeTools messages i = false ↔
          i ∈ positions ∧ excludedBy excludeTools messages i = false := by grind
      simp only [hi]
    | false =>
      rw [clearAt, if_neg (by simp [hexcluded]), ih, List.countP_cons_of_pos (by simp [hexcluded])]
      simp only [excludedBy_modify]
      refine Prod.ext ?_ (by omega)
      apply List.ext_getElem?
      intro i
      simp only [List.getElem?_mapIdx, List.getElem?_modify]
      rcases messages[i]? with _ | m
      · rfl
      by_cases hpi : p = i
      · subst hpi
        simp only [hexcluded, if_true, Option.map_some, List.mem_cons_self, and_true]
        split <;> rfl
      · simp only [Option.map_some, List.mem_cons, if_neg hpi]
        grind

end

/-! ### The law -/

section
variable {messages : List Message} {keepRecent : Nat} {excludeTools : List String} {placeholder : String}

/-- The count that the walk back keeps: of all batches, with or without results. -/
def keptCount (messages : List Message) (keepRecent : Nat) : Nat :=
  min keepRecent ((buildBatches messages).countP Batch.answered)

def clearable (messages : List Message) (keepRecent : Nat) : List Nat :=
  let batches := buildBatches messages
  (batches.take (batches.length - keptCount messages keepRecent)).flatMap (·.results)

theorem clearToolResults_eq (messages : List Message) (keepRecent : Nat) (excludeTools : List String)
    (placeholder : String) :
    clearToolResults messages keepRecent excludeTools placeholder =
      (messages.mapIdx fun i m =>
          if i ∈ clearable messages keepRecent ∧ excludedBy excludeTools messages i = false then
            withContent placeholder m
          else m,
        (clearable messages keepRecent).countP fun i => excludedBy excludeTools messages i = false) := by
  simp only [clearToolResults]
  rw [clearableFrom_eq, List.countP_reverse, Nat.sub_zero, foldl_clearAt, Nat.zero_add]
  rfl

theorem clearable_append (messages : List Message) (keepRecent : Nat) :
    (clearable messages keepRecent ++ newestResults messages (keptCount messages keepRecent)).Perm
      (toolPositions messages) := by
  have h := buildBatches_results messages
  rw [← List.take_append_drop ((buildBatches messages).length - keptCount messages keepRecent) (buildBatches messages),
    List.flatMap_append] at h
  exact h

theorem mem_clearable_or {i : Nat} :
    i ∈ clearable messages keepRecent ∨ i ∈ newestResults messages (keptCount messages keepRecent) ↔
      ∃ m ∈ messages[i]?, m.role = "tool" := by
  rw [← mem_toolPositions, ← (clearable_append messages keepRecent).mem_iff, List.mem_append]

theorem nodup_clearable_append (messages : List Message) (keepRecent : Nat) :
    (clearable messages keepRecent ++ newestResults messages (keptCount messages keepRecent)).Nodup :=
  (clearable_append messages keepRecent).nodup_iff.2 (nodup_toolPositions messages)

theorem nodup_clearable (messages : List Message) (keepRecent : Nat) : (clearable messages keepRecent).Nodup :=
  (List.nodup_append.1 (nodup_clearable_append messages keepRecent)).1

theorem not_mem_newestResults {i : Nat} (h : i ∈ clearable messages keepRecent) :
    i ∉ newestResults messages (keptCount messages keepRecent) := fun hnewest =>
  (List.nodup_append.1 (nodup_clearable_append messages keepRecent)).2.2 i h i hnewest rfl

theorem flatMap_answered (batches : List Batch) :
    (batches.filter Batch.answered).flatMap (·.results) = batches.flatMap (·.results) := by
  induction batches with
  | nil => rfl
  | cons b batches ih =>
    cases h : b.answered with
    | true => rw [List.filter_cons_of_pos h, List.flatMap_cons, List.flatMap_cons, ih]
    | false =>
      have hempty : b.results = [] := by simpa [Batch.answered] using h
      rw [List.filter_cons_of_neg (by simp [h]), List.flatMap_cons, hempty, ih, List.nil_append]

theorem newestResults_subset {i : Nat} (h : i ∈ newestResults messages (keptCount messages keepRecent)) :
    i ∈ keptResults messages keepRecent := by
  set batches := buildBatches messages with hbatches
  set boundary := batches.length - keptCount messages keepRecent with hboundary
  have hsplit : batches.filter Batch.answered =
      (batches.take boundary).filter Batch.answered ++ (batches.drop boundary).filter Batch.answered := by
    rw [← List.filter_append, List.take_append_drop]
  have hlength : ((batches.drop boundary).filter Batch.answered).length ≤ keepRecent := by
    have h1 := List.length_filter_le Batch.answered (batches.drop boundary)
    rw [List.length_drop] at h1
    have h2 : keptCount messages keepRecent ≤ keepRecent := Nat.min_le_left _ _
    omega
  have hdrop : (batches.drop boundary).filter Batch.answered <:+
      (batches.filter Batch.answered).drop ((batches.filter Batch.answered).length - keepRecent) := by
    have hbehind : (batches.drop boundary).filter Batch.answered <:+ batches.filter Batch.answered :=
      ⟨_, hsplit.symm⟩
    refine List.suffix_of_suffix_length_le hbehind (List.drop_suffix _ _) ?_
    have h3 := congrArg List.length hsplit
    rw [List.length_append] at h3
    rw [List.length_drop]
    omega
  have hmem : i ∈ ((batches.drop boundary).filter Batch.answered).flatMap (·.results) := by
    rw [flatMap_answered]
    exact h
  obtain ⟨b, hb, hi⟩ := List.mem_flatMap.1 hmem
  exact List.mem_flatMap.2 ⟨b, hdrop.subset hb, hi⟩

theorem old_imp_clearable {i : Nat} (h : Old messages keepRecent excludeTools i) :
    i ∈ clearable messages keepRecent ∧ excludedBy excludeTools messages i = false := by
  obtain ⟨htool, hkept, hexcluded⟩ := h
  refine ⟨?_, hexcluded⟩
  rcases mem_clearable_or.2 htool with hclear | hnewest
  · exact hclear
  · exact absurd (newestResults_subset hnewest) hkept

theorem old_subperm (messages : List Message) (keepRecent : Nat) (excludeTools : List String) :
    ((List.range messages.length).filter (Old messages keepRecent excludeTools ·)).Subperm
      ((clearable messages keepRecent).filter fun i => excludedBy excludeTools messages i = false) := by
  refine List.Nodup.subperm (List.nodup_range.filter _) fun i hi => ?_
  have h := old_imp_clearable (of_decide_eq_true (List.mem_filter.1 hi).2)
  exact List.mem_filter.2 ⟨h.1, decide_eq_true h.2⟩

theorem mem_range_old {i : Nat} : i ∈ (List.range messages.length).filter (Old messages keepRecent excludeTools ·) ↔
      Old messages keepRecent excludeTools i := by
  rw [List.mem_filter, List.mem_range, decide_eq_true_eq]
  refine and_iff_right_of_imp fun h => ?_
  obtain ⟨m, hm, -⟩ := h.1
  exact (List.getElem?_eq_some_iff.1 hm).1

/-- The law is kept if and only if a kept result that is not excluded is in one of the newest batches, as many of
them as batches with results are kept, but counted with those without results. -/
theorem clear_law_iff (messages : List Message) (keepRecent : Nat) (excludeTools : List String) (placeholder : String) :
    ClearLaw messages keepRecent excludeTools placeholder
        (clearToolResults messages keepRecent excludeTools placeholder) ↔
      ∀ i ∈ keptResults messages keepRecent, excludedBy excludeTools messages i = false →
        i ∈ newestResults messages (keptCount messages keepRecent) := by
  constructor
  · intro law i hkept hexcluded
    have hcount := law.cleared
    rw [clearToolResults_eq] at hcount
    -- as many are cleared as are old, so that none but the old ones is
    have hperm := (old_subperm messages keepRecent excludeTools).perm_of_length_le (by
      rw [← List.countP_eq_length_filter, ← List.countP_eq_length_filter]
      exact hcount.le)
    have htool : ∃ m ∈ messages[i]?, m.role = "tool" := by
      rw [← mem_toolPositions, ← (buildBatches_results messages).mem_iff]
      obtain ⟨b, hb, hi⟩ := List.mem_flatMap.1 hkept
      exact List.mem_flatMap.2 ⟨b, List.mem_of_mem_filter (List.mem_of_mem_drop hb), hi⟩
    rcases mem_clearable_or.2 htool with hclear | hnewest
    · have hold : Old messages keepRecent excludeTools i :=
        mem_range_old.1 (hperm.mem_iff.2 (List.mem_filter.2 ⟨hclear, decide_eq_true hexcluded⟩))
      exact absurd hkept hold.2.1
    · exact hnewest
  · intro hnewest
    have hiff : ∀ i, (i ∈ clearable messages keepRecent ∧ excludedBy excludeTools messages i = false) ↔
        Old messages keepRecent excludeTools i := by
      intro i
      refine ⟨fun ⟨hclear, hexcluded⟩ => ?_, old_imp_clearable⟩
      refine ⟨mem_clearable_or.1 (.inl hclear), fun hkept => ?_, hexcluded⟩
      exact not_mem_newestResults hclear (hnewest i hkept hexcluded)
    rw [clearToolResults_eq]
    constructor
    · simp only [hiff]
    · show (clearable messages keepRecent).countP (fun i => excludedBy excludeTools messages i = false) = _
      rw [List.countP_eq_length_filter, List.countP_eq_length_filter]
      refine ((List.perm_ext_iff_of_nodup ((nodup_clearable messages keepRecent).filter _)
        (List.nodup_range.filter _)).2 fun i => ?_).length_eq
      rw [mem_range_old, ← hiff, List.mem_filter, decide_eq_true_eq]

end

theorem notMem_oneField {k key : String} {value : Json} (h : k ≠ key) : k ∉ Assoc.keys [(key, value)] := by
  simpa [Assoc.keys] using h

variable (id : String)

theorem nodupKeys_call :
    (Json.object [("tool_calls", .array [.object [("id", .string id)]])]).nodupKeys = true := by
  simp [Json.nodupKeys, Assoc.keys]

theorem nodupKeys_callId : (Json.object [("tool_call_id", .string id)]).nodupKeys = true := by
  simp [Json.nodupKeys, Assoc.keys]

theorem role_notMem_call :
    "role" ∉ Assoc.keys [("tool_calls", Json.array [.object [("id", .string id)]])] := notMem_oneField (by decide)

theorem content_notMem_call :
    "content" ∉ Assoc.keys [("tool_calls", Json.array [.object [("id", .string id)]])] := notMem_oneField (by decide)

theorem role_notMem_callId : "role" ∉ Assoc.keys [("tool_call_id", Json.string id)] :=
  notMem_oneField (by decide)

theorem content_notMem_callId : "content" ∉ Assoc.keys [("tool_call_id", Json.string id)] :=
  notMem_oneField (by decide)

def callMessage (id : String) : Message where
  role := "assistant"
  content := .string ""
  extra := [("tool_calls", .array [.object [("id", .string id)]])]
  content_nodup := nodupKeys_text ""
  extra_nodup := nodupKeys_call id
  extra_role := role_notMem_call id
  extra_content := content_notMem_call id

def resultMessage (id content : String) : Message where
  role := "tool"
  content := .string content
  extra := [("tool_call_id", .string id)]
  content_nodup := nodupKeys_text content
  extra_nodup := nodupKeys_callId id
  extra_role := role_notMem_callId id
  extra_content := content_notMem_callId id

def waitingHistory : List Message := [callMessage "a", resultMessage "a" "x", callMessage "b"]

/-- One batch with a result is kept, but the boundary stays behind it. -/
theorem waiting_call_clears :
    keptResults waitingHistory 1 = [1] ∧ (clearToolResults waitingHistory 1 [] "[cleared]").2 = 1 ∧
      ¬ ClearLaw waitingHistory 1 [] "[cleared]" (clearToolResults waitingHistory 1 [] "[cleared]") := by
  refine ⟨by decide +kernel, by decide +kernel, fun law => ?_⟩
  have hcleared := law.cleared
  revert hcleared
  decide +kernel

end ObeyGateway.Context
