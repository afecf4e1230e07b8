import ObeyGateway.Compression.Ultra

/-!
# Pruning keeps tool pairs together

The groups of messages are closed under links, because linked messages name each other and the original
indices are distinct. What is left after dropping groups is therefore a selection that no link leaves, and
every link, and every call's being resolved or not, is as it was.
-/

namespace ObeyGateway.Compression

variable {msgs : List CompressibleMessage} {i j k : Nat} {id : String}

theorem mem_modify_getD {adj : List (List Nat)} {p q x y : Nat} (hp : p < adj.length) :
    x ∈ (adj.modify p (pushUnique · q)).getD y [] ↔ x ∈ adj.getD y [] ∨ y = p ∧ x = q := by
  rw [List.getD_eq_getElem?_getD, List.getD_eq_getElem?_getD, List.getElem?_modify]
  by_cases hy : p = y
  · subst hy
    rw [List.getElem?_eq_getElem hp]
    simp [mem_pushUnique]
  · have hne : ¬ y = p := fun h => hy h.symm
    simp [hy, hne]

theorem mem_foldl_addEdge {edges : List (Nat × Nat)} {adj : List (List Nat)} {x y : Nat}
    (hbound : ∀ e ∈ edges, e.1 < adj.length ∧ e.2 < adj.length) :
    x ∈ (edges.foldl addEdge adj).getD y [] ↔ x ∈ adj.getD y [] ∨ (y, x) ∈ edges ∨ (x, y) ∈ edges := by
  induction edges generalizing adj with
  | nil => simp
  | cons e edges ih =>
    obtain ⟨p, q⟩ := e
    obtain ⟨hp, hq⟩ := hbound (p, q) List.mem_cons_self
    have hlen : (addEdge adj (p, q)).length = adj.length := by simp [addEdge]
    rw [List.foldl_cons, ih fun e he => by rw [hlen]; exact hbound e (List.mem_cons_of_mem _ he), addEdge,
      mem_modify_getD (by simpa using hq), mem_modify_getD hp]
    simp only [List.mem_cons, Prod.mk.injEq]
    tauto

theorem mem_edges : (i, j) ∈ edges msgs ↔ ∃ m, msgs[i]? = some m ∧
    ∃ index ∈ m.relationships.relatedMessageIndices, positionOf msgs index = some j := by
  simp only [edges, List.mem_flatMap, List.mem_filterMap, Option.map_eq_some_iff, Prod.mk.injEq]
  constructor
  · rintro ⟨⟨m, p⟩, hmem, index, hindex, q, hq, rfl, rfl⟩
    exact ⟨m, List.mk_mem_zipIdx_iff_getElem?.1 hmem, index, hindex, hq⟩
  · rintro ⟨m, hm, index, hindex, hq⟩
    exact ⟨(m, i), List.mk_mem_zipIdx_iff_getElem?.2 hm, index, hindex, j, hq, rfl, rfl⟩

theorem edges_bound : ∀ e ∈ edges msgs, e.1 < msgs.length ∧ e.2 < msgs.length := by
  rintro ⟨p, q⟩ he
  obtain ⟨m, hm, index, -, hq⟩ := mem_edges.1 he
  obtain ⟨⟨m', hm', -⟩, -⟩ := rposition_some hq
  exact ⟨(List.getElem?_eq_some_iff.1 hm).1, (List.getElem?_eq_some_iff.1 hm').1⟩

theorem mem_adjacency : i ∈ (adjacency msgs).getD j [] ↔ (j, i) ∈ edges msgs ∨ (i, j) ∈ edges msgs := by
  have hempty : i ∉ (List.replicate msgs.length ([] : List Nat)).getD j [] := by
    rw [List.getD_eq_getElem?_getD, List.getElem?_replicate]
    split <;> simp
  rw [adjacency, mem_foldl_addEdge (by simpa using edges_bound)]
  exact or_iff_right hempty

def Distinct (msgs : List CompressibleMessage) : Prop := (msgs.map (·.originalIndex)).Nodup

variable {m : CompressibleMessage}

theorem Distinct.eq_of_index (h : Distinct msgs) {m' : CompressibleMessage} (hm : msgs[i]? = some m)
    (hm' : msgs[j]? = some m') (heq : m.originalIndex = m'.originalIndex) : i = j := by
  have hlt : i < (msgs.map (·.originalIndex)).length := by
    rw [List.length_map]
    exact (List.getElem?_eq_some_iff.1 hm).1
  refine (List.getElem?_inj hlt h).1 ?_
  rw [List.getElem?_map, List.getElem?_map, hm, hm', Option.map_some, Option.map_some, heq]

theorem Distinct.position (h : Distinct msgs) (hm : msgs[i]? = some m) : positionOf msgs m.originalIndex = some i := by
  rcases hpos : positionOf msgs m.originalIndex with _ | r
  · have hno := rposition_none hpos m (List.mem_of_getElem? hm)
    simp at hno
  obtain ⟨⟨b, hb, hp⟩, -⟩ := rposition_some hpos
  rw [decide_eq_true_eq] at hp
  rw [h.eq_of_index hb hm hp]

theorem Refreshed.adjacent (hr : Refreshed msgs) (h : Distinct msgs) (hlink : Link msgs i j id) :
    j ∈ (adjacency msgs).getD i [] := by
  have ⟨r, hr₁, _⟩ := hlink.result
  obtain ⟨-, ⟨c, hc, -⟩, -⟩ := callFor_some hlink.call
  rw [mem_adjacency]
  refine .inl (mem_edges.2 ⟨c, hc, r.originalIndex, ?_, h.position hr₁⟩)
  exact (hr.related i j id c r hlink hc hr₁).1

theorem adjacency_bound (p : Nat) : ∀ q ∈ (adjacency msgs).getD p [], q < msgs.length := by
  intro q hq
  rcases mem_adjacency.1 hq with he | he
  · exact (edges_bound _ he).2
  · exact (edges_bound _ he).1

theorem adjacency_symm (p : Nat) : ∀ q ∈ (adjacency msgs).getD p [], p ∈ (adjacency msgs).getD q [] := by
  intro q hq
  exact mem_adjacency.2 (mem_adjacency.1 hq).symm

theorem mem_relationshipGroups {g : List Nat} (hg : g ∈ relationshipGroups msgs) :
    ∃ g₀ ∈ Components.groups (fun p => (adjacency msgs).getD p []) msgs.length,
      ∀ p, p ∈ g ↔ p ∈ g₀ := by
  obtain ⟨g₀, hg₀, rfl⟩ := List.mem_map.1 hg
  exact ⟨g₀, hg₀, fun p => List.mem_insertionSort _⟩

theorem group_closed {g : List Nat} (hg : g ∈ relationshipGroups msgs) (hi : i ∈ g)
    (hadj : j ∈ (adjacency msgs).getD i []) : j ∈ g := by
  obtain ⟨g₀, hg₀, hmem⟩ := mem_relationshipGroups hg
  exact (hmem j).2 (Components.groups_closed adjacency_bound adjacency_symm hg₀ i ((hmem i).1 hi) j hadj)

theorem exists_relationshipGroup (hi : i < msgs.length) : ∃ g ∈ relationshipGroups msgs, i ∈ g := by
  obtain ⟨g₀, hg₀, hmem⟩ := Components.exists_group (@adjacency_bound msgs) adjacency_symm hi
  exact ⟨_, List.mem_map_of_mem hg₀, (List.mem_insertionSort _).2 hmem⟩

def isKept (msgs : List CompressibleMessage) (keep : List Nat → Bool) (position : Nat) : Bool :=
  (relationshipGroups msgs).any fun group => keep group && position ∈ group

def keptPositions (msgs : List CompressibleMessage) (keep : List Nat → Bool) : List Nat :=
  (msgs.zipIdx.filter fun e => isKept msgs keep e.2).map (·.2)

variable {keep : List Nat → Bool}

theorem mem_keptPositions : i ∈ keptPositions msgs keep ↔ i < msgs.length ∧ isKept msgs keep i = true := by
  simp only [keptPositions, List.mem_map, List.mem_filter]
  constructor
  · rintro ⟨⟨m, p⟩, ⟨hmem, hkept⟩, rfl⟩
    exact ⟨(List.getElem?_eq_some_iff.1 (List.mk_mem_zipIdx_iff_getElem?.1 hmem)).1, hkept⟩
  · rintro ⟨hlt, hkept⟩
    exact ⟨(msgs[i], i), ⟨List.mk_mem_zipIdx_iff_getElem?.2 (List.getElem?_eq_getElem hlt), hkept⟩, rfl⟩

theorem retainGroups_eq (keep : List Nat → Bool) : retainGroups msgs keep =
    (msgs.zipIdx.filter fun e => isKept msgs keep e.2).map (·.1) := by
  rw [retainGroups, ← List.filterMap_eq_map, List.filterMap_filter]
  rfl

theorem adjacent_kept (hadj : j ∈ (adjacency msgs).getD i [])
    (hi : i ∈ keptPositions msgs keep) : j ∈ keptPositions msgs keep := by
  obtain ⟨-, hkept⟩ := mem_keptPositions.1 hi
  obtain ⟨g, hg, hkeep⟩ := List.any_eq_true.1 hkept
  rw [Bool.and_eq_true, decide_eq_true_eq] at hkeep
  refine mem_keptPositions.2 ⟨adjacency_bound i j hadj, List.any_eq_true.2 ⟨g, hg, ?_⟩⟩
  rw [Bool.and_eq_true, decide_eq_true_eq]
  exact ⟨hkeep.1, group_closed hg hkeep.2 hadj⟩

theorem linkClosed_kept (hr : Refreshed msgs) (h : Distinct msgs) (keep : List Nat → Bool) :
    LinkClosed msgs (keptPositions msgs keep) := by
  intro i j id hlink
  have hadj := hr.adjacent h hlink
  exact ⟨adjacent_kept hadj, adjacent_kept (adjacency_symm i j hadj)⟩

theorem Like.of_wire {m' : CompressibleMessage} (h : wire m' = wire m) : Like m m' := by
  simp only [wire, Prod.mk.injEq] at h
  obtain ⟨hrole, hcontent, hextra, hindex⟩ := h
  exact ⟨hrole, hindex, by rw [callIds, callIds, hcontent, hextra],
    by rw [resultIds, resultIds, hcontent, hextra],
    by rw [CompressibleMessage.hasCacheMarker, CompressibleMessage.hasCacheMarker, hcontent, hextra]⟩

variable {msgs' : List CompressibleMessage}

theorem exists_of_map_wire (h : msgs'.map wire = msgs.map wire) (hm : msgs[i]? = some m) : ∃ m', msgs'[i]? = some m' ∧ wire m' = wire m := by
  have hi := congrArg (·[i]?) h
  simp only [List.getElem?_map, hm, Option.map_some] at hi
  obtain ⟨m', hm', heq⟩ := Option.map_eq_some_iff.1 hi
  exact ⟨m', hm', heq⟩

theorem kept_getElem? (hk : (keptPositions msgs keep)[k]? = some i) :
    ∃ m, msgs[i]? = some m ∧ (retainGroups msgs keep)[k]? = some m := by
  rw [keptPositions, List.getElem?_map] at hk
  obtain ⟨⟨m, p⟩, hget, rfl⟩ := Option.map_eq_some_iff.1 hk
  have hmem := List.mem_of_mem_filter (List.mem_of_getElem? hget)
  refine ⟨m, List.mk_mem_zipIdx_iff_getElem?.1 hmem, ?_⟩
  rw [retainGroups_eq, List.getElem?_map, hget]
  rfl

theorem selection_retain (hwire : msgs'.map wire = (retainGroups msgs keep).map wire) :
    Selection msgs msgs' (keptPositions msgs keep) := by
  refine ⟨?_, ?_, fun k i hk => ?_⟩
  · rw [keptPositions, List.pairwise_map]
    exact (zipIdx_sorted msgs).filter _
  · have hlen := congrArg List.length hwire
    rw [List.length_map, List.length_map] at hlen
    rw [hlen, retainGroups_eq, keptPositions, List.length_map, List.length_map]
  · obtain ⟨m, hm, hget⟩ := kept_getElem? hk
    obtain ⟨m', hm', heq⟩ := exists_of_map_wire hwire hget
    exact ⟨m, m', hm, hm', .of_wire heq⟩

/-! ### Tool pairs -/

/-- The message with the index `result` answers, for the id, the one with the index `call` before it. -/
def Answers (msgs : List CompressibleMessage) (call result : Nat) (id : String) : Prop :=
  ∃ (i j : Nat) (c r : CompressibleMessage), i < j ∧ msgs[i]? = some c ∧ msgs[j]? = some r ∧
    c.originalIndex = call ∧ r.originalIndex = result ∧ Link msgs i j id

def Present (msgs : List CompressibleMessage) (index : Nat) : Prop :=
  ∃ m ∈ msgs, m.originalIndex = index

section
variable {msgs' : List CompressibleMessage} {pos : List Nat} {call result : Nat}

variable {m : CompressibleMessage}

theorem Selection.index (h : Selection msgs msgs' pos) (hk : pos[k]? = some i)
    (hm : msgs[i]? = some m) : ∃ m', msgs'[k]? = some m' ∧ Like m m' := by
  obtain ⟨m₁, m', hm₁, hm', hlike⟩ := h.like k i hk
  rw [hm] at hm₁
  exact ⟨m', hm', Option.some.inj hm₁ ▸ hlike⟩

theorem Selection.mem_of_present (h : Selection msgs msgs' pos) (hd : Distinct msgs) (hm : msgs[i]? = some m) (hp : Present msgs' m.originalIndex) :
    i ∈ pos := by
  obtain ⟨m', hmem, hindex⟩ := hp
  obtain ⟨k, hk⟩ := List.mem_iff_getElem?.1 hmem
  obtain ⟨q, m₁, hq, hm₁, hlike⟩ := h.position hk
  rw [← hd.eq_of_index hm₁ hm (hlike.originalIndex.symm.trans hindex)]
  exact List.mem_of_getElem? hq

variable (h : Selection msgs msgs' pos) (hr : Refreshed msgs) (hr' : Refreshed msgs')
include h hr hr'

theorem Selection.answers {c r : CompressibleMessage} (hc : msgs[i]? = some c) (hres : msgs[j]? = some r)
    (hlink : Link msgs i j id) (hi : i ∈ pos) (hj : j ∈ pos) :
    Answers msgs' c.originalIndex r.originalIndex id := by
  obtain ⟨k, hk⟩ := List.mem_iff_getElem?.1 hi
  obtain ⟨l, hl⟩ := List.mem_iff_getElem?.1 hj
  obtain ⟨c', hc', hlike⟩ := h.index hk hc
  obtain ⟨r', hr₁, hlike'⟩ := h.index hl hres
  have hlink' := h.link hr hr' hk hl hlink
  exact ⟨k, l, c', r', (callFor_some hlink'.call).1, hc', hr₁, hlike.originalIndex,
    hlike'.originalIndex, hlink'⟩

theorem Selection.result_keeps_call (hd : Distinct msgs) (hclosed : LinkClosed msgs pos)
    (ha : Answers msgs call result id) (hp : Present msgs' result) : Answers msgs' call result id := by
  obtain ⟨i, j, c, r, -, hc, hres, rfl, rfl, hlink⟩ := ha
  have hj := h.mem_of_present hd hres hp
  exact h.answers hr hr' hc hres hlink ((hclosed i j id hlink).2 hj) hj

theorem Selection.call_keeps_result (hd : Distinct msgs) (hclosed : LinkClosed msgs pos)
    (ha : Answers msgs call result id) (hp : Present msgs' call) : Answers msgs' call result id := by
  obtain ⟨i, j, c, r, -, hc, hres, rfl, rfl, hlink⟩ := ha
  have hi := h.mem_of_present hd hc hp
  exact h.answers hr hr' hc hres hlink hi ((hclosed i j id hlink).1 hi)

theorem Selection.stays_resolved (hd : Distinct msgs) (hclosed : LinkClosed msgs pos)
    {m' : CompressibleMessage} (hm : m ∈ msgs) (hm' : m' ∈ msgs')
    (hindex : m'.originalIndex = m.originalIndex)
    (hres : id ∉ m.relationships.unresolvedToolCallIds) :
    id ∉ m'.relationships.unresolvedToolCallIds := by
  obtain ⟨i, hi⟩ := List.mem_iff_getElem?.1 hm
  obtain ⟨k, hk⟩ := List.mem_iff_getElem?.1 hm'
  obtain ⟨q, m₁, hq, hm₁, hlike⟩ := h.position hk
  obtain rfl : q = i := hd.eq_of_index hm₁ hi (hlike.originalIndex.symm.trans hindex)
  rwa [h.unresolved_iff hr hr' hclosed hq hi hk]

end

theorem Distinct.of_map_wire (h : Distinct msgs) (hwire : msgs'.map wire = msgs.map wire) : Distinct msgs' := by
  have hindex : ∀ l : List CompressibleMessage, l.map (·.originalIndex) = (l.map wire).map (·.2.2.2) :=
    fun l => by rw [List.map_map]; rfl
  rw [Distinct, hindex, hwire, ← hindex]
  exact h

section
variable {F : Type} (floats : Floats F) (texts : Texts)

theorem pruneByRelevance_messages (payload : CompressiblePayload) (threshold : F)
    (hne : payload.messages ≠ []) : (pruneByRelevance floats texts payload threshold).messages =
      refreshMessages (retainGroups payload.messages
        (keepRelevant floats texts payload.messages threshold)) := by
  rw [pruneByRelevance, if_neg (by simpa using hne)]
  rfl

/-- Pruning takes no result from its call and no call from its results. -/
theorem tool_pairs_survive_pruning (payload : CompressiblePayload) (threshold : F) (hd : Distinct payload.messages) :
    (∀ call result id, Answers payload.refreshMetadata.messages call result id →
      Present (pruneByRelevance floats texts payload.refreshMetadata threshold).messages result →
      Answers (pruneByRelevance floats texts payload.refreshMetadata threshold).messages
        call result id) ∧
    (∀ call result id, Answers payload.refreshMetadata.messages call result id →
      Present (pruneByRelevance floats texts payload.refreshMetadata threshold).messages call →
      ∃ result', Answers (pruneByRelevance floats texts payload.refreshMetadata threshold).messages
        call result' id) ∧
    ∀ m ∈ payload.refreshMetadata.messages,
      ∀ m' ∈ (pruneByRelevance floats texts payload.refreshMetadata
        threshold).refreshMetadata.messages,
      m'.originalIndex = m.originalIndex → ∀ id ∈ m.relationships.toolCallIds,
      id ∉ m.relationships.unresolvedToolCallIds →
      id ∉ m'.relationships.unresolvedToolCallIds := by
  have hr : Refreshed payload.refreshMetadata.messages := refreshed_refreshMessages payload.messages
  have hd' : Distinct payload.refreshMetadata.messages := hd.of_map_wire map_wire_refreshMessages
  generalize payload.refreshMetadata = before at hr hd' ⊢
  by_cases hne : before.messages = []
  · refine ⟨?_, ?_, ?_⟩
    · rintro call result id ⟨i, j, c, r, -, hc, -⟩
      rw [hne] at hc
      cases hc
    · rintro call result id ⟨i, j, c, r, -, hc, -⟩
      rw [hne] at hc
      cases hc
    · intro m hm
      rw [hne] at hm
      cases hm
  · have hclosed := linkClosed_kept hr hd' (keepRelevant floats texts before.messages threshold)
    have hafter := pruneByRelevance_messages floats texts before threshold hne
    refine ⟨fun call result id ha hp => ?_, fun call result id ha hp => ⟨result, ?_⟩, ?_⟩
    · rw [hafter] at hp ⊢
      exact (selection_retain map_wire_refreshMessages).result_keeps_call hr
        (refreshed_refreshMessages _) hd' hclosed ha hp
    · rw [hafter] at hp ⊢
      exact (selection_retain map_wire_refreshMessages).call_keeps_result hr
        (refreshed_refreshMessages _) hd' hclosed ha hp
    · intro m hm m' hm' hindex id _ hres
      have hwire : (pruneByRelevance floats texts before threshold).refreshMetadata.messages.map wire =
          (retainGroups before.messages
            (keepRelevant floats texts before.messages threshold)).map wire := by
        rw [messages_refreshMetadata, hafter, map_wire_refreshMessages, map_wire_refreshMessages]
      exact (selection_retain hwire).stays_resolved hr (refreshed_refreshMessages _) hd' hclosed hm hm'
        hindex hres

end

def pairPayload : CompressiblePayload :=
  { plainPayload "" with
    messages :=
      [{ userMessage "" with
          role := "assistant"
          extra := [("tool_calls", .array [.object [("id", .string "a")]])] },
        { userMessage "42" with
          role := "tool"
          originalIndex := 1
          extra := [("tool_call_id", .string "a")] },
        { userMessage "thanks" with originalIndex := 2 }] }

/-- All messages have age zero, where the exponential is one. -/
def youngFloats : Floats Rat where
  lit x := x
  add := (· + ·)
  mul := (· * ·)
  min := min
  max := max
  neg := (- ·)
  exp _ := 1
  le a b := a ≤ b
  isFinite _ := true

def plainTexts : Texts := ⟨fun _ => [], Char.isAlphanum⟩

def defaultRelevanceThreshold : Rat := 0.3

theorem pairPayload_keeps_pair : Distinct pairPayload.messages ∧ Answers pairPayload.refreshMetadata.messages 0 1 "a" ∧
    Answers (pruneByRelevance youngFloats plainTexts pairPayload.refreshMetadata
      defaultRelevanceThreshold).messages 0 1 "a" := by
  have hd : Distinct pairPayload.messages := by
    unfold Distinct
    decide
  have hbefore : Answers pairPayload.refreshMetadata.messages 0 1 "a" := by
    refine ⟨0, 1, _, _, by omega, rfl, rfl, rfl, rfl, ⟨⟨_, rfl, ?_⟩, ?_⟩⟩
    · decide +kernel
    · decide +kernel
  have hpresent : Present (pruneByRelevance youngFloats plainTexts pairPayload.refreshMetadata
      defaultRelevanceThreshold).messages 1 := by
    unfold Present
    decide +kernel
  obtain ⟨hresult, -, -⟩ := tool_pairs_survive_pruning youngFloats plainTexts pairPayload
    defaultRelevanceThreshold hd
  exact ⟨hd, hbefore, hresult 0 1 "a" hbefore hpresent⟩

end ObeyGateway.Compression
