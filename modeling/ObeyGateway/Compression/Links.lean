import ObeyGateway.Compression.Payload

/-!
# What the annotations say

`Refreshed` is the specification of `refreshMetadata`: the ids of a message are those of its content and
extra fields, a call is unresolved when no result is linked to it, linked messages name each other, and a
message is cache protected when a marker follows it. A link joins a result to the nearest earlier call
with its id (`callFor_eq_some_iff`).
-/

namespace ObeyGateway.Compression

variable {msgs : List CompressibleMessage} {i j k : Nat} {id : String}

def callIds (m : CompressibleMessage) : List String :=
  (extractToolRelationships m.content m.extra).toolCallIds

def resultIds (m : CompressibleMessage) : List String :=
  (extractToolRelationships m.content m.extra).toolResultForIds

def HasCall (msgs : List CompressibleMessage) (i : Nat) (id : String) : Prop :=
  ∃ m, msgs[i]? = some m ∧ id ∈ m.relationships.toolCallIds

def HasResult (msgs : List CompressibleMessage) (j : Nat) (id : String) : Prop :=
  ∃ m, msgs[j]? = some m ∧ id ∈ m.relationships.toolResultForIds

/-- The result at `j` for `id` answers the call at `i`. -/
structure Link (msgs : List CompressibleMessage) (i j : Nat) (id : String) : Prop where
  result : HasResult msgs j id
  call : callFor msgs j id = some i

theorem mem_callsById : i ∈ callsById msgs id ↔ HasCall msgs i id := by
  simp only [callsById, List.mem_flatMap, List.mem_map, List.mem_filter, HasCall]
  constructor
  · rintro ⟨⟨m, p⟩, hmem, c, ⟨hc, hid⟩, rfl⟩
    rw [decide_eq_true_eq] at hid
    exact ⟨m, List.mk_mem_zipIdx_iff_getElem?.1 hmem, hid ▸ hc⟩
  · rintro ⟨m, hm, hid⟩
    exact ⟨(m, i), List.mk_mem_zipIdx_iff_getElem?.2 hm, id, ⟨hid, by simp⟩, rfl⟩

variable {α : Type}

theorem zipIdx_sorted (l : List α) : l.zipIdx.Pairwise fun e e' => e.2 < e'.2 := by
  rw [← List.pairwise_map, List.zipIdx_map_snd]
  exact List.pairwise_lt_range'

theorem callsById_sorted : (callsById msgs id).Pairwise (· ≤ ·) := by
  rw [callsById, List.pairwise_flatMap]
  constructor
  · rintro ⟨m, p⟩ -
    rw [List.pairwise_map]
    exact List.pairwise_of_forall fun _ _ => le_rfl
  · refine (zipIdx_sorted msgs).imp ?_
    rintro ⟨m, p⟩ ⟨m', p'⟩ hlt x hx y hy
    obtain ⟨_, -, rfl⟩ := List.mem_map.1 hx
    obtain ⟨_, -, rfl⟩ := List.mem_map.1 hy
    exact hlt.le

theorem callFor_some (h : callFor msgs j id = some i) :
    i < j ∧ HasCall msgs i id ∧ ∀ k, i < k → k < j → ¬ HasCall msgs k id := by
  rw [callFor, List.find?_eq_some_iff_append] at h
  obtain ⟨hlt, before, after, heq, hbefore⟩ := h
  rw [decide_eq_true_eq] at hlt
  have hmem : ∀ x, x ∈ before ++ i :: after ↔ HasCall msgs x id := fun x => by
    rw [← heq, List.mem_reverse, mem_callsById]
  refine ⟨hlt, (hmem i).1 (by simp), fun k hik hkj hcall => ?_⟩
  rcases List.mem_append.1 ((hmem k).2 hcall) with hk | hk
  · have := hbefore k hk
    simp only [Bool.not_eq_true', decide_eq_false_iff_not] at this
    exact this hkj
  · -- the positions come in descending order, so what follows `i` is not above it
    have hsorted : (before ++ i :: after).Pairwise (· ≥ ·) := by
      rw [← heq, List.pairwise_reverse]
      exact callsById_sorted
    have htail := (List.pairwise_cons.1 (List.pairwise_append.1 hsorted).2.1).1
    rcases List.mem_cons.1 hk with rfl | hk
    · exact absurd hik (lt_irrefl _)
    · exact absurd hik (not_lt.2 (htail k hk))

theorem callFor_eq_some_iff : callFor msgs j id = some i ↔
    i < j ∧ HasCall msgs i id ∧ ∀ k, i < k → k < j → ¬ HasCall msgs k id := by
  refine ⟨callFor_some, ?_⟩
  rintro ⟨hlt, hcall, hnone⟩
  have hsome : (callFor msgs j id).isSome = true := by
    rw [callFor, List.find?_isSome]
    exact ⟨i, by rwa [List.mem_reverse, mem_callsById], by simpa using hlt⟩
  obtain ⟨i', hi'⟩ := Option.isSome_iff_exists.1 hsome
  obtain ⟨hlt', hcall', hnone'⟩ := callFor_some hi'
  rcases lt_trichotomy i i' with h | rfl | h
  · exact absurd hcall' (hnone i' h hlt')
  · exact hi'
  · exact absurd hcall (hnone' i h hlt)

theorem exists_link (hij : i < j) (hcall : HasCall msgs i id) (hresult : HasResult msgs j id) :
    ∃ i', Link msgs i' j id := by
  have hsome : (callFor msgs j id).isSome = true := by
    rw [callFor, List.find?_isSome]
    exact ⟨i, by rwa [List.mem_reverse, mem_callsById], by simpa using hij⟩
  obtain ⟨i', hi'⟩ := Option.isSome_iff_exists.1 hsome
  exact ⟨i', hresult, hi'⟩

theorem mem_matchedCalls : (i, j, id) ∈ matchedCalls msgs ↔ Link msgs i j id := by
  simp only [matchedCalls, List.mem_flatMap, List.mem_filterMap, Option.map_eq_some_iff,
    Prod.mk.injEq]
  constructor
  · rintro ⟨⟨m, p⟩, hmem, c, hc, i', hcall, rfl, rfl, rfl⟩
    exact ⟨⟨m, List.mk_mem_zipIdx_iff_getElem?.1 hmem, hc⟩, hcall⟩
  · rintro ⟨⟨m, hm, hid⟩, hcall⟩
    exact ⟨(m, j), List.mk_mem_zipIdx_iff_getElem?.2 hm, id, hid, i, hcall, rfl, rfl, rfl⟩

theorem collect_array (values : List Json) (metadata : ToolRelationshipMetadata) :
    collectContentRelationships (.array values) metadata =
      values.foldl (fun metadata v => collectContentRelationships v metadata) metadata := by
  rw [collectContentRelationships, Json.para_array]
  show (values.map _).foldl _ metadata = _
  rw [List.foldl_map]
  rfl

theorem collect_object (fields : Json.Map) (metadata : ToolRelationshipMetadata) :
    collectContentRelationships (.object fields) metadata =
      fields.foldl (fun metadata f => collectContentRelationships f.2 metadata)
        (collectBlock fields metadata) := by
  rw [collectContentRelationships, Json.para_object]
  show (fields.map _).foldl _ (collectBlock ((fields.map _).map _) metadata) = _
  rw [List.foldl_map, List.map_map]
  show fields.foldl _ (collectBlock (fields.map id) metadata) = _
  rw [List.map_id]
  rfl

theorem foldl_unresolved {f : ToolRelationshipMetadata → α → ToolRelationshipMetadata}
    {l : List α} (h : ∀ a ∈ l, ∀ metadata, (f metadata a).unresolvedToolCallIds =
      metadata.unresolvedToolCallIds) (metadata : ToolRelationshipMetadata) :
    (l.foldl f metadata).unresolvedToolCallIds = metadata.unresolvedToolCallIds := by
  induction l generalizing metadata with
  | nil => rfl
  | cons a l ih =>
    rw [List.foldl_cons, ih fun b hb => h b (List.mem_cons_of_mem _ hb), h a List.mem_cons_self]

theorem push_unresolved (metadata : ToolRelationshipMetadata) (id : Option String) :
    (metadata.pushCall id).unresolvedToolCallIds = metadata.unresolvedToolCallIds ∧
    (metadata.pushResult id).unresolvedToolCallIds = metadata.unresolvedToolCallIds ∧
    (metadata.pushName id).unresolvedToolCallIds = metadata.unresolvedToolCallIds := by
  cases id <;> exact ⟨rfl, rfl, rfl⟩

theorem collectBlock_unresolved (fields : Json.Map) (metadata : ToolRelationshipMetadata) :
    (collectBlock fields metadata).unresolvedToolCallIds = metadata.unresolvedToolCallIds := by
  simp only [collectBlock]
  split <;> simp only [push_unresolved]

theorem collect_unresolved (v : Json) (metadata : ToolRelationshipMetadata) :
    (collectContentRelationships v metadata).unresolvedToolCallIds =
      metadata.unresolvedToolCallIds := by
  induction v generalizing metadata with
  | null | bool | number | string => rfl
  | array values ih =>
    rw [collect_array]
    exact foldl_unresolved ih metadata
  | object fields ih =>
    rw [collect_object, foldl_unresolved ih, collectBlock_unresolved]

theorem extract_unresolved (content : Json) (extra : Json.Map) :
    (extractToolRelationships content extra).unresolvedToolCallIds = [] := by
  rw [extractToolRelationships, collect_unresolved, (push_unresolved _ _).2.2,
    (push_unresolved _ _).2.1, foldl_unresolved]
  intro call _ metadata
  rw [extractCall, (push_unresolved _ _).2.2, (push_unresolved _ _).1]

def CompressibleMessage.withRelated (m : CompressibleMessage) (related : List Nat) :
    CompressibleMessage :=
  { m with relationships := { m.relationships with relatedMessageIndices := related } }

theorem mem_pushUnique [DecidableEq α] {values : List α} {value x : α} :
    x ∈ pushUnique values value ↔ x ∈ values ∨ x = value := by
  unfold pushUnique
  split
  · rename_i hmem
    constructor
    · exact .inl
    · rintro (hx | rfl)
      · exact hx
      · exact hmem
  · simp

theorem mem_foldl_pushUnique [DecidableEq α] {values more : List α} {x : α} :
    x ∈ more.foldl pushUnique values ↔ x ∈ values ∨ x ∈ more := by
  induction more generalizing values with
  | nil => simp
  | cons y more ih => rw [List.foldl_cons, ih, mem_pushUnique, List.mem_cons, or_assoc]

variable {m : CompressibleMessage}

theorem modify_relate_spec (position index : Nat) (h : msgs[i]? = some m) :
    ∃ related, (msgs.modify position (·.relate index))[i]? = some (m.withRelated related) ∧
      (∀ x ∈ m.relationships.relatedMessageIndices, x ∈ related) ∧ (position = i → index ∈ related) := by
  rw [List.getElem?_modify, h]
  by_cases hi : position = i
  · refine ⟨pushUnique m.relationships.relatedMessageIndices index, ?_, ?_, ?_⟩
    · simp [hi, CompressibleMessage.relate, CompressibleMessage.withRelated]
    · exact fun x hx => mem_pushUnique.2 (.inl hx)
    · exact fun _ => mem_pushUnique.2 (.inr rfl)
  · refine ⟨m.relationships.relatedMessageIndices, ?_, fun x hx => hx, fun h => absurd h hi⟩
    simp [hi, CompressibleMessage.withRelated]

theorem linkPair_spec (pair : Nat × Nat × String) (h : msgs[i]? = some m) :
    ∃ related, (linkPair msgs pair)[i]? = some (m.withRelated related) ∧
      (∀ x ∈ m.relationships.relatedMessageIndices, x ∈ related) ∧
      (pair.1 = i → ∀ r, msgs[pair.2.1]? = some r → r.originalIndex ∈ related) ∧
      (pair.2.1 = i → ∀ c, msgs[pair.1]? = some c → c.originalIndex ∈ related) := by
  unfold linkPair
  split
  · rename_i c r hc hr
    obtain ⟨first, hfirst, hkeep, hnamed⟩ := modify_relate_spec pair.1 r.originalIndex h
    obtain ⟨related, hrelated, hkeep', hnamed'⟩ := modify_relate_spec pair.2.1 c.originalIndex hfirst
    refine ⟨related, hrelated, fun x hx => hkeep' x (hkeep x hx), ?_, ?_⟩
    · intro hi r' hr'
      rw [hr] at hr'
      cases hr'
      exact hkeep' _ (hnamed hi)
    · intro hj c' hc'
      rw [hc] at hc'
      cases hc'
      exact hnamed' hj
  · rename_i hnone
    refine ⟨m.relationships.relatedMessageIndices, h, fun x hx => hx, ?_, ?_⟩
    · intro hi r hr
      exact absurd hr (hnone m r (hi ▸ h))
    · intro hj c hc
      exact absurd (hj ▸ h) (hnone c m hc)

variable (pairs : List (Nat × Nat × String))

theorem foldl_linkPair_spec (h : msgs[i]? = some m) :
    ∃ related, (pairs.foldl linkPair msgs)[i]? = some (m.withRelated related) ∧
      (∀ x ∈ m.relationships.relatedMessageIndices, x ∈ related) ∧ ∀ pair ∈ pairs,
      (pair.1 = i → ∀ r, msgs[pair.2.1]? = some r → r.originalIndex ∈ related) ∧
      (pair.2.1 = i → ∀ c, msgs[pair.1]? = some c → c.originalIndex ∈ related) := by
  induction pairs generalizing msgs m with
  | nil => exact ⟨m.relationships.relatedMessageIndices, h, fun x hx => hx, fun pair hp => by cases hp⟩
  | cons pair pairs ih =>
    obtain ⟨related, hstep, hold, hcall, hresult⟩ := linkPair_spec pair h
    obtain ⟨related', hend, hold', hpairs⟩ := ih hstep
    refine ⟨related', hend, fun x hx => hold' x (hold x hx), fun p hp => ?_⟩
    -- the other message of a later link still has its index
    have hother : ∀ (q : Nat) (r : CompressibleMessage), msgs[q]? = some r →
        ∃ r' : CompressibleMessage, (linkPair msgs pair)[q]? = some r' ∧
          r'.originalIndex = r.originalIndex := fun q r hr => by
      obtain ⟨rel, hq, -⟩ := linkPair_spec pair hr
      exact ⟨_, hq, rfl⟩
    rcases List.mem_cons.1 hp with rfl | hp
    · exact ⟨fun hi r hr => hold' _ (hcall hi r hr), fun hj c hc => hold' _ (hresult hj c hc)⟩
    · obtain ⟨hcalls, hresults⟩ := hpairs p hp
      constructor
      · intro hi r hr
        obtain ⟨r', hr', heq⟩ := hother _ r hr
        exact heq ▸ hcalls hi r' hr'
      · intro hj c hc
        obtain ⟨c', hc', heq⟩ := hother _ c hc
        exact heq ▸ hresults hj c' hc'

theorem length_linkPair (pair : Nat × Nat × String) : (linkPair msgs pair).length = msgs.length := by
  unfold linkPair
  split <;> simp

theorem length_foldl_linkPair : (pairs.foldl linkPair msgs).length = msgs.length := by
  induction pairs generalizing msgs with
  | nil => rfl
  | cons pair pairs ih => rw [List.foldl_cons, ih, length_linkPair]

def wire (m : CompressibleMessage) : String × Json × Json.Map × Nat :=
  (m.role, m.content, m.extra, m.originalIndex)

structure Refreshed (msgs : List CompressibleMessage) : Prop where
  calls : ∀ m ∈ msgs, m.relationships.toolCallIds = callIds m
  results : ∀ m ∈ msgs, m.relationships.toolResultForIds = resultIds m
  unresolved : ∀ i m, msgs[i]? = some m → ∀ id, id ∈ m.relationships.unresolvedToolCallIds ↔
    id ∈ callIds m ∧ ∀ j, ¬ Link msgs i j id
  related : ∀ i j id c r, Link msgs i j id → msgs[i]? = some c → msgs[j]? = some r →
    r.originalIndex ∈ c.relationships.relatedMessageIndices ∧
    c.originalIndex ∈ r.relationships.relatedMessageIndices
  cached : ∀ (i : Nat) (m : CompressibleMessage), msgs[i]? = some m → (m.cacheProtected = true ↔
    ∃ (j : Nat) (b : CompressibleMessage), i ≤ j ∧ msgs[j]? = some b ∧ b.hasCacheMarker = true)

def refreshMessages (messages : List CompressibleMessage) : List CompressibleMessage :=
  assignToolRelationships (assignCacheProtection (assignMessageAges messages))

theorem messages_refreshMetadata (payload : CompressiblePayload) :
    payload.refreshMetadata.messages = refreshMessages payload.messages := rfl

theorem map_wire_assignAges (userTurns seen : Nat) : (assignAges userTurns seen msgs).map wire = msgs.map wire := by
  induction msgs generalizing seen with
  | nil => rfl
  | cons m msgs ih =>
    unfold assignAges
    split
    · rw [List.map_cons, List.map_cons, ih]
      rfl
    · rw [List.map_cons, List.map_cons, ih]
      rfl

theorem map_mapIdx_of {β : Type} {l : List α} {f : Nat → α → α} {g : α → β}
    (h : ∀ i a, g (f i a) = g a) : (l.mapIdx f).map g = l.map g := by
  refine List.ext_getElem? fun i => ?_
  rw [List.getElem?_map, List.getElem?_mapIdx, List.getElem?_map, Option.map_map]
  congr 1
  funext a
  exact h i a

theorem map_wire_assignCacheProtection : (assignCacheProtection msgs).map wire = msgs.map wire :=
  map_mapIdx_of fun _ _ => rfl

theorem map_wire_foldl_linkPair :
    (pairs.foldl linkPair msgs).map wire = msgs.map wire := by
  refine List.ext_getElem? fun i => ?_
  rw [List.getElem?_map, List.getElem?_map]
  rcases h : msgs[i]? with _ | m
  · rw [List.getElem?_eq_none_iff] at h
    rw [List.getElem?_eq_none (by rwa [length_foldl_linkPair])]
  obtain ⟨related, hend, -⟩ := foldl_linkPair_spec pairs h
  rw [hend]
  rfl

theorem map_wire_refreshMessages : (refreshMessages msgs).map wire = msgs.map wire := by
  have hmark : ∀ matched i m, wire (markUnresolved matched i m) = wire m := fun _ _ _ => rfl
  have hextract : wire ∘ CompressibleMessage.extract = wire := rfl
  rw [refreshMessages, assignToolRelationships, map_mapIdx_of (hmark _), map_wire_foldl_linkPair,
    List.map_map, hextract, map_wire_assignCacheProtection, assignMessageAges, map_wire_assignAges]

section
variable {α : Type} {p : α → Bool} {l : List α} {r : Nat}

theorem rposition_none (h : rposition p l = none) : ∀ b ∈ l, p b = false := by
  induction l with
  | nil => exact fun b hb => absurd hb List.not_mem_nil
  | cons a l ih =>
    unfold rposition at h
    cases hl : rposition p l with
    | some i => simp [hl] at h
    | none =>
      simp only [hl, ite_eq_right_iff, reduceCtorEq, imp_false, Bool.not_eq_true] at h
      rintro b hb
      rcases List.mem_cons.1 hb with rfl | hb
      · exact h
      · exact ih hl b hb

theorem rposition_some (h : rposition p l = some r) : (∃ b, l[r]? = some b ∧ p b = true) ∧
    ∀ k b, r < k → l[k]? = some b → p b = false := by
  induction l generalizing r with
  | nil => cases h
  | cons a l ih =>
    unfold rposition at h
    cases hl : rposition p l with
    | some i =>
      simp only [hl, Option.some.injEq] at h
      subst h
      obtain ⟨hb, hafter⟩ := ih hl
      refine ⟨hb, fun k b hk hget => ?_⟩
      cases k with
      | zero => omega
      | succ k => exact hafter k b (by omega) hget
    | none =>
      simp only [hl] at h
      split at h
      · rename_i ha
        cases h
        refine ⟨⟨a, rfl, ha⟩, fun k b hk hget => ?_⟩
        cases k with
        | zero => omega
        | succ k => exact rposition_none hl b (List.mem_of_getElem? hget)
      · cases h

theorem rposition_any : (rposition p l).any (i ≤ ·) = true ↔ ∃ j b, i ≤ j ∧ l[j]? = some b ∧ p b = true := by
  rcases h : rposition p l with _ | r
  · simp only [Option.any_none, Bool.false_eq_true, false_iff]
    rintro ⟨j, b, -, hb, hp⟩
    rw [rposition_none h b (List.mem_of_getElem? hb)] at hp
    cases hp
  obtain ⟨⟨b, hb, hp⟩, hafter⟩ := rposition_some h
  simp only [Option.any_some, decide_eq_true_eq]
  constructor
  · exact fun hle => ⟨r, b, hle, hb, hp⟩
  · rintro ⟨j, b', hle, hb', hp'⟩
    by_contra hlt
    rw [hafter j b' (by omega) hb'] at hp'
    cases hp'

end

/-! ### Refreshing refreshes -/

theorem link_congr {msgs' : List CompressibleMessage} (hcalls : ∀ i id, HasCall msgs' i id ↔ HasCall msgs i id)
    (hresults : ∀ i id, HasResult msgs' i id ↔ HasResult msgs i id) :
    Link msgs' i j id ↔ Link msgs i j id := by
  constructor
  · rintro ⟨hresult, hcall⟩
    rw [callFor_eq_some_iff] at hcall
    refine ⟨(hresults j id).1 hresult, callFor_eq_some_iff.2 ?_⟩
    simpa only [hcalls] using hcall
  · rintro ⟨hresult, hcall⟩
    rw [callFor_eq_some_iff] at hcall
    refine ⟨(hresults j id).2 hresult, callFor_eq_some_iff.2 ?_⟩
    simpa only [hcalls] using hcall

theorem assignToolRelationships_getElem? (h : msgs[i]? = some m) : ∃ related,
      (assignToolRelationships msgs)[i]? = some (markUnresolved (matchedCalls (msgs.map .extract)) i
        (m.extract.withRelated related)) ∧
      ∀ pair ∈ matchedCalls (msgs.map .extract),
        (pair.1 = i → ∀ r, msgs[pair.2.1]? = some r → r.originalIndex ∈ related) ∧
        (pair.2.1 = i → ∀ c, msgs[pair.1]? = some c → c.originalIndex ∈ related) := by
  have hget : ∀ (q : Nat) (r : CompressibleMessage), msgs[q]? = some r →
      (msgs.map CompressibleMessage.extract)[q]? = some r.extract := fun q r hr => by
    rw [List.getElem?_map, hr]
    rfl
  obtain ⟨related, hend, -, hpairs⟩ :=
    foldl_linkPair_spec (matchedCalls (msgs.map .extract)) (hget i m h)
  refine ⟨related, ?_, fun pair hp => ⟨fun hi r hr => ?_, fun hj c hc => ?_⟩⟩
  · rw [assignToolRelationships, List.getElem?_mapIdx, hend]
    rfl
  · exact (hpairs pair hp).1 hi r.extract (hget _ r hr)
  · exact (hpairs pair hp).2 hj c.extract (hget _ c hc)

theorem length_assignToolRelationships : (assignToolRelationships msgs).length = msgs.length := by
  simp [assignToolRelationships, length_foldl_linkPair]

theorem of_assignToolRelationships {f : CompressibleMessage}
    (h : (assignToolRelationships msgs)[i]? = some f) : ∃ m related, msgs[i]? = some m ∧
      f = markUnresolved (matchedCalls (msgs.map .extract)) i (m.extract.withRelated related) ∧
      ∀ pair ∈ matchedCalls (msgs.map .extract),
        (pair.1 = i → ∀ r, msgs[pair.2.1]? = some r → r.originalIndex ∈ related) ∧
        (pair.2.1 = i → ∀ c, msgs[pair.1]? = some c → c.originalIndex ∈ related) := by
  obtain ⟨hlt, -⟩ := List.getElem?_eq_some_iff.1 h
  rw [length_assignToolRelationships] at hlt
  have hm : msgs[i]? = some msgs[i] := List.getElem?_eq_getElem hlt
  obtain ⟨related, hget, hpairs⟩ := assignToolRelationships_getElem? hm
  rw [h] at hget
  exact ⟨_, related, hm, Option.some.inj hget, hpairs⟩

theorem link_assignToolRelationships : Link (assignToolRelationships msgs) i j id ↔ Link (msgs.map .extract) i j id := by
  have hmem : ∀ (read : CompressibleMessage → List String),
      (∀ matched i related m, read (markUnresolved matched i
        (CompressibleMessage.withRelated m related)) = read m) → ∀ (i : Nat) (id : String),
      (∃ m, (assignToolRelationships msgs)[i]? = some m ∧ id ∈ read m) ↔
        ∃ m, (msgs.map CompressibleMessage.extract)[i]? = some m ∧ id ∈ read m := by
    intro read hread i id
    constructor
    · rintro ⟨f, hf, hid⟩
      obtain ⟨m, related, hm, rfl, -⟩ := of_assignToolRelationships hf
      rw [hread] at hid
      exact ⟨m.extract, by rw [List.getElem?_map, hm]; rfl, hid⟩
    · rintro ⟨e, he, hid⟩
      rw [List.getElem?_map] at he
      obtain ⟨m, hm, rfl⟩ := Option.map_eq_some_iff.1 he
      obtain ⟨related, hget, -⟩ := assignToolRelationships_getElem? hm
      exact ⟨_, hget, by rwa [hread]⟩
  exact link_congr (hmem (·.relationships.toolCallIds) fun _ _ _ _ => rfl)
    (hmem (·.relationships.toolResultForIds) fun _ _ _ _ => rfl)

theorem mem_unresolved {matched : List (Nat × Nat × String)} {ids : List String} :
    id ∈ unresolved matched i ids ↔ id ∈ ids ∧ ∀ j, (i, j, id) ∉ matched := by
  simp only [unresolved, List.mem_filter, Bool.not_eq_true', List.any_eq_false, Bool.and_eq_true,
    decide_eq_true_eq, not_and]
  constructor
  · rintro ⟨hmem, hnone⟩
    exact ⟨hmem, fun j hj => hnone _ hj rfl rfl⟩
  · rintro ⟨hmem, hnone⟩
    refine ⟨hmem, ?_⟩
    rintro ⟨c, r, x⟩ hp rfl rfl
    exact hnone r hp

theorem refreshed_assign (hcached : ∀ (i : Nat) (m : CompressibleMessage), msgs[i]? = some m →
      (m.cacheProtected = true ↔ ∃ (j : Nat) (b : CompressibleMessage), i ≤ j ∧ msgs[j]? = some b ∧
        b.hasCacheMarker = true)) : Refreshed (assignToolRelationships msgs) := by
  refine ⟨?_, ?_, ?_, ?_, ?_⟩
  · intro f hf
    obtain ⟨i, hi⟩ := List.mem_iff_getElem?.1 hf
    obtain ⟨m, related, -, rfl, -⟩ := of_assignToolRelationships hi
    rfl
  · intro f hf
    obtain ⟨i, hi⟩ := List.mem_iff_getElem?.1 hf
    obtain ⟨m, related, -, rfl, -⟩ := of_assignToolRelationships hi
    rfl
  · intro i f hf id
    obtain ⟨m, related, hm, rfl, -⟩ := of_assignToolRelationships hf
    simp only [link_assignToolRelationships]
    show id ∈ (unresolved _ i (callIds m)).foldl pushUnique
      (extractToolRelationships m.content m.extra).unresolvedToolCallIds ↔ _
    rw [extract_unresolved, mem_foldl_pushUnique, mem_unresolved]
    simp only [mem_matchedCalls, List.not_mem_nil, false_or]
    rfl
  · intro i j id c r hlink hc hr
    have hpair := mem_matchedCalls.2 (link_assignToolRelationships.1 hlink)
    obtain ⟨c₀, related, hc₀, rfl, hpairs⟩ := of_assignToolRelationships hc
    obtain ⟨r₀, related', hr₀, rfl, hpairs'⟩ := of_assignToolRelationships hr
    exact ⟨(hpairs _ hpair).1 rfl r₀ hr₀, (hpairs' _ hpair).2 rfl c₀ hc₀⟩
  · intro i f hf
    obtain ⟨m, related, hm, rfl, -⟩ := of_assignToolRelationships hf
    show m.cacheProtected = true ↔ _
    rw [hcached i m hm]
    constructor
    · rintro ⟨j, b, hle, hb, hmark⟩
      obtain ⟨related', hget, -⟩ := assignToolRelationships_getElem? hb
      exact ⟨j, _, hle, hget, hmark⟩
    · rintro ⟨j, f', hle, hf', hmark⟩
      obtain ⟨b, related', hb, rfl, -⟩ := of_assignToolRelationships hf'
      exact ⟨j, b, hle, hb, hmark⟩

theorem refreshed_refreshMessages (msgs : List CompressibleMessage) : Refreshed (refreshMessages msgs) := by
  refine refreshed_assign fun i m hm => ?_
  have hget : ∀ j, (assignCacheProtection (assignMessageAges msgs))[j]? =
      ((assignMessageAges msgs)[j]?).map fun b : CompressibleMessage => { b with cacheProtected :=
        (rposition CompressibleMessage.hasCacheMarker (assignMessageAges msgs)).any (j ≤ ·) } :=
    fun j => List.getElem?_mapIdx
  rw [hget] at hm
  obtain ⟨a, ha, rfl⟩ := Option.map_eq_some_iff.1 hm
  show (rposition _ _).any _ = true ↔ _
  rw [rposition_any]
  constructor
  · rintro ⟨j, b, hle, hb, hmark⟩
    have hj := hget j
    rw [hb] at hj
    exact ⟨j, _, hle, hj, hmark⟩
  · rintro ⟨j, b, hle, hb, hmark⟩
    rw [hget] at hb
    obtain ⟨b₀, hb₀, rfl⟩ := Option.map_eq_some_iff.1 hb
    exact ⟨j, b₀, hle, hb₀, hmark⟩

/-! ### Selections

Messages are taken out, or change in what their annotations do not read.
-/

structure Like (m m' : CompressibleMessage) : Prop where
  role : m'.role = m.role
  originalIndex : m'.originalIndex = m.originalIndex
  calls : callIds m' = callIds m
  results : resultIds m' = resultIds m
  marker : m'.hasCacheMarker = m.hasCacheMarker

/-- `msgs'` are the messages of `msgs` at the positions `pos`. -/
structure Selection (msgs msgs' : List CompressibleMessage) (pos : List Nat) : Prop where
  sorted : pos.Pairwise (· < ·)
  length : msgs'.length = pos.length
  like : ∀ (k i : Nat), pos[k]? = some i → ∃ m m', msgs[i]? = some m ∧ msgs'[k]? = some m' ∧ Like m m'

def LinkClosed (msgs : List CompressibleMessage) (pos : List Nat) : Prop :=
  ∀ i j id, Link msgs i j id → (i ∈ pos ↔ j ∈ pos)

theorem Refreshed.hasCall (h : Refreshed msgs) (hm : msgs[i]? = some m) : HasCall msgs i id ↔ id ∈ callIds m := by
  rw [← h.calls m (List.mem_of_getElem? hm)]
  constructor
  · rintro ⟨m', hm', hid⟩
    rw [hm] at hm'
    exact Option.some.inj hm' ▸ hid
  · exact fun hid => ⟨m, hm, hid⟩

theorem Refreshed.hasResult (h : Refreshed msgs) (hm : msgs[i]? = some m) : HasResult msgs i id ↔ id ∈ resultIds m := by
  rw [← h.results m (List.mem_of_getElem? hm)]
  constructor
  · rintro ⟨m', hm', hid⟩
    rw [hm] at hm'
    exact Option.some.inj hm' ▸ hid
  · exact fun hid => ⟨m, hm, hid⟩

section
variable {msgs' : List CompressibleMessage} {pos : List Nat} {l : Nat}

theorem Selection.lt_iff (h : Selection msgs msgs' pos) (hk : pos[k]? = some i)
    (hl : pos[l]? = some j) : k < l ↔ i < j := by
  obtain ⟨hk', rfl⟩ := List.getElem?_eq_some_iff.1 hk
  obtain ⟨hl', rfl⟩ := List.getElem?_eq_some_iff.1 hl
  have hmono := List.pairwise_iff_getElem.1 h.sorted
  constructor
  · exact fun hlt => hmono k l hk' hl' hlt
  · intro hlt
    by_contra hnot
    rcases Nat.lt_or_ge l k with h | h
    · exact absurd (hmono l k hl' hk' h) (by omega)
    · obtain rfl : k = l := by omega
      exact absurd hlt (lt_irrefl _)

variable {m' : CompressibleMessage}

theorem Selection.position (h : Selection msgs msgs' pos)
    (hm' : msgs'[k]? = some m') : ∃ i m, pos[k]? = some i ∧ msgs[i]? = some m ∧ Like m m' := by
  obtain ⟨hlt, -⟩ := List.getElem?_eq_some_iff.1 hm'
  rw [h.length] at hlt
  have hk : pos[k]? = some pos[k] := List.getElem?_eq_getElem hlt
  obtain ⟨m, m₁, hm, hm₁, hlike⟩ := h.like k _ hk
  rw [hm'] at hm₁
  exact ⟨_, m, hk, hm, Option.some.inj hm₁ ▸ hlike⟩

variable (h : Selection msgs msgs' pos) (hr : Refreshed msgs) (hr' : Refreshed msgs')
include h hr hr'

theorem Selection.hasCall_iff (hk : pos[k]? = some i) : HasCall msgs' k id ↔ HasCall msgs i id := by
  obtain ⟨m, m', hm, hm', hlike⟩ := h.like k i hk
  rw [hr.hasCall hm, hr'.hasCall hm', hlike.calls]

theorem Selection.hasResult_iff (hk : pos[k]? = some i) : HasResult msgs' k id ↔ HasResult msgs i id := by
  obtain ⟨m, m', hm, hm', hlike⟩ := h.like k i hk
  rw [hr.hasResult hm, hr'.hasResult hm', hlike.results]

/-- The nearest call stays the nearest when others are taken out. -/
theorem Selection.link (hk : pos[k]? = some i) (hl : pos[l]? = some j) (hlink : Link msgs i j id) : Link msgs' k l id := by
  obtain ⟨hlt, hcall, hnone⟩ := callFor_some hlink.call
  refine ⟨(h.hasResult_iff hr hr' hl).2 hlink.result, callFor_eq_some_iff.2 ⟨?_, ?_, ?_⟩⟩
  · exact (h.lt_iff hk hl).2 hlt
  · exact (h.hasCall_iff hr hr' hk).2 hcall
  · rintro p hkp hpl hp
    have ⟨m', hm', _⟩ := hp
    obtain ⟨q, m, hq, -, -⟩ := h.position hm'
    exact hnone q ((h.lt_iff hk hq).1 hkp) ((h.lt_iff hq hl).1 hpl) ((h.hasCall_iff hr hr' hq).1 hp)

theorem Selection.link_iff (hclosed : LinkClosed msgs pos) (hk : pos[k]? = some i)
    (hl : pos[l]? = some j) : Link msgs' k l id ↔ Link msgs i j id := by
  refine ⟨fun hlink => ?_, h.link hr hr' hk hl⟩
  obtain ⟨hlt, hcall, -⟩ := callFor_some hlink.call
  -- the result has an earlier call, so it has a nearest one, and that was kept as well
  obtain ⟨i', hlink'⟩ := exists_link ((h.lt_iff hk hl).1 hlt) ((h.hasCall_iff hr hr' hk).1 hcall)
    ((h.hasResult_iff hr hr' hl).1 hlink.result)
  have hkept : i' ∈ pos := (hclosed i' j id hlink').2 (List.mem_of_getElem? hl)
  obtain ⟨k', hk'⟩ := List.mem_iff_getElem?.1 hkept
  have heq := (h.link hr hr' hk' hl hlink').call
  rw [hlink.call] at heq
  obtain rfl : k = k' := Option.some.inj heq
  rw [hk] at hk'
  obtain rfl : i = i' := Option.some.inj hk'
  exact hlink'

theorem Selection.unresolved_iff (hclosed : LinkClosed msgs pos) {m : CompressibleMessage}
    (hk : pos[k]? = some i) (hm : msgs[i]? = some m) (hm' : msgs'[k]? = some m') :
    id ∈ m'.relationships.unresolvedToolCallIds ↔ id ∈ m.relationships.unresolvedToolCallIds := by
  obtain ⟨m₁, m₁', hm₁, hm₁', hlike⟩ := h.like k i hk
  rw [hm] at hm₁
  rw [hm'] at hm₁'
  cases hm₁
  cases hm₁'
  rw [hr.unresolved i m hm, hr'.unresolved k m' hm', hlike.calls]
  refine and_congr_right fun _ => ⟨fun hnone j hlink => ?_, fun hnone l hlink => ?_⟩
  · have hkept : j ∈ pos := (hclosed i j id hlink).1 (List.mem_of_getElem? hk)
    obtain ⟨l, hl⟩ := List.mem_iff_getElem?.1 hkept
    exact hnone l (h.link hr hr' hk hl hlink)
  · obtain ⟨r', hr₁, -⟩ := hlink.result
    obtain ⟨j, r, hl, -, -⟩ := h.position hr₁
    exact hnone j ((h.link_iff hr hr' hclosed hk hl).1 hlink)

theorem Selection.cacheProtected_eq
    (hprotected : ∀ (i : Nat) (m : CompressibleMessage), msgs[i]? = some m → m.cacheProtected = true →
      i ∈ pos) {m : CompressibleMessage}
    (hk : pos[k]? = some i) (hm : msgs[i]? = some m) (hm' : msgs'[k]? = some m') :
    m'.cacheProtected = m.cacheProtected := by
  rw [Bool.eq_iff_iff, hr'.cached k m' hm', hr.cached i m hm]
  constructor
  · rintro ⟨l, b', hkl, hb', hmark⟩
    obtain ⟨j, b, hl, hb, hlike⟩ := h.position hb'
    refine ⟨j, b, ?_, hb, hlike.marker ▸ hmark⟩
    by_contra hlt
    exact absurd ((h.lt_iff hl hk).2 (by omega)) (by omega)
  · rintro ⟨j, b, hij, hb, hmark⟩
    have hkept := hprotected j b hb ((hr.cached j b hb).2 ⟨j, b, le_rfl, hb, hmark⟩)
    obtain ⟨l, hl⟩ := List.mem_iff_getElem?.1 hkept
    obtain ⟨b₁, b', hb₁, hb', hlike⟩ := h.like l j hl
    rw [hb] at hb₁
    cases hb₁
    refine ⟨l, b', ?_, hb', hlike.marker.trans hmark⟩
    by_contra hlt
    exact absurd ((h.lt_iff hl hk).1 (by omega)) (by omega)

end

end ObeyGateway.Compression
