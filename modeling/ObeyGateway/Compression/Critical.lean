import ObeyGateway.Compression.Pruning

/-!
# Critical messages and the ultra engine

Pruning and the cut keep every system message, the latest user message, the messages with unresolved
calls and the cache-protected ones. But the pass in between, which thins long code blocks, spares only
the messages under cache protection: the contents of all others are thinned, critical or not.
-/

namespace ObeyGateway.Compression

variable {msgs : List CompressibleMessage} {i j k : Nat}

/-! ### What the links do not read -/

section
variable (f : String → String)

def transformField (blockType : Option String) (key : String) (value : Json) : Json :=
  if isProse blockType key value then transformTextLeaves f value else value

theorem transform_array (parts : List Json) : transformTextLeaves f (.array parts) =
    .array (parts.map fun p => if isVisited p then transformTextLeaves f p else p) := by
  rw [transformTextLeaves, Json.para_array]
  show Json.array ((parts.map _).map _) = _
  rw [List.map_map]
  rfl

theorem transform_object (fields : Json.Map) : transformTextLeaves f (.object fields) = .object (fields.map fun p =>
      (p.1, transformField f ((Assoc.get fields "type").bind Json.asStr) p.1 p.2)) := by
  have htype : blockType (fields.map fun p => (p.1, p.2, Json.para (transformAlg f) p.2)) =
      (Assoc.get fields "type").bind Json.asStr := by
    rw [blockType, Assoc.get_map fun v => (v, Json.para (transformAlg f) v)]
    cases Assoc.get fields "type" <;> rfl
  rw [transformTextLeaves, Json.para_object]
  show Json.object ((fields.map _).map _) = _
  rw [htype, List.map_map]
  rfl

theorem transformField_eq {bt : Option String} {key : String} (htext : key ≠ "text")
    (hcontent : key ≠ "content") (value : Json) : transformField f bt key value = value := by
  simp [transformField, isProse, htext, hcontent]

theorem get_transformField {fields : Json.Map} {bt : Option String} {key : String}
    (htext : key ≠ "text") (hcontent : key ≠ "content") :
    Assoc.get (fields.map fun p => (p.1, transformField f bt p.1 p.2)) key = Assoc.get fields key := by
  rw [Assoc.get_mapKeyed (transformField f bt)]
  have hid : transformField f bt key = fun v => v := funext (transformField_eq f htext hcontent)
  rw [hid, Option.map_id']

theorem collectBlock_transform (fields : Json.Map) (bt : Option String) (metadata : ToolRelationshipMetadata) :
    collectBlock (fields.map fun p => (p.1, transformField f bt p.1 p.2)) metadata =
      collectBlock fields metadata := by
  have hget : ∀ key ∈ ["type", "id", "name", "tool_use_id", "call_id"],
      Assoc.get (fields.map fun p => (p.1, transformField f bt p.1 p.2)) key = Assoc.get fields key := by
    intro key hkey
    refine get_transformField f ?_ ?_
    · rintro rfl
      simp at hkey
    · rintro rfl
      simp at hkey
  simp only [collectBlock, hget "type" (by simp), hget "id" (by simp), hget "name" (by simp),
    hget "tool_use_id" (by simp), hget "call_id" (by simp)]

theorem any_congr {α : Type} {p q : α → Bool} {l : List α} (h : ∀ a ∈ l, p a = q a) : l.any p = l.any q := by
  induction l with
  | nil => rfl
  | cons a l ih =>
    rw [List.any_cons, List.any_cons, h a List.mem_cons_self,
      ih fun x hx => h x (List.mem_cons_of_mem _ hx)]

theorem collect_transform (v : Json) (metadata : ToolRelationshipMetadata) :
    collectContentRelationships (transformTextLeaves f v) metadata =
      collectContentRelationships v metadata := by
  induction v generalizing metadata with
  | null | bool | number | string => rfl
  | array parts ih =>
    rw [transform_array, collect_array, collect_array, List.foldl_map]
    refine List.foldl_ext _ _ _ fun metadata p hp => ?_
    split
    · exact ih p hp metadata
    · rfl
  | object fields ih =>
    rw [transform_object, collect_object, collect_object, List.foldl_map, collectBlock_transform]
    refine List.foldl_ext _ _ _ fun metadata p hp => ?_
    show collectContentRelationships (transformField f _ p.1 p.2) metadata = _
    unfold transformField
    split
    · exact ih p hp metadata
    · rfl

theorem marker_array (values : List Json) : valueHasCacheMarker (.array values) = values.any valueHasCacheMarker := by
  rw [valueHasCacheMarker, Json.fold_array]
  show (values.map _).any id = _
  rw [List.any_map]
  rfl

theorem marker_object (fields : Json.Map) : valueHasCacheMarker (.object fields) =
    ("cache_control" ∈ Assoc.keys fields || fields.any (valueHasCacheMarker ·.2)) := by
  rw [valueHasCacheMarker, Json.fold_object]
  show (decide ("cache_control" ∈ Assoc.keys (fields.map _)) || (fields.map _).any _) = _
  rw [Assoc.keys_map, List.any_map]
  rfl

theorem marker_transform (v : Json) : valueHasCacheMarker (transformTextLeaves f v) = valueHasCacheMarker v := by
  induction v with
  | null | bool | number | string => rfl
  | array parts ih =>
    rw [transform_array, marker_array, marker_array, List.any_map]
    refine any_congr fun p hp => ?_
    show valueHasCacheMarker (if isVisited p then _ else _) = _
    split
    · exact ih p hp
    · rfl
  | object fields ih =>
    rw [transform_object, marker_object, marker_object, Assoc.keys_map, List.any_map]
    congr 1
    refine any_congr fun p hp => ?_
    show valueHasCacheMarker (transformField f _ p.1 p.2) = _
    unfold transformField
    split
    · exact ih p hp
    · rfl

end

theorem like_thinMessage (texts : Texts) (m : CompressibleMessage) : Like m (thinMessage texts m) := by
  unfold thinMessage
  split
  · exact .of_wire rfl
  · refine ⟨rfl, rfl, ?_, ?_, ?_⟩
    · simp only [callIds, extractToolRelationships, collect_transform]
    · simp only [resultIds, extractToolRelationships, collect_transform]
    · simp only [CompressibleMessage.hasCacheMarker, marker_transform]

section
variable {α : Type} {p : α → Bool} {l : List α}

theorem rposition_of {r : Nat} {b : α} (hb : l[r]? = some b) (hp : p b = true)
    (hafter : ∀ (k : Nat) (b' : α), r < k → l[k]? = some b' → p b' = false) : rposition p l = some r := by
  rcases h : rposition p l with _ | r'
  · rw [rposition_none h b (List.mem_of_getElem? hb)] at hp
    cases hp
  obtain ⟨⟨b', hb', hp'⟩, hafter'⟩ := rposition_some h
  rcases Nat.lt_trichotomy r r' with hlt | rfl | hlt
  · rw [hafter r' b' hlt hb'] at hp'
    cases hp'
  · rfl
  · rw [hafter' r b hlt hb] at hp
    cases hp

theorem find?_reverse : l.reverse.find? p = (rposition p l).bind (l[·]?) := by
  induction l with
  | nil => rfl
  | cons a l ih =>
    rw [List.reverse_cons, List.find?_append, ih, rposition]
    rcases h : rposition p l with _ | r
    · rw [Option.bind_none, Option.none_or]
      cases hp : p a <;> simp [hp]
    obtain ⟨⟨b, hb, -⟩, -⟩ := rposition_some h
    simp [hb]

end

theorem latestUser_eq : latestUserOriginalIndex msgs =
    ((rposition (·.role = "user") msgs).bind (msgs[·]?)).map (·.originalIndex) := by
  rw [latestUserOriginalIndex, find?_reverse]

def KeepsCritical (msgs : List CompressibleMessage) (pos : List Nat) : Prop :=
  ∀ (i : Nat) (m : CompressibleMessage), msgs[i]? = some m →
    mustPreserve (latestUserOriginalIndex msgs) m = true → i ∈ pos

section
variable {msgs' : List CompressibleMessage} {pos : List Nat}

theorem Selection.latestUser (h : Selection msgs msgs' pos) (hkeeps : KeepsCritical msgs pos) :
    latestUserOriginalIndex msgs' = latestUserOriginalIndex msgs := by
  rcases hu : rposition (fun m : CompressibleMessage => decide (m.role = "user")) msgs with _ | u
  · have hnone : rposition (fun m : CompressibleMessage => decide (m.role = "user")) msgs' = none := by
      by_contra hsome
      obtain ⟨k, hk⟩ := Option.ne_none_iff_exists'.1 hsome
      obtain ⟨⟨m', hm', hrole⟩, -⟩ := rposition_some hk
      obtain ⟨i, m, -, hm, hlike⟩ := h.position hm'
      have hno := rposition_none hu m (List.mem_of_getElem? hm)
      rw [hlike.role] at hrole
      rw [hrole] at hno
      cases hno
    rw [latestUser_eq, latestUser_eq, hu, hnone]
    rfl
  obtain ⟨⟨m, hm, hrole⟩, hafter⟩ := rposition_some hu
  have hlatest : latestUserOriginalIndex msgs = some m.originalIndex := by
    rw [latestUser_eq, hu, Option.bind_some, hm]
    rfl
  have hmem := hkeeps u m hm (by simp [mustPreserve, hlatest])
  obtain ⟨k, hk⟩ := List.mem_iff_getElem?.1 hmem
  obtain ⟨m', hm', hlike⟩ := h.index hk hm
  have hlast : rposition (fun m : CompressibleMessage => decide (m.role = "user")) msgs' = some k := by
    refine rposition_of hm' (by rw [hlike.role]; exact hrole) fun l b' hkl hb' => ?_
    obtain ⟨j, b, hl, hb, hlikeb⟩ := h.position hb'
    have hno := hafter j b ((h.lt_iff hk hl).1 hkl) hb
    rwa [hlikeb.role]
  rw [hlatest, latestUser_eq, hlast, Option.bind_some, hm', Option.map_some, hlike.originalIndex]

theorem Selection.mustPreserve_eq (h : Selection msgs msgs' pos) (hr : Refreshed msgs)
    (hr' : Refreshed msgs') (hclosed : LinkClosed msgs pos) (hkeeps : KeepsCritical msgs pos)
    {m m' : CompressibleMessage} (hk : pos[k]? = some i) (hm : msgs[i]? = some m)
    (hm' : msgs'[k]? = some m') :
    mustPreserve (latestUserOriginalIndex msgs') m' = mustPreserve (latestUserOriginalIndex msgs) m ∧
      m'.cacheProtected = m.cacheProtected := by
  obtain ⟨m₁, hm₁, hlike⟩ := h.index hk hm
  rw [hm'] at hm₁
  cases hm₁
  have hprotected : ∀ (i : Nat) (m : CompressibleMessage), msgs[i]? = some m →
      m.cacheProtected = true → i ∈ pos := fun i m hm hp =>
    hkeeps i m hm (by simp [mustPreserve, hp])
  have hcache := h.cacheProtected_eq hr hr' hprotected hk hm hm'
  have hempty : m'.relationships.unresolvedToolCallIds.isEmpty =
      m.relationships.unresolvedToolCallIds.isEmpty := by
    rw [Bool.eq_iff_iff, List.isEmpty_iff, List.isEmpty_iff, List.eq_nil_iff_forall_not_mem,
      List.eq_nil_iff_forall_not_mem]
    simp only [h.unresolved_iff hr hr' hclosed hk hm hm']
  refine ⟨?_, hcache⟩
  simp only [mustPreserve, CompressibleMessage.isSystem, hlike.role, hlike.originalIndex, hcache, hempty,
    h.latestUser hkeeps]

end

def isCritical (msgs : List CompressibleMessage) (m : CompressibleMessage) : Bool :=
  mustPreserve (latestUserOriginalIndex msgs) m

/-- Every critical message is carried over, with the content that `change` makes of it, and stays
critical. -/
def Carries (msgs msgs' : List CompressibleMessage) (change : CompressibleMessage → Json) : Prop :=
  ∀ m ∈ msgs, isCritical msgs m = true → ∃ m' ∈ msgs', isCritical msgs' m' = true ∧
    m'.cacheProtected = m.cacheProtected ∧ wire m' = (m.role, change m, m.extra, m.originalIndex)

variable {msgs' : List CompressibleMessage} {change : CompressibleMessage → Json}

theorem Carries.trans {msgs'' : List CompressibleMessage}
    {change' : CompressibleMessage → Json} (h : Carries msgs msgs' change)
    (h' : Carries msgs' msgs'' change') {total : CompressibleMessage → Json}
    (htotal : ∀ m m' : CompressibleMessage, m'.cacheProtected = m.cacheProtected →
      m'.content = change m → change' m' = total m) : Carries msgs msgs'' total := by
  intro m hm hcrit
  obtain ⟨m', hm', hcrit', hcache, hwire⟩ := h m hm hcrit
  obtain ⟨m'', hm'', hcrit'', hcache', hwire'⟩ := h' m' hm' hcrit'
  simp only [wire, Prod.mk.injEq] at hwire
  obtain ⟨hrole, hcontent, hextra, hindex⟩ := hwire
  refine ⟨m'', hm'', hcrit'', hcache'.trans hcache, ?_⟩
  rw [hwire', hrole, hextra, hindex, htotal m m' hcache hcontent]

theorem Selection.carries {pos : List Nat} (h : Selection msgs msgs' pos) (hr : Refreshed msgs)
    (hr' : Refreshed msgs') (hclosed : LinkClosed msgs pos) (hkeeps : KeepsCritical msgs pos)
    (hwire : ∀ (k i : Nat) (m m' : CompressibleMessage), pos[k]? = some i → msgs[i]? = some m →
      msgs'[k]? = some m' → wire m' = (m.role, change m, m.extra, m.originalIndex)) :
    Carries msgs msgs' change := by
  intro m hm hcrit
  obtain ⟨i, hi⟩ := List.mem_iff_getElem?.1 hm
  obtain ⟨k, hk⟩ := List.mem_iff_getElem?.1 (hkeeps i m hi hcrit)
  obtain ⟨m', hm', -⟩ := h.index hk hi
  obtain ⟨hmust, hcache⟩ := h.mustPreserve_eq hr hr' hclosed hkeeps hk hi hm'
  exact ⟨m', List.mem_of_getElem? hm', hmust.trans hcrit, hcache, hwire k i m m' hk hi hm'⟩

theorem carries_retain (hr : Refreshed msgs) (hd : Distinct msgs) {keep : List Nat → Bool}
    (hkeep : ∀ g, anyInGroup msgs (isCritical msgs) g = true → keep g = true) :
    Carries msgs (refreshMessages (retainGroups msgs keep)) (·.content) := by
  refine (selection_retain map_wire_refreshMessages).carries hr (refreshed_refreshMessages _)
    (linkClosed_kept hr hd keep) (fun i m hm hcrit => ?_) fun k i m m' hk hm hm' => ?_
  · obtain ⟨hlt, -⟩ := List.getElem?_eq_some_iff.1 hm
    obtain ⟨g, hg, hig⟩ := exists_relationshipGroup hlt
    have hany : anyInGroup msgs (isCritical msgs) g = true :=
      List.any_eq_true.2 ⟨i, hig, by rw [hm]; exact hcrit⟩
    refine mem_keptPositions.2 ⟨hlt, List.any_eq_true.2 ⟨g, hg, ?_⟩⟩
    rw [hkeep g hany, Bool.true_and]
    exact decide_eq_true hig
  · obtain ⟨m₁, hm₁, hget⟩ := kept_getElem? hk
    rw [hm] at hm₁
    cases hm₁
    obtain ⟨m₂, hm₂, heq⟩ := exists_of_map_wire map_wire_refreshMessages hget
    rw [hm'] at hm₂
    cases hm₂
    exact heq

theorem selection_map {g : CompressibleMessage → CompressibleMessage}
    (hg : ∀ m, Like m (g m)) (hwire : msgs'.map wire = (msgs.map g).map wire) :
    Selection msgs msgs' (List.range msgs.length) := by
  refine ⟨List.pairwise_lt_range, ?_, fun k i hk => ?_⟩
  · have hlen := congrArg List.length hwire
    simpa using hlen
  · obtain ⟨hlt, rfl⟩ := List.getElem?_eq_some_iff.1 hk
    rw [List.length_range] at hlt
    rw [List.getElem_range]
    have hm : msgs[k]? = some msgs[k] := List.getElem?_eq_getElem hlt
    obtain ⟨m', hm', heq⟩ := exists_of_map_wire hwire
      (m := g msgs[k]) (i := k) (by rw [List.getElem?_map, hm]; rfl)
    have hlike := hg msgs[k]
    have hsame := Like.of_wire heq
    exact ⟨_, m', hm, hm', hsame.role.trans hlike.role, hsame.originalIndex.trans hlike.originalIndex,
      hsame.calls.trans hlike.calls, hsame.results.trans hlike.results,
      hsame.marker.trans hlike.marker⟩

theorem linkClosed_range : LinkClosed msgs (List.range msgs.length) := by
  intro i j id hlink
  obtain ⟨r, hr, -⟩ := hlink.result
  obtain ⟨-, ⟨c, hc, -⟩, -⟩ := callFor_some hlink.call
  have hi := (List.getElem?_eq_some_iff.1 hc).1
  have hj := (List.getElem?_eq_some_iff.1 hr).1
  exact iff_of_true (List.mem_range.2 hi) (List.mem_range.2 hj)

theorem carries_map {g : CompressibleMessage → CompressibleMessage} (hr : Refreshed msgs) (hr' : Refreshed msgs')
    (hg : ∀ m, Like m (g m)) (hwire : msgs'.map wire = (msgs.map g).map wire)
    (hchange : ∀ m, wire (g m) = (m.role, change m, m.extra, m.originalIndex)) :
    Carries msgs msgs' change := by
  refine (selection_map hg hwire).carries hr hr' linkClosed_range (fun i m hm _ => ?_)
    fun k i m m' hk hm hm' => ?_
  · exact List.mem_range.2 (List.getElem?_eq_some_iff.1 hm).1
  · obtain ⟨hlt, rfl⟩ := List.getElem?_eq_some_iff.1 hk
    rw [List.getElem_range] at hm
    obtain ⟨m₂, hm₂, heq⟩ := exists_of_map_wire hwire
      (m := g m) (i := k) (by rw [List.getElem?_map, hm]; rfl)
    rw [hm'] at hm₂
    cases hm₂
    rw [heq, hchange]

def thinnedContent (texts : Texts) (m : CompressibleMessage) : Json := (thinMessage texts m).content

theorem wire_thinMessage (texts : Texts) (m : CompressibleMessage) :
    wire (thinMessage texts m) = (m.role, thinnedContent texts m, m.extra, m.originalIndex) := by
  unfold thinnedContent thinMessage
  split <;> rfl

def recount (count : CompressibleMessage → Nat) (m : CompressibleMessage) : CompressibleMessage :=
  { m with tokenCount := count m }

theorem Refreshed.recount (h : Refreshed msgs) (count : CompressibleMessage → Nat) :
    Refreshed (msgs.map (recount count)) := by
  have hget : ∀ (i : Nat) (m' : CompressibleMessage),
      (msgs.map (Compression.recount count))[i]? = some m' →
      ∃ m, msgs[i]? = some m ∧ m' = Compression.recount count m := by
    intro i m' hm'
    rw [List.getElem?_map] at hm'
    obtain ⟨m, hm, rfl⟩ := Option.map_eq_some_iff.1 hm'
    exact ⟨m, hm, rfl⟩
  -- nothing below reads the count
  have hexists : ∀ (i : Nat) (p : CompressibleMessage → Prop), (∀ m, p (Compression.recount count m) ↔ p m) →
      ((∃ m', (msgs.map (Compression.recount count))[i]? = some m' ∧ p m') ↔ ∃ m, msgs[i]? = some m ∧ p m) := by
    intro i p hp
    constructor
    · rintro ⟨m', hm', hpm⟩
      obtain ⟨m, hm, rfl⟩ := hget i m' hm'
      exact ⟨m, hm, (hp m).1 hpm⟩
    · rintro ⟨m, hm, hpm⟩
      refine ⟨Compression.recount count m, ?_, (hp m).2 hpm⟩
      rw [List.getElem?_map, hm]
      rfl
  have hlink : ∀ {i j : Nat} {id : String},
      Link (msgs.map (Compression.recount count)) i j id ↔ Link msgs i j id := by
    intro i j id
    refine link_congr (fun i id => ?_) fun i id => ?_
    · exact hexists i (id ∈ ·.relationships.toolCallIds) fun _ => Iff.rfl
    · exact hexists i (id ∈ ·.relationships.toolResultForIds) fun _ => Iff.rfl
  refine ⟨?_, ?_, ?_, ?_, ?_⟩
  · intro m' hm'
    obtain ⟨m, hm, rfl⟩ := List.mem_map.1 hm'
    exact h.calls m hm
  · intro m' hm'
    obtain ⟨m, hm, rfl⟩ := List.mem_map.1 hm'
    exact h.results m hm
  · intro i m' hm' id
    obtain ⟨m, hm, rfl⟩ := hget i m' hm'
    simp only [hlink]
    exact h.unresolved i m hm id
  · intro i j id c' r' hl hc' hr'
    obtain ⟨c, hc, rfl⟩ := hget i c' hc'
    obtain ⟨r, hr, rfl⟩ := hget j r' hr'
    exact h.related i j id c r (hlink.1 hl) hc hr
  · intro i m' hm'
    obtain ⟨m, hm, rfl⟩ := hget i m' hm'
    refine (h.cached i m hm).trans (exists_congr fun j => ?_)
    have hmarked := hexists j (i ≤ j ∧ ·.hasCacheMarker = true) fun _ => Iff.rfl
    simp only [and_left_comm] at hmarked ⊢
    exact hmarked.symm

theorem map_wire_recount (count : CompressibleMessage → Nat) : (msgs.map (recount count)).map wire = msgs.map wire := by
  rw [List.map_map]
  rfl

theorem Distinct.retain (h : Distinct msgs) (keep : List Nat → Bool) : Distinct (retainGroups msgs keep) := by
  have hsub : (retainGroups msgs keep).Sublist msgs := by
    rw [retainGroups_eq]
    have hzip := (List.filter_sublist (p := fun e : CompressibleMessage × Nat =>
      isKept msgs keep e.2) (l := msgs.zipIdx)).map (·.1)
    rwa [List.zipIdx_map_fst] at hzip
  exact h.sublist (hsub.map _)

/-! ### The whole run -/

/-- The payload descends from the messages `msgs`, with `change` in the critical ones. -/
structure Tracks (msgs : List CompressibleMessage) (change : CompressibleMessage → Json)
    (payload : CompressiblePayload) : Prop where
  refreshed : Refreshed payload.messages
  distinct : Distinct payload.messages
  carries : Carries msgs payload.messages change

section
variable {change : CompressibleMessage → Json} {payload : CompressiblePayload}

theorem Tracks.retain (h : Tracks msgs change payload) {keep : List Nat → Bool}
    (hkeep : ∀ g, anyInGroup payload.messages (isCritical payload.messages) g = true →
      keep g = true) : Tracks msgs change (CompressiblePayload.refreshMetadata
        { payload with messages := retainGroups payload.messages keep }) := by
  refine ⟨refreshed_refreshMessages _, ?_, ?_⟩
  · exact (h.distinct.retain keep).of_map_wire map_wire_refreshMessages
  · exact h.carries.trans (carries_retain h.refreshed h.distinct hkeep) fun _ _ _ hcontent => hcontent

theorem Tracks.refresh (h : Tracks msgs change payload) : Tracks msgs change payload.refreshMetadata := by
  have hstep : Carries payload.messages (refreshMessages payload.messages) (·.content) := by
    refine carries_map (g := fun m => m) h.refreshed (refreshed_refreshMessages _)
      (fun m => .of_wire rfl) ?_ fun m => rfl
    rw [List.map_id']
    exact map_wire_refreshMessages
  refine ⟨refreshed_refreshMessages _, h.distinct.of_map_wire map_wire_refreshMessages, ?_⟩
  exact h.carries.trans hstep fun _ _ _ hcontent => hcontent

theorem Tracks.recount (h : Tracks msgs change payload) (counter : TokenCounter) (context : CompressionContext) :
    Tracks msgs change (refreshMessageTokenCounts counter context payload) := by
  have hstep : ∀ count, Carries payload.messages (payload.messages.map (Compression.recount count))
      (·.content) := fun count =>
    carries_map (g := Compression.recount count) h.refreshed (h.refreshed.recount count)
      (fun m => .of_wire rfl) rfl fun m => rfl
  refine ⟨h.refreshed.recount _, h.distinct.of_map_wire (map_wire_recount _), ?_⟩
  exact h.carries.trans (hstep _) fun _ _ _ hcontent => hcontent

theorem Tracks.prune {F : Type} (floats : Floats F) (texts : Texts) (threshold : F) (h : Tracks msgs change payload) :
    Tracks msgs change (pruneByRelevance floats texts payload threshold) := by
  unfold pruneByRelevance
  split
  · exact h
  · refine h.retain fun g hg => ?_
    have hguarded : anyInGroup payload.messages
        (mustPreserve (latestUserOriginalIndex payload.messages)) g = true := hg
    simp [keepRelevant, hguarded]

theorem Tracks.cut (h : Tracks msgs change payload) (cut : Nat) : Tracks msgs change (payloadForCut payload cut) := by
  refine h.retain fun g hg => ?_
  have hguarded : anyInGroup payload.messages
      (mustPreserve (latestUserOriginalIndex payload.messages)) g = true := hg
  simp [keepNewest, hguarded]

theorem Tracks.thin (texts : Texts) (h : Tracks msgs (·.content) payload) :
    Tracks msgs (thinnedContent texts) (thinLargeCodeBlocks texts payload).refreshMetadata := by
  have hindex : Distinct (payload.messages.map (thinMessage texts)) := by
    have hsame : ((fun m : CompressibleMessage => m.originalIndex) ∘ thinMessage texts) =
        fun m => m.originalIndex := funext fun m => (like_thinMessage texts m).originalIndex
    rw [Distinct, List.map_map, hsame]
    exact h.distinct
  refine ⟨refreshed_refreshMessages _, hindex.of_map_wire map_wire_refreshMessages, ?_⟩
  refine h.carries.trans (carries_map h.refreshed (refreshed_refreshMessages _)
    (like_thinMessage texts) map_wire_refreshMessages (wire_thinMessage texts)) ?_
  intro m m' hcache hcontent
  simp only [thinnedContent, thinMessage, hcache]
  split
  · exact hcontent
  · rw [hcontent]

theorem Tracks.search (h : Tracks msgs change payload) (counter : TokenCounter)
    (context : CompressionContext) (target : Nat) :
    Tracks msgs change (binarySearchOldestCut counter context payload target) := by
  unfold binarySearchOldestCut
  split
  · exact h
  · exact ((h.cut _).refresh).recount counter context

theorem tracks_start (hd : Distinct payload.messages) :
    Tracks payload.refreshMetadata.messages (·.content) payload.refreshMetadata := by
  refine ⟨refreshed_refreshMessages _, hd.of_map_wire map_wire_refreshMessages, ?_⟩
  intro m hm hcrit
  exact ⟨m, hm, hcrit, rfl, rfl⟩

end

section
variable {F : Type} (floats : Floats F) (texts : Texts) (counter : TokenCounter)
  (context : CompressionContext) (relevanceThreshold : F) {payload : CompressiblePayload}

theorem tracks_squeeze (hd : Distinct payload.messages) : Tracks payload.refreshMetadata.messages (thinnedContent texts)
      (squeeze floats texts counter context relevanceThreshold payload) := by
  have hthin := (((tracks_start hd).prune floats texts
    (normalizeThreshold floats relevanceThreshold)).thin texts).recount counter context
  unfold squeeze
  refine Tracks.recount (Tracks.refresh ?_) counter context
  split
  · split
    · exact hthin.search counter context _
    · exact hthin
  · exact hthin

def Preserved (msgs msgs' : List CompressibleMessage) : Prop :=
  ∀ m ∈ msgs, isCritical msgs m = true → ∃ m' ∈ msgs', wire m' = wire m

instance {msgs msgs' : List CompressibleMessage} : Decidable (Preserved msgs msgs') :=
  inferInstanceAs (Decidable (∀ m ∈ msgs, _ → ∃ m' ∈ msgs', wire m' = wire m))

def NothingToThin (msgs : List CompressibleMessage) : Prop :=
  ∀ m ∈ msgs, isCritical msgs m = true → m.cacheProtected = false →
    transformTextLeaves (thinLargeCodeBlocksInText texts) m.content = m.content

theorem thinnedContent_eq {m : CompressibleMessage} : thinnedContent texts m = m.content ↔ (m.cacheProtected = false →
      transformTextLeaves (thinLargeCodeBlocksInText texts) m.content = m.content) := by
  unfold thinnedContent thinMessage
  split
  · rename_i hcache
    rw [hcache]
    simp
  · rename_i hcache
    rw [Bool.not_eq_true] at hcache
    simp [hcache]

theorem Tracks.preserved_iff {msgs : List CompressibleMessage} {payload : CompressiblePayload}
    (h : Tracks msgs (thinnedContent texts) payload) :
    Preserved msgs payload.messages ↔ NothingToThin texts msgs := by
  refine forall_congr' fun m => forall_congr' fun hm => forall_congr' fun hcrit => ?_
  obtain ⟨m₁, hm₁, -, -, hwire₁⟩ := h.carries m hm hcrit
  rw [← thinnedContent_eq]
  constructor
  · rintro ⟨m', hm', hwire⟩
    -- the index tells which message it is
    have hsame : m' = m₁ := by
      refine List.inj_on_of_nodup_map h.distinct hm' hm₁ ?_
      exact (congrArg (·.2.2.2) hwire).trans (congrArg (·.2.2.2) hwire₁).symm
    rw [hsame, hwire₁] at hwire
    exact congrArg (·.2.1) hwire
  · intro hcontent
    refine ⟨m₁, hm₁, ?_⟩
    rw [hwire₁, hcontent]
    rfl

theorem preserved_self (payload : CompressiblePayload) : Preserved payload.refreshMetadata.messages payload.messages := by
  intro m hm _
  have hmem : wire m ∈ payload.messages.map wire := by
    rw [← map_wire_refreshMessages]
    exact List.mem_map_of_mem hm
  obtain ⟨m', hm', hwire⟩ := List.mem_map.1 hmem
  exact ⟨m', hm', hwire⟩

/-- Critical messages are preserved if there is nothing to thin in them, and, unless the original is put
back, only then. -/
theorem critical_messages_preserved (hd : Distinct payload.messages) :
    (NothingToThin texts payload.refreshMetadata.messages →
      Preserved payload.refreshMetadata.messages
        (ultraCompress floats texts counter context relevanceThreshold payload).1.messages) ∧
    (counter.countTokens (squeeze floats texts counter context relevanceThreshold payload) ≤
        counter.countTokens payload →
      Preserved payload.refreshMetadata.messages
        (ultraCompress floats texts counter context relevanceThreshold payload).1.messages →
      NothingToThin texts payload.refreshMetadata.messages) := by
  have htracks := tracks_squeeze floats texts counter context relevanceThreshold hd
  constructor
  · intro hnothing
    show Preserved _ (CompressiblePayload.messages (if _ then _ else _))
    split
    · exact preserved_self payload
    · exact (htracks.preserved_iff texts).2 hnothing
  · intro hfits hpreserved
    have hout : (ultraCompress floats texts counter context relevanceThreshold payload).1 =
        squeeze floats texts counter context relevanceThreshold payload := if_neg (by omega)
    rw [hout] at hpreserved
    exact (htracks.preserved_iff texts).1 hpreserved

end

def textLength : TokenCounter := ⟨Json.wireNumbers, fun _ text => text.length⟩

def openWindow : CompressionContext := ⟨"m", 0, none, "p", false⟩

theorem short_request_preserved : Distinct (plainPayload "hello").messages ∧
    Preserved (plainPayload "hello").refreshMetadata.messages
      (ultraCompress youngFloats plainTexts textLength openWindow defaultRelevanceThreshold
        (plainPayload "hello")).1.messages := by
  have hd : Distinct (plainPayload "hello").messages := by
    unfold Distinct
    decide
  have hnothing : NothingToThin plainTexts (plainPayload "hello").refreshMetadata.messages := by
    unfold NothingToThin
    decide +kernel
  exact ⟨hd, (critical_messages_preserved youngFloats plainTexts textLength openWindow
    defaultRelevanceThreshold hd).1 hnothing⟩

def fenced (lines : Nat) : String :=
  String.ofList (List.replicate 3 '~' ++ ['\n'] ++ (List.replicate lines ['x', '\n']).flatten ++
    List.replicate 3 '~')

/-- The only message of the request is thinned. -/
theorem latest_user_thinned : (plainPayload (fenced 51)).refreshMetadata.messages.all
      (isCritical (plainPayload (fenced 51)).refreshMetadata.messages) = true ∧
    ¬ Preserved (plainPayload (fenced 51)).refreshMetadata.messages
      (ultraCompress youngFloats plainTexts textLength openWindow defaultRelevanceThreshold
        (plainPayload (fenced 51))).1.messages := by
  decide +kernel

end ObeyGateway.Compression
