import ObeyGateway.Cache.Exact
import ObeyGateway.SmartRouting.PlanLaw
import ObeyGateway.SmartRouting.SemanticCache

/-!
# What an entry of the semantic cache is shared by

A scope key determines the tenant, the group, the labels of the configuration and the fields of the request that are
compared exactly (`sameScope_of_scopeKey`). Entries carry the scope key of the request they were inserted for, in every
interleaving of calls (`traced_run`), and so a hit is of one scope with its insert (`semantic_cache_law`).
-/

namespace ObeyGateway.SmartRouting
open Json (SameUpToOrder)
open Models (Message OpenAIRequest)

/-- What `optionF32` writes: an infinite temperature is as none. -/
def finiteTemperature (request : OpenAIRequest) : Option F32 :=
  (request.temperature.map (·.1)).filter F32.isFinite

structure ScopeAgree (r r' : OpenAIRequest) : Prop where
  temperature : finiteTemperature r = finiteTemperature r'
  maxTokens : r.maxTokens = r'.maxTokens
  extra : SameUpToOrder (.object r.extra) (.object r'.extra)
  instructions : List.Forall₂ Cache.MessageAgree (r.messages.filter isInstruction) (r'.messages.filter isInstruction)

section
variable {x y : F32}

theorem exponent_toF64 : x.toF64.toNat / 2 ^ 52 % 2 ^ 11 ≠ 2 ^ 11 - 1 ↔ x.isFinite = true := by
  obtain ⟨exponent, mantissa, hwide, hbits⟩ := x.exists_wide
  have hlt := hwide.lt
  have hsign := x.bits.toNat_lt
  have hsize : UInt64.size = 2 ^ 64 := rfl
  have hmagnitude := x.magnitude_lt
  rw [hbits, UInt64.toNat_ofNat_of_lt' (by omega), F32.isFinite, decide_eq_true_eq]
  rcases hwide with ⟨hx, rfl, -⟩ | ⟨hx, -, rfl, -⟩ | ⟨hx, -, rfl, -⟩ | ⟨hx, lead, -, hlead, -, -, rfl, -⟩
  all_goals omega

theorem fromF64_of_finite (h : x.isFinite = true) :
    Number.fromF64 x.toF64 = some (.float ⟨x.toF64, exponent_toF64.2 h⟩) := dif_pos _

theorem fromF64_of_not_finite (h : x.isFinite = false) : Number.fromF64 x.toF64 = none :=
  dif_neg fun hne => by simp [exponent_toF64.1 hne] at h

end

theorem optionF32_eq (value : Option { t : F32 // t.isNan = false }) : optionF32 value =
    ((((value.map (·.1)).filter F32.isFinite).bind fun t => Number.fromF64 t.toF64).map .number).getD .null := by
  rcases value with _ | t
  · rfl
  cases h : t.1.isFinite with
  | true => simp [optionF32, Option.filter, h]
  | false => simp [optionF32, Option.filter, h, fromF64_of_not_finite h]

theorem finiteTemperature_inj {r r' : OpenAIRequest} (h : optionF32 r.temperature = optionF32 r'.temperature) :
    finiteTemperature r = finiteTemperature r' := by
  have hfinite : ∀ {r : OpenAIRequest} {t}, finiteTemperature r = some t → t.isFinite = true := by
    intro r t ht
    exact (Option.filter_eq_some_iff.1 ht).2
  rw [optionF32_eq, optionF32_eq] at h
  change (((finiteTemperature r).bind _).map _).getD _ = (((finiteTemperature r').bind _).map _).getD _ at h
  rcases hr : finiteTemperature r with _ | t
  · rcases hr' : finiteTemperature r' with _ | t'
    · rfl
    rw [hr, hr', Option.bind_some, fromF64_of_finite (hfinite hr')] at h
    cases h
  rcases hr' : finiteTemperature r' with _ | t'
  · rw [hr, hr', Option.bind_some, fromF64_of_finite (hfinite hr)] at h
    cases h
  rw [hr, hr', Option.bind_some, Option.bind_some, fromF64_of_finite (hfinite hr),
    fromF64_of_finite (hfinite hr')] at h
  have hbits := congrArg Subtype.val (Number.float.inj (Json.number.inj h))
  rw [F32.toF64_injective hbits]

theorem nodupKeys_messageFields (m : Message) :
    (Json.object (Assoc.insert (Assoc.insert (Assoc.insert [] "role" (.string m.role)) "content" m.content)
      "extra" (.object m.extra))).nodupKeys = true :=
  Json.nodupKeys_insert (Json.nodupKeys_insert (Json.nodupKeys_insert rfl rfl) m.content_nodup) m.extra_nodup

theorem canonicalMessage_inj {m m' : Message} (h : (canonicalMessage m).normalize = (canonicalMessage m').normalize) :
    Cache.MessageAgree m m' := by
  have hnodup := nodupKeys_messageFields m
  have hnodup' := nodupKeys_messageFields m'
  -- a canonical message is normal already
  have hnormal : ∀ {v : Json}, v.nodupKeys = true → v.normalize.normalize = v.normalize :=
    fun {v} hv => ((Json.sameUpToOrder_normalize v).normalize_eq hv).symm
  rw [canonicalMessage, canonicalMessage, hnormal hnodup, hnormal hnodup', Json.normalize_object_eq_iff
    (Json.nodupKeys_object.1 hnodup).1 (Json.nodupKeys_object.1 hnodup').1] at h
  have hrole := h "role"
  have hcontent := h "content"
  have hextra := h "extra"
  simp only [Assoc.get_insert, String.reduceEq, if_true, if_false, Option.map_some,
    Option.some.injEq] at hrole hcontent hextra
  exact ⟨Json.string.inj hrole, (Json.sameUpToOrder_iff m.content_nodup).2 hcontent,
    (Json.sameUpToOrder_iff m.extra_nodup).2 hextra⟩

theorem nodupKeys_reorder {v w : Json} (h : SameUpToOrder v w) (hv : v.nodupKeys = true) : w.nodupKeys = true := by
  induction h with
  | refl => exact hv
  | tail _ hstep ih => exact hstep.nodupKeys ih

section
variable {r r' : OpenAIRequest}

theorem nodupKeys_responseFields : (Json.object (responseFields r)).nodupKeys = true := by
  have htemperature : (optionF32 r.temperature).nodupKeys = true := by
    unfold optionF32
    cases r.temperature.bind fun t => Number.fromF64 t.1.toF64 <;> rfl
  have hmaxTokens : ((r.maxTokens.map fun n => Json.number (.posInt n.toUInt64)).getD .null).nodupKeys = true := by
    cases r.maxTokens <;> rfl
  have hinstructions : (Json.array ((r.messages.filter isInstruction).map canonicalMessage)).nodupKeys = true := by
    rw [Json.nodupKeys_array]
    intro v hv
    obtain ⟨m, -, rfl⟩ := List.mem_map.1 hv
    exact nodupKeys_reorder (Json.sameUpToOrder_normalize _) (nodupKeys_messageFields m)
  exact Json.nodupKeys_insert (Json.nodupKeys_insert (Json.nodupKeys_insert (Json.nodupKeys_insert rfl htemperature)
    hmaxTokens) hinstructions) r.extra_nodup

theorem scopeAgree_of_canonical (h : canonicalResponseFields r = canonicalResponseFields r') : ScopeAgree r r' := by
  rw [canonicalResponseFields, canonicalResponseFields, Json.normalize_object_eq_iff
    (Json.nodupKeys_object.1 nodupKeys_responseFields).1 (Json.nodupKeys_object.1 nodupKeys_responseFields).1] at h
  have htemperature := h "temperature"
  have hmaxTokens := h "max_tokens"
  have hinstructions := h "instructions"
  have hextra := h "extra"
  simp only [responseFields, Assoc.get_insert, String.reduceEq, if_true, if_false, Option.map_some,
    Option.some.injEq] at htemperature hmaxTokens hinstructions hextra
  have hnormal : ∀ value, (optionF32 value).normalize = optionF32 value := by
    intro value
    unfold optionF32
    cases value.bind fun t => Number.fromF64 t.1.toF64 <;> rfl
  refine ⟨finiteTemperature_inj ?_, ?_, (Json.sameUpToOrder_iff r.extra_nodup).2 hextra, ?_⟩
  · rwa [hnormal, hnormal] at htemperature
  · rcases hr : r.maxTokens with _ | n
    · rcases hr' : r'.maxTokens with _ | n'
      · rfl
      rw [hr, hr'] at hmaxTokens
      cases hmaxTokens
    rcases hr' : r'.maxTokens with _ | n'
    · rw [hr, hr'] at hmaxTokens
      cases hmaxTokens
    rw [hr, hr'] at hmaxTokens
    exact congrArg some (Cache.maxTokens_injective hmaxTokens)
  · rw [Json.normalize_array, Json.normalize_array, Json.array.injEq, ← List.forall₂_eq_eq_eq,
      List.forall₂_map_left_iff, List.forall₂_map_right_iff, List.forall₂_map_left_iff,
      List.forall₂_map_right_iff] at hinstructions
    exact hinstructions.imp fun _ _ => canonicalMessage_inj

end

section
variable {F : Type} {A : Scores F} {K : @SemanticPrimitives F}

structure SameScope (cache cache' : InMemorySemanticCache A) (input input' : MetadataLookupRequest) : Prop where
  tenant : cache.tenantAuthHash = cache'.tenantAuthHash
  group : input.modelGroup = input'.modelGroup
  embeddingNamespace : cache.config.embeddingNamespace = cache'.config.embeddingNamespace
  policyVersion : cache.config.policyVersion = cache'.config.policyVersion
  fields : ScopeAgree input.request input'.request

theorem encode_inj {s t : String} (h : Utf8.encode s.toList = Utf8.encode t.toList) : s = t := by
  have hlist := congrArg Utf8.lossy h
  rw [Utf8.lossy_encode, Utf8.lossy_encode] at hlist
  exact String.toList_inj.1 hlist

theorem length_labels (cache : InMemorySemanticCache A) :
    (Utf8.encode cache.config.embeddingNamespace.toList).length ≤ maxIdentityLabelBytes ∧
      (Utf8.encode cache.config.policyVersion.toList).length ≤ maxIdentityLabelBytes := by
  have hlabel : ∀ {value}, ¬ (!validateIdentityLabel value) = true →
      (Utf8.encode value.toList).length ≤ maxIdentityLabelBytes := by
    intro value h
    simp only [validateIdentityLabel, Bool.not_eq_true, Bool.not_eq_false', Bool.and_eq_true, decide_eq_true_eq] at h
    exact h.2
  have hvalid := cache.valid
  unfold SemanticCacheConfig.validate at hvalid
  split_ifs at hvalid with _ _ _ _ hnamespace hpolicy
  exact ⟨hlabel hnamespace, hlabel hpolicy⟩

theorem sameScope_of_scopeKey (hsha : Function.Injective K.sha256) {cache cache' : InMemorySemanticCache A}
    {input input' : MetadataLookupRequest}
    (h : cache.scopeKey K input.request input.modelGroup = cache'.scopeKey K input'.request input'.modelGroup) :
    SameScope cache cache' input input' := by
  have hlabels := length_labels cache
  have hlabels' := length_labels cache'
  have htenant := cache.tenantAuthHash_length
  have htenant' := cache'.tenantAuthHash_length
  have hgroup := input.modelGroup_lt
  have hgroup' := input'.modelGroup_lt
  unfold maxIdentityLabelBytes at hlabels hlabels'
  obtain ⟨htenant, h⟩ := Prefixed.field_append_inj (by omega) (by omega) (hsha h)
  obtain ⟨hgroup, h⟩ := Prefixed.field_append_inj (by omega) (by omega) h
  obtain ⟨hnamespace, h⟩ := Prefixed.field_append_inj (by omega) (by omega) h
  obtain ⟨hpolicy, h⟩ := Prefixed.field_append_inj (by omega) (by omega) h
  have hprint := congrArg Utf8.lossy (Prefixed.field_inj h)
  rw [canonicalJson, canonicalJson, Utf8.lossy_encode, Utf8.lossy_encode] at hprint
  exact ⟨htenant, encode_inj hgroup, encode_inj hnamespace, encode_inj hpolicy,
    scopeAgree_of_canonical (Json.print_injective hprint)⟩

/-! ### Where entries come from -/

theorem removeAll_sublist (ids : List Nat) (s : IndexState A) :
    List.Sublist (IndexState.removeAll ids s).2.entries s.entries := by
  induction ids generalizing s with
  | nil => exact List.Sublist.refl _
  | cons id ids ih => exact (ih _).trans List.filter_sublist

theorem removeExpired_sublist (s : IndexState A) (now : Nat) :
    List.Sublist (s.removeExpired now).2.entries s.entries := removeAll_sublist _ _

theorem evict_sublist (capacity turns : Nat) (s : IndexState A) :
    List.Sublist (IndexState.evict capacity turns s).2.entries s.entries := by
  induction turns generalizing s with
  | zero => exact List.Sublist.refl _
  | succ turns ih =>
    unfold IndexState.evict
    split
    · split
      · exact List.Sublist.refl _
      · exact (ih _).trans List.filter_sublist
    · exact List.Sublist.refl _

theorem mem_insert_entries {s : IndexState A} {entry : IndexEntry A} {capacity : Nat} {e : Nat × IndexEntry A}
    (h : e ∈ (s.insert entry capacity).2.entries) : e = (entry.id, entry) ∨ e ∈ s.entries := by
  rcases List.mem_cons.1 h with rfl | h
  · exact .inl rfl
  · refine .inr ?_
    have hevict := (evict_sublist _ _ _).subset (List.mem_filter.1 h).1
    revert hevict
    split
    · exact id
    · exact fun hevict => (removeAll_sublist _ _).subset hevict

theorem validateDimension_entries {s s' : IndexState A} {dimension : Nat} (h : s.validateDimension dimension = some s') :
    s'.entries = s.entries ∧ s'.lru = s.lru := by
  unfold IndexState.validateDimension at h
  split at h
  · split at h
    · cases h
    · cases h
      exact ⟨rfl, rfl⟩
  · cases h
    exact ⟨rfl, rfl⟩

theorem payloadRef_sublist (s : IndexState A) (id now : Nat) : List.Sublist (s.payloadRef id now).2.entries s.entries := by
  unfold IndexState.payloadRef
  split
  · exact List.Sublist.refl _
  · split
    · exact List.filter_sublist
    · exact List.Sublist.refl _

variable (K) in
structure Traced (cache : InMemorySemanticCache A) (actions : List (CacheAction A)) (s : CacheSystem A) : Prop where
  tasks : ∀ task ∈ s.tasks, CacheAction.insert task.input (.ok task.embedding) ∈ actions
  entries : ∀ e ∈ s.index.entries, ∃ input embedding ref now, CacheAction.insert input (.ok embedding) ∈ actions ∧
    e = (e.1, cache.entry K input embedding ref e.1 now)

namespace Traced
variable {cache : InMemorySemanticCache A} {actions : List (CacheAction A)} {s : CacheSystem A}

theorem mono {s' : CacheSystem A} (h : Traced K cache actions s) (htasks : s'.tasks ⊆ s.tasks)
    (hentries : s'.index.entries ⊆ s.index.entries) (action : CacheAction A) :
    Traced K cache (actions ++ [action]) s' := by
  refine ⟨fun task htask => List.mem_append_left _ (h.tasks task (htasks htask)), fun e he => ?_⟩
  obtain ⟨input, embedding, ref, now, hcall, heq⟩ := h.entries e (hentries he)
  exact ⟨input, embedding, ref, now, List.mem_append_left _ hcall, heq⟩

theorem set {s' : CacheSystem A} (h : Traced K cache actions s) (i : Nat) {task : InsertTask A} (phase : InsertPhase)
    (htask : task ∈ s.tasks) (htasks : s'.tasks = s.tasks.set i ⟨task.input, task.embedding, phase⟩)
    (hentries : s'.index.entries = s.index.entries) (action : CacheAction A) :
    Traced K cache (actions ++ [action]) s' := by
  have hold := h.mono (List.Subset.refl s.tasks) (List.Subset.refl _) action
  refine ⟨fun task' htask' => ?_, fun e he => hold.entries e (hentries ▸ he)⟩
  rw [htasks] at htask'
  rcases List.mem_or_eq_of_mem_set htask' with hold | rfl
  · exact List.mem_append_left _ (h.tasks task' hold)
  · exact List.mem_append_left _ (h.tasks task htask)

theorem step (h : Traced K cache actions s) (action : CacheAction A) :
    Traced K cache (actions ++ [action]) (CacheSystem.step K cache s action) := by
  have hsame : Traced K cache (actions ++ [action]) s := h.mono (List.Subset.refl _) (List.Subset.refl _) action
  cases action with
  | insert input embedded =>
    show Traced K cache _ (CacheSystem.beginInsert K cache s input embedded).2
    unfold CacheSystem.beginInsert
    split
    · exact hsame
    · split
      · exact hsame
      · split
        · exact hsame
        · split
          · exact hsame
          · rename_i embedding _
            split
            · exact hsame
            · rename_i index hindex
              have hentries := (validateDimension_entries hindex).1
              refine ⟨fun task htask => ?_, fun e he => hsame.entries e (hentries ▸ he)⟩
              rcases List.mem_append.1 htask with htask | htask
              · exact hsame.tasks task htask
              · obtain rfl := List.mem_singleton.1 htask
                exact List.mem_append_right _ (List.mem_singleton.2 rfl)
  | put task answer =>
    show Traced K cache _ (s.putPayload task answer)
    unfold CacheSystem.putPayload
    split
    · rename_i input embedding htask
      split
      · refine h.mono ?_ ?_ _
        · exact List.eraseIdx_subset
        · exact List.Subset.refl _
      · rename_i ref
        refine h.set task (.stored ref) (List.mem_of_getElem? htask) ?_ ?_ _
        · rfl
        · rfl
    · exact hsame
  | number task =>
    show Traced K cache _ (s.numberEntry task)
    unfold CacheSystem.numberEntry
    split
    · rename_i input embedding ref htask
      refine h.set task (.numbered ref s.nextEntryId.1) (List.mem_of_getElem? htask) ?_ ?_ _
      · rfl
      · rfl
    · exact hsame
  | commit task now =>
    show Traced K cache _ (if s.now ≤ now then s.commit K cache task now else s)
    split
    · unfold CacheSystem.commit
      split
      · rename_i input embedding ref id htask
        refine ⟨fun task htask => hsame.tasks task (List.eraseIdx_subset htask), fun e he => ?_⟩
        rcases mem_insert_entries he with rfl | he
        · have hcall := h.tasks _ (List.mem_of_getElem? htask)
          exact ⟨input, embedding, ref, now, List.mem_append_left _ hcall, rfl⟩
        · exact hsame.entries e ((removeExpired_sublist _ _).subset he)
      · exact hsame
    · exact hsame
  | lookup input embedded now =>
    show Traced K cache _ (if s.now ≤ now then (s.lookupMetadata K cache input embedded now).2 else s)
    split
    · unfold CacheSystem.lookupMetadata
      split
      · exact hsame
      · split
        · exact hsame
        · split
          · exact hsame
          · split
            · exact hsame
            · split
              · exact hsame
              · rename_i index hindex
                have hentries := (validateDimension_entries hindex).1
                have hexpired := (removeExpired_sublist index now).subset
                rw [hentries] at hexpired
                dsimp only
                split
                · refine h.mono ?_ ?_ _
                  · exact List.Subset.refl _
                  · exact hexpired
                · refine h.mono ?_ ?_ _
                  · exact List.Subset.refl _
                  · exact hexpired
    · exact hsame
  | retrieve entryId now =>
    show Traced K cache _ (if s.now ≤ now then (s.retrievePayload entryId now).2 else s)
    split
    · unfold CacheSystem.retrievePayload
      have hsub := (payloadRef_sublist s.index entryId now).subset
      dsimp only
      have hfound : ∀ s' : CacheSystem A, s'.tasks = s.tasks → s'.index = (s.index.payloadRef entryId now).2 →
          Traced K cache (actions ++ [.retrieve entryId now]) s' := by
        intro s' htasks hindex
        refine h.mono ?_ ?_ _
        · rw [htasks]
          exact List.Subset.refl _
        · rw [hindex]
          exact hsub
      split
      · exact hfound _ rfl rfl
      · exact hfound _ rfl rfl
      · exact hfound _ rfl rfl
    · exact hsame

end Traced

theorem traced_run (cache : InMemorySemanticCache A) (actions : List (CacheAction A)) :
    Traced K cache actions (Run.run (CacheSystem.step K cache) .new actions) := by
  refine Run.invariant_hist (P := fun _ _ => True) (fun actions s action h _ => h.step action) ?_
    (Run.along_of_forall fun _ _ _ => trivial)
  constructor
  · intro task h
    cases h
  · intro e h
    cases h

theorem mem_of_maxBy {α : Type} {cmp : α → α → Ordering} {l : List α} {a : α} (h : maxBy cmp l = some a) : a ∈ l := by
  rcases l with _ | ⟨b, l⟩
  · cases h
  obtain rfl := Option.some.inj h
  clear h
  induction l generalizing b with
  | nil => exact List.mem_singleton.2 rfl
  | cons c l ih =>
    rw [List.foldl_cons]
    split
    · exact List.mem_cons.2 ((List.mem_cons.1 (ih b)).imp_right (List.mem_cons_of_mem c))
    · exact List.mem_cons_of_mem b (ih c)

theorem best_some {s : IndexState A} {config : SemanticCacheConfig F} {scopeKey : List UInt8} {embedding : List F32}
    {entry : IndexEntry A} {similarity : F} (h : s.best K config scopeKey embedding = some (entry, similarity)) :
    (∃ id, (id, entry) ∈ s.entries) ∧ entry.scopeKey = scopeKey ∧
      K.cosineSimilarity embedding entry.embedding = some similarity ∧
      A.le config.similarityThreshold similarity = true := by
  obtain ⟨hmem, hthreshold⟩ := List.mem_filter.1 (mem_of_maxBy h)
  obtain ⟨e, he, hsimilarity⟩ := List.mem_filterMap.1 hmem
  obtain ⟨value, hvalue, heq⟩ := Option.map_eq_some_iff.1 hsimilarity
  obtain ⟨rfl, rfl⟩ := Prod.mk.inj heq
  obtain ⟨hcandidate, hscope⟩ := List.mem_filter.1 he
  obtain ⟨⟨id, e'⟩, hentry, rfl⟩ := List.mem_map.1 hcandidate
  rw [Bool.and_eq_true, decide_eq_true_eq] at hscope
  exact ⟨⟨id, hentry⟩, hscope.1, hvalue, hthreshold⟩

theorem lookup_hit {cache : InMemorySemanticCache A} {s : CacheSystem A} {input : MetadataLookupRequest}
    {embedded : Except EmbeddingProviderErrorKind (List F32)} {now : Nat} {hit : SemanticMetadataHit A}
    (h : (s.lookupMetadata K cache input embedded now).1 = .ok (.hit hit)) : ∃ embedding similarity, ∃ e ∈ s.index.entries,
      embedded = .ok embedding ∧ e.2.scopeKey = cache.scopeKey K input.request input.modelGroup ∧
      K.cosineSimilarity embedding e.2.embedding = some similarity ∧
      A.le cache.config.similarityThreshold similarity = true ∧
      hit = ⟨e.2.id, .new A similarity, e.2.qualityScore, { e.2.decision with cacheHit := true }, e.2.provenance⟩ := by
  unfold CacheSystem.lookupMetadata at h
  split at h
  · cases h
  · split at h
    · cases h
    · split at h
      · cases h
      · split at h
        · cases h
        · split at h
          · cases h
          · rename_i embedding _ _ index hindex
            dsimp only at h
            split at h
            · cases h
            · rename_i entry similarity hbest
              obtain ⟨⟨id, hmem⟩, hscope, hsimilarity, hthreshold⟩ := best_some hbest
              have hmem := (removeExpired_sublist _ _).subset hmem
              rw [(validateDimension_entries hindex).1] at hmem
              cases h
              exact ⟨embedding, similarity, (id, entry), hmem, rfl, hscope, hsimilarity, hthreshold, rfl⟩

/-- Scope keys are equal only in one scope, and a hit is the entry of an insert of the same scope whose embedding is
similar enough, whatever calls there were and however they interleaved. -/
theorem semantic_cache_law (hsha : Function.Injective K.sha256) (cache : InMemorySemanticCache A) :
    (∀ (cache' : InMemorySemanticCache A) (input input' : MetadataLookupRequest),
      cache.scopeKey K input.request input.modelGroup = cache'.scopeKey K input'.request input'.modelGroup →
      SameScope cache cache' input input') ∧
    ∀ (actions : List (CacheAction A)) (input : MetadataLookupRequest)
      (embedded : Except EmbeddingProviderErrorKind (List F32)) (now : Nat) (hit : SemanticMetadataHit A),
      ((Run.run (CacheSystem.step K cache) .new actions).lookupMetadata K cache input embedded now).1 = .ok (.hit hit) →
      ∃ embedding inserted embedding' similarity, embedded = .ok embedding ∧
        CacheAction.insert inserted (.ok embedding') ∈ actions ∧
        SameScope cache cache input inserted.toMetadataLookupRequest ∧
        K.cosineSimilarity embedding embedding' = some similarity ∧
        A.le cache.config.similarityThreshold similarity = true ∧
        hit = ⟨hit.entryId, .new A similarity, inserted.qualityScore, { inserted.decision with cacheHit := true },
          inserted.provenance⟩ := by
  refine ⟨fun cache' input input' h => sameScope_of_scopeKey hsha h, fun actions input embedded now hit h => ?_⟩
  obtain ⟨embedding, similarity, e, hmem, hembedded, hscope, hsimilarity, hthreshold, hhit⟩ := lookup_hit h
  obtain ⟨inserted, embedding', ref, now', hcall, heq⟩ := (traced_run cache actions).entries e hmem
  have hentry := congrArg Prod.snd heq
  have hsame : SameScope cache cache input inserted.toMetadataLookupRequest :=
    sameScope_of_scopeKey hsha (hscope.symm.trans (congrArg IndexEntry.scopeKey hentry))
  rw [hentry] at hsimilarity hhit
  refine ⟨embedding, inserted, embedding', similarity, hembedded, hcall, hsame, hsimilarity, hthreshold, ?_⟩
  rw [hhit]
  rfl

end

/-! ### Images -/

def imageContent (url : String) : Json :=
  .array [.object [("type", .string "text"), ("text", .string "What is this?")],
    .object [("image_url", .object [("url", .string url)]), ("type", .string "image_url")]]

theorem nodupKeys_imageContent (url : String) : (imageContent url).nodupKeys = true := rfl

def imageMessage (url : String) : Message where
  role := "user"
  content := imageContent url
  extra := []
  content_nodup := nodupKeys_imageContent url
  extra_nodup := Json.nodupKeys_object_nil
  extra_role := List.not_mem_nil
  extra_content := List.not_mem_nil

def imageRequest (url : String) : OpenAIRequest where
  model := "auto"
  messages := [imageMessage url]
  stream := false
  temperature := some ⟨F32.zero, by decide⟩
  maxTokens := none
  extra := []
  extra_nodup := Json.nodupKeys_object_nil

theorem modelGroup_auto : (Utf8.encode "auto".toList).length < 2 ^ 63 := by decide

def imageLookup (url : String) : MetadataLookupRequest :=
  ⟨imageRequest url, "auto", ⟨true, false, true⟩, modelGroup_auto⟩

def fastDecision : RoutingDecision exactScores where
  score := .new exactScores 0
  adjustedScore := .new exactScores 0
  tier := .fast
  taskType := .general
  classifier := .heuristic
  escalated := false
  escalationCount := 0
  cacheHit := false
  budgetDowngraded := false
  contextFiltered := false
  classifierConfidence := none
  resolvedModel := some "mini"

def imageInsert (url : String) : SemanticInsertRequest exactScores where
  toMetadataLookupRequest := imageLookup url
  qualityScore := .new exactScores 1
  decision := fastDecision
  provenance := ⟨"mini", .fast⟩

def alignedPrimitives : @SemanticPrimitives ℚ where
  numbers := Json.wireNumbers
  sha256 bytes := bytes
  cosineSimilarity _ _ := some 1
  totalCmp x y := if Rat.blt x y then .lt else if Rat.blt y x then .gt else .eq
  normAboveMin _ := true

def smallCacheConfig : SemanticCacheConfig ℚ where
  maxEntries := 2
  ttl := 60
  similarityThreshold := 1
  minQualityScore := 0
  embeddingNamespace := "embed-v1"
  policyVersion := "policy-v1"

theorem smallCacheConfig_valid : smallCacheConfig.validate exactScores = .ok () := rfl

def smallCache : InMemorySemanticCache exactScores where
  config := smallCacheConfig
  tenantAuthHash := List.replicate 32 7
  eligibility := {}
  valid := smallCacheConfig_valid
  tenantAuthHash_length := List.length_replicate

def unitVector : List F32 := [⟨0x3f800000⟩]

def insertActions (url : String) : List (CacheAction exactScores) :=
  [.insert (imageInsert url) (.ok unitVector), .put 0 (.ok ⟨[1], List.cons_ne_nil _ _⟩), .number 0, .commit 0 1]

def isHit : Except MetadataLookupFailure (MetadataLookupOutcome exactScores) → Bool
  | .ok (.hit _) => true
  | _ => false

theorem exists_of_isHit {answer : Except MetadataLookupFailure (MetadataLookupOutcome exactScores)}
    (h : isHit answer = true) : ∃ hit, answer = .ok (.hit hit) := by
  cases answer with
  | error failure => cases h
  | ok outcome =>
    cases outcome with
    | hit hit => exact ⟨hit, rfl⟩
    | miss | ineligible => cases h

theorem semantic_cache_law_image : ∃ hit inserted embedding, ((Run.run (CacheSystem.step alignedPrimitives smallCache) .new
      (insertActions "https://img.example/a.png")).lookupMetadata alignedPrimitives smallCache
        (imageLookup "https://img.example/a.png") (.ok unitVector) 2).1 = .ok (.hit hit) ∧
    CacheAction.insert inserted (.ok embedding) ∈ insertActions "https://img.example/a.png" ∧
    SameScope smallCache smallCache (imageLookup "https://img.example/a.png") inserted.toMetadataLookupRequest := by
  have hhit : isHit ((Run.run (CacheSystem.step alignedPrimitives smallCache) .new
      (insertActions "https://img.example/a.png")).lookupMetadata alignedPrimitives smallCache
        (imageLookup "https://img.example/a.png") (.ok unitVector) 2).1 = true := by decide +kernel
  obtain ⟨hit, hhit⟩ := exists_of_isHit hhit
  have hinjective : Function.Injective alignedPrimitives.sha256 := fun _ _ h => h
  obtain ⟨-, inserted, embedding, -, -, hcall, hsame, -⟩ :=
    (semantic_cache_law hinjective smallCache).2 _ _ _ _ hit hhit
  exact ⟨hit, inserted, embedding, hhit, hcall, hsame⟩

/-- The entry of a question about one image answers the same question about another one. -/
theorem images_share_entry : (∃ hit, ((Run.run (CacheSystem.step alignedPrimitives smallCache) .new
      (insertActions "https://img.example/a.png")).lookupMetadata alignedPrimitives smallCache
        (imageLookup "https://img.example/b.png") (.ok unitVector) 2).1 = .ok (.hit hit)) ∧
    ¬ SameUpToOrder (imageContent "https://img.example/a.png") (imageContent "https://img.example/b.png") := by
  refine ⟨exists_of_isHit (by decide +kernel), fun h => ?_⟩
  have hnormal := congrArg (Json.print Json.wireNumbers) (h.normalize_eq (nodupKeys_imageContent _))
  revert hnormal
  decide +kernel

end ObeyGateway.SmartRouting
