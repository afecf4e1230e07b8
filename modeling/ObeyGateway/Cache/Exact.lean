import ObeyGateway.Lib.JsonOrder
import ObeyGateway.Lib.JsonPrint
import ObeyGateway.Lib.Run
import ObeyGateway.Models.OpenAI

/-!
# The exact-match response cache

`cache/exact.rs`: a store from the SHA-256 of a request's canonical text, the JSON of the fields that make up the key
printed with sorted keys. Requests that agree on these fields, up to the order of object keys, have the same text and no
others have; so a hit is a response stored for such a request. All requests that the cache takes have temperature zero,
unless the threshold is not a number.
-/

namespace ObeyGateway.Cache

open Json (NumberText SameUpToOrder)
open Models (Message OpenAIRequest)

def keyedExtraFields : List String :=
  ["tools", "tool_choice", "response_format", "top_p", "frequency_penalty", "presence_penalty", "stop",
    "seed", "n", "logit_bias", "logprobs", "top_logprobs"]

def isCacheEligible (request : OpenAIRequest) (temperatureThreshold : F32) : Bool :=
  let temperature := (request.temperature.map (·.1)).getD F32.zero
  if temperature.gt temperatureThreshold then false
  else
    let n := ((Assoc.get request.extra "n").bind Json.asU64).getD 1
    n == 1

def canonicalTemp (request : OpenAIRequest) (temperatureThreshold : F32) : F32 :=
  (request.temperature.map fun t => if t.1.le temperatureThreshold then F32.zero else t.1).getD F32.zero

def tempValue (temp : F32) : Json := ((Number.fromF64 temp.toF64).map .number).getD .null

/-- The root before the fields of `extra`. -/
def rootFields (request : OpenAIRequest) (temperatureThreshold : F32) : Json.Map :=
  let root := Assoc.insert [] "model" (.string request.model)
  let root := Assoc.insert root "messages" (.array (request.messages.map Message.toValue))
  let root := Assoc.insert root "temperature" (tempValue (canonicalTemp request temperatureThreshold))
  match request.maxTokens with
  | some mt => Assoc.insert root "max_tokens" (.number (.posInt mt.toUInt64))
  | none => root

def insertKeyed (extra : Json.Map) (root : Json.Map) (field : String) : Json.Map :=
  match Assoc.get extra field with
  | some v => Assoc.insert root field v
  | none => root

def root (request : OpenAIRequest) (temperatureThreshold : F32) : Json.Map :=
  keyedExtraFields.foldl (insertKeyed request.extra) (rootFields request temperatureThreshold)

def canonicalAlg (numbers : NumberText) : Json.Alg (List Char) :=
  { Json.printAlg numbers with
    object := fun fields =>
      Json.openBrace :: Json.commaJoin (((Assoc.keys fields).insertionSort (· ≤ ·)).map fun k =>
        Json.printString k ++ ':' :: (Assoc.get fields k).getD []) ++ [Json.closeBrace] }

def canonicalizeValue (numbers : NumberText) : Json → List Char := Json.fold (canonicalAlg numbers)

def canonicalizeRequest (numbers : NumberText) (request : OpenAIRequest) (temperatureThreshold : F32) :
    List Char :=
  canonicalizeValue numbers (.object (root request temperatureThreshold))

structure ExactCacheConfig where
  enabled : Bool
  maxEntries : Nat
  ttlSeconds : Nat
  temperatureThreshold : F32

/-- Instants are in nanoseconds. -/
structure ExactCacheEntry where
  responseJson : String
  insertedAt : Nat

structure ExactCache (Digest : Type) where
  entries : List (Digest × ExactCacheEntry)
  enabled : Bool
  maxEntries : Nat
  ttl : Nat
  temperatureThreshold : F32

section
variable {Digest : Type} [DecidableEq Digest] (numbers : NumberText) (sha256 : List Char → Digest)

namespace ExactCache

def new (config : ExactCacheConfig) : ExactCache Digest where
  entries := []
  enabled := config.enabled
  maxEntries := max config.maxEntries 1
  ttl := config.ttlSeconds * 10 ^ 9
  temperatureThreshold := config.temperatureThreshold

variable (cache : ExactCache Digest)

def isEligible (request : OpenAIRequest) : Bool :=
  cache.enabled && isCacheEligible request cache.temperatureThreshold

def computeKey (request : OpenAIRequest) : Digest :=
  sha256 (canonicalizeRequest numbers request cache.temperatureThreshold)

def get (now : Nat) (request : OpenAIRequest) : Option String × ExactCache Digest :=
  if !cache.isEligible request then (none, cache)
  else
    let key := cache.computeKey numbers sha256 request
    match Assoc.get cache.entries key with
    | some entry =>
      if cache.ttl < now - entry.insertedAt then
        (none, { cache with entries := Assoc.erase cache.entries key })
      else (some entry.responseJson, cache)
    | none => (none, cache)

/-- Drops the oldest entries: those above the capacity, and a tenth of it more. -/
def maybeEvict : ExactCache Digest :=
  let len := cache.entries.length
  if len ≤ cache.maxEntries then cache
  else
    let overflow := len - cache.maxEntries
    let target := overflow + max (cache.maxEntries / 10) 1
    let byAge := (cache.entries.map fun e => (e.1, e.2.insertedAt)).mergeSort fun a b => a.2 ≤ b.2
    { cache with entries := (byAge.take target).foldl (fun es e => Assoc.erase es e.1) cache.entries }

def set (now : Nat) (request : OpenAIRequest) (responseJson : String) : ExactCache Digest :=
  if !cache.isEligible request then cache
  else
    let key := cache.computeKey numbers sha256 request
    maybeEvict { cache with
      entries := Assoc.put cache.entries key { responseJson, insertedAt := now } }

end ExactCache

inductive Call
  | get (now : Nat) (request : OpenAIRequest)
  | set (now : Nat) (request : OpenAIRequest) (responseJson : String)

def step (cache : ExactCache Digest) : Call → ExactCache Digest
  | .get now request => (cache.get numbers sha256 now request).2
  | .set now request responseJson => cache.set numbers sha256 now request responseJson

end

structure MessageAgree (m m' : Message) : Prop where
  role : m.role = m'.role
  content : SameUpToOrder m.content m'.content
  extra : SameUpToOrder (.object m.extra) (.object m'.extra)

/-- Requests that are equal in what the key is made of, up to the order of object keys. -/
structure Agree (r r' : OpenAIRequest) : Prop where
  model : r.model = r'.model
  messages : List.Forall₂ MessageAgree r.messages r'.messages
  maxTokens : r.maxTokens = r'.maxTokens
  extra : ∀ field ∈ keyedExtraFields,
    Option.Rel SameUpToOrder (Assoc.get r.extra field) (Assoc.get r'.extra field)

section
variable {numbers : NumberText}

theorem canonicalizeValue_object (fields : Json.Map) : canonicalizeValue numbers (.object fields) =
    Json.openBrace :: Json.commaJoin (((Assoc.keys fields).insertionSort (· ≤ ·)).map fun k =>
      Json.printString k ++ ':' :: ((Assoc.get fields k).map (canonicalizeValue numbers)).getD []) ++
        [Json.closeBrace] := by
  have hkeys : Assoc.keys (fields.map fun f => (f.1, canonicalizeValue numbers f.2)) =
      Assoc.keys fields := Assoc.keys_map _
  rw [canonicalizeValue, Json.fold_object, ← hkeys]
  simp only [← Assoc.get_map]
  rfl

/-- The canonical text is the text of the value with its keys sorted. -/
theorem canonicalizeValue_eq {v : Json} (h : v.nodupKeys = true) :
    canonicalizeValue numbers v = v.normalize.print numbers := by
  induction v with
  | null | bool | number | string => rfl
  | array items ih =>
    rw [canonicalizeValue, Json.fold_array, Json.normalize_array, Json.print_array, List.map_map]
    show '[' :: Json.commaJoin (items.map (canonicalizeValue numbers)) ++ [']'] = _
    rw [List.map_congr_left fun v hv => ih v hv (Json.nodupKeys_array.1 h v hv)]
    rfl
  | object fields ih =>
    obtain ⟨hkeys, hvals⟩ := Json.nodupKeys_object.1 h
    have hnodup : (Assoc.keys (Json.normalizeFields fields)).Nodup := by
      rwa [Json.keys_normalizeFields]
    have hsorted : (Assoc.keys fields).insertionSort (· ≤ ·) =
        (Assoc.sort (Json.normalizeFields fields)).map (·.1) := by
      rw [← Json.keys_normalizeFields, Assoc.sort,
        List.map_insertionSort _ (· ≤ ·) _ _ fun a _ b _ => Iff.rfl]
      rfl
    -- a sorted key is looked up where its field is
    have hlookup : ∀ f ∈ Assoc.sort (Json.normalizeFields fields),
        Json.printString f.1 ++ ':' :: ((Assoc.get fields f.1).map (canonicalizeValue numbers)).getD [] =
          Json.fieldText numbers f := by
      intro f hf
      have hget := (Assoc.mem_iff_get hnodup).1 (Assoc.sort_perm.mem_iff.1 hf)
      rw [Json.normalizeFields, Assoc.get_map] at hget
      obtain ⟨v, hv, hnorm⟩ := Option.map_eq_some_iff.1 hget
      have hmem := Assoc.mem_of_get hv
      rw [hv, Option.map_some, Option.getD_some, ih _ hmem (hvals _ hmem), hnorm]
      rfl
    rw [canonicalizeValue_object, Json.normalize_object, Json.print_object, hsorted, List.map_map]
    congr 3
    exact List.map_congr_left hlookup

theorem canonicalizeValue_inj {v w : Json} (hv : v.nodupKeys = true) (hw : w.nodupKeys = true) :
    canonicalizeValue numbers v = canonicalizeValue numbers w ↔ SameUpToOrder v w := by
  rw [canonicalizeValue_eq hv, canonicalizeValue_eq hw, Json.sameUpToOrder_iff hv]
  exact ⟨Json.print_injective, fun h => by rw [h]⟩

end

/-! ### What a text says about its request -/

theorem messageAgree_iff {m m' : Message} : m.toValue.normalize = m'.toValue.normalize ↔ MessageAgree m m' := by
  have hkeys : ∀ m : Message, (Assoc.keys m.fields).Nodup :=
    fun m => (Json.nodupKeys_object.1 m.nodupKeys_toValue).1
  have hextra := Json.normalize_object_eq_iff (Json.nodupKeys_object.1 m.extra_nodup).1
    (Json.nodupKeys_object.1 m'.extra_nodup).1
  rw [Message.toValue, Message.toValue, Json.normalize_object_eq_iff (hkeys m) (hkeys m')]
  constructor
  · intro h
    refine ⟨?_, (Json.sameUpToOrder_iff m.content_nodup).2 ?_,
      (Json.sameUpToOrder_iff m.extra_nodup).2 (hextra.2 fun k => ?_)⟩
    · have hrole := h "role"
      simp only [Message.get_fields, if_true, Option.map_some, Option.some.injEq] at hrole
      exact Json.string.inj hrole
    · simpa [Message.get_fields] using h "content"
    · have hk := h k
      rw [Message.get_fields, Message.get_fields] at hk
      by_cases hrole : k = "role"
      · subst hrole
        rw [Assoc.get_eq_none m.extra_role, Assoc.get_eq_none m'.extra_role]
      · by_cases hcontent : k = "content"
        · subst hcontent
          rw [Assoc.get_eq_none m.extra_content, Assoc.get_eq_none m'.extra_content]
        · rwa [if_neg hrole, if_neg hcontent, if_neg hrole, if_neg hcontent] at hk
  · rintro ⟨hrole, hcontent, hsame⟩ k
    rw [Json.sameUpToOrder_iff m.content_nodup] at hcontent
    rw [Json.sameUpToOrder_iff m.extra_nodup, hextra] at hsame
    rw [Message.get_fields, Message.get_fields, hrole]
    split
    · rfl
    · split
      · rw [Option.map_some, Option.map_some, hcontent]
      · exact hsame k

theorem get_insertKeyed {extra map : Json.Map} {field k : String} : Assoc.get (insertKeyed extra map field) k =
      if k = field then (Assoc.get extra k).or (Assoc.get map k) else Assoc.get map k := by
  rcases h : Assoc.get extra field with _ | v
  · simp only [insertKeyed, h]
    split
    · rename_i hk
      rw [hk, h, Option.none_or]
    · rfl
  simp only [insertKeyed, h, Assoc.get_insert]
  split
  · rename_i hk
    rw [hk, h, Option.some_or]
  · rfl

theorem get_foldl_insertKeyed {extra map : Json.Map} {fields : List String} {k : String} :
    Assoc.get (fields.foldl (insertKeyed extra) map) k =
      if k ∈ fields then (Assoc.get extra k).or (Assoc.get map k) else Assoc.get map k := by
  induction fields generalizing map with
  | nil => rfl
  | cons field fields ih =>
    rw [List.foldl_cons, ih, get_insertKeyed]
    by_cases hk : k = field
    · subst hk
      by_cases hmem : k ∈ fields <;> cases Assoc.get extra k <;> simp [hmem]
    · simp [hk]

section
variable {r r' : OpenAIRequest} {threshold : F32}

theorem get_rootFields (k : String) : Assoc.get (rootFields r threshold) k =
    if k = "max_tokens" then r.maxTokens.map fun mt => .number (.posInt mt.toUInt64)
    else if k = "temperature" then some (tempValue (canonicalTemp r threshold))
    else if k = "messages" then some (.array (r.messages.map Message.toValue))
    else if k = "model" then some (.string r.model) else none := by
  cases h : r.maxTokens with
  | some mt => simp only [rootFields, h, Assoc.get_insert, Option.map_some, Assoc.get_nil]
  | none =>
    simp only [rootFields, h, Assoc.get_insert, Option.map_none, Assoc.get_nil]
    by_cases hk : k = "max_tokens"
    · subst hk
      simp
    · rw [if_neg hk]

theorem get_root_of_mem {k : String} (h : k ∈ keyedExtraFields) : Assoc.get (root r threshold) k = Assoc.get r.extra k := by
  have hnone : Assoc.get (rootFields r threshold) k = none := by
    rw [get_rootFields]
    have hne : ∀ k ∈ keyedExtraFields, k ≠ "max_tokens" ∧ k ≠ "temperature" ∧ k ≠ "messages" ∧
        k ≠ "model" := by decide
    obtain ⟨h1, h2, h3, h4⟩ := hne k h
    rw [if_neg h1, if_neg h2, if_neg h3, if_neg h4]
  rw [root, get_foldl_insertKeyed, if_pos h, hnone, Option.or_none]

theorem get_root_of_not_mem {k : String} (h : k ∉ keyedExtraFields) :
    Assoc.get (root r threshold) k = Assoc.get (rootFields r threshold) k := by
  rw [root, get_foldl_insertKeyed, if_neg h]

theorem nodupKeys_rootFields : (Json.object (rootFields r threshold)).nodupKeys = true := by
  have hmessages : (Json.array (r.messages.map Message.toValue)).nodupKeys = true := by
    rw [Json.nodupKeys_array]
    intro v hv
    obtain ⟨m, -, rfl⟩ := List.mem_map.1 hv
    exact m.nodupKeys_toValue
  have htemp : (tempValue (canonicalTemp r threshold)).nodupKeys = true := by
    unfold tempValue
    cases Number.fromF64 (canonicalTemp r threshold).toF64 <;> rfl
  have hmodel : (Json.object (Assoc.insert [] "model" (.string r.model))).nodupKeys = true :=
    Json.nodupKeys_insert rfl rfl
  have hbase := Json.nodupKeys_insert (k := "temperature")
    (Json.nodupKeys_insert (k := "messages") hmodel hmessages) htemp
  cases h : r.maxTokens with
  | some mt =>
    simp only [rootFields, h]
    exact Json.nodupKeys_insert hbase rfl
  | none =>
    simp only [rootFields, h]
    exact hbase

theorem nodupKeys_root : (Json.object (root r threshold)).nodupKeys = true := by
  have hextra := (Json.nodupKeys_object.1 r.extra_nodup).2
  have hloop : ∀ (fields : List String) (map : Json.Map), (Json.object map).nodupKeys = true →
      (Json.object (fields.foldl (insertKeyed r.extra) map)).nodupKeys = true := by
    intro fields
    induction fields with
    | nil => exact fun map h => h
    | cons field fields ih =>
      intro map h
      refine ih _ ?_
      unfold insertKeyed
      split
      · rename_i v hv
        exact Json.nodupKeys_insert h (hextra _ (Assoc.mem_of_get hv))
      · exact h
  exact hloop _ _ nodupKeys_rootFields

theorem normalize_tempValue (temp : F32) : (tempValue temp).normalize = tempValue temp := by
  unfold tempValue
  cases Number.fromF64 temp.toF64 <;> rfl

theorem messages_agree_iff {ms ms' : List Message} :
    (Json.array (ms.map Message.toValue)).normalize = (Json.array (ms'.map Message.toValue)).normalize ↔
      List.Forall₂ MessageAgree ms ms' := by
  rw [Json.normalize_array, Json.normalize_array, Json.array.injEq, ← List.forall₂_eq_eq_eq,
    List.map_map, List.map_map, List.forall₂_map_left_iff, List.forall₂_map_right_iff]
  simp only [Function.comp_apply, messageAgree_iff]

theorem extra_agree_iff {field : String} :
    (Assoc.get r.extra field).map Json.normalize = (Assoc.get r'.extra field).map Json.normalize ↔
      Option.Rel SameUpToOrder (Assoc.get r.extra field) (Assoc.get r'.extra field) := by
  have hnodup := (Json.nodupKeys_object.1 r.extra_nodup).2
  rcases h : Assoc.get r.extra field with _ | v
  · cases Assoc.get r'.extra field with
    | none => exact ⟨fun _ => .none, fun _ => rfl⟩
    | some w => exact ⟨fun h => (by cases h), fun h => by cases h⟩
  have hsame : ∀ w, SameUpToOrder v w ↔ v.normalize = w.normalize :=
    fun w => Json.sameUpToOrder_iff (hnodup _ (Assoc.mem_of_get h))
  rcases Assoc.get r'.extra field with _ | w
  · exact ⟨fun h => (by cases h), fun h => by cases h⟩
  constructor
  · intro heq
    exact .some ((hsame w).2 (Option.some.inj heq))
  · rintro ⟨hrel⟩
    rw [Option.map_some, Option.map_some, (hsame w).1 ‹_›]

theorem maxTokens_injective : Function.Injective
    (Json.normalize ∘ fun mt : UInt32 => Json.number (.posInt mt.toUInt64)) := by
  intro mt mt' h
  have hnum : mt.toUInt64 = mt'.toUInt64 := Number.posInt.inj (Json.number.inj h)
  exact UInt32.toUInt64_inj.1 hnum

/-- The text of a request says what the key is made of, and the canonical temperature. -/
theorem canonicalizeRequest_eq_iff {numbers : NumberText} :
    canonicalizeRequest numbers r threshold = canonicalizeRequest numbers r' threshold ↔
      Agree r r' ∧ tempValue (canonicalTemp r threshold) = tempValue (canonicalTemp r' threshold) := by
  have hkeys : ∀ {r}, (Assoc.keys (root r threshold)).Nodup :=
    (Json.nodupKeys_object.1 nodupKeys_root).1
  rw [canonicalizeRequest, canonicalizeRequest, canonicalizeValue_inj nodupKeys_root nodupKeys_root,
    Json.sameUpToOrder_iff nodupKeys_root, Json.normalize_object_eq_iff hkeys hkeys]
  constructor
  · intro h
    have hfixed : ∀ k ∉ keyedExtraFields, (Assoc.get (rootFields r threshold) k).map Json.normalize =
        (Assoc.get (rootFields r' threshold) k).map Json.normalize := fun k hk => by
      rw [← get_root_of_not_mem hk, ← get_root_of_not_mem hk, h k]
    have hmodel := hfixed "model" (by decide)
    have hmessages := hfixed "messages" (by decide)
    have htemp := hfixed "temperature" (by decide)
    have hmax := hfixed "max_tokens" (by decide)
    simp only [get_rootFields, String.reduceEq, if_true, if_false, Option.map_some,
      Option.some.injEq] at hmodel hmessages htemp hmax
    refine ⟨⟨Json.string.inj hmodel, messages_agree_iff.1 hmessages, ?_, fun field hfield => ?_⟩, ?_⟩
    · rw [Option.map_map, Option.map_map] at hmax
      exact Option.map_injective maxTokens_injective hmax
    · rw [← extra_agree_iff, ← get_root_of_mem hfield, ← get_root_of_mem hfield, h field]
    · rwa [normalize_tempValue, normalize_tempValue] at htemp
  · rintro ⟨hagree, htemp⟩ k
    by_cases hk : k ∈ keyedExtraFields
    · rw [get_root_of_mem hk, get_root_of_mem hk, extra_agree_iff]
      exact hagree.extra k hk
    · rw [get_root_of_not_mem hk, get_root_of_not_mem hk, get_rootFields, get_rootFields,
        hagree.model, hagree.maxTokens, htemp]
      split_ifs
      · rfl
      · rfl
      · rw [Option.map_some, Option.map_some, messages_agree_iff.2 hagree.messages]
      · rfl
      · rfl

theorem canonicalTemp_eq_zero (hth : threshold.isNan = false)
    (h : isCacheEligible r threshold = true) : canonicalTemp r threshold = F32.zero := by
  rcases ht : r.temperature with _ | t
  · rw [canonicalTemp, ht, Option.map_none, Option.getD_none]
  have hgt : t.1.gt threshold = false := by
    simp only [isCacheEligible, ht, Option.map_some, Option.getD_some] at h
    by_contra hgt
    rw [if_pos (by simpa using hgt)] at h
    cases h
  rw [canonicalTemp, ht, Option.map_some, Option.getD_some,
    if_pos (F32.le_of_not_gt t.2 hth hgt)]

end

def bareRequest (temperature : Option { t : F32 // t.isNan = false }) : OpenAIRequest where
  model := ""
  messages := []
  stream := false
  temperature := temperature
  maxTokens := none
  extra := []
  extra_nodup := rfl

def half : F32 := ⟨0x3f000000⟩

theorem bareRequest_eligible {threshold : F32} (hth : threshold.isNan = true)
    (temperature : Option { t : F32 // t.isNan = false }) :
    isCacheEligible (bareRequest temperature) threshold = true := by
  simp [isCacheEligible, bareRequest, F32.gt, hth]

theorem bareRequest_agree (temperature temperature' : Option { t : F32 // t.isNan = false }) :
    Agree (bareRequest temperature) (bareRequest temperature') where
  model := rfl
  messages := .nil
  maxTokens := rfl
  extra _ _ := .none

theorem bareRequest_ne {numbers : NumberText} {threshold : F32} (hth : threshold.isNan = true) :
    canonicalizeRequest numbers (bareRequest none) threshold ≠
      canonicalizeRequest numbers (bareRequest (some ⟨half, rfl⟩)) threshold := by
  rw [Ne, canonicalizeRequest_eq_iff]
  rintro ⟨-, htemp⟩
  have hhalf : canonicalTemp (bareRequest (some ⟨half, rfl⟩)) threshold = half := by
    simp [canonicalTemp, bareRequest, F32.le, hth]
  have hne : tempValue F32.zero ≠ tempValue half := by decide
  rw [hhalf] at htemp
  exact hne htemp

theorem keyed_exactly_iff {numbers : NumberText} {threshold : F32} :
    (∀ r r', isCacheEligible r threshold = true → isCacheEligible r' threshold = true →
      (canonicalizeRequest numbers r threshold = canonicalizeRequest numbers r' threshold ↔
        Agree r r')) ↔ threshold.isNan = false := by
  constructor
  · intro h
    by_contra hnan
    have hth : threshold.isNan = true := by simpa using hnan
    exact bareRequest_ne hth ((h _ _ (bareRequest_eligible hth none)
      (bareRequest_eligible hth (some ⟨half, rfl⟩))).2 (bareRequest_agree _ _))
  · intro hth r r' hr hr'
    rw [canonicalizeRequest_eq_iff, canonicalTemp_eq_zero hth hr, canonicalTemp_eq_zero hth hr']
    exact and_iff_left rfl

/-! ### Hits -/

section
variable {Digest : Type} [DecidableEq Digest] {numbers : NumberText} {sha256 : List Char → Digest}

def Stored (numbers : NumberText) (sha256 : List Char → Digest) (calls : List Call)
    (cache : ExactCache Digest) : Prop :=
  ∀ key entry, (key, entry) ∈ cache.entries → ∃ now request,
    Call.set now request entry.responseJson ∈ calls ∧ cache.isEligible request = true ∧
      key = cache.computeKey numbers sha256 request

/-- What a call can do to the cache: its settings stay, and a new entry is that of an eligible `set`. -/
structure StepOk (numbers : NumberText) (sha256 : List Char → Digest) (cache cache' : ExactCache Digest)
    (call : Call) : Prop where
  enabled : cache'.enabled = cache.enabled
  threshold : cache'.temperatureThreshold = cache.temperatureThreshold
  entries : ∀ e ∈ cache'.entries, e ∈ cache.entries ∨ ∃ now request responseJson,
    call = .set now request responseJson ∧ cache.isEligible request = true ∧
      e = (cache.computeKey numbers sha256 request, ⟨responseJson, now⟩)

theorem maybeEvict_ok (cache : ExactCache Digest) : cache.maybeEvict.enabled = cache.enabled ∧
    cache.maybeEvict.temperatureThreshold = cache.temperatureThreshold ∧
    ∀ e ∈ cache.maybeEvict.entries, e ∈ cache.entries := by
  have herase : ∀ (e : Digest × ExactCacheEntry) (old : List (Digest × Nat))
      (es : List (Digest × ExactCacheEntry)),
      e ∈ old.foldl (fun es e => Assoc.erase es e.1) es → e ∈ es := by
    intro e old
    induction old with
    | nil => exact fun es h => h
    | cons o old ih => exact fun es h => (List.mem_filter.1 (ih _ h)).1
  by_cases hlen : cache.entries.length ≤ cache.maxEntries
  · rw [ExactCache.maybeEvict, if_pos hlen]
    exact ⟨rfl, rfl, fun e h => h⟩
  · rw [ExactCache.maybeEvict, if_neg hlen]
    exact ⟨rfl, rfl, fun e h => herase e _ _ h⟩

theorem step_ok (numbers : NumberText) (sha256 : List Char → Digest) (cache : ExactCache Digest) (call : Call) :
    StepOk numbers sha256 cache (step numbers sha256 cache call) call := by
  have hsame : StepOk numbers sha256 cache cache call := ⟨rfl, rfl, fun e h => .inl h⟩
  cases call with
  | get now request =>
    simp only [step, ExactCache.get]
    split
    · exact hsame
    · split
      · split
        · exact ⟨rfl, rfl, fun e h => .inl (List.mem_filter.1 h).1⟩
        · exact hsame
      · exact hsame
  | set now request responseJson =>
    by_cases helig : cache.isEligible request = true
    · simp only [step, ExactCache.set, helig, Bool.not_true, Bool.false_eq_true, if_false]
      obtain ⟨henabled, hth, hentries⟩ := maybeEvict_ok { cache with
        entries := Assoc.put cache.entries (cache.computeKey numbers sha256 request)
          ⟨responseJson, now⟩ }
      refine ⟨henabled, hth, fun e he => ?_⟩
      rcases List.mem_cons.1 (hentries e he) with rfl | he
      · exact .inr ⟨now, request, responseJson, rfl, helig, rfl⟩
      · exact .inl (List.mem_filter.1 he).1
    · simp only [step, ExactCache.set, helig, Bool.not_false, if_true]
      exact hsame

theorem Stored.step {calls : List Call} {cache : ExactCache Digest} (h : Stored numbers sha256 calls cache) (call : Call) :
    Stored numbers sha256 (calls ++ [call]) (step numbers sha256 cache call) := by
  obtain ⟨henabled, hth, hentries⟩ := step_ok numbers sha256 cache call
  intro key entry hmem
  simp only [ExactCache.isEligible, ExactCache.computeKey, henabled, hth]
  rcases hentries _ hmem with hold | ⟨now, request, responseJson, rfl, helig, heq⟩
  · obtain ⟨now, request, hcall, helig, hkey⟩ := h key entry hold
    exact ⟨now, request, List.mem_append_left _ hcall, helig, hkey⟩
  · cases heq
    exact ⟨now, request, List.mem_append_right _ (List.mem_singleton.2 rfl), helig, rfl⟩

theorem stored_run (config : ExactCacheConfig) (calls : List Call) :
    Stored numbers sha256 calls (Run.run (step numbers sha256) (ExactCache.new config) calls) := by
  refine Run.invariant_hist (P := fun _ _ => True) (fun calls cache call h _ => h.step call) ?_
    (Run.along_of_forall fun _ _ _ => trivial)
  intro key entry hmem
  cases hmem

theorem hit_entry {cache : ExactCache Digest} {now : Nat} {request : OpenAIRequest} {response : String}
    (h : (cache.get numbers sha256 now request).1 = some response) : ∃ entry,
    (cache.computeKey numbers sha256 request, entry) ∈ cache.entries ∧ entry.responseJson = response := by
  simp only [ExactCache.get] at h
  split at h
  · cases h
  · split at h
    · rename_i entry hentry
      split at h
      · cases h
      · exact ⟨entry, Assoc.mem_of_get hentry, Option.some.inj h⟩
    · cases h

theorem hit_agrees (hsha : Function.Injective sha256) {config : ExactCacheConfig} {calls : List Call}
    {now : Nat} {request : OpenAIRequest} {response : String}
    (h : ((Run.run (step numbers sha256) (ExactCache.new config) calls).get numbers sha256 now
      request).1 = some response) :
    ∃ now' request', Call.set now' request' response ∈ calls ∧ Agree request' request := by
  obtain ⟨entry, hmem, rfl⟩ := hit_entry h
  obtain ⟨now', request', hcall, -, hkey⟩ := stored_run config calls _ _ hmem
  exact ⟨now', request', hcall, (canonicalizeRequest_eq_iff.1 (hsha hkey.symm)).1⟩

/-- A hit is a response that was stored for an agreeing request. The requests that the cache takes have equal texts
exactly when they agree, if and only if the threshold is a number. -/
theorem exact_cache_law (numbers : NumberText) (sha256 : List Char → Digest)
    (hsha : Function.Injective sha256) (config : ExactCacheConfig) :
    (∀ v w : Json, v.nodupKeys = true → w.nodupKeys = true →
      (canonicalizeValue numbers v = canonicalizeValue numbers w ↔ SameUpToOrder v w)) ∧
    (∀ calls now request response,
      ((Run.run (step numbers sha256) (ExactCache.new config) calls).get numbers sha256 now
        request).1 = some response →
      ∃ now' request', Call.set now' request' response ∈ calls ∧ Agree request' request) ∧
    ((∀ r r', isCacheEligible r config.temperatureThreshold = true →
        isCacheEligible r' config.temperatureThreshold = true →
        (canonicalizeRequest numbers r config.temperatureThreshold =
          canonicalizeRequest numbers r' config.temperatureThreshold ↔ Agree r r')) ↔
      config.temperatureThreshold.isNan = false) := by
  refine ⟨fun v w => canonicalizeValue_inj, fun calls now request response h => ?_, keyed_exactly_iff⟩
  exact hit_agrees hsha h

end

/-- `ExactCacheConfig::default`, with the threshold 0.15 -/
def defaultConfig : ExactCacheConfig := ⟨true, 5000, 3600, ⟨0x3e19999a⟩⟩

theorem default_cache_law : Function.Injective (id : List Char → List Char) ∧
    ∀ r r', isCacheEligible r defaultConfig.temperatureThreshold = true →
      isCacheEligible r' defaultConfig.temperatureThreshold = true →
      (canonicalizeRequest Json.wireNumbers r defaultConfig.temperatureThreshold =
        canonicalizeRequest Json.wireNumbers r' defaultConfig.temperatureThreshold ↔ Agree r r') := by
  obtain ⟨-, -, hkeyed⟩ := exact_cache_law Json.wireNumbers id Function.injective_id defaultConfig
  exact ⟨Function.injective_id, hkeyed.2 rfl⟩

/-- With `temperature_threshold: .nan` two requests that differ in nothing but their temperature are both
taken, under different texts. -/
theorem nan_threshold_splits_requests : isCacheEligible (bareRequest none) ⟨0x7fc00000⟩ = true ∧
    isCacheEligible (bareRequest (some ⟨half, rfl⟩)) ⟨0x7fc00000⟩ = true ∧
    Agree (bareRequest none) (bareRequest (some ⟨half, rfl⟩)) ∧
    canonicalizeRequest Json.wireNumbers (bareRequest none) ⟨0x7fc00000⟩ ≠
      canonicalizeRequest Json.wireNumbers (bareRequest (some ⟨half, rfl⟩)) ⟨0x7fc00000⟩ :=
  ⟨rfl, rfl, bareRequest_agree _ _, bareRequest_ne rfl⟩

end ObeyGateway.Cache
