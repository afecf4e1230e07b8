import ObeyGateway.Lib.JsonOrder
import ObeyGateway.Lib.Prefixed
import ObeyGateway.Lib.Utf8
import ObeyGateway.Router.ToolHistory
import ObeyGateway.SmartRouting.SmartRouter

/-!
# The semantic cache

`smart_routing/semantic_cache.rs`. An entry belongs to a scope, the hash of what is compared exactly (`scopeKey`); what
is compared by similarity is the embedding of a text of the messages (`semanticText`). The index keeps the entries by
id and their ids by last use (`IndexState`). `CacheSystem` has the calls under way, `CacheSystem.step` what one does
under the lock or between two awaits.
-/

namespace ObeyGateway.SmartRouting
open Json (NumberText)
open Models (Message OpenAIRequest)

/-- Store-owned and not empty. -/
abbrev OpaquePayloadRef := { value : List UInt8 // value ≠ [] }

inductive EmbeddingProviderErrorKind
  | unavailable | timeout | rejected | backend

inductive PayloadStoreErrorKind
  | unavailable | timeout | encryption | invalidReference | backend

structure SemanticCacheConfig (F : Type) where
  maxEntries : Nat
  ttl : Nat
  similarityThreshold : F
  minQualityScore : F
  embeddingNamespace : String
  policyVersion : String

inductive SemanticCacheConfigError
  | zeroCapacity | zeroTtl | invalidSimilarityThreshold | invalidMinimumQuality | invalidEmbeddingNamespace
  | invalidPolicyVersion

structure CacheRequestContext where
  responseBuffered : Bool
  personalized : Bool
  deterministic : Bool

structure CacheEligibilityPolicy where
  allowTools : Bool := false
  allowUnbufferedStreams : Bool := false
  allowPersonalized : Bool := false
  allowNondeterministic : Bool := false

inductive CacheIneligibility
  | tools | unbufferedStream | personalized | nondeterministic | emptySemanticInput | qualityBelowMinimum

structure ResponseProvenance where
  model : String
  tier : SmartRoutingTier

/-- `model_group` is a string, of less than `2 ^ 63` bytes as any. -/
structure MetadataLookupRequest where
  request : OpenAIRequest
  modelGroup : String
  context : CacheRequestContext
  modelGroup_lt : (Utf8.encode modelGroup.toList).length < 2 ^ 63

section
variable {F : Type} (A : Scores F)

structure SemanticMetadataHit where
  entryId : Nat
  similarity : ComplexityScore A
  qualityScore : ComplexityScore A
  decision : RoutingDecision A
  provenance : ResponseProvenance

inductive MetadataLookupOutcome
  | hit (hit : SemanticMetadataHit A)
  | miss
  | ineligible (reason : CacheIneligibility)

inductive MetadataLookupFailure
  | embedding (kind : EmbeddingProviderErrorKind)
  | invalidEmbedding
  | embeddingDimensionMismatch

inductive SemanticInsertFailure
  | embedding (kind : EmbeddingProviderErrorKind)
  | invalidEmbedding
  | embeddingDimensionMismatch
  | store (kind : PayloadStoreErrorKind)

inductive SemanticInsertOutcome
  | inserted (entryId : Nat)
  | ineligible (reason : CacheIneligibility)

structure SemanticInsertRequest extends MetadataLookupRequest where
  qualityScore : ComplexityScore A
  decision : RoutingDecision A
  provenance : ResponseProvenance

structure IndexEntry where
  id : Nat
  requestDigest : List UInt8
  scopeKey : List UInt8
  embedding : List F32
  qualityScore : ComplexityScore A
  decision : RoutingDecision A
  provenance : ResponseProvenance
  payloadRef : OpaquePayloadRef
  expiresAt : Nat

structure IndexState where
  entries : List (Nat × IndexEntry A)
  lru : List Nat
  embeddingDimension : Option Nat

inductive PayloadRefLookup
  | live (ref : OpaquePayloadRef)
  | expired (ref : OpaquePayloadRef)
  | missing

/-- Number texts, SHA-256, and on embeddings the cosine, the order of its values, and whether a norm is large enough. -/
structure SemanticPrimitives where
  numbers : NumberText
  sha256 : List UInt8 → List UInt8
  cosineSimilarity : List F32 → List F32 → Option F
  totalCmp : F → F → Ordering
  normAboveMin : List F32 → Bool

def isUnitInterval (value : F) : Bool := A.isFinite value && A.inUnit value

def maxIdentityLabelBytes : Nat := 256

def validateIdentityLabel (value : String) : Bool :=
  !(Text.trim value.toList).isEmpty && (Utf8.encode value.toList).length ≤ maxIdentityLabelBytes

def SemanticCacheConfig.validate (config : SemanticCacheConfig F) : Except SemanticCacheConfigError Unit :=
  if config.maxEntries = 0 then .error .zeroCapacity
  else if config.ttl = 0 then .error .zeroTtl
  else if !isUnitInterval A config.similarityThreshold then .error .invalidSimilarityThreshold
  else if !isUnitInterval A config.minQualityScore then .error .invalidMinimumQuality
  else if !validateIdentityLabel config.embeddingNamespace then .error .invalidEmbeddingNamespace
  else if !validateIdentityLabel config.policyVersion then .error .invalidPolicyVersion
  else .ok ()

/-- A cache without its index: what `new` has validated. -/
structure InMemorySemanticCache where
  config : SemanticCacheConfig F
  tenantAuthHash : List UInt8
  eligibility : CacheEligibilityPolicy
  valid : config.validate A = .ok ()
  tenantAuthHash_length : tenantAuthHash.length = 32

end

def eqIgnoreAsciiCase (a b : String) : Bool := a.toList.map Char.toLower = b.toList.map Char.toLower

def isInstruction (m : Message) : Bool := eqIgnoreAsciiCase m.role "system" || eqIgnoreAsciiCase m.role "developer"

def requestUsesTools (request : OpenAIRequest) : Bool :=
  (Assoc.get request.extra "tools").isSome || (Assoc.get request.extra "tool_choice").isSome ||
    request.messages.any fun m =>
      eqIgnoreAsciiCase m.role "tool" || (Assoc.get m.extra "tool_calls").isSome ||
        (Assoc.get m.extra "function_call").isSome

section
variable (numbers : NumberText)

def contentAsText : Json → List Char
  | .string s => s.toList
  | .array parts => parts.flatMap Xml.textOfPart
  | .null => []
  | other => other.print numbers

def semanticText (request : OpenAIRequest) : List Char :=
  request.messages.foldl (fun semantic m =>
    if isInstruction m || eqIgnoreAsciiCase m.role "tool" then semantic
    else
      let content := contentAsText numbers m.content
      if (Text.trim content).isEmpty then semantic
      else (if semantic.isEmpty then semantic else semantic ++ ['\n']) ++ m.role.toList ++ ':' :: content) []

end

def optionF32 (value : Option { t : F32 // t.isNan = false }) : Json :=
  ((value.bind fun t => Number.fromF64 t.1.toF64).map .number).getD .null

def canonicalMessage (m : Message) : Json :=
  Json.normalize (.object (Assoc.insert (Assoc.insert (Assoc.insert [] "role" (.string m.role)) "content" m.content)
    "extra" (.object m.extra)))

def responseFields (request : OpenAIRequest) : Json.Map :=
  let root := Assoc.insert [] "temperature" (optionF32 request.temperature)
  let root := Assoc.insert root "max_tokens"
    ((request.maxTokens.map fun n => Json.number (.posInt n.toUInt64)).getD .null)
  let root := Assoc.insert root "instructions" (.array ((request.messages.filter isInstruction).map canonicalMessage))
  Assoc.insert root "extra" (.object request.extra)

def canonicalResponseFields (request : OpenAIRequest) : Json := Json.normalize (.object (responseFields request))

/-- `serde_json::to_value` of a request -/
def requestValue (request : OpenAIRequest) : Json :=
  let root := Assoc.insert [] "model" (.string request.model)
  let root := Assoc.insert root "messages" (.array (request.messages.map Message.toValue))
  let root := Assoc.insert root "stream" (.bool request.stream)
  let root := if request.temperature.isSome then Assoc.insert root "temperature" (optionF32 request.temperature) else root
  let root := match request.maxTokens with
    | some n => Assoc.insert root "max_tokens" (.number (.posInt n.toUInt64))
    | none => root
  .object (request.extra.foldl (fun root f => Assoc.insert root f.1 f.2) root)

def hashField (label : String) (value : List UInt8) : List UInt8 := Prefixed.field (Utf8.encode label.toList) value

/-- The last element that no other one exceeds. -/
def maxBy {α : Type} (cmp : α → α → Ordering) : List α → Option α
  | [] => none
  | a :: l => some (l.foldl (fun best b => if cmp best b = .gt then best else b) a)

section
variable {F : Type} {A : Scores F} (K : @SemanticPrimitives F)

def canonicalJson (v : Json) : List UInt8 := Utf8.encode (v.print K.numbers)

def InMemorySemanticCache.scopeKey (cache : InMemorySemanticCache A) (request : OpenAIRequest) (modelGroup : String) :
    List UInt8 :=
  K.sha256 (hashField "tenant_auth" cache.tenantAuthHash ++
    (hashField "model_group" (Utf8.encode modelGroup.toList) ++
      (hashField "embedding_namespace" (Utf8.encode cache.config.embeddingNamespace.toList) ++
        (hashField "policy_version" (Utf8.encode cache.config.policyVersion.toList) ++
          hashField "response_fields" (canonicalJson K (canonicalResponseFields request))))))

def requestDigest (request : OpenAIRequest) (scopeKey : List UInt8) : List UInt8 :=
  K.sha256 (hashField "scope" scopeKey ++
    hashField "request" (canonicalJson K (requestValue request).normalize))

def validateEmbedding (embedding : List F32) : Bool :=
  !embedding.isEmpty && embedding.all F32.isFinite && K.normAboveMin embedding

def InMemorySemanticCache.ineligibility (cache : InMemorySemanticCache A) (request : OpenAIRequest)
    (context : CacheRequestContext) (qualityScore : Option (ComplexityScore A)) : Option CacheIneligibility :=
  if requestUsesTools request && !cache.eligibility.allowTools then some .tools
  else if request.stream && !context.responseBuffered && !cache.eligibility.allowUnbufferedStreams then
    some .unbufferedStream
  else if context.personalized && !cache.eligibility.allowPersonalized then some .personalized
  else if !context.deterministic && !cache.eligibility.allowNondeterministic then some .nondeterministic
  else if qualityScore.any fun score => A.lt score.value cache.config.minQualityScore then some .qualityBelowMinimum
  else none

namespace IndexState
variable (s : IndexState A)

def new : IndexState A := ⟨[], [], none⟩

def validateDimension (dimension : Nat) : Option (IndexState A) :=
  match s.embeddingDimension with
  | some expected => if expected ≠ dimension then none else some s
  | none => some { s with embeddingDimension := some dimension }

def remove (id : Nat) : Option (IndexEntry A) × IndexState A :=
  (Assoc.get s.entries id, { s with entries := Assoc.erase s.entries id, lru := s.lru.filter (· ≠ id) })

def removeAll : List Nat → IndexState A → List OpaquePayloadRef × IndexState A
  | [], s => ([], s)
  | id :: ids, s =>
    let removed := s.remove id
    let rest := removeAll ids removed.2
    (removed.1.toList.map (·.payloadRef) ++ rest.1, rest.2)

def removeExpired (now : Nat) : List OpaquePayloadRef × IndexState A :=
  removeAll ((s.entries.filter (·.2.expiresAt ≤ now)).map Prod.fst) s

/-- The loop that makes room; every turn takes an id from the order, so that its length bounds them. -/
def evict (capacity : Nat) : Nat → IndexState A → List OpaquePayloadRef × IndexState A
  | 0, s => ([], s)
  | turns + 1, s =>
    if capacity ≤ s.entries.length then
      match s.lru.head? with
      | none => ([], s)
      | some oldest =>
        let removed := s.remove oldest
        let rest := evict capacity turns removed.2
        (removed.1.toList.map (·.payloadRef) ++ rest.1, rest.2)
    else ([], s)

def insert (entry : IndexEntry A) (capacity : Nat) : List OpaquePayloadRef × IndexState A :=
  let replaced := match s.entries.find? (·.2.requestDigest = entry.requestDigest) with
    | none => ([], s)
    | some existing => removeAll [existing.1] s
  let evicted := evict capacity replaced.2.lru.length replaced.2
  (replaced.1 ++ evicted.1,
    { evicted.2 with
      entries := Assoc.put evicted.2.entries entry.id entry
      lru := evicted.2.lru ++ [entry.id] })

def touch (id : Nat) : IndexState A := { s with lru := s.lru.filter (· ≠ id) ++ [id] }

def payloadRef (id now : Nat) : PayloadRefLookup × IndexState A :=
  match Assoc.get s.entries id with
  | none => (.missing, s)
  | some entry =>
    if entry.expiresAt ≤ now then
      let removed := s.remove id
      ((removed.1.map fun e => PayloadRefLookup.expired e.payloadRef).getD .missing, removed.2)
    else (.live entry.payloadRef, s.touch id)

def best (config : SemanticCacheConfig F) (scopeKey : List UInt8) (embedding : List F32) :
    Option (IndexEntry A × F) :=
  let candidates := (s.entries.map Prod.snd).filter fun e =>
    e.scopeKey = scopeKey && A.le config.minQualityScore e.qualityScore.value
  let similar := candidates.filterMap fun e => (K.cosineSimilarity embedding e.embedding).map fun similarity =>
    (e, similarity)
  maxBy (fun a b => (K.totalCmp a.2 b.2).then (compare a.1.id b.1.id))
    (similar.filter fun e => A.le config.similarityThreshold e.2)

end IndexState

/-! ### Calls under way -/

/-- Where an insert is: before the payload is put into the store, behind that, and with an id for its entry. -/
inductive InsertPhase
  | checked
  | stored (ref : OpaquePayloadRef)
  | numbered (ref : OpaquePayloadRef) (id : Nat)

structure InsertTask (A : Scores F) where
  input : SemanticInsertRequest A
  embedding : List F32
  phase : InsertPhase

/-- The cache with its calls under way, and what has happened: ids by use, references returned and deleted, inserts
indexed. -/
structure CacheSystem (A : Scores F) where
  index : IndexState A
  nextId : Nat
  tasks : List (InsertTask A)
  now : Nat
  used : List Nat
  puts : List OpaquePayloadRef
  scheduled : List OpaquePayloadRef
  committed : List (Nat × InsertTask A)

inductive CacheAction (A : Scores F)
  | insert (input : SemanticInsertRequest A) (embedded : Except EmbeddingProviderErrorKind (List F32))
  | put (task : Nat) (answer : Except PayloadStoreErrorKind OpaquePayloadRef)
  | number (task : Nat)
  | commit (task : Nat) (now : Nat)
  | lookup (input : MetadataLookupRequest) (embedded : Except EmbeddingProviderErrorKind (List F32)) (now : Nat)
  | retrieve (entryId : Nat) (now : Nat)

namespace CacheSystem

/-- `AtomicU64::new(1)` -/
def new : CacheSystem A := ⟨.new, 1, [], 0, [], [], [], []⟩

variable (cache : InMemorySemanticCache A) (s : CacheSystem A)

/-- `insert` up to the store; without an answer the call goes on. -/
def beginInsert (input : SemanticInsertRequest A) (embedded : Except EmbeddingProviderErrorKind (List F32)) :
    Option (Except SemanticInsertFailure SemanticInsertOutcome) × CacheSystem A :=
  match cache.ineligibility input.request input.context (some input.qualityScore) with
  | some reason => (some (.ok (.ineligible reason)), s)
  | none =>
    if (semanticText K.numbers input.request).isEmpty then (some (.ok (.ineligible .emptySemanticInput)), s)
    else
      match embedded with
      | .error kind => (some (.error (.embedding kind)), s)
      | .ok embedding =>
        if !validateEmbedding K embedding then (some (.error .invalidEmbedding), s)
        else
          match s.index.validateDimension embedding.length with
          | none => (some (.error .embeddingDimensionMismatch), s)
          | some index => (none, { s with index, tasks := s.tasks ++ [⟨input, embedding, .checked⟩] })

def putPayload (task : Nat) (answer : Except PayloadStoreErrorKind OpaquePayloadRef) : CacheSystem A :=
  match s.tasks[task]? with
  | some ⟨input, embedding, .checked⟩ =>
    match answer with
    | .error _ => { s with tasks := s.tasks.eraseIdx task }
    | .ok ref => { s with tasks := s.tasks.set task ⟨input, embedding, .stored ref⟩, puts := s.puts ++ [ref] }
  | _ => s

/-- `next_entry_id`: zero is skipped, and the counter wraps. -/
def nextEntryId : Nat × Nat := if s.nextId = 0 then (1, 2) else (s.nextId, (s.nextId + 1) % 2 ^ 64)

def numberEntry (task : Nat) : CacheSystem A :=
  match s.tasks[task]? with
  | some ⟨input, embedding, .stored ref⟩ =>
    { s with
      nextId := s.nextEntryId.2
      tasks := s.tasks.set task ⟨input, embedding, .numbered ref s.nextEntryId.1⟩ }
  | _ => s

end CacheSystem

def InMemorySemanticCache.entry (cache : InMemorySemanticCache A) (input : SemanticInsertRequest A)
    (embedding : List F32) (ref : OpaquePayloadRef) (id now : Nat) : IndexEntry A where
  id := id
  requestDigest := requestDigest K input.request (cache.scopeKey K input.request input.modelGroup)
  scopeKey := cache.scopeKey K input.request input.modelGroup
  embedding := embedding
  qualityScore := input.qualityScore
  decision := input.decision
  provenance := input.provenance
  payloadRef := ref
  expiresAt := now + cache.config.ttl

namespace CacheSystem
variable (cache : InMemorySemanticCache A) (s : CacheSystem A)

/-- The locked section of `insert`. -/
def commit (task now : Nat) : CacheSystem A :=
  match s.tasks[task]? with
  | some ⟨input, embedding, .numbered ref id⟩ =>
    let expired := s.index.removeExpired now
    let inserted := expired.2.insert (cache.entry K input embedding ref id now) cache.config.maxEntries
    { s with
      index := inserted.2
      tasks := s.tasks.eraseIdx task
      now := now
      used := s.used ++ [id]
      scheduled := s.scheduled ++ (expired.1 ++ inserted.1)
      committed := s.committed ++ [(id, ⟨input, embedding, .numbered ref id⟩)] }
  | _ => s

def lookupMetadata (input : MetadataLookupRequest) (embedded : Except EmbeddingProviderErrorKind (List F32))
    (now : Nat) : Except MetadataLookupFailure (MetadataLookupOutcome A) × CacheSystem A :=
  match cache.ineligibility input.request input.context none with
  | some reason => (.ok (.ineligible reason), s)
  | none =>
    if (semanticText K.numbers input.request).isEmpty then (.ok (.ineligible .emptySemanticInput), s)
    else
      match embedded with
      | .error kind => (.error (.embedding kind), s)
      | .ok embedding =>
        if !validateEmbedding K embedding then (.error .invalidEmbedding, s)
        else
          match s.index.validateDimension embedding.length with
          | none => (.error .embeddingDimensionMismatch, s)
          | some index =>
            let expired := index.removeExpired now
            let s := { s with now := now, scheduled := s.scheduled ++ expired.1 }
            match expired.2.best K cache.config (cache.scopeKey K input.request input.modelGroup) embedding with
            | none => (.ok .miss, { s with index := expired.2 })
            | some (entry, similarity) =>
              (.ok (.hit
                { entryId := entry.id
                  similarity := .new A similarity
                  qualityScore := entry.qualityScore
                  decision := { entry.decision with cacheHit := true }
                  provenance := entry.provenance }),
                { s with index := expired.2.touch entry.id, used := s.used ++ [entry.id] })

def retrievePayload (entryId now : Nat) : Option OpaquePayloadRef × CacheSystem A :=
  let found := s.index.payloadRef entryId now
  match found.1 with
  | .live ref => (some ref, { s with index := found.2, now := now, used := s.used ++ [entryId] })
  | .expired ref => (none, { s with index := found.2, now := now, scheduled := s.scheduled ++ [ref] })
  | .missing => (none, { s with index := found.2, now := now })

/-- An action is a part of one call; an instant is not before the last one. -/
def step (s : CacheSystem A) : CacheAction A → CacheSystem A
  | .insert input embedded => (s.beginInsert K cache input embedded).2
  | .put task answer => s.putPayload task answer
  | .number task => s.numberEntry task
  | .commit task now => if s.now ≤ now then s.commit K cache task now else s
  | .lookup input embedded now => if s.now ≤ now then (s.lookupMetadata K cache input embedded now).2 else s
  | .retrieve entryId now => if s.now ≤ now then (s.retrievePayload entryId now).2 else s

end CacheSystem

end

end ObeyGateway.SmartRouting
