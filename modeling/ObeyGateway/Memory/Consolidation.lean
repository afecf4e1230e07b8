import Mathlib.Data.List.Dedup
import ObeyGateway.Lib.Json
import ObeyGateway.Lib.Run
import ObeyGateway.Lib.Text
import ObeyGateway.Memory.Store

/-!
# Consolidation

`memory/consolidation.rs`: near-duplicate entries are grouped, the provider decides on every group, and the decisions are
applied one after the other. The JSON reader, the reader of ids and the scanner are parameters; a similarity is compared with
the threshold as a fraction, without rounding. The vector index is left out.
-/

namespace ObeyGateway.Memory

def memoryTypeRank : MemoryType → Nat
  | .preference => 0
  | .fact => 1
  | .context => 2
  | .decision => 3

def normalizedTokens (content : String) : List (List Char) :=
  (((content.toList.splitOnP (!·.isAlphanum)).filter (!·.isEmpty)).map Text.toAsciiLowercase).dedup

/-- `normalized_similarity(left, right) >= SIMILARITY_THRESHOLD` -/
def isSimilar (left right : String) : Bool :=
  let leftTokens := normalizedTokens left
  let rightTokens := normalizedTokens right
  let shared := (leftTokens.filter (· ∈ rightTokens)).length
  !leftTokens.isEmpty && !rightTokens.isEmpty && 6 * (leftTokens.length + rightTokens.length - shared) ≤ 10 * shared

structure Bucket where
  ns : String
  memoryType : MemoryType
  entries : List MemoryEntry

def addToBucket : List Bucket → MemoryEntry → List Bucket
  | [], entry => [⟨entry.ns, entry.memoryType, [entry]⟩]
  | b :: buckets, entry =>
    if b.ns = entry.ns ∧ b.memoryType = entry.memoryType then ⟨b.ns, b.memoryType, b.entries ++ [entry]⟩ :: buckets
    else b :: addToBucket buckets entry

def bucketOrder : Bucket → Bucket → Ordering := compareLex (compareOn (·.ns)) (compareOn (memoryTypeRank ·.memoryType))

def groupOf (first : MemoryEntry) (remaining : List MemoryEntry) : List MemoryEntry :=
  first :: remaining.filter fun candidate => isSimilar first.content candidate.content

def restOf (first : MemoryEntry) (remaining : List MemoryEntry) : List MemoryEntry :=
  remaining.filter fun candidate => !isSimilar first.content candidate.content

def groupRemaining : List MemoryEntry → List (List MemoryEntry)
  | [] => []
  | first :: remaining => groupOf first remaining :: groupRemaining (restOf first remaining)
termination_by entries => entries.length
decreasing_by exact Nat.lt_succ_of_le (List.length_filter_le _ _)

def groupCandidates (entries : List MemoryEntry) : List (List MemoryEntry) :=
  (SortBy.sortBy bucketOrder (entries.foldl addToBucket [])).flatMap (groupRemaining ·.entries)

inductive ConsolidationError
  | malformedJson
  | schemaMismatch (index : Nat)
  | unknownId (index : Nat)
deriving DecidableEq

inductive Decision
  | merge (sourceIds : List Uuid) (mergedContent : String)
  | supersede (supersededId supersededById : Uuid)
  | keep (id : Uuid)
deriving DecidableEq

inductive RawDecision
  | merge (sourceIds : List String) (mergedContent : String)
  | supersede (supersededId supersededById : String)
  | keep (id : String)

/-- `serde_json::from_value::<RawDecision>`: the tag is the field `action`. -/
def RawDecision.fromValue (value : Json) : Option RawDecision := do
  let action ← (value.get "action").bind Json.asStr
  if action = "merge" then
    let sourceIds ← (value.get "source_ids").bind Json.asArray
    return .merge (← sourceIds.mapM Json.asStr) (← (value.get "merged_content").bind Json.asStr)
  else if action = "supersede" then
    return .supersede (← (value.get "superseded_id").bind Json.asStr) (← (value.get "superseded_by_id").bind Json.asStr)
  else if action = "keep" then return .keep (← (value.get "id").bind Json.asStr)
  else none

/-- What the engine is given from outside: `scan` says whether a text is sensitive, unless the scan fails. -/
structure ConsolidationContext where
  fromStr : String → Option (List Json)
  parseUuid : String → Option Uuid
  scan : String → Option Bool

namespace ConsolidationContext
variable (context : ConsolidationContext)

def parseValidId (validIds : List Uuid) (raw : String) : Option Uuid :=
  (context.parseUuid raw).filter validIds.contains

def parseDecision (validIds : List Uuid) (index : Nat) (value : Json) : Except ConsolidationError Decision :=
  match RawDecision.fromValue value with
  | none => .error (.schemaMismatch index)
  | some (.merge sourceIds mergedContent) =>
    match sourceIds.mapM (context.parseValidId validIds) with
    | none => .error (.unknownId index)
    | some ids =>
      if ids.isEmpty || (Text.trim mergedContent.toList).isEmpty then .error (.schemaMismatch index)
      else .ok (.merge ids mergedContent)
  | some (.supersede supersededId supersededById) =>
    match context.parseValidId validIds supersededId, context.parseValidId validIds supersededById with
    | some supersededId, some supersededById => .ok (.supersede supersededId supersededById)
    | _, _ => .error (.unknownId index)
  | some (.keep id) =>
    match context.parseValidId validIds id with
    | none => .error (.unknownId index)
    | some id => .ok (.keep id)

def parseDecisions (json : String) (validIds : List Uuid) : Except ConsolidationError (List Decision) :=
  match context.fromStr json with
  | none => .error .malformedJson
  | some raw => raw.zipIdx.mapM fun v => context.parseDecision validIds v.2 v.1

def minMemoryWordCount : Nat := 3

/-- `content.split_whitespace().count()` -/
def wordCount (content : String) : Nat := ((content.toList.splitOnP Text.isWhitespace).filter (!·.isEmpty)).length

def validateMerge (group : List MemoryEntry) (sourceIds : List Uuid) (mergedContent : String) : Bool :=
  let sources := sourceIds.filterMap fun id => group.find? (·.id = id)
  let length := mergedContent.toList.length
  sources.length = sourceIds.length && sourceIds.dedup.length = sourceIds.length &&
    (sources.head?.any fun first => sources.all fun entry => entry.ns = first.ns ∧ entry.memoryType = first.memoryType) &&
    5 ≤ length && length ≤ 4096 && minMemoryWordCount ≤ wordCount mergedContent && context.scan mergedContent = some false

def validateDecision (group : List MemoryEntry) : Decision → Bool
  | .merge sourceIds mergedContent => context.validateMerge group sourceIds mergedContent
  | _ => true

end ConsolidationContext

structure AppliedCounts where
  merged : Nat := 0
  superseded : Nat := 0
  kept : Nat := 0
deriving DecidableEq

inductive BatchOutcome
  | applied (counts : AppliedCounts)
  | providerError
  | batchSkipped
deriving DecidableEq

/-- Whether SQLite carries a call out, with the id and the time that a new row would get. -/
structure Moment where
  ok : Bool
  id : Uuid
  now : Int

/-- How many sources are marked, unless the merge fails, and the table behind it. -/
def applyMerge (group : List MemoryEntry) (moment : Moment) (sourceIds : List Uuid) (mergedContent : String) (db : MemoryDb) :
    Option Nat × MemoryDb :=
  match sourceIds.head?.bind fun id => group.find? (·.id = id) with
  | none => (none, db)
  | some first =>
    match db.createMergedEntryWithSupersession moment.ok moment.id moment.now first.ns mergedContent first.memoryType
        sourceIds with
    | (.error _, db') => (none, db')
    | (.ok _, db') => (some sourceIds.length, db')

/-- The table and the counts between two decisions; `stopped` once a write has failed. -/
structure BatchState where
  db : MemoryDb
  applied : AppliedCounts := {}
  stopped : Bool := false

def applyDecision (group : List MemoryEntry) (moment : Moment) (s : BatchState) : Decision → BatchState
  | .merge sourceIds mergedContent =>
    match applyMerge group moment sourceIds mergedContent s.db with
    | (none, db) => { s with db := db, stopped := true }
    | (some marked, db) =>
      { s with
        db := db,
        applied := { s.applied with merged := s.applied.merged + 1, superseded := s.applied.superseded + marked } }
  | .supersede supersededId supersededById =>
    match s.db.markSuperseded moment.ok [supersededId] supersededById with
    | (.error _, db) => { s with db := db, stopped := true }
    | (.ok marked, db) =>
      { s with db := db, applied := { s.applied with superseded := s.applied.superseded + marked } }
  | .keep id =>
    if group.any (·.id = id) then { s with applied := { s.applied with kept := s.applied.kept + 1 } } else s

def BatchState.step (group : List MemoryEntry) (s : BatchState) (decision : Decision × Moment) : BatchState :=
  if s.stopped then s else applyDecision group decision.2 s decision.1

def timed (moments : Nat → Moment) (decisions : List Decision) : List (Decision × Moment) :=
  decisions.zipIdx.map fun d => (d.1, moments d.2)

/-- What `process_batch` applies, or the outcome without any write. `output` is what the provider returns. -/
def ConsolidationContext.accept (context : ConsolidationContext) (group : List MemoryEntry) :
    (output : Option (List String)) → Except BatchOutcome (List Decision)
  | none => .error .providerError
  | some contents =>
    match context.parseDecisions (String.join contents) (group.map (·.id)) with
    | .error _ => .error .batchSkipped
    | .ok decisions => if decisions.all (context.validateDecision group) then .ok decisions else .error .batchSkipped

def ConsolidationContext.processBatch (context : ConsolidationContext) (group : List MemoryEntry)
    (output : Option (List String)) (moments : Nat → Moment) (db : MemoryDb) : BatchOutcome × MemoryDb :=
  match context.accept group output with
  | .error outcome => (outcome, db)
  | .ok decisions =>
    let s := Run.run (BatchState.step group) { db := db } (timed moments decisions)
    if s.stopped ∧ s.applied = {} then (.batchSkipped, s.db) else (.applied s.applied, s.db)

def maxEntriesPerProviderCall : Nat := 40

end ObeyGateway.Memory
