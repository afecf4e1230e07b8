import Mathlib.Algebra.Order.Ring.Unbundled.Rat
import ObeyGateway.Lib.SortBy

/-!
# The memory store

`memory/mod.rs`, `memory/namespace.rs` and `memory/store.rs`: the table of memories with the statements that change it.
`MemoryDb` carries the primary key of the table. A `DateTime<Utc>` is a count of nanoseconds since the epoch, a column
holds whole seconds, a relevance is a rational in place of an `f64`.
-/

namespace ObeyGateway.Memory

/-- A `Uuid`, as a number; its text sorts in the same way. -/
abbrev Uuid := Fin (2 ^ 128)

inductive MemoryType
  | preference | fact | context | decision
deriving DecidableEq

structure MemoryEntry where
  id : Uuid
  ns : String
  content : String
  memoryType : MemoryType
  relevanceScore : ℚ
  createdAt : Int
  lastAccessedAt : Int
  accessCount : Nat
  sourceRequestId : Option Uuid
  updatedAt : Option Int
  supersededBy : Option Uuid
deriving DecidableEq

inductive VectorIndexStatus
  | notConfigured | pending | indexed | retry
deriving DecidableEq

/-- A row of `memories`: its times are whole seconds. -/
structure MemoryRow extends MemoryEntry where
  vectorIndexStatus : VectorIndexStatus := .notConfigured
  vectorNextRetryAt : Option Int := none
deriving DecidableEq

structure NewMemoryEntry where
  ns : String
  content : String
  memoryType : MemoryType
  sourceRequestId : Option Uuid

inductive MemoryEntryInput
  | new (input : NewMemoryEntry)
  | entry (entry : MemoryEntry)

inductive MemoryError
  | config (detail : String)
  | contentTooShort (length min : Nat)
  | contentTooLong (length max : Nat)
  | store

/-- `timestamp()` -/
def timestamp (t : Int) : Int := t / 10 ^ 9

def validateContent (content : String) : Except MemoryError Unit :=
  let length := content.toList.length
  if length < 5 then .error (.contentTooShort length 5)
  else if 4096 < length then .error (.contentTooLong length 4096)
  else .ok ()

/-- `split("::")` -/
def segments : List Char → List (List Char)
  | [] => [[]]
  | ':' :: ':' :: rest => [] :: segments rest
  | c :: rest =>
    match segments rest with
    | [] => [[c]]
    | segment :: more => (c :: segment) :: more

def isSegment (segment : List Char) : Bool :=
  !segment.isEmpty && segment.all fun c => c.isAlphanum || c = '_' || c = '-'

/-- `namespace::validate_namespace` -/
def isValidNamespace (ns : String) : Bool :=
  !ns.toList.isEmpty && ns.utf8ByteSize ≤ 256 && (segments ns.toList).all isSegment

def validateNamespace (ns : String) : Except MemoryError Unit :=
  if isValidNamespace ns then .ok ()
  else .error (.config ("namespace must use safe non-empty ASCII segments separated by '::' " ++
    "and contain at most 256 characters"))

def inUnit (score : ℚ) : Bool := !Rat.blt score 0 && !Rat.blt 1 score

def isI64 (n : Nat) : Bool := n < 2 ^ 63

def validateEntry (entry : MemoryEntry) : Except MemoryError Unit := do
  validateContent entry.content
  validateNamespace entry.ns
  if !inUnit entry.relevanceScore then
    .error (.config "relevance_score must be finite and between 0.0 and 1.0")
  else if !isI64 entry.accessCount then .error .store
  else .ok ()

structure MemoryDb where
  rows : List MemoryRow
  lastDecayCycle : Option Int := none
  ids : (rows.map (·.id)).Nodup

namespace MemoryDb

theorem nodup_nil : (([] : List MemoryRow).map (·.id)).Nodup := List.nodup_nil

def empty : MemoryDb := ⟨[], none, nodup_nil⟩

variable (db : MemoryDb)

def row? (id : Uuid) : Option MemoryRow := db.rows.find? (·.id = id)

variable {db} in
theorem row?_some {id : Uuid} {r : MemoryRow} (h : db.row? id = some r) : r ∈ db.rows ∧ r.id = id := by
  refine ⟨List.mem_of_find?_eq_some h, ?_⟩
  simpa using List.find?_some h

theorem ids_filter {rows : List MemoryRow} (p : MemoryRow → Bool) (h : (rows.map (·.id)).Nodup) :
    ((rows.filter p).map (·.id)).Nodup := h.sublist (List.filter_sublist.map _)

def keep (p : MemoryRow → Bool) : MemoryDb where
  rows := db.rows.filter p
  lastDecayCycle := db.lastDecayCycle
  ids := ids_filter p db.ids

theorem ids_map {rows : List MemoryRow} (f : MemoryRow → MemoryRow) (hf : ∀ r, (f r).id = r.id)
    (h : (rows.map (·.id)).Nodup) : ((rows.map f).map (·.id)).Nodup := by
  have hid : (fun r : MemoryRow => r.id) ∘ f = fun r => r.id := funext hf
  rw [List.map_map, hid]
  exact h

def update (f : MemoryRow → MemoryRow) (hf : ∀ r, (f r).id = r.id) : MemoryDb where
  rows := db.rows.map f
  lastDecayCycle := db.lastDecayCycle
  ids := ids_map f hf db.ids

theorem ids_push {rows : List MemoryRow} {row : MemoryRow} (h : (rows.map (·.id)).Nodup)
    (hid : row.id ∉ rows.map (·.id)) : ((rows ++ [row]).map (·.id)).Nodup := by
  rw [List.map_append, List.map_singleton]
  exact List.nodup_append.2 ⟨h, List.nodup_singleton _, fun a ha b hb heq => hid (List.mem_singleton.1 hb ▸ heq ▸ ha)⟩

/-- `length(content)` of SQLite ends at a NUL character. -/
def checkedContent (content : String) : Bool :=
  let length := (content.toList.takeWhile (· ≠ '\x00')).length
  1 ≤ length ∧ length ≤ 4096

end MemoryDb

def MemoryEntry.toRow (entry : MemoryEntry) : MemoryRow :=
  { entry with createdAt := timestamp entry.createdAt, lastAccessedAt := timestamp entry.lastAccessedAt }

namespace MemoryDb
variable (db : MemoryDb)

/-- `INSERT INTO memories`: the id is the primary key and the columns have checks. -/
def insert (entry : MemoryEntry) : Option MemoryDb :=
  if h : entry.id ∈ db.rows.map (·.id) then none
  else if !checkedContent entry.content then none
  else some ⟨db.rows ++ [entry.toRow], db.lastDecayCycle, ids_push db.ids h⟩

end MemoryDb

/-- `ORDER BY relevance_score ASC, last_accessed_at ASC, created_at ASC, id ASC` -/
def evictionOrder : MemoryRow → MemoryRow → Ordering :=
  compareLex (compareOn (·.relevanceScore)) (compareLex (compareOn (·.lastAccessedAt))
    (compareLex (compareOn (·.createdAt)) (compareOn (·.id))))

/-- What is left of the rows of a namespace where `n` of them are taken. -/
def survivors (n : Nat) (rows : List MemoryRow) : List MemoryRow :=
  rows.filter fun r => r.id ∉ (SortBy.lowest evictionOrder n rows).map (·.id)

namespace MemoryDb
variable (db : MemoryDb) (ns : String)

def inNamespace : List MemoryRow := db.rows.filter (·.ns = ns)

/-- The rows that a `DELETE … LIMIT n` takes. -/
def victims (n : Nat) : List MemoryRow := SortBy.lowest evictionOrder n (db.inNamespace ns)

def evict (n : Nat) : MemoryDb := db.keep fun r => r.id ∉ (db.victims ns n).map (·.id)

def excess (cap : Nat) : Nat := (db.inNamespace ns).length - cap

end MemoryDb

def memoryTypeOf : String → Option MemoryType
  | "preference" => some .preference
  | "fact" => some .fact
  | "context" => some .context
  | "decision" => some .decision
  | _ => none

/-- `DateTime::<Utc>::from_timestamp` -/
def fromTimestamp (seconds : Int) : Int := seconds * 10 ^ 9

def fromRow (row : MemoryRow) : MemoryEntry :=
  { row.toMemoryEntry with
    createdAt := fromTimestamp row.createdAt, lastAccessedAt := fromTimestamp row.lastAccessedAt }

/-- `min(1.0, relevance_score + 0.1)` -/
def boosted (score : ℚ) : ℚ := if Rat.blt 1 (score + 1 / 10) then 1 else score + 1 / 10

def defaultMaxMemoriesPerNamespace : Nat := 1000

def capText : String := "max_memories_per_namespace must be at least 1"

def MemoryEntryInput.toEntry (id : Uuid) (now : Int) : MemoryEntryInput → MemoryEntry
  | .entry stored => stored
  | .new input => ⟨id, input.ns, input.content, input.memoryType, 1, now, now, 0, input.sourceRequestId, none, none⟩

namespace MemoryDb
variable (db : MemoryDb) (ok : Bool)

/-- The entry that is returned, unless the call fails, and the table behind it. -/
def storeEntry (id : Uuid) (now : Int) (input : MemoryEntryInput) (maxMemoriesPerNamespace : Option Nat) :
    Except MemoryError MemoryEntry × MemoryDb :=
  let entry := input.toEntry id now
  match validateEntry entry with
  | .error e => (.error e, db)
  | .ok _ =>
    let cap := maxMemoriesPerNamespace.getD defaultMaxMemoriesPerNamespace
    if cap = 0 then (.error (.config capText), db)
    else if !isI64 cap then (.error .store, db)
    else
      match db.insert entry with
      | none => (.error .store, db)
      | some db' => if ok then (.ok entry, db'.evict entry.ns (db'.excess entry.ns cap)) else (.error .store, db)

def deleteEntry (id : Uuid) : Except MemoryError Bool × MemoryDb :=
  if ok then (.ok (db.row? id).isSome, db.keep fun r => r.id ≠ id) else (.error .store, db)

end MemoryDb

def MemoryRow.edited (id : Uuid) (content : String) (memoryType : MemoryType) (now : Int) (r : MemoryRow) : MemoryRow :=
  if r.id = id then { r with content := content, memoryType := memoryType, updatedAt := some (timestamp now) } else r

theorem MemoryRow.edited_id (id : Uuid) (content : String) (memoryType : MemoryType) (now : Int) (r : MemoryRow) :
    (MemoryRow.edited id content memoryType now r).id = r.id := by
  unfold MemoryRow.edited
  split <;> rfl

namespace MemoryDb
variable (db : MemoryDb) (ok : Bool)

def updateEntry (id : Uuid) (content : String) (memoryType : String) (now : Int) :
    Except MemoryError (Option MemoryEntry) × MemoryDb :=
  match validateContent content with
  | .error e => (.error e, db)
  | .ok _ =>
    match memoryTypeOf memoryType with
    | none => (.error (.config "memory_type must be one of preference, fact, context, decision"), db)
    | some type =>
      if !ok then (.error .store, db)
      else if (db.row? id).isNone then (.ok none, db)
      else if !checkedContent content then (.error .store, db)
      else
        let db' := db.update (MemoryRow.edited id content type now) (MemoryRow.edited_id id content type now)
        (.ok ((db'.row? id).map fromRow), db')

end MemoryDb

def MemoryRow.accessed (id : Uuid) (accessedAt : Int) (r : MemoryRow) : MemoryRow :=
  if r.id = id then
    { r with
      accessCount := r.accessCount + 1, lastAccessedAt := timestamp accessedAt, relevanceScore := boosted r.relevanceScore }
  else r

theorem MemoryRow.accessed_id (id : Uuid) (accessedAt : Int) (r : MemoryRow) :
    (MemoryRow.accessed id accessedAt r).id = r.id := by
  unfold MemoryRow.accessed
  split <;> rfl

namespace MemoryDb
variable (db : MemoryDb) (ok : Bool)

def accessAll (accessedAt : Int) : List Uuid → MemoryDb → Nat × MemoryDb
  | [], db => (0, db)
  | id :: ids, db =>
    let rest := accessAll accessedAt ids
      (db.update (MemoryRow.accessed id accessedAt) (MemoryRow.accessed_id id accessedAt))
    ((if (db.row? id).isSome then 1 else 0) + rest.1, rest.2)

def updateAccessMetadata (ids : List Uuid) (accessedAt : Int) : Except MemoryError Nat × MemoryDb :=
  if ok then (.ok (accessAll accessedAt ids db).1, (accessAll accessedAt ids db).2) else (.error .store, db)

end MemoryDb

def MemoryRow.superseded (id target : Uuid) (r : MemoryRow) : MemoryRow :=
  if r.id = id then { r with supersededBy := some target } else r

theorem MemoryRow.superseded_id (id target : Uuid) (r : MemoryRow) : (MemoryRow.superseded id target r).id = r.id := by
  unfold MemoryRow.superseded
  split <;> rfl

namespace MemoryDb
variable (db : MemoryDb) (ok : Bool)

/-- `UPDATE … SET superseded_by` on a row that is active and not the target, and, where `ns` is given, in it: whether
there is one. -/
def mark (ns : Option String) (id target : Uuid) : Bool × MemoryDb :=
  match db.row? id with
  | none => (false, db)
  | some r =>
    if r.supersededBy.isNone ∧ id ≠ target ∧ ns.all (· = r.ns) then
      (true, db.update (MemoryRow.superseded id target) (MemoryRow.superseded_id id target))
    else (false, db)

/-- The loop of `mark_superseded`. -/
def markAll (target : Uuid) : List Uuid → MemoryDb → Nat × MemoryDb
  | [], db => (0, db)
  | id :: ids, db =>
    let first := db.mark none id target
    let rest := markAll target ids first.2
    ((if first.1 then 1 else 0) + rest.1, rest.2)

def markSuperseded (ids : List Uuid) (target : Uuid) : Except MemoryError Nat × MemoryDb :=
  if ok then (.ok (markAll target ids db).1, (markAll target ids db).2) else (.error .store, db)

/-- The loop of `create_merged_entry_with_supersession`: every source has to be new and to be marked. -/
def markSources (ns : String) (target : Uuid) : (seen : List Uuid) → List Uuid → MemoryDb → Option MemoryDb
  | _, [], db => some db
  | seen, id :: ids, db =>
    if id ∈ seen then none
    else
      match db.mark (some ns) id target with
      | (true, db') => markSources ns target (id :: seen) ids db'
      | (false, _) => none

def createMergedEntryWithSupersession (id : Uuid) (now : Int) (ns content : String) (memoryType : MemoryType)
    (sourceIds : List Uuid) : Except MemoryError MemoryEntry × MemoryDb :=
  match validateNamespace ns with
  | .error e => (.error e, db)
  | .ok _ =>
    match validateContent content with
    | .error e => (.error e, db)
    | .ok _ =>
      let entry : MemoryEntry := ⟨id, ns, content, memoryType, 1, now, now, 0, none, none, none⟩
      match db.insert entry with
      | none => (.error .store, db)
      | some db' =>
        if sourceIds.isEmpty then (.error (.config "merge requires active source entries"), db)
        else
          match markSources ns id [] sourceIds db' with
          | none => (.error (.config "merge source is missing or already superseded"), db)
          | some db'' => if ok then (.ok entry, db'') else (.error .store, db)

theorem createMerged_cases (id : Uuid) (now : Int) (ns content : String) (memoryType : MemoryType) (sourceIds : List Uuid) :
    let entry : MemoryEntry := ⟨id, ns, content, memoryType, 1, now, now, 0, none, none, none⟩
    (∃ e, db.createMergedEntryWithSupersession ok id now ns content memoryType sourceIds = (.error e, db)) ∨
      ∃ db' db'', db.insert entry = some db' ∧ markSources ns id [] sourceIds db' = some db'' ∧
        db.createMergedEntryWithSupersession ok id now ns content memoryType sourceIds = (.ok entry, db'') := by
  intro entry
  unfold createMergedEntryWithSupersession
  split
  · exact .inl ⟨_, rfl⟩
  split
  · exact .inl ⟨_, rfl⟩
  dsimp only
  split
  · exact .inl ⟨_, rfl⟩
  rename_i db' hinsert
  rcases hmark : markSources ns id [] sourceIds db' with _ | db''
  · dsimp only
    split_ifs <;> exact .inl ⟨_, rfl⟩
  dsimp only
  split_ifs
  · exact .inl ⟨_, rfl⟩
  · exact .inr ⟨db', db'', hinsert, hmark, rfl⟩
  · exact .inl ⟨_, rfl⟩

end MemoryDb

def decayFactor : MemoryType → ℚ
  | .preference => 99 / 100
  | .fact => 95 / 100
  | .context => 85 / 100
  | .decision => 98 / 100

def MemoryRow.decayed (r : MemoryRow) : MemoryRow :=
  let score := r.relevanceScore * decayFactor r.memoryType
  { r with relevanceScore := if Rat.blt score 0 then 0 else score }

theorem MemoryRow.decayed_id (r : MemoryRow) : (MemoryRow.decayed r).id = r.id := rfl

theorem MemoryRow.decayed_ns (r : MemoryRow) : (MemoryRow.decayed r).ns = r.ns := rfl

structure NamespaceEviction where
  ns : String
  evictedCount : Nat
  lowestEvictedScore : ℚ

structure DecayCycleResult where
  completedAt : Int
  decayedCount : Nat
  evictedCount : Nat
  vectorRetryPendingCount : Nat
  namespaceEvictions : List NamespaceEviction

def retryDue (completedAt : Int) (r : MemoryRow) : Bool :=
  (r.vectorIndexStatus = .pending || r.vectorIndexStatus = .retry) &&
    r.vectorNextRetryAt.all (· ≤ timestamp completedAt)

namespace MemoryDb
variable (db : MemoryDb) (ok : Bool)

/-- `GROUP BY namespace … ORDER BY namespace ASC` -/
def namespaces : List String := (db.rows.map (·.ns)).dedup.mergeSort fun a b => a ≤ b

/-- `HAVING COUNT(*) > ?1`: the namespaces above the cap, with their excess. -/
def overCap (cap : Nat) : List (String × Nat) :=
  (db.namespaces.map fun ns => (ns, db.excess ns cap)).filter (0 < ·.2)

/-- The loop over the namespaces above the cap, with the excess that each had when it began. -/
def evictNamespaces : List (String × Nat) → MemoryDb → List NamespaceEviction × MemoryDb
  | [], db => ([], db)
  | (ns, excess) :: more, db =>
    let victims := db.victims ns excess
    let rest := evictNamespaces more (db.evict ns excess)
    (victims.head?.toList.map (fun r => ⟨ns, victims.length, r.relevanceScore⟩) ++ rest.1, rest.2)

def runDecayCycle (maxMemoriesPerNamespace : Nat) (completedAt : Int) : Except MemoryError DecayCycleResult × MemoryDb :=
  if maxMemoriesPerNamespace = 0 then (.error (.config capText), db)
  else if !isI64 maxMemoriesPerNamespace then (.error .store, db)
  else if !ok then (.error .store, db)
  else
    let decayed := db.update MemoryRow.decayed MemoryRow.decayed_id
    let evicted := evictNamespaces (decayed.overCap maxMemoriesPerNamespace) decayed
    (.ok {
      completedAt := completedAt
      decayedCount := db.rows.length
      evictedCount := (evicted.1.map (·.evictedCount)).sum
      vectorRetryPendingCount := (evicted.2.rows.filter (retryDue completedAt)).length
      namespaceEvictions := evicted.1 },
      { evicted.2 with lastDecayCycle := some (timestamp completedAt) })

end MemoryDb

end ObeyGateway.Memory
