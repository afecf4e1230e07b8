import Mathlib.Data.Int.Order.Basic
import Mathlib.Data.Prod.Lex
import ObeyGateway.Lib.Paging
import ObeyGateway.Responses.Models

/-!
# The store of responses

`responses/store.rs`. The table is the list of its rows, the last written one at the end; the queries sort
it, so that the order is seen by no one. The columns of JSON are written and read by `serde_json`, which
is a parameter (`Codec`): what reading gives for what was written is not assumed to be the same. Text is
compared byte by byte, which for UTF-8 is the order of the characters.
-/

namespace ObeyGateway.Responses

def DEFAULT_LIST_LIMIT : Nat := 20
def MAX_LIST_LIMIT : Nat := 100
def MAX_RESPONSES_PER_OWNER : Nat := 1000

structure StoredResponse where
  id : String
  ownerId : String
  createdAt : Int
  model : String
  instructions : Option String
  store : Bool
  inputItems : List InputItem
  outputItems : List OutputItem
  usage : Option ResponsesUsage
  metadata : Option Json.Map
  previousResponseId : Option String
  error : Option ResponseError
deriving DecidableEq

inductive ListOrder
  | asc
  | desc
deriving DecidableEq

structure ListParams where
  limit : Nat := DEFAULT_LIST_LIMIT
  order : ListOrder := .desc
  after : Option String := none
  before : Option String := none

inductive StoreError
  | serialization
  | notFound (object id : String)
  | invalidRequest (message : String)
deriving DecidableEq

/-! ### Rows -/

structure ResponseRow where
  ownerId : String
  id : String
  createdAt : Int
  inputItemsJson : String
  outputItemsJson : String
  usageJson : Option String
  metadataJson : Option String
  previousResponseId : Option String
  errorJson : Option String
  model : String
  instructions : Option String
  store : Bool
deriving DecidableEq

/-- `to_string` and `from_str` at the type of a column. -/
structure Column (α : Type) where
  toString : α → String
  fromStr : String → Option α

structure Codec where
  inputItems : Column (List InputItem)
  outputItems : Column (List OutputItem)
  usage : Column ResponsesUsage
  metadata : Column Json.Map
  error : Column ResponseError

def encodeResponse (codec : Codec) (owner : String) (response : StoredResponse) : ResponseRow where
  ownerId := owner
  id := response.id
  createdAt := response.createdAt
  inputItemsJson := codec.inputItems.toString response.inputItems
  outputItemsJson := codec.outputItems.toString response.outputItems
  usageJson := response.usage.map codec.usage.toString
  metadataJson := response.metadata.map codec.metadata.toString
  previousResponseId := response.previousResponseId
  errorJson := response.error.map codec.error.toString
  model := response.model
  instructions := response.instructions
  store := response.store

/-- `from_str`, or the error of it. -/
def Column.read {α : Type} (column : Column α) (encoded : String) : Except StoreError α :=
  match column.fromStr encoded with
  | some a => .ok a
  | none => .error .serialization

def Column.readOptional {α : Type} (column : Column α) : Option String → Except StoreError (Option α)
  | some encoded => some <$> column.read encoded
  | none => .ok none

def decodeResponseRow (codec : Codec) (row : ResponseRow) : Except StoreError StoredResponse := do
  let inputItems ← codec.inputItems.read row.inputItemsJson
  let outputItems ← codec.outputItems.read row.outputItemsJson
  let usage ← codec.usage.readOptional row.usageJson
  let metadata ← codec.metadata.readOptional row.metadataJson
  let error ← codec.error.readOptional row.errorJson
  return {
    id := row.id
    ownerId := row.ownerId
    createdAt := row.createdAt
    inputItems
    outputItems
    usage
    metadata
    previousResponseId := row.previousResponseId
    error
    model := row.model
    instructions := row.instructions
    store := row.store }

def greeting : InputItem := .easy ⟨.text "hi", "user", none, [("id", .string "msg_1")]⟩

def greetingJson : String := "[\x7b\"content\":\"hi\",\"role\":\"user\",\"id\":\"msg_1\"\x7d]"

/-- As `serde_json` does for a greeting and for empty lists. -/
def plainCodec : Codec where
  inputItems := ⟨fun items => if items = [greeting] then greetingJson else "[]",
    fun encoded => if encoded = greetingJson then some [greeting] else if encoded = "[]" then some [] else none⟩
  outputItems := ⟨fun _ => "[]", fun encoded => if encoded = "[]" then some [] else none⟩
  usage := ⟨fun _ => "", fun _ => none⟩
  metadata := ⟨fun _ => "", fun _ => none⟩
  error := ⟨fun _ => "", fun _ => none⟩

def plainResponse (owner id : String) (createdAt : Int) : StoredResponse where
  id := id
  ownerId := owner
  createdAt := createdAt
  model := "gpt-4o"
  instructions := none
  store := true
  inputItems := [greeting]
  outputItems := []
  usage := none
  metadata := none
  previousResponseId := none
  error := none

namespace ResponseRow

def key (row : ResponseRow) : String × String := (row.ownerId, row.id)

def rank (row : ResponseRow) : Int ×ₗ String := toLex (row.createdAt, row.id)

end ResponseRow

namespace ListOrder

/-- `ORDER BY created_at, id`, one way or the other. -/
def le : ListOrder → ResponseRow → ResponseRow → Prop
  | asc, row, row' => row.rank ≤ row'.rank
  | desc, row, row' => row'.rank ≤ row.rank

def lt : ListOrder → ResponseRow → ResponseRow → Prop
  | asc, row, row' => row.rank < row'.rank
  | desc, row, row' => row'.rank < row.rank

instance : ∀ order : ListOrder, DecidableRel order.le
  | asc => fun row row' => inferInstanceAs (Decidable (row.rank ≤ row'.rank))
  | desc => fun row row' => inferInstanceAs (Decidable (row'.rank ≤ row.rank))

instance : ∀ order : ListOrder, DecidableRel order.lt
  | asc => fun row row' => inferInstanceAs (Decidable (row.rank < row'.rank))
  | desc => fun row row' => inferInstanceAs (Decidable (row'.rank < row.rank))

instance : ∀ order : ListOrder, Std.Total order.le
  | asc => ⟨fun row row' => le_total row.rank row'.rank⟩
  | desc => ⟨fun row row' => le_total row'.rank row.rank⟩

instance : ∀ order : ListOrder, IsTrans ResponseRow order.le
  | asc => ⟨fun _ _ _ h h' => le_trans h h'⟩
  | desc => ⟨fun _ _ _ h h' => le_trans h' h⟩

theorem lt_asymm (order : ListOrder) (row row' : ResponseRow) (h : order.lt row row') : ¬order.lt row' row := by
  cases order with
  | asc | desc => exact not_lt_of_gt h

end ListOrder

structure ResponsesStore where
  rows : List ResponseRow
  /-- The primary key. -/
  nodup : (rows.map (·.key)).Nodup

namespace ResponsesStore

def new : ResponsesStore := ⟨[], List.nodup_nil⟩

variable (s : ResponsesStore)

def ownerRows (owner : String) : List ResponseRow := s.rows.filter (·.ownerId = owner)

/-- `DELETE` of the rows that do not stay. -/
def keep (p : ResponseRow → Bool) : ResponsesStore :=
  ⟨s.rows.filter p, s.nodup.sublist (List.filter_sublist.map _)⟩

/-- `INSERT … ON CONFLICT(owner_id, id) DO UPDATE` -/
def upsert (row : ResponseRow) : ResponsesStore where
  rows := s.rows.filter (·.key ≠ row.key) ++ [row]
  nodup := by
    rw [List.map_append, List.nodup_append]
    refine ⟨s.nodup.sublist (List.filter_sublist.map _), List.nodup_singleton _, ?_⟩
    rintro key hkey key' hkey' rfl
    obtain ⟨row', hrow', rfl⟩ := List.mem_map.1 hkey
    exact absurd (List.mem_singleton.1 hkey') (by simpa using (List.mem_filter.1 hrow').2)

/-- `ORDER BY created_at DESC, id DESC LIMIT -1 OFFSET cap`: the ids of the rows to delete. -/
def overflowing (cap : Nat) (owner : String) : List String :=
  (((s.ownerRows owner).insertionSort ListOrder.desc.le).drop cap).map (·.id)

def prune (cap : Nat) (owner : String) : ResponsesStore :=
  s.keep fun row => !(row.ownerId = owner && (s.overflowing cap owner).contains row.id)

def storeResponseCapped (cap : Nat) (codec : Codec) (owner : String) (response : StoredResponse) :
    ResponsesStore :=
  (s.upsert (encodeResponse codec owner response)).prune cap owner

def storeResponse (codec : Codec) (owner : String) (response : StoredResponse) : ResponsesStore :=
  s.storeResponseCapped MAX_RESPONSES_PER_OWNER codec owner response

def row? (owner id : String) : Option ResponseRow := s.rows.find? (·.key = (owner, id))

def getResponse (codec : Codec) (owner id : String) : Except StoreError (Option StoredResponse) :=
  match s.row? owner id with
  | none => .ok none
  | some row => some <$> decodeResponseRow codec row

def deleteResponse (owner id : String) : Bool × ResponsesStore :=
  ((s.row? owner id).isSome, s.keep (·.key ≠ (owner, id)))

def cursorNotFound (cursor : String) : StoreError :=
  .invalidRequest ("cursor '" ++ cursor ++ "' was not found")

def validateListParams (params : ListParams) : Except StoreError Unit :=
  if params.limit = 0 ∨ params.limit > MAX_LIST_LIMIT then
    .error (.invalidRequest ("limit must be between 1 and " ++ toString MAX_LIST_LIMIT))
  else if params.after.isSome ∧ params.before.isSome then
    .error (.invalidRequest "after and before cannot be used together")
  else .ok ()

/-- `SELECT … WHERE owner_id = ?1 AND … ORDER BY … LIMIT …` -/
def queryResponseRows (owner : String) (order : ListOrder) (limit : Nat) (p : ResponseRow → Bool) :
    List ResponseRow :=
  ((s.rows.filter fun row => row.ownerId = owner && p row).insertionSort order.le).take limit

def listResponses (codec : Codec) (owner : String) (params : ListParams) :
    Except StoreError (List StoredResponse) := do
  validateListParams params
  match params.after.or params.before with
  | none => (s.queryResponseRows owner params.order params.limit fun _ => true).mapM (decodeResponseRow codec)
  | some cursor =>
    match s.row? owner cursor with
    | none => .error (cursorNotFound cursor)
    | some row =>
      -- descending listings flip the comparison
      let greater := params.after.isSome != decide (params.order = .desc)
      let p (row' : ResponseRow) := if greater then decide (row.rank < row'.rank) else decide (row'.rank < row.rank)
      (s.queryResponseRows owner params.order params.limit p).mapM (decodeResponseRow codec)

def idOf (extra : Json.Map) : Option String := (Assoc.get extra "id").bind (·.asStr)

def inputItemId : InputItem → Option String
  | .easy message => idOf message.extra
  | .typed (.message message) => idOf message.extra
  | .typed (.functionCall call) => call.id
  | .typed (.functionCallOutput output) => output.id
  | .typed (.reasoning reasoning) => reasoning.id
  | .typed (.itemReference reference) => some reference.id

def inputItemIndex (items : List InputItem) (cursor : String) : Except StoreError Nat :=
  match items.findIdx? (inputItemId · = some cursor) with
  | some index => .ok index
  | none => .error (cursorNotFound cursor)

def listInputItems (codec : Codec) (owner responseId : String) (params : ListParams) :
    Except StoreError (List InputItem) := do
  validateListParams params
  let some response ← s.getResponse codec owner responseId
    | .error (.notFound "response" responseId)
  let items := if params.order = .desc then response.inputItems.reverse else response.inputItems
  let items ← match params.after, params.before with
    | some after, _ => do
      let index ← inputItemIndex items after
      pure (items.drop (index + 1))
    | none, some before => do
      let index ← inputItemIndex items before
      pure (items.take index)
    | none, none => pure items
  return items.take params.limit

variable {s : ResponsesStore} {owner : String}

variable {row row' : ResponseRow}

theorem eq_of_key (h : row ∈ s.rows) (h' : row' ∈ s.rows) (hkey : row.key = row'.key) : row = row' :=
  List.inj_on_of_nodup_map s.nodup h h' hkey

theorem mem_ownerRows : row ∈ s.ownerRows owner ↔ row ∈ s.rows ∧ row.ownerId = owner := by
  simp [ownerRows]

theorem eq_of_id (h : row ∈ s.ownerRows owner) (h' : row' ∈ s.ownerRows owner) (hid : row.id = row'.id) : row = row' := by
  rw [mem_ownerRows] at h h'
  exact eq_of_key h.1 h'.1 (Prod.ext (h.2.trans h'.2.symm) hid)

theorem eq_of_rank (h : row ∈ s.ownerRows owner) (h' : row' ∈ s.ownerRows owner)
    (hrank : row.rank = row'.rank) : row = row' :=
  eq_of_id h h' (Prod.mk.inj (toLex_inj.1 hrank)).2

theorem row?_eq_some (h : row ∈ s.ownerRows owner) : s.row? owner row.id = some row := by
  obtain ⟨hmem, rfl⟩ := mem_ownerRows.1 h
  have hsome : (s.row? row.ownerId row.id).isSome = true :=
    List.find?_isSome.2 ⟨row, hmem, by simp [ResponseRow.key]⟩
  obtain ⟨row', hrow'⟩ := Option.isSome_iff_exists.1 hsome
  have hkey : row'.key = (row.ownerId, row.id) := by simpa using List.find?_some hrow'
  rw [hrow', eq_of_key (List.mem_of_find?_eq_some hrow') hmem hkey]

theorem mem_of_row? {id : String} (h : s.row? owner id = some row) : row ∈ s.ownerRows owner ∧ row.id = id := by
  have hkey : row.key = (owner, id) := by simpa using List.find?_some h
  exact ⟨mem_ownerRows.2 ⟨List.mem_of_find?_eq_some h, congrArg Prod.fst hkey⟩, congrArg Prod.snd hkey⟩

def sortedRows (s : ResponsesStore) (owner : String) (order : ListOrder) : List ResponseRow :=
  (s.ownerRows owner).insertionSort order.le

theorem mem_sortedRows {order : ListOrder} :
    row ∈ s.sortedRows owner order ↔ row ∈ s.ownerRows owner := List.mem_insertionSort _

theorem eq_of_le {order : ListOrder} (h : row ∈ s.ownerRows owner)
    (h' : row' ∈ s.ownerRows owner) (hle : order.le row row') (hle' : order.le row' row) : row = row' := by
  cases order with
  | asc => exact eq_of_rank h h' (le_antisymm hle hle')
  | desc => exact eq_of_rank h h' (le_antisymm hle' hle)

theorem nodup_ownerRows : (s.ownerRows owner).Nodup := (List.Nodup.of_map _ s.nodup).filter _

theorem nodup_ids_sortedRows (order : ListOrder) : ((s.sortedRows owner order).map (·.id)).Nodup := by
  refine (((List.perm_insertionSort _ _).nodup_iff.2 nodup_ownerRows).map_on fun row hrow row' hrow' => ?_)
  exact eq_of_id (mem_sortedRows.1 hrow) (mem_sortedRows.1 hrow')

theorem pairwise_sortedRows (order : ListOrder) : (s.sortedRows owner order).Pairwise order.lt := by
  have hle : (s.sortedRows owner order).Pairwise order.le := List.pairwise_insertionSort _ _
  have hne : (s.sortedRows owner order).Nodup :=
    (List.perm_insertionSort _ _).nodup_iff.2 nodup_ownerRows
  refine (hle.and hne).imp_of_mem fun {row row'} hrow hrow' h => ?_
  rw [mem_sortedRows] at hrow hrow'
  have hrank : row.rank ≠ row'.rank := fun heq => h.2 (eq_of_rank hrow hrow' heq)
  cases order with
  | asc => exact lt_of_le_of_ne h.1 hrank
  | desc => exact lt_of_le_of_ne h.1 hrank.symm

theorem queryResponseRows_eq (order : ListOrder) (limit : Nat) (p : ResponseRow → Bool) :
    s.queryResponseRows owner order limit p = ((s.sortedRows owner order).filter p).take limit := by
  have hfilter : (s.rows.filter fun row => row.ownerId = owner && p row) = (s.ownerRows owner).filter p := by
    rw [ownerRows, List.filter_filter]
    exact List.filter_congr fun row _ => Bool.and_comm _ _
  rw [queryResponseRows, hfilter, Paging.insertionSort_filter, sortedRows]
  exact fun row hrow row' hrow' => eq_of_le hrow hrow'

end ResponsesStore

end ObeyGateway.Responses
