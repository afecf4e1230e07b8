import ObeyGateway.Responses.Store

/-!
# Following the cursors of the store

Both listings take a page from the front of what their cursor leaves. Behind an `after` cursor this is the
next page. Before a `before` cursor it is the first page of all, and what stands between it and the cursor
is skipped.
-/

namespace ObeyGateway.Responses

open Paging (Cursor PageLaw TakesFirst)

def ListParams.at (limit : Nat) (order : ListOrder) : Cursor String → ListParams
  | .start => { limit, order }
  | .after k => { limit, order, after := some k }
  | .before k => { limit, order, before := some k }

namespace ResponsesStore

theorem validateListParams_at {limit : Nat} (hlimit : 1 ≤ limit ∧ limit ≤ MAX_LIST_LIMIT) (order : ListOrder)
    (cursor : Cursor String) : validateListParams (.at limit order cursor) = .ok () := by
  have hbounds : ¬(limit = 0 ∨ limit > MAX_LIST_LIMIT) := by omega
  cases cursor with
  | start | after | before => simp [validateListParams, ListParams.at, hbounds]

variable {s : ResponsesStore} {codec : Codec} {owner : String} {limit : Nat} {order : ListOrder}

def pageRows (s : ResponsesStore) (owner : String) (limit : Nat) (order : ListOrder) :
    Cursor String → Except StoreError (List ResponseRow)
  | .start => .ok ((s.sortedRows owner order).take limit)
  | .after k =>
    match s.row? owner k with
    | none => .error (cursorNotFound k)
    | some row => .ok (((s.sortedRows owner order).filter fun row' => order.lt row row').take limit)
  | .before k =>
    match s.row? owner k with
    | none => .error (cursorNotFound k)
    | some row => .ok (((s.sortedRows owner order).filter fun row' => order.lt row' row).take limit)

theorem listResponses_at (hlimit : 1 ≤ limit ∧ limit ≤ MAX_LIST_LIMIT) (cursor : Cursor String) :
    s.listResponses codec owner (.at limit order cursor) =
      s.pageRows owner limit order cursor >>= fun rows => rows.mapM (decodeResponseRow codec) := by
  rw [listResponses, validateListParams_at hlimit]
  cases cursor with
  | start =>
    show (s.queryResponseRows owner order limit fun _ => true).mapM _ = _
    rw [queryResponseRows_eq, List.filter_true]
    rfl
  | after k =>
    rcases hrow : s.row? owner k with _ | row
    · simp only [ListParams.at, pageRows, hrow, Option.some_or]
      rfl
    cases order <;> simp [ListParams.at, pageRows, hrow, queryResponseRows_eq, ListOrder.lt] <;> rfl
  | before k =>
    rcases hrow : s.row? owner k with _ | row
    · simp only [ListParams.at, pageRows, hrow, Option.none_or]
      rfl
    cases order <;> simp [ListParams.at, pageRows, hrow, queryResponseRows_eq, ListOrder.lt] <;> rfl

theorem takesFirst_pageRows :
    TakesFirst (s.pageRows owner limit order) (fun row => some row.id) (s.sortedRows owner order) limit := by
  refine ⟨rfl, fun front row back k hsplit hk => ?_, fun front row back k hsplit hk => ?_⟩
  all_goals
    have hmem : row ∈ s.ownerRows owner := mem_sortedRows.1 (by rw [hsplit]; simp)
    have hsorted : (s.sortedRows owner order).Pairwise order.lt := s.pairwise_sortedRows order
    cases hk
    rw [pageRows, row?_eq_some hmem]
    rw [hsplit] at hsorted ⊢
  · exact congrArg (fun rows => Except.ok (rows.take limit)) (Paging.filter_above order.lt_asymm hsorted)
  · exact congrArg (fun rows => Except.ok (rows.take limit)) (Paging.filter_below order.lt_asymm hsorted)

variable {response : StoredResponse}

theorem decodeResponseRow_id {row : ResponseRow}
    (h : decodeResponseRow codec row = .ok response) : response.id = row.id := by
  simp only [decodeResponseRow, Checks.bind_eq_ok_iff] at h
  obtain ⟨inputItems, -, outputItems, -, usage, -, metadata, -, error, -, hresponse⟩ := h
  cases hresponse
  rfl

theorem listResponses_law_iff (hlimit : 1 ≤ limit ∧ limit ≤ MAX_LIST_LIMIT) {listing : List StoredResponse}
    (hread : (s.sortedRows owner order).mapM (decodeResponseRow codec) = .ok listing) :
    PageLaw (fun cursor => s.listResponses codec owner (.at limit order cursor))
      (fun response => some response.id) listing limit ↔ listing.length ≤ limit + 1 := by
  have htakes : TakesFirst (fun cursor => s.listResponses codec owner (.at limit order cursor))
      (fun response => some response.id) listing limit := by
    simp only [listResponses_at hlimit]
    exact takesFirst_pageRows.mapM hread fun row response h => congrArg some (decodeResponseRow_id h)
  refine htakes.pageLaw_iff hlimit.1 ?_ fun _ _ => rfl
  have hids : (s.sortedRows owner order).map (·.id) = listing.map (·.id) := by
    rw [← List.forall₂_eq_eq_eq, List.forall₂_map_left_iff, List.forall₂_map_right_iff]
    exact (Checks.mapM_eq_ok_iff.1 hread).imp fun row response h => (decodeResponseRow_id h).symm
  refine List.Nodup.of_map (·.id) ?_
  rw [← hids]
  exact nodup_ids_sortedRows order

def listedItems (order : ListOrder) (response : StoredResponse) : List InputItem :=
  if order = .desc then response.inputItems.reverse else response.inputItems

theorem inputItemIndex_eq {front back : List InputItem} {item : InputItem} {k : String}
    (hids : ((front ++ item :: back).map inputItemId).Nodup) (hk : inputItemId item = some k) :
    inputItemIndex (front ++ item :: back) k = .ok front.length := by
  have hfront : ∀ item' ∈ front, inputItemId item' ≠ some k := by
    intro item' hmem heq
    rw [List.map_append, List.map_cons] at hids
    exact (List.nodup_append.1 hids).2.2 _ (List.mem_map_of_mem hmem) _ List.mem_cons_self (heq.trans hk.symm)
  have hindex : (front ++ item :: back).findIdx? (inputItemId · = some k) = some front.length := by
    rw [List.findIdx?_append, List.findIdx?_eq_none_iff.2 (by simpa using hfront), Option.none_or,
      List.findIdx?_cons]
    simp [hk]
  rw [inputItemIndex, hindex]

def pageItems (items : List InputItem) (limit : Nat) : Cursor String → Except StoreError (List InputItem)
  | .start => .ok (items.take limit)
  | .after k => do
    let index ← inputItemIndex items k
    return (items.drop (index + 1)).take limit
  | .before k => do
    let index ← inputItemIndex items k
    return (items.take index).take limit

theorem listInputItems_at (hlimit : 1 ≤ limit ∧ limit ≤ MAX_LIST_LIMIT) {responseId : String} (hresponse : s.getResponse codec owner responseId = .ok (some response))
    (cursor : Cursor String) : s.listInputItems codec owner responseId (.at limit order cursor) =
      pageItems (listedItems order response) limit cursor := by
  rw [listInputItems, validateListParams_at hlimit, hresponse]
  cases cursor with
  | start | after | before => rfl

theorem takesFirst_pageItems {items : List InputItem} (hids : (items.map inputItemId).Nodup) :
    TakesFirst (pageItems items limit) inputItemId items limit := by
  refine ⟨rfl, fun front item back k hsplit hk => ?_, fun front item back k hsplit hk => ?_⟩
  · rw [hsplit] at hids
    rw [hsplit, pageItems, inputItemIndex_eq hids hk]
    show Except.ok (((front ++ item :: back).drop (front.length + 1)).take limit) = _
    simp
  · rw [hsplit] at hids
    rw [hsplit, pageItems, inputItemIndex_eq hids hk]
    show Except.ok (((front ++ item :: back).take front.length).take limit) = _
    simp

theorem listInputItems_law_iff (hlimit : 1 ≤ limit ∧ limit ≤ MAX_LIST_LIMIT) {responseId : String} (hresponse : s.getResponse codec owner responseId = .ok (some response))
    (hids : (response.inputItems.map inputItemId).Nodup)
    (hsome : ∀ item ∈ response.inputItems, (inputItemId item).isSome = true) :
    PageLaw (fun cursor => s.listInputItems codec owner responseId (.at limit order cursor)) inputItemId
      (listedItems order response) limit ↔ response.inputItems.length ≤ limit + 1 := by
  have hperm : (listedItems order response).Perm response.inputItems := by
    rw [listedItems]
    split
    · exact List.reverse_perm _
    · exact List.Perm.refl _
  have hids' : ((listedItems order response).map inputItemId).Nodup := (hperm.map _).nodup_iff.2 hids
  simp only [listInputItems_at hlimit hresponse]
  rw [← hperm.length_eq]
  exact (takesFirst_pageItems hids').pageLaw_iff hlimit.1 (List.Nodup.of_map _ hids')
    fun item hitem => hsome item (hperm.mem_iff.1 hitem)

/-- The law of both listings, for the pages of one limit and one order. -/
theorem paging_law_iff (hlimit : 1 ≤ limit ∧ limit ≤ MAX_LIST_LIMIT) {listing : List StoredResponse}
    (hread : (s.sortedRows owner order).mapM (decodeResponseRow codec) = .ok listing) :
    (PageLaw (fun cursor => s.listResponses codec owner (.at limit order cursor))
      (fun response => some response.id) listing limit ↔ listing.length ≤ limit + 1) ∧
    ∀ response ∈ listing, (response.inputItems.map inputItemId).Nodup →
      (∀ item ∈ response.inputItems, (inputItemId item).isSome = true) →
      (PageLaw (fun cursor => s.listInputItems codec owner response.id (.at limit order cursor)) inputItemId
        (listedItems order response) limit ↔ response.inputItems.length ≤ limit + 1) := by
  refine ⟨listResponses_law_iff hlimit hread, fun response hmem hids hsome => ?_⟩
  refine listInputItems_law_iff hlimit ?_ hids hsome
  obtain ⟨row, hrow, hdecode⟩ := Checks.exists_of_mem_mapM hread hmem
  rw [getResponse, decodeResponseRow_id hdecode, row?_eq_some (mem_sortedRows.1 hrow)]
  show some <$> decodeResponseRow codec row = _
  rw [hdecode]
  rfl

def threeListed : List StoredResponse :=
  [plainResponse "owner" "resp_0" 0, plainResponse "owner" "resp_1" 1, plainResponse "owner" "resp_2" 2]

def threeResponses : ResponsesStore where
  rows := threeListed.map (encodeResponse plainCodec "owner")
  nodup := by decide

theorem threeResponses_read :
    (threeResponses.sortedRows "owner" .asc).mapM (decodeResponseRow plainCodec) = .ok threeListed := by
  decide

theorem paging_law_pages_of_two :
    PageLaw (fun cursor => threeResponses.listResponses plainCodec "owner" (.at 2 .asc cursor))
      (fun response => some response.id) threeListed 2 ∧
    PageLaw (fun cursor => threeResponses.listInputItems plainCodec "owner" "resp_1" (.at 2 .asc cursor))
      inputItemId (listedItems .asc (plainResponse "owner" "resp_1" 1)) 2 := by
  have hlaw := paging_law_iff (by decide : 1 ≤ 2 ∧ 2 ≤ MAX_LIST_LIMIT) threeResponses_read
  exact ⟨hlaw.1.2 (by decide),
    (hlaw.2 (plainResponse "owner" "resp_1" 1) (by decide) (by decide) (by decide)).2 (by decide)⟩

/-- Before the last of three responses a page of one has the first of them. -/
theorem paging_law_not_pages_of_one :
    ¬PageLaw (fun cursor => threeResponses.listResponses plainCodec "owner" (.at 1 .asc cursor))
      (fun response => some response.id) threeListed 1 := by
  intro hlaw
  have hpage := hlaw.preceding [plainResponse "owner" "resp_0" 0, plainResponse "owner" "resp_1" 1]
    (plainResponse "owner" "resp_2" 2) [] "resp_2" rfl rfl
  revert hpage
  decide

end ResponsesStore

end ObeyGateway.Responses
