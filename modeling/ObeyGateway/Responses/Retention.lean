import Mathlib.Data.List.Dedup
import ObeyGateway.Lib.Run
import ObeyGateway.Responses.Store

/-!
# Retention

An owner keeps a bounded number of responses, and the store prunes by `(created_at, id)`. The ids are random: among the
rows of the oldest second the smallest goes first, which may be the one stored last. The rows stand in the order in which
they were last written (`Inv.written`), so that where the smallest of that second was written first (`PrunesOldest`), it
is always the row at the front that goes.
-/

namespace ObeyGateway.Responses

inductive Op
  | store (owner : String) (response : StoredResponse)
  | delete (owner id : String)

namespace Op

def storedKey : Op → Option (String × String)
  | store owner response => some (owner, response.id)
  | delete _ _ => none

def createdAt : Op → Option Int
  | store _ response => some response.createdAt
  | delete _ _ => none

def storedBy (owner : String) (op : Op) : Option String :=
  match op.storedKey with
  | some (owner', id) => if owner' = owner then some id else none
  | none => none

end Op

/-- The ids of the rows that the owner has stored or updated since it last did so with a row. -/
def storedSince (history : List Op) (owner id : String) : List String :=
  ((history.reverse.takeWhile fun op => op.storedKey ≠ some (owner, id)).filterMap (·.storedBy owner)).dedup

section
variable (cap : Nat) (codec : Codec)

def step (s : ResponsesStore) : Op → ResponsesStore
  | .store owner response => s.storeResponseCapped cap codec owner response
  | .delete owner id => (s.deleteResponse owner id).2

structure RetentionStep (before : List Op) (op : Op) (s s' : ResponsesStore) : Prop where
  bounded : ∀ owner, (s'.ownerRows owner).length ≤ cap
  framed : ∀ owner response, op = .store owner response → ∀ owner', owner' ≠ owner →
    s'.ownerRows owner' = s.ownerRows owner'
  stored : ∀ owner response, op = .store owner response →
    s'.getResponse codec owner response.id = .ok (some { response with ownerId := owner })
  dropped : ∀ owner response, op = .store owner response → ∀ row ∈ s.rows, row.key ∉ s'.rows.map (·.key) →
    cap ≤ (storedSince (before ++ [op]) row.ownerId row.id).length

def RetentionLaw (history : List Op) : Prop :=
  ∀ before op after, history = before ++ op :: after →
    RetentionStep cap codec before op (Run.run (step cap codec) .new before)
      (Run.run (step cap codec) .new (before ++ [op]))

/-- No row in front of the one with the least rank was created in the same second. -/
def OldestFirst (rows : List ResponseRow) : Prop :=
  ∀ front row back, rows = front ++ row :: back → (∀ row' ∈ rows, row.rank ≤ row'.rank) →
    ∀ row' ∈ front, row'.createdAt ≠ row.createdAt

/-- The columns can be read again, and where a row has to go the least one is the oldest of its second. -/
def PrunesOldest (s : ResponsesStore) : Op → Prop
  | .store owner response =>
    let row := encodeResponse codec owner response
    decodeResponseRow codec row = .ok { response with ownerId := owner } ∧
      (cap < ((s.upsert row).ownerRows owner).length → OldestFirst ((s.upsert row).ownerRows owner))
  | .delete _ _ => True

end

namespace ResponsesStore
variable {s : ResponsesStore} {cap : Nat} {owner : String} {row : ResponseRow}

theorem ownerRows_keep (p : ResponseRow → Bool) : (s.keep p).ownerRows owner = (s.ownerRows owner).filter p := by
  rw [ownerRows, keep, ownerRows, List.filter_filter, List.filter_filter]
  exact List.filter_congr fun row _ => Bool.and_comm _ _

theorem ownerRows_upsert_of_ne (h : owner ≠ row.ownerId) : (s.upsert row).ownerRows owner = s.ownerRows owner := by
  have hsingle : [row].filter (·.ownerId = owner) = [] := by simpa using h.symm
  rw [ownerRows, upsert, List.filter_append, hsingle, List.append_nil, ownerRows, List.filter_filter]
  refine List.filter_congr fun row' _ => ?_
  by_cases hrow' : row'.ownerId = owner
  · have hkey : row'.key ≠ row.key := fun hkey => h (hrow'.symm.trans (congrArg Prod.fst hkey))
    simp [hrow', hkey]
  · simp [hrow']

theorem ownerRows_upsert_self :
    (s.upsert row).ownerRows row.ownerId = (s.ownerRows row.ownerId).filter (·.id ≠ row.id) ++ [row] := by
  have hsingle : [row].filter (·.ownerId = row.ownerId) = [row] := by simp
  rw [ownerRows, upsert, List.filter_append, hsingle, ownerRows, List.filter_filter, List.filter_filter]
  refine congrArg (· ++ [row]) (List.filter_congr fun row' _ => ?_)
  by_cases hrow' : row'.ownerId = row.ownerId
  · simp [hrow', ResponseRow.key]
  · simp [hrow']

theorem overflowing_eq_nil (h : (s.ownerRows owner).length ≤ cap) : s.overflowing cap owner = [] := by
  rw [overflowing, List.drop_eq_nil_of_le (by rw [List.length_insertionSort]; exact h), List.map_nil]

theorem exists_overflowing (h : (s.ownerRows owner).length = cap + 1) : ∃ row ∈ s.ownerRows owner,
    (∀ row' ∈ s.ownerRows owner, row.rank ≤ row'.rank) ∧ s.overflowing cap owner = [row.id] := by
  have hlength : (s.sortedRows owner .desc).length = cap + 1 := by
    rw [sortedRows, List.length_insertionSort, h]
  rcases List.eq_nil_or_concat (s.sortedRows owner .desc) with hnil | ⟨front, row, hlast⟩
  · rw [hnil] at hlength
    cases hlength
  · rw [List.concat_eq_append] at hlast
    have hcap : front.length = cap := by
      rw [hlast, List.length_append, List.length_singleton] at hlength
      omega
    have hsorted : (s.sortedRows owner .desc).Pairwise ListOrder.desc.lt := s.pairwise_sortedRows .desc
    refine ⟨row, mem_sortedRows.1 (by rw [hlast]; simp), fun row' hrow' => ?_, ?_⟩
    · have hmem : row' ∈ s.sortedRows owner .desc := mem_sortedRows.2 hrow'
      rw [hlast] at hmem hsorted
      rcases List.mem_append.1 hmem with hfront | hself
      · exact ((List.pairwise_append.1 hsorted).2.2 row' hfront row (List.mem_singleton_self _)).le
      · rw [List.mem_singleton.1 hself]
    · show ((s.sortedRows owner .desc).drop cap).map (·.id) = _
      rw [hlast, ← hcap, List.drop_left]
      rfl

theorem ownerRows_prune_of_ne {owner' : String} (h : owner' ≠ owner) :
    (s.prune cap owner).ownerRows owner' = s.ownerRows owner' := by
  rw [prune, ownerRows_keep]
  refine List.filter_eq_self.2 fun row hrow => ?_
  have hne : row.ownerId ≠ owner := (mem_ownerRows.1 hrow).2.trans_ne h
  simp [hne]

theorem ownerRows_prune_self : (s.prune cap owner).ownerRows owner =
    (s.ownerRows owner).filter fun row => !(s.overflowing cap owner).contains row.id := by
  rw [prune, ownerRows_keep]
  refine List.filter_congr fun row hrow => ?_
  rw [(mem_ownerRows.1 hrow).2]
  simp

theorem length_ownerRows_upsert (s : ResponsesStore) (row : ResponseRow) :
    ((s.upsert row).ownerRows row.ownerId).length ≤ (s.ownerRows row.ownerId).length + 1 := by
  rw [ownerRows_upsert_self, List.length_append, List.length_singleton]
  exact Nat.add_le_add_right (List.length_filter_le _ _) 1

theorem mem_upsert_self (s : ResponsesStore) (row : ResponseRow) : row ∈ (s.upsert row).ownerRows row.ownerId := by
  rw [ownerRows_upsert_self]
  exact List.mem_append_right _ (List.mem_singleton_self _)

theorem mem_upsert_of_key_ne {row' : ResponseRow} (h : row' ∈ s.rows) (hkey : row'.key ≠ row.key) :
    row' ∈ (s.upsert row).rows :=
  List.mem_append_left _ (List.mem_filter.2 ⟨h, by simpa using hkey⟩)

end ResponsesStore

section
variable {history : List Op} {op : Op} {owner id id' : String}

theorem storedSince_concat (h : op.storedKey ≠ some (owner, id)) : id' ∈ storedSince (history ++ [op]) owner id ↔
      op.storedBy owner = some id' ∨ id' ∈ storedSince history owner id := by
  rw [storedSince, List.reverse_append, List.reverse_singleton, List.singleton_append,
    List.takeWhile_cons_of_pos (by simpa using h), List.mem_dedup, List.mem_filterMap, storedSince,
    List.mem_dedup, List.mem_filterMap]
  simp only [List.mem_cons, or_and_right, exists_or, exists_eq_left]

end

/-- The rows stand in the order in which they were written, and so by their time. -/
structure Inv (history : List Op) (s : ResponsesStore) : Prop where
  past : ∀ row ∈ s.rows, row.createdAt ∈ history.filterMap (·.createdAt)
  timed : s.rows.Pairwise fun row row' => row.createdAt ≤ row'.createdAt
  written : s.rows.Pairwise fun row row' =>
    row.ownerId = row'.ownerId → row'.id ∈ storedSince history row.ownerId row.id

namespace Inv
variable {history : List Op} {s : ResponsesStore}

theorem keep (h : Inv history s) (p : ResponseRow → Bool) : Inv history (s.keep p) :=
  ⟨fun row hrow => h.past row (List.mem_filter.1 hrow).1, h.timed.sublist List.filter_sublist,
    h.written.sublist List.filter_sublist⟩

theorem delete (h : Inv history s) (owner id : String) : Inv (history ++ [.delete owner id]) s := by
  refine ⟨fun row hrow => ?_, h.timed, h.written.imp fun hwritten heq => ?_⟩
  · rw [List.filterMap_append]
    exact List.mem_append_left _ (h.past row hrow)
  · exact (storedSince_concat (by simp [Op.storedKey])).2 (.inr (hwritten heq))

theorem upsert (h : Inv history s) {codec : Codec} {owner : String} {response : StoredResponse}
    (htime : ∀ t ∈ history.filterMap (·.createdAt), t ≤ response.createdAt) :
    Inv (history ++ [.store owner response]) (s.upsert (encodeResponse codec owner response)) := by
  have hkey {row : ResponseRow} (hrow : row ∈ s.rows.filter (·.key ≠ (encodeResponse codec owner response).key)) :
      (Op.store owner response).storedKey ≠ some (row.ownerId, row.id) := fun heq =>
    of_decide_eq_true (List.mem_filter.1 hrow).2 (Option.some.inj heq).symm
  refine ⟨fun row hrow => ?_, ?_, ?_⟩
  · rw [List.filterMap_append]
    rcases List.mem_append.1 hrow with hrow | hrow
    · exact List.mem_append_left _ (h.past row (List.mem_filter.1 hrow).1)
    · obtain rfl := List.mem_singleton.1 hrow
      exact List.mem_append_right _ (List.mem_singleton_self _)
  · refine List.pairwise_append.2 ⟨h.timed.sublist List.filter_sublist, List.pairwise_singleton _ _, ?_⟩
    intro row hrow row' hrow'
    obtain rfl := List.mem_singleton.1 hrow'
    exact htime _ (h.past row (List.mem_filter.1 hrow).1)
  · refine List.pairwise_append.2 ⟨?_, List.pairwise_singleton _ _, ?_⟩
    · refine (h.written.sublist List.filter_sublist).imp_of_mem fun {row row'} hrow _ hwritten heq => ?_
      exact (storedSince_concat (hkey hrow)).2 (.inr (hwritten heq))
    · intro row hrow row' hrow' heq
      obtain rfl := List.mem_singleton.1 hrow'
      refine (storedSince_concat (hkey hrow)).2 (.inl ?_)
      exact if_pos heq.symm

end Inv

/-! ### Steps -/

section
variable {cap : Nat} {codec : Codec} {history : List Op} {s : ResponsesStore} {owner : String}
  {response : StoredResponse}

theorem prune_eq_self (h : (s.ownerRows owner).length ≤ cap) : (s.prune cap owner).rows = s.rows := by
  rw [ResponsesStore.prune, ResponsesStore.overflowing_eq_nil h]
  exact List.filter_eq_self.2 fun row _ => by simp

theorem prune_front (hinv : Inv history s) (hcap : (s.ownerRows owner).length = cap + 1)
    (hfirst : OldestFirst (s.ownerRows owner)) :
    ∃ row, s.ownerRows owner = row :: (s.prune cap owner).ownerRows owner := by
  obtain ⟨row, hrow, hleast, hover⟩ := ResponsesStore.exists_overflowing hcap
  obtain ⟨front, back, hsplit⟩ := List.append_of_mem hrow
  -- what stands in front of the least row is not newer, and so of the same second
  have hfront : front = [] := by
    refine List.eq_nil_iff_forall_not_mem.2 fun row' hrow' => ?_
    have hmem : row' ∈ s.ownerRows owner := by
      rw [hsplit]
      exact List.mem_append_left _ hrow'
    have htimed : (s.ownerRows owner).Pairwise fun row row' => row.createdAt ≤ row'.createdAt :=
      hinv.timed.sublist List.filter_sublist
    rw [hsplit] at htimed
    have hle : row'.createdAt ≤ row.createdAt :=
      (List.pairwise_append.1 htimed).2.2 row' hrow' row List.mem_cons_self
    have hge : row.createdAt ≤ row'.createdAt := by
      rcases (Prod.Lex.le_iff.1 (hleast row' hmem)) with hlt | heq
      · exact hlt.le
      · exact heq.1.le
    exact hfirst front row back hsplit hleast row' hrow' (le_antisymm hle hge)
  rw [hfront, List.nil_append] at hsplit
  refine ⟨row, ?_⟩
  have hids : ((row :: back).map (·.id)).Nodup := by
    rw [← hsplit]
    exact (ResponsesStore.nodup_ownerRows).map_on fun a ha b hb => ResponsesStore.eq_of_id ha hb
  have hback : ∀ row' ∈ back, row'.id ≠ row.id := by
    intro row' hrow' heq
    exact (List.nodup_cons.1 hids).1 (List.mem_map.2 ⟨row', hrow', heq⟩)
  rw [ResponsesStore.ownerRows_prune_self, hover, hsplit, List.filter_cons_of_neg (by simp),
    List.filter_eq_self.2 fun row' hrow' => by simpa using hback row' hrow']

theorem newest_kept (hcap : 0 < cap) {new oldest : ResponseRow} (hfront : (s.upsert new).ownerRows new.ownerId =
      oldest :: ((s.upsert new).prune cap new.ownerId).ownerRows new.ownerId)
    (hrest : (((s.upsert new).prune cap new.ownerId).ownerRows new.ownerId).length = cap) :
    new ∈ ((s.upsert new).prune cap new.ownerId).ownerRows new.ownerId := by
  rcases List.eq_nil_or_concat (((s.upsert new).prune cap new.ownerId).ownerRows new.ownerId) with
    hnil | ⟨rest, row, hrow⟩
  · rw [hnil] at hrest
    exact absurd hrest hcap.ne
  · rw [List.concat_eq_append] at hrow
    have hends : (s.ownerRows new.ownerId).filter (·.id ≠ new.id) ++ [new] = (oldest :: rest) ++ [row] := by
      rw [List.cons_append, ← hrow, ← hfront]
      exact ResponsesStore.ownerRows_upsert_self.symm
    obtain ⟨-, hnewrow⟩ := List.append_inj' hends rfl
    rw [hrow, List.singleton_inj.1 hnewrow]
    exact List.mem_append_right _ (List.mem_singleton_self _)

theorem length_le_storedSince (hinv : Inv history s) {oldest : ResponseRow} {rest : List ResponseRow}
    (hfront : s.ownerRows owner = oldest :: rest) :
    rest.length ≤ (storedSince history owner oldest.id).length := by
  have hwritten : (s.ownerRows owner).Pairwise _ := hinv.written.sublist List.filter_sublist
  have howner : ∀ row ∈ oldest :: rest, row.ownerId = owner := by
    intro row hrow
    rw [← hfront] at hrow
    exact (ResponsesStore.mem_ownerRows.1 hrow).2
  have hids : ((oldest :: rest).map (·.id)).Nodup := by
    rw [← hfront]
    exact ResponsesStore.nodup_ownerRows.map_on fun a ha b hb => ResponsesStore.eq_of_id ha hb
  rw [hfront] at hwritten
  have hsince : rest.map (·.id) ⊆ storedSince history owner oldest.id := by
    intro id hid
    obtain ⟨row, hrow, rfl⟩ := List.mem_map.1 hid
    have hthen := (List.pairwise_cons.1 hwritten).1 row hrow
      ((howner oldest List.mem_cons_self).trans (howner row (List.mem_cons_of_mem _ hrow)).symm)
    rwa [howner oldest List.mem_cons_self] at hthen
  have hle := (List.subperm_of_subset (List.nodup_cons.1 hids).2 hsince).length_le
  rwa [List.length_map] at hle

/-- Every row that is stored is kept, and a row that goes is older than all that stay. -/
theorem store_step (hcap : 0 < cap) (hinv : Inv history s) (hbounded : (s.ownerRows owner).length ≤ cap)
    (htime : ∀ t ∈ history.filterMap (·.createdAt), t ≤ response.createdAt)
    (hstep : PrunesOldest cap codec s (.store owner response)) :
    let s' := s.storeResponseCapped cap codec owner response
    (s'.ownerRows owner).length ≤ cap ∧ encodeResponse codec owner response ∈ s'.ownerRows owner ∧
      ∀ row ∈ s.ownerRows owner, row.key ∉ s'.rows.map (·.key) →
        cap ≤ (storedSince (history ++ [.store owner response]) owner row.id).length := by
  obtain ⟨-, hfirst⟩ := hstep
  set new := encodeResponse codec owner response with hnew
  have hmem := ResponsesStore.mem_upsert_self s new
  have hlength := ResponsesStore.length_ownerRows_upsert s new
  have hinv' : Inv (history ++ [.store owner response]) (s.upsert new) := hinv.upsert htime
  change new ∈ (s.upsert new).ownerRows owner at hmem
  change ((s.upsert new).ownerRows owner).length ≤ (s.ownerRows owner).length + 1 at hlength
  have hkept {row : ResponseRow} (hrow : row ∈ s.ownerRows owner) (hkey : row.key ≠ new.key) :
      row ∈ (s.upsert new).ownerRows owner := by
    rw [ResponsesStore.mem_ownerRows] at hrow ⊢
    exact ⟨ResponsesStore.mem_upsert_of_key_ne hrow.1 hkey, hrow.2⟩
  rw [ResponsesStore.storeResponseCapped, ← hnew]
  by_cases hover : ((s.upsert new).ownerRows owner).length ≤ cap
  · have hrows : (((s.upsert new).prune cap owner).ownerRows owner) = (s.upsert new).ownerRows owner := by
      rw [ResponsesStore.ownerRows, prune_eq_self hover, ResponsesStore.ownerRows]
    refine ⟨by rwa [hrows], by rwa [hrows], fun row hrow hgone => ?_⟩
    rw [prune_eq_self hover] at hgone
    by_cases hkey : row.key = new.key
    · exact absurd (hkey ▸ List.mem_map_of_mem (ResponsesStore.mem_ownerRows.1 hmem).1) hgone
    · exact absurd (List.mem_map_of_mem (ResponsesStore.mem_ownerRows.1 (hkept hrow hkey)).1) hgone
  · have hcount : ((s.upsert new).ownerRows owner).length = cap + 1 := by omega
    obtain ⟨oldest, hfront⟩ := prune_front hinv' hcount (hfirst (by omega))
    have hrest : (((s.upsert new).prune cap owner).ownerRows owner).length = cap := by
      rw [hfront, List.length_cons] at hcount
      omega
    have hlast : new ∈ ((s.upsert new).prune cap owner).ownerRows owner := newest_kept hcap hfront hrest
    refine ⟨hrest.le, hlast, fun row hrow hgone => ?_⟩
    have hstays {row : ResponseRow} (hrow : row ∈ ((s.upsert new).prune cap owner).ownerRows owner) :
        row.key ∈ ((s.upsert new).prune cap owner).rows.map (·.key) :=
      List.mem_map_of_mem (ResponsesStore.mem_ownerRows.1 hrow).1
    have hkey : row.key ≠ new.key := fun hkey => hgone (hkey ▸ hstays hlast)
    have hmem' := hkept hrow hkey
    rw [hfront] at hmem'
    obtain rfl : row = oldest := (List.mem_cons.1 hmem').resolve_right fun hback => hgone (hstays hback)
    exact hrest.ge.trans (length_le_storedSince hinv' hfront)

theorem ownerRows_store_of_ne (s : ResponsesStore) (cap : Nat) (codec : Codec) (response : StoredResponse)
    {owner' : String} (h : owner' ≠ owner) :
    (s.storeResponseCapped cap codec owner response).ownerRows owner' = s.ownerRows owner' := by
  have hrow : owner' ≠ (encodeResponse codec owner response).ownerId := h
  rw [ResponsesStore.storeResponseCapped, ResponsesStore.ownerRows_prune_of_ne h,
    ResponsesStore.ownerRows_upsert_of_ne hrow]

theorem createdAt_le (hmono : ((history ++ [Op.store owner response]).filterMap (·.createdAt)).Pairwise (· ≤ ·))
    (t : Int) (ht : t ∈ history.filterMap (·.createdAt)) : t ≤ response.createdAt := by
  rw [List.filterMap_append] at hmono
  exact (List.pairwise_append.1 hmono).2.2 t ht response.createdAt (List.mem_singleton_self _)

theorem run_inv (hcap : 0 < cap) (hmono : (history.filterMap (·.createdAt)).Pairwise (· ≤ ·))
    (hsteps : Run.Along (step cap codec) (PrunesOldest cap codec) .new history) :
    Inv history (Run.run (step cap codec) .new history) ∧
      ∀ owner, ((Run.run (step cap codec) .new history).ownerRows owner).length ≤ cap := by
  induction history using List.reverseRecOn with
  | nil => exact ⟨⟨nofun, List.Pairwise.nil, List.Pairwise.nil⟩, fun _ => Nat.zero_le _⟩
  | append_singleton history op ih =>
    obtain ⟨hbefore, hop⟩ := Run.along_concat.1 hsteps
    have hmono' : (history.filterMap (·.createdAt)).Pairwise (· ≤ ·) := by
      rw [List.filterMap_append] at hmono
      exact (List.pairwise_append.1 hmono).1
    obtain ⟨hinv, hbounded⟩ := ih hmono' hbefore
    rw [Run.run_concat]
    cases op with
    | store owner response =>
      have htime := createdAt_le hmono
      refine ⟨(hinv.upsert htime).keep _, fun owner' => ?_⟩
      by_cases howner : owner' = owner
      · rw [howner]
        exact (store_step hcap hinv (hbounded owner) htime hop).1
      · rw [step, ownerRows_store_of_ne _ _ _ _ howner]
        exact hbounded owner'
    | delete owner id =>
      refine ⟨(hinv.delete owner id).keep _, fun owner' => ?_⟩
      rw [step, ResponsesStore.deleteResponse, ResponsesStore.ownerRows_keep]
      exact (List.length_filter_le _ _).trans (hbounded owner')

theorem getResponse_of_mem (hmem : encodeResponse codec owner response ∈ s.ownerRows owner)
    (hread : decodeResponseRow codec (encodeResponse codec owner response) =
      .ok { response with ownerId := owner }) :
    s.getResponse codec owner response.id = .ok (some { response with ownerId := owner }) := by
  have hrow : s.row? owner response.id = some (encodeResponse codec owner response) :=
    ResponsesStore.row?_eq_some hmem
  rw [ResponsesStore.getResponse, hrow]
  show some <$> decodeResponseRow codec (encodeResponse codec owner response) = _
  rw [hread]
  rfl

theorem retention_of_prunesOldest (hcap : 0 < cap) (hmono : (history.filterMap (·.createdAt)).Pairwise (· ≤ ·))
    (hsteps : Run.Along (step cap codec) (PrunesOldest cap codec) .new history) :
    RetentionLaw cap codec history := by
  rintro before op after rfl
  rw [← List.singleton_append, ← List.append_assoc] at hmono hsteps
  have hmono' : ((before ++ [op]).filterMap (·.createdAt)).Pairwise (· ≤ ·) := by
    rw [List.filterMap_append] at hmono
    exact (List.pairwise_append.1 hmono).1
  have hbefore := (Run.along_append.1 hsteps).1
  obtain ⟨hsteps', hop⟩ := Run.along_concat.1 hbefore
  have hmono'' : (before.filterMap (·.createdAt)).Pairwise (· ≤ ·) := by
    rw [List.filterMap_append] at hmono'
    exact (List.pairwise_append.1 hmono').1
  obtain ⟨hinv, hbounded⟩ := run_inv hcap hmono'' hsteps'
  refine ⟨(run_inv hcap hmono' hbefore).2, ?_, ?_, ?_⟩
  · rintro owner response rfl owner' howner
    rw [Run.run_concat]
    exact ownerRows_store_of_ne _ _ _ _ howner
  · rintro owner response rfl
    rw [Run.run_concat]
    have hstore := store_step hcap hinv (hbounded owner) (createdAt_le hmono') hop
    exact getResponse_of_mem hstore.2.1 hop.1
  · rintro owner response rfl row hrow hgone
    rw [Run.run_concat] at hgone
    have hstore := store_step hcap hinv (hbounded owner) (createdAt_le hmono') hop
    have howner : row.ownerId = owner := by
      by_contra hother
      have hstays : row ∈ (Run.run (step cap codec) .new before).ownerRows row.ownerId :=
        ResponsesStore.mem_ownerRows.2 ⟨hrow, rfl⟩
      rw [← ownerRows_store_of_ne _ cap codec response hother] at hstays
      exact hgone (List.mem_map_of_mem (ResponsesStore.mem_ownerRows.1 hstays).1)
    rw [howner]
    exact hstore.2.2 row (ResponsesStore.mem_ownerRows.2 ⟨hrow, howner⟩) hgone

end

theorem retention_law (codec : Codec) (history : List Op) (hmono : (history.filterMap (·.createdAt)).Pairwise (· ≤ ·))
    (hsteps : Run.Along (step MAX_RESPONSES_PER_OWNER codec) (PrunesOldest MAX_RESPONSES_PER_OWNER codec)
      .new history) :
    RetentionLaw MAX_RESPONSES_PER_OWNER codec history :=
  retention_of_prunesOldest (by decide) hmono hsteps

theorem retention_law_two_stores : RetentionLaw MAX_RESPONSES_PER_OWNER plainCodec
      [.store "owner" (plainResponse "owner" "resp_b" 0), .store "owner" (plainResponse "owner" "resp_a" 0)] :=
  retention_law plainCodec _ (by decide)
    ⟨⟨by decide, fun h => absurd h (by decide)⟩, ⟨by decide, fun h => absurd h (by decide)⟩, trivial⟩

section
variable {cap : Nat}

def oneSecond (ids : List String) : List Op := ids.map fun id => .store "owner" (plainResponse "owner" id 0)

theorem oneSecond_createdAt (ids : List String) : ((oneSecond ids).filterMap (·.createdAt)).Pairwise (· ≤ ·) := by
  have hzero : (oneSecond ids).filterMap (·.createdAt) = ids.map fun _ => 0 := by
    rw [oneSecond, List.filterMap_map]
    exact congrFun List.filterMap_eq_map ids
  rw [hzero, List.pairwise_map]
  exact List.pairwise_of_forall fun _ _ => le_refl _

def plainRow (id : String) : ResponseRow := encodeResponse plainCodec "owner" (plainResponse "owner" id 0)

variable {ids : List String}

theorem upsert_plainRow {s : ResponsesStore} {id : String} (hrows : s.rows = ids.map plainRow)
    (hid : id ∉ ids) : (s.upsert (plainRow id)).rows = (ids ++ [id]).map plainRow := by
  show s.rows.filter (·.key ≠ (plainRow id).key) ++ [plainRow id] = _
  rw [hrows, List.map_append]
  refine congrArg (· ++ [plainRow id]) (List.filter_eq_self.2 fun row hrow => ?_)
  obtain ⟨id', hid', rfl⟩ := List.mem_map.1 hrow
  have hne : id' ≠ id := fun heq => hid (heq ▸ hid')
  simpa [ResponseRow.key, plainRow, encodeResponse, plainResponse] using hne

theorem ownerRows_plainRow {s : ResponsesStore} (hrows : s.rows = ids.map plainRow) :
    s.ownerRows "owner" = ids.map plainRow := by
  rw [ResponsesStore.ownerRows, hrows]
  refine List.filter_eq_self.2 fun row hrow => ?_
  obtain ⟨id, -, rfl⟩ := List.mem_map.1 hrow
  exact decide_eq_true rfl

theorem run_oneSecond (hnodup : ids.Nodup) (hcap : ids.length ≤ cap) :
    (Run.run (step cap plainCodec) .new (oneSecond ids)).rows = ids.map plainRow := by
  induction ids using List.reverseRecOn with
  | nil => rfl
  | append_singleton ids id ih =>
    obtain ⟨hids, -, hcross⟩ := List.nodup_append.1 hnodup
    rw [List.length_append, List.length_singleton] at hcap
    have hid : id ∉ ids := fun hmem => hcross id hmem id (List.mem_singleton_self _) rfl
    have hupsert := upsert_plainRow (ih hids (by omega)) hid
    have hfits : (((Run.run (step cap plainCodec) .new (oneSecond ids)).upsert (plainRow id)).ownerRows
        "owner").length ≤ cap := by
      rw [ownerRows_plainRow hupsert, List.length_map, List.length_append, List.length_singleton]
      exact hcap
    rw [oneSecond, List.map_append, List.map_singleton, Run.run_concat]
    exact (prune_eq_self hfits).trans hupsert

/-- The one that is stored last goes, if it has the smallest id. -/
theorem oneSecond_loses_last {id : String} (hnodup : ids.Nodup) (hcap : ids.length = cap)
    (hsmallest : ∀ id' ∈ ids, id < id') : ¬RetentionLaw cap plainCodec (oneSecond (ids ++ [id])) := by
  intro hlaw
  have hstep := hlaw (oneSecond ids) (.store "owner" (plainResponse "owner" id 0)) []
    (by rw [oneSecond, List.map_append]; rfl)
  have hget := hstep.stored "owner" (plainResponse "owner" id 0) rfl
  have hid : id ∉ ids := fun hmem => lt_irrefl id (hsmallest id hmem)
  have hupsert := upsert_plainRow (run_oneSecond hnodup hcap.le) hid
  rw [Run.run_concat] at hget
  set s := (Run.run (step cap plainCodec) .new (oneSecond ids)).upsert (plainRow id)
  have howner := ownerRows_plainRow hupsert
  have hcount : (s.ownerRows "owner").length = cap + 1 := by
    rw [howner, List.length_map, List.length_append, List.length_singleton, hcap]
  obtain ⟨row, hrow, hleast, hover⟩ := ResponsesStore.exists_overflowing hcount
  have hlast : plainRow id ∈ s.ownerRows "owner" := by
    rw [howner]
    exact List.mem_map_of_mem (List.mem_append_right _ (List.mem_singleton_self _))
  -- the least row is the last one
  have hrowid : row.id = id := by
    have hmem := hrow
    rw [howner] at hmem
    obtain ⟨id', hid', rfl⟩ := List.mem_map.1 hmem
    rcases List.mem_append.1 hid' with hid' | hid'
    · have hlt : (plainRow id).rank < (plainRow id').rank :=
        Prod.Lex.lt_iff.2 (.inr ⟨rfl, hsmallest id' hid'⟩)
      exact absurd (hleast _ hlast) (not_le_of_gt hlt)
    · exact List.mem_singleton.1 hid'
  have hgone : (s.prune cap "owner").row? "owner" id = none := by
    refine Option.eq_none_iff_forall_ne_some.2 fun row' hrow' => ?_
    obtain ⟨hmem, hid'⟩ := ResponsesStore.mem_of_row? hrow'
    rw [ResponsesStore.ownerRows_prune_self, hover, hrowid, ← hid'] at hmem
    simpa using (List.mem_filter.1 hmem).2
  change (s.prune cap "owner").getResponse plainCodec "owner" id = _ at hget
  rw [ResponsesStore.getResponse, hgone] at hget
  cases hget

end

def word (n : Nat) : String := String.ofList (List.replicate (n + 1) 'b')

theorem word_injective {m n : Nat} (h : word m = word n) : m = n := by
  have hlength := congrArg (fun w => w.toList.length) h
  simp [word] at hlength
  exact hlength

theorem a_lt_word (n : Nat) : "a" < word n := by
  have hlt : 'a' < 'b' := by decide
  have hword : (word n).toList = 'b' :: List.replicate n 'b' := String.toList_ofList
  rw [String.lt_iff_toList_lt, hword]
  exact List.Lex.rel hlt

theorem newest_response_pruned :
    ((oneSecond ((List.range 1000).map word ++ ["a"])).filterMap (·.createdAt)).Pairwise (· ≤ ·) ∧
      ¬RetentionLaw MAX_RESPONSES_PER_OWNER plainCodec (oneSecond ((List.range 1000).map word ++ ["a"])) := by
  refine ⟨oneSecond_createdAt _, oneSecond_loses_last ?_ ?_ ?_⟩
  · exact List.Nodup.map (fun m n => word_injective) List.nodup_range
  · rw [List.length_map, List.length_range]
    rfl
  · intro id hid
    obtain ⟨n, -, rfl⟩ := List.mem_map.1 hid
    exact a_lt_word n

end ObeyGateway.Responses
