import Mathlib.Data.List.Dedup
import ObeyGateway.Lib.Assoc
import ObeyGateway.Lib.Checks
import ObeyGateway.Lib.Run
import ObeyGateway.Memory.Store

/-!
# The cap of a namespace and what it keeps

Both evictions are one function of the rows of a namespace (`survivors`): the lowest rows go, and the others stay in their
order. So the cap holds behind a store and behind a decay cycle, what goes is nowhere above what stays, and a new row goes
itself when fewer rows are below it than have to go (`present_iff`).
-/

namespace ObeyGateway.Memory

variable {db db' : MemoryDb} {ns ns' : String} {n : Nat}

instance transCmp_evictionOrder : Std.TransCmp evictionOrder := inferInstanceAs (Std.TransCmp (compareLex _ _))

theorem evictionOrder_swap (a b : MemoryRow) : evictionOrder b a = (evictionOrder a b).swap := Std.OrientedCmp.eq_swap

theorem evictionOrder_total (rows : List MemoryRow) : SortBy.TotalOn evictionOrder rows where
  swap a _ b _ := evictionOrder_swap a b
  trans _ _ _ _ _ _ hab hbc := Std.TransCmp.isLE_trans hab hbc

variable {a b : MemoryRow}

theorem id_eq_of_evictionOrder (h : evictionOrder a b = .eq) : a.id = b.id := by
  simp only [evictionOrder, compareLex, compareOn, Ordering.then_eq_eq] at h
  exact Std.LawfulEqCmp.eq_of_compare h.2.2.2

theorem score_le_of_evictionOrder (h : (evictionOrder a b).isLE) : a.relevanceScore ≤ b.relevanceScore := by
  have hfirst : (compare a.relevanceScore b.relevanceScore).isLE := by
    simp only [evictionOrder, compareLex, compareOn] at h
    cases hcmp : compare a.relevanceScore b.relevanceScore with
    | lt | eq => rfl
    | gt =>
      rw [hcmp] at h
      cases h
  exact Std.LawfulBCmp.isLE_iff_le.1 hfirst

theorem eq_of_id {rows : List MemoryRow} (h : (rows.map (·.id)).Nodup) (ha : a ∈ rows) (hb : b ∈ rows)
    (hid : a.id = b.id) : a = b := List.inj_on_of_nodup_map h ha hb hid

section
variable {rows : List MemoryRow}

theorem mem_survivors (h : (rows.map (·.id)).Nodup) {r : MemoryRow} :
    r ∈ survivors n rows ↔ r ∈ rows ∧ r ∉ SortBy.lowest evictionOrder n rows := by
  rw [survivors, List.mem_filter, decide_eq_true_eq]
  refine and_congr_right fun hr => not_congr ?_
  constructor
  · intro hid
    obtain ⟨v, hv, heq⟩ := List.mem_map.1 hid
    rwa [← eq_of_id h (SortBy.mem_of_mem_lowest hv) hr heq]
  · exact fun hmem => List.mem_map.2 ⟨r, hmem, rfl⟩

theorem length_survivors (h : (rows.map (·.id)).Nodup) : (survivors n rows).length = rows.length - n := by
  have hnodup : (SortBy.sortBy evictionOrder rows).Nodup := (SortBy.sortBy_perm _ rows).nodup_iff.2 (.of_map _ h)
  have hperm : (survivors n rows).Perm ((SortBy.sortBy evictionOrder rows).drop n) := by
    refine (List.perm_ext_iff_of_nodup ((List.Nodup.of_map _ h).filter _) (hnodup.sublist (List.drop_sublist n _))).2 ?_
    intro r
    show r ∈ survivors n rows ↔ _
    rw [mem_survivors h]
    have hdisjoint : ((SortBy.sortBy evictionOrder rows).take n).Disjoint ((SortBy.sortBy evictionOrder rows).drop n) := by
      refine List.disjoint_of_nodup_append ?_
      rw [List.take_append_drop]
      exact hnodup
    constructor
    · rintro ⟨hr, hnot⟩
      have hmem : r ∈ (SortBy.sortBy evictionOrder rows).take n ++ (SortBy.sortBy evictionOrder rows).drop n := by
        rw [List.take_append_drop]
        exact SortBy.mem_sortBy.2 hr
      exact (List.mem_append.1 hmem).resolve_left hnot
    · intro hr
      exact ⟨SortBy.mem_sortBy.1 (List.mem_of_mem_drop hr), fun hlowest => hdisjoint hlowest hr⟩
  rw [hperm.length_eq, List.length_drop, (SortBy.sortBy_perm _ rows).length_eq]

theorem score_le_of_survivors (h : (rows.map (·.id)).Nodup) {gone kept : MemoryRow} (hgone : gone ∈ rows)
    (hgone' : gone ∉ survivors n rows) (hkept : kept ∈ survivors n rows) : gone.relevanceScore ≤ kept.relevanceScore := by
  obtain ⟨hmem, hleft⟩ := (mem_survivors h).1 hkept
  have hlowest : gone ∈ SortBy.lowest evictionOrder n rows := by
    by_contra hnot
    exact hgone' ((mem_survivors h).2 ⟨hgone, hnot⟩)
  exact score_le_of_evictionOrder ((evictionOrder_total rows).isLE_of_lowest hlowest hmem hleft)

theorem mem_survivors_iff (h : (rows.map (·.id)).Nodup) {r : MemoryRow} (hr : r ∈ rows) :
    r ∈ survivors n rows ↔ n ≤ (rows.filter (evictionOrder · r = .lt)).length := by
  have hdistinct : rows.Pairwise fun a b => evictionOrder a b ≠ .eq :=
    (List.pairwise_map.1 h).imp fun hne heq => hne (id_eq_of_evictionOrder heq)
  rw [mem_survivors h, SortBy.mem_lowest_iff (evictionOrder_total rows) evictionOrder_swap hdistinct hr, not_lt]
  exact and_iff_right hr

end

namespace MemoryDb

theorem ids_inNamespace (db : MemoryDb) (ns : String) : ((db.inNamespace ns).map (·.id)).Nodup := ids_filter _ db.ids

theorem mem_inNamespace {r : MemoryRow} : r ∈ db.inNamespace ns ↔ r ∈ db.rows ∧ r.ns = ns := by
  rw [inNamespace, List.mem_filter, decide_eq_true_eq]

theorem inNamespace_congr (h : db'.rows = db.rows) (ns : String) : db'.inNamespace ns = db.inNamespace ns := by
  rw [inNamespace, h, inNamespace]

theorem inNamespace_evict_self (db : MemoryDb) (ns : String) (n : Nat) :
    (db.evict ns n).inNamespace ns = survivors n (db.inNamespace ns) := by
  show (db.rows.filter _).filter _ = (db.rows.filter _).filter _
  rw [List.filter_filter, List.filter_filter]
  exact List.filter_congr fun r _ => Bool.and_comm _ _

theorem inNamespace_evict_of_ne (db : MemoryDb) (n : Nat) (h : ns' ≠ ns) :
    (db.evict ns n).inNamespace ns' = db.inNamespace ns' := by
  show (db.rows.filter _).filter _ = db.rows.filter _
  rw [List.filter_filter]
  refine List.filter_congr fun r hr => ?_
  by_cases hns : r.ns = ns'
  · have hnot : r.id ∉ (db.victims ns n).map (·.id) := by
      intro hid
      obtain ⟨v, hv, heq⟩ := List.mem_map.1 hid
      obtain ⟨hv, hvns⟩ := mem_inNamespace.1 (SortBy.mem_of_mem_lowest hv)
      obtain rfl := eq_of_id db.ids hv hr heq
      exact h (hns.symm.trans hvns)
    simp [hns, hnot]
  · simp [hns]

end MemoryDb

def MemoryDb.Scored (db : MemoryDb) : Prop := ∀ r ∈ db.rows, 0 ≤ r.relevanceScore ∧ r.relevanceScore ≤ 1

theorem blt_iff {a b : ℚ} : Rat.blt a b = true ↔ a < b := Iff.rfl

theorem inUnit_iff {score : ℚ} : inUnit score = true ↔ 0 ≤ score ∧ score ≤ 1 := by
  rw [inUnit, Bool.and_eq_true, Bool.not_eq_true', Bool.not_eq_true', ← Bool.not_eq_true, ← Bool.not_eq_true, blt_iff,
    blt_iff, not_lt, not_lt]

theorem boosted_mem {score : ℚ} (h : 0 ≤ score ∧ score ≤ 1) : 0 ≤ boosted score ∧ boosted score ≤ 1 := by
  unfold boosted
  split_ifs with hone
  · exact ⟨zero_le_one, le_refl 1⟩
  · rw [blt_iff, not_lt] at hone
    exact ⟨by linarith [h.1], hone⟩

theorem decayFactor_mem (memoryType : MemoryType) : 0 ≤ decayFactor memoryType ∧ decayFactor memoryType ≤ 1 := by
  cases memoryType <;> norm_num [decayFactor]

theorem decayed_mem {r : MemoryRow} (h : 0 ≤ r.relevanceScore ∧ r.relevanceScore ≤ 1) :
    0 ≤ r.decayed.relevanceScore ∧ r.decayed.relevanceScore ≤ 1 := by
  obtain ⟨hlo, hhi⟩ := decayFactor_mem r.memoryType
  have hscore : r.relevanceScore * decayFactor r.memoryType ≤ 1 := mul_le_one₀ h.2 hlo hhi
  unfold MemoryRow.decayed
  dsimp only
  split_ifs with hneg
  · exact ⟨le_refl 0, zero_le_one⟩
  · rw [blt_iff, not_lt] at hneg
    exact ⟨hneg, hscore⟩

namespace MemoryDb.Scored

theorem keep (h : db.Scored) (p : MemoryRow → Bool) : (db.keep p).Scored := fun r hr => h r (List.mem_of_mem_filter hr)

theorem update (h : db.Scored) {f : MemoryRow → MemoryRow} (hf : ∀ r, (f r).id = r.id)
    (hscore : ∀ r, 0 ≤ r.relevanceScore ∧ r.relevanceScore ≤ 1 → 0 ≤ (f r).relevanceScore ∧ (f r).relevanceScore ≤ 1) :
    (db.update f hf).Scored := by
  intro r' hr'
  obtain ⟨r, hr, rfl⟩ := List.mem_map.1 hr'
  exact hscore r (h r hr)

theorem insert (h : db.Scored) {entry : MemoryEntry} (hscore : 0 ≤ entry.relevanceScore ∧ entry.relevanceScore ≤ 1)
    (hinsert : db.insert entry = some db') : db'.Scored := by
  unfold MemoryDb.insert at hinsert
  split_ifs at hinsert
  cases hinsert
  intro r hr
  rcases List.mem_append.1 hr with hr | hr
  · exact h r hr
  · rw [List.mem_singleton.1 hr]
    exact hscore

theorem accessAll (h : db.Scored) (accessedAt : Int) (ids : List Uuid) : (MemoryDb.accessAll accessedAt ids db).2.Scored := by
  induction ids generalizing db with
  | nil => exact h
  | cons id ids ih =>
    refine ih (h.update (MemoryRow.accessed_id id accessedAt) fun r hr => ?_)
    unfold MemoryRow.accessed
    split_ifs
    · exact boosted_mem hr
    · exact hr

theorem mark (h : db.Scored) (ns : Option String) (id target : Uuid) : (db.mark ns id target).2.Scored := by
  unfold MemoryDb.mark
  split
  · exact h
  · split_ifs
    · refine h.update (MemoryRow.superseded_id id target) fun r hr => ?_
      unfold MemoryRow.superseded
      split_ifs <;> exact hr
    · exact h

theorem markSources (h : db.Scored) {target : Uuid} {seen ids : List Uuid}
    (hmark : MemoryDb.markSources ns target seen ids db = some db') : db'.Scored := by
  induction ids generalizing db seen with
  | nil =>
    cases hmark
    exact h
  | cons id ids ih =>
    unfold MemoryDb.markSources at hmark
    split_ifs at hmark
    split at hmark
    · rename_i db'' heq
      have hscored := h.mark (some ns) id target
      rw [heq] at hscored
      exact ih hscored hmark
    · cases hmark

theorem evictNamespaces (h : db.Scored) (excesses : List (String × Nat)) : (MemoryDb.evictNamespaces excesses db).2.Scored := by
  induction excesses generalizing db with
  | nil => exact h
  | cons first excesses ih => exact ih (h.keep _)

end MemoryDb.Scored

/-! ### What the calls do to a namespace -/

structure Capped (cap : Nat) (before after : List MemoryRow) : Prop where
  length_le : after.length ≤ cap
  sublist : after.Sublist before
  all : before.length ≤ cap → after = before
  relevance : ∀ gone ∈ before, gone ∉ after → ∀ kept ∈ after, gone.relevanceScore ≤ kept.relevanceScore

theorem survivors_zero (rows : List MemoryRow) : survivors 0 rows = rows := by
  refine List.filter_eq_self.2 fun r _ => ?_
  simp [SortBy.lowest]

theorem capped_survivors {rows : List MemoryRow} (h : (rows.map (·.id)).Nodup) (cap : Nat) :
    Capped cap rows (survivors (rows.length - cap) rows) where
  length_le := by
    rw [length_survivors h]
    omega
  sublist := List.filter_sublist
  all := fun hlength => by
    rw [Nat.sub_eq_zero_of_le hlength]
    exact survivors_zero rows
  relevance := fun _ hgone hgone' _ hkept => score_le_of_survivors h hgone hgone' hkept

namespace MemoryDb

variable {entry : MemoryEntry}

theorem insert_spec (h : db.insert entry = some db') :
    entry.id ∉ db.rows.map (·.id) ∧ db'.rows = db.rows ++ [entry.toRow] := by
  unfold insert at h
  split_ifs at h with hid hcheck
  cases h
  exact ⟨hid, rfl⟩

theorem inNamespace_insert (h : db.insert entry = some db') (ns : String) :
    db'.inNamespace ns = if entry.ns = ns then db.inNamespace ns ++ [entry.toRow] else db.inNamespace ns := by
  have hrow : entry.toRow.ns = entry.ns := rfl
  unfold inNamespace
  rw [(insert_spec h).2, List.filter_append]
  split_ifs with hns
  · rw [List.filter_cons_of_pos (by rw [hrow]; exact decide_eq_true hns), List.filter_nil]
  · rw [List.filter_cons_of_neg (by rw [hrow]; simpa using hns), List.filter_nil, List.append_nil]

theorem inNamespace_update {f : MemoryRow → MemoryRow} (hf : ∀ r, (f r).id = r.id) (hns : ∀ r, (f r).ns = r.ns)
    (ns : String) : (db.update f hf).inNamespace ns = (db.inNamespace ns).map f := by
  show (db.rows.map f).filter _ = (db.rows.filter _).map f
  rw [List.filter_map]
  congr 1
  refine List.filter_congr fun r _ => ?_
  simp [hns]

theorem inNamespace_update_of_eq {f : MemoryRow → MemoryRow} (hf : ∀ r, (f r).id = r.id) (hns : ∀ r, (f r).ns = r.ns)
    (h : ∀ r ∈ db.rows, r.ns = ns → f r = r) : (db.update f hf).inNamespace ns = db.inNamespace ns := by
  rw [inNamespace_update hf hns]
  refine (List.map_congr_left fun r hr => ?_).trans (List.map_id _)
  obtain ⟨hmem, hr⟩ := mem_inNamespace.1 hr
  exact h r hmem hr

variable {ok : Bool} {id : Uuid} {now : Int} {input : MemoryEntryInput} {cap : Nat}

theorem storeEntry_cases (db : MemoryDb) (ok : Bool) (id : Uuid) (now : Int) (input : MemoryEntryInput) (cap : Nat) :
    (∃ e, db.storeEntry ok id now input (some cap) = (.error e, db)) ∨
      ∃ db', validateEntry (input.toEntry id now) = .ok () ∧ db.insert (input.toEntry id now) = some db' ∧
        db.storeEntry ok id now input (some cap) = (.ok (input.toEntry id now),
          db'.evict (input.toEntry id now).ns (db'.excess (input.toEntry id now).ns cap)) := by
  unfold storeEntry
  dsimp only
  split
  · exact .inl ⟨_, rfl⟩
  · rename_i hvalid
    rcases hinsert : db.insert (input.toEntry id now) with _ | db'
    · dsimp only
      split_ifs <;> exact .inl ⟨_, rfl⟩
    dsimp only
    split_ifs
    · exact .inl ⟨_, rfl⟩
    · exact .inl ⟨_, rfl⟩
    · exact .inr ⟨db', hvalid, rfl, rfl⟩
    · exact .inl ⟨_, rfl⟩

theorem score_of_validateEntry (h : validateEntry entry = .ok ()) :
    0 ≤ entry.relevanceScore ∧ entry.relevanceScore ≤ 1 := by
  unfold validateEntry at h
  rw [Checks.seq_eq_ok_iff, Checks.seq_eq_ok_iff] at h
  obtain ⟨-, -, h⟩ := h
  split_ifs at h with hscore haccess
  exact inUnit_iff.1 (by simpa using hscore)

variable {db' : MemoryDb}

theorem inNamespace_store (h : db.insert entry = some db') (cap : Nat) (ns : String) :
    (db'.evict entry.ns (db'.excess entry.ns cap)).inNamespace ns =
      if entry.ns = ns then
        survivors ((db.inNamespace ns).length + 1 - cap) (db.inNamespace ns ++ [entry.toRow])
      else db.inNamespace ns := by
  split_ifs with hns
  · subst hns
    rw [inNamespace_evict_self, excess, inNamespace_insert h, if_pos rfl, List.length_append, List.length_singleton]
  · rw [inNamespace_evict_of_ne _ _ fun heq => hns heq.symm, inNamespace_insert h, if_neg hns]

theorem storeEntry_capped (h : db.insert entry = some db') (cap : Nat) :
    Capped cap (db.inNamespace entry.ns ++ [entry.toRow])
      ((db'.evict entry.ns (db'.excess entry.ns cap)).inNamespace entry.ns) := by
  have hids := db'.ids_inNamespace entry.ns
  rw [inNamespace_insert h, if_pos rfl] at hids
  have hcapped := capped_survivors hids cap
  rw [List.length_append, List.length_singleton] at hcapped
  rw [inNamespace_store h, if_pos rfl]
  exact hcapped

theorem present_iff (h : db.insert entry = some db') (cap : Nat) :
    ((db'.evict entry.ns (db'.excess entry.ns cap)).row? entry.id).isSome = true ↔
      (db.inNamespace entry.ns).length + 1 - cap ≤
        ((db.inNamespace entry.ns).filter (evictionOrder · entry.toRow = .lt)).length := by
  have hids := db'.ids_inNamespace entry.ns
  rw [inNamespace_insert h, if_pos rfl] at hids
  have hself : ¬ evictionOrder entry.toRow entry.toRow = .lt := by
    intro hlt
    have hswap := evictionOrder_swap entry.toRow entry.toRow
    rw [hlt] at hswap
    cases hswap
  have hmem := mem_survivors_iff (n := (db.inNamespace entry.ns).length + 1 - cap) hids
    (List.mem_append_right _ (List.mem_singleton.2 rfl))
  rw [List.filter_append, List.filter_cons_of_neg (by simpa using hself), List.filter_nil, List.append_nil] at hmem
  rw [← hmem, row?, List.find?_isSome]
  have hnamespace := inNamespace_store h cap entry.ns
  rw [if_pos rfl] at hnamespace
  constructor
  · rintro ⟨r, hr, hid⟩
    have hold : r ∈ db'.rows := List.mem_of_mem_filter hr
    have hnew : entry.toRow ∈ db'.rows := by
      rw [(insert_spec h).2]
      exact List.mem_append_right _ (List.mem_singleton.2 rfl)
    obtain rfl := eq_of_id db'.ids hold hnew (of_decide_eq_true hid)
    rw [← hnamespace]
    exact mem_inNamespace.2 ⟨hr, rfl⟩
  · intro hr
    rw [← hnamespace] at hr
    exact ⟨entry.toRow, (mem_inNamespace.1 hr).1, decide_eq_true rfl⟩

theorem inNamespace_evictNamespaces (db : MemoryDb) {excesses : List (String × Nat)} (h : (Assoc.keys excesses).Nodup)
    (ns : String) :
    (evictNamespaces excesses db).2.inNamespace ns = survivors ((Assoc.get excesses ns).getD 0) (db.inNamespace ns) := by
  induction excesses generalizing db with
  | nil => exact (survivors_zero _).symm
  | cons first excesses ih =>
    obtain ⟨ns₀, excess⟩ := first
    obtain ⟨hnot, hnodup⟩ := List.nodup_cons.1 h
    show (evictNamespaces excesses (db.evict ns₀ excess)).2.inNamespace ns = _
    rw [ih (db.evict ns₀ excess) hnodup]
    by_cases hns : ns₀ = ns
    · subst hns
      rw [Assoc.get_eq_none hnot, Assoc.get_cons_self, Option.getD_none, Option.getD_some, survivors_zero,
        inNamespace_evict_self]
    · rw [Assoc.get_cons_of_ne hns, inNamespace_evict_of_ne _ _ fun heq => hns heq.symm]

theorem mem_namespaces : ns ∈ db.namespaces ↔ ∃ r ∈ db.rows, r.ns = ns := by
  rw [namespaces, List.mem_mergeSort, List.mem_dedup, List.mem_map]

theorem nodup_namespaces (db : MemoryDb) : db.namespaces.Nodup := by
  rw [namespaces, (List.mergeSort_perm _ _).nodup_iff]
  exact List.nodup_dedup _

theorem nodup_overCap (db : MemoryDb) (cap : Nat) : (Assoc.keys (db.overCap cap)).Nodup := by
  refine List.Nodup.sublist (List.filter_sublist.map _) ?_
  rw [List.map_map]
  exact (List.map_id db.namespaces).symm ▸ db.nodup_namespaces

theorem get_overCap (db : MemoryDb) (cap : Nat) (ns : String) : (Assoc.get (db.overCap cap) ns).getD 0 = db.excess ns cap := by
  by_cases hover : 0 < db.excess ns cap
  · have hrows : db.inNamespace ns ≠ [] := by
      rintro hnil
      rw [excess, hnil, List.length_nil, Nat.zero_sub] at hover
      exact lt_irrefl 0 hover
    obtain ⟨r, hr⟩ := List.exists_mem_of_ne_nil _ hrows
    have hmem : (ns, db.excess ns cap) ∈ db.overCap cap := by
      refine List.mem_filter.2 ⟨List.mem_map.2 ⟨ns, mem_namespaces.2 ⟨r, mem_inNamespace.1 hr⟩, rfl⟩, ?_⟩
      exact decide_eq_true hover
    rw [(Assoc.mem_iff_get (db.nodup_overCap cap)).1 hmem, Option.getD_some]
  · rcases hget : Assoc.get (db.overCap cap) ns with _ | n
    · exact (Nat.eq_zero_of_not_pos hover).symm
    obtain ⟨hmem, hpos⟩ := List.mem_filter.1 (Assoc.mem_of_get hget)
    obtain ⟨ns₀, -, heq⟩ := List.mem_map.1 hmem
    cases heq
    exact absurd (of_decide_eq_true hpos) hover

theorem runDecayCycle_cases (db : MemoryDb) (ok : Bool) (cap : Nat) (now : Int) :
    (∃ e, db.runDecayCycle ok cap now = (.error e, db)) ∨
      ∃ result db', db.runDecayCycle ok cap now = (.ok result, db') ∧
        db'.rows = (evictNamespaces ((db.update MemoryRow.decayed MemoryRow.decayed_id).overCap cap)
          (db.update MemoryRow.decayed MemoryRow.decayed_id)).2.rows := by
  unfold runDecayCycle
  split_ifs
  · exact .inl ⟨_, rfl⟩
  · exact .inl ⟨_, rfl⟩
  · exact .inl ⟨_, rfl⟩
  · exact .inr ⟨_, _, rfl, rfl⟩

theorem runDecayCycle_capped
    (h : db'.rows = (evictNamespaces ((db.update MemoryRow.decayed MemoryRow.decayed_id).overCap cap)
      (db.update MemoryRow.decayed MemoryRow.decayed_id)).2.rows) (ns : String) :
    Capped cap ((db.inNamespace ns).map MemoryRow.decayed) (db'.inNamespace ns) := by
  have hnamespace := inNamespace_evictNamespaces (db.update MemoryRow.decayed MemoryRow.decayed_id)
    (nodup_overCap (db.update MemoryRow.decayed MemoryRow.decayed_id) cap) ns
  rw [get_overCap, excess] at hnamespace
  have hcapped := capped_survivors (ids_inNamespace (db.update MemoryRow.decayed MemoryRow.decayed_id) ns) cap
  rw [← hnamespace, inNamespace_update MemoryRow.decayed_id MemoryRow.decayed_ns] at hcapped
  rw [inNamespace_congr h]
  exact hcapped

end MemoryDb

end ObeyGateway.Memory
