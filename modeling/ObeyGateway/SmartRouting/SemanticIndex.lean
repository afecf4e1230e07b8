import Mathlib.Data.List.Perm.Basic
import ObeyGateway.Lib.Recency
import ObeyGateway.SmartRouting.SemanticIsolation

/-!
# The index of the semantic cache

`Shelf used s`: the order lists the ids of the entries by the last use in the log `used`. Taking entries out keeps it
(`Shelf.dropped`), a use moves an id to the end (`Shelf.touch`), an insert adds one (`Shelf.insert`).
-/

namespace ObeyGateway.SmartRouting
open Json (SameUpToOrder)
open Models (Message)

section
variable {F : Type} {A : Scores F} {K : @SemanticPrimitives F}

def Dropped (s s' : IndexState A) : Prop :=
  ∃ p : Nat → Bool, s'.entries = s.entries.filter (fun e => p e.1) ∧ s'.lru = s.lru.filter p

namespace Dropped
variable {s s' s'' : IndexState A}

theorem refl (s : IndexState A) : Dropped s s := ⟨fun _ => true, by simp, by simp⟩

theorem trans (h : Dropped s s') (h' : Dropped s' s'') : Dropped s s'' := by
  obtain ⟨p, hentries, hlru⟩ := h
  obtain ⟨p', hentries', hlru'⟩ := h'
  refine ⟨fun k => p k && p' k, ?_, ?_⟩
  · rw [hentries', hentries, List.filter_filter]
    exact List.filter_congr fun e _ => Bool.and_comm _ _
  · rw [hlru', hlru, List.filter_filter]
    exact List.filter_congr fun k _ => Bool.and_comm _ _

theorem remove (s : IndexState A) (id : Nat) : Dropped s (s.remove id).2 := ⟨fun k => k ≠ id, rfl, rfl⟩

theorem removeAll (ids : List Nat) (s : IndexState A) : Dropped s (IndexState.removeAll ids s).2 := by
  induction ids generalizing s with
  | nil => exact refl s
  | cons id ids ih => exact (remove s id).trans (ih _)

theorem evict (capacity turns : Nat) (s : IndexState A) : Dropped s (IndexState.evict capacity turns s).2 := by
  induction turns generalizing s with
  | zero => exact refl s
  | succ turns ih =>
    unfold IndexState.evict
    split
    · split
      · exact refl s
      · exact (remove s _).trans (ih _)
    · exact refl s

theorem keys (h : Dropped s s') : ∃ p : Nat → Bool, Assoc.keys s'.entries = (Assoc.keys s.entries).filter p ∧
    s'.lru = s.lru.filter p := by
  obtain ⟨p, hentries, hlru⟩ := h
  refine ⟨p, ?_, hlru⟩
  rw [hentries, Assoc.keys, Assoc.keys, List.filter_map]
  rfl

end Dropped

variable {s : IndexState A}

theorem mem_removeAll {ids : List Nat} {e : Nat × IndexEntry A} :
    e ∈ (IndexState.removeAll ids s).2.entries ↔ e ∈ s.entries ∧ e.1 ∉ ids := by
  induction ids generalizing s with
  | nil => simp [IndexState.removeAll]
  | cons id ids ih =>
    have hrest : e ∈ (IndexState.removeAll (id :: ids) s).2.entries ↔
        e ∈ (IndexState.removeAll ids (s.remove id).2).2.entries := Iff.rfl
    rw [hrest, ih, IndexState.remove, Assoc.erase, List.mem_filter]
    simp [and_assoc]

theorem mem_removeExpired {now : Nat} {e : Nat × IndexEntry A} (hkeys : (Assoc.keys s.entries).Nodup) :
    e ∈ (s.removeExpired now).2.entries ↔ e ∈ s.entries ∧ now < e.2.expiresAt := by
  rw [IndexState.removeExpired, mem_removeAll]
  refine and_congr_right fun he => ?_
  rw [List.mem_map, ← not_le, not_iff_not]
  constructor
  · rintro ⟨e', hmem, heq⟩
    obtain ⟨hmem, hexpired⟩ := List.mem_filter.1 hmem
    obtain rfl := List.inj_on_of_nodup_map hkeys hmem he heq
    exact of_decide_eq_true hexpired
  · intro hexpired
    exact ⟨e, List.mem_filter.2 ⟨he, decide_eq_true hexpired⟩, rfl⟩

structure Shelf (used : List Nat) (s : IndexState A) : Prop where
  keys_nodup : (Assoc.keys s.entries).Nodup
  id_eq : ∀ e ∈ s.entries, e.2.id = e.1
  subset_used : ∀ k ∈ Assoc.keys s.entries, k ∈ used
  lru_eq : s.lru = Recency.recency used (Assoc.keys s.entries)
  digests_nodup : (s.entries.map (·.2.requestDigest)).Nodup

namespace Shelf
variable {used : List Nat} {s s' : IndexState A}

theorem mem_lru (h : Shelf used s) {k : Nat} : k ∈ s.lru ↔ k ∈ Assoc.keys s.entries := by
  rw [h.lru_eq, Recency.mem_recency]
  exact and_iff_right_of_imp (h.subset_used k)

theorem length_lru (h : Shelf used s) : s.lru.length = s.entries.length := by
  have hnodup : s.lru.Nodup := by
    rw [h.lru_eq]
    exact Recency.nodup_recency
  have hperm := (List.perm_ext_iff_of_nodup hnodup h.keys_nodup).2 fun k => h.mem_lru
  rw [hperm.length_eq, Assoc.keys, List.length_map]

theorem congr (h : Shelf used s) (hentries : s'.entries = s.entries) (hlru : s'.lru = s.lru) : Shelf used s' := by
  obtain ⟨entries, lru, dimension⟩ := s
  obtain ⟨entries', lru', dimension'⟩ := s'
  obtain rfl : entries' = entries := hentries
  obtain rfl : lru' = lru := hlru
  exact ⟨h.keys_nodup, h.id_eq, h.subset_used, h.lru_eq, h.digests_nodup⟩

theorem dropped (h : Shelf used s) (hdropped : Dropped s s') : Shelf used s' := by
  obtain ⟨p, hkeys, hlru⟩ := hdropped.keys
  obtain ⟨q, hentries, -⟩ := hdropped
  have hsub : List.Sublist s'.entries s.entries := by
    rw [hentries]
    exact List.filter_sublist
  refine ⟨(hsub.map _).nodup h.keys_nodup, fun e he => h.id_eq e (hsub.subset he), fun k hk => ?_, ?_,
    (hsub.map _).nodup h.digests_nodup⟩
  · exact h.subset_used k ((hsub.map _).subset hk)
  · rw [hlru, h.lru_eq, hkeys, Recency.recency_filter]

theorem touch (h : Shelf used s) {id : Nat} (hid : id ∈ Assoc.keys s.entries) : Shelf (used ++ [id]) (s.touch id) := by
  refine ⟨h.keys_nodup, h.id_eq, fun k hk => List.mem_append_left _ (h.subset_used k hk), ?_, h.digests_nodup⟩
  show s.lru.filter (· ≠ id) ++ [id] = _
  rw [h.lru_eq, IndexState.touch, Recency.recency_touch hid]

theorem push (h : Shelf used s) {entry : IndexEntry A} (hid : entry.id ∉ Assoc.keys s.entries)
    (hdigest : ∀ e ∈ s.entries, e.2.requestDigest ≠ entry.requestDigest) :
    Shelf (used ++ [entry.id])
      { s with entries := Assoc.put s.entries entry.id entry, lru := s.lru ++ [entry.id] } := by
  have herase : Assoc.erase s.entries entry.id = s.entries := Assoc.erase_eq_self (Assoc.get_eq_none hid)
  have hput : Assoc.put s.entries entry.id entry = (entry.id, entry) :: s.entries := by rw [Assoc.put, herase]
  rw [hput]
  refine ⟨List.nodup_cons.2 ⟨hid, h.keys_nodup⟩, fun e he => ?_, fun k hk => ?_, ?_, List.nodup_cons.2 ⟨?_, h.digests_nodup⟩⟩
  · rcases List.mem_cons.1 he with rfl | he
    · rfl
    · exact h.id_eq e he
  · rcases List.mem_cons.1 hk with rfl | hk
    · exact List.mem_append_right _ (List.mem_singleton.2 rfl)
    · exact List.mem_append_left _ (h.subset_used k hk)
  · show s.lru ++ [entry.id] = Recency.recency (used ++ [entry.id]) (entry.id :: Assoc.keys s.entries)
    rw [h.lru_eq, Recency.recency_push hid]
  · intro hmem
    obtain ⟨e, he, heq⟩ := List.mem_map.1 hmem
    exact hdigest e he heq

end Shelf

section
variable {used : List Nat} {s : IndexState A} {capacity : Nat}

theorem evict_full (h : Shelf used s) (hfull : s.entries.length = capacity) (hcapacity : 1 ≤ capacity) :
    ∃ oldest lru, s.lru = oldest :: lru ∧ (IndexState.evict capacity s.lru.length s).2 = (s.remove oldest).2 := by
  have hlength := h.length_lru
  cases hlru : s.lru with
  | nil =>
    rw [hlru] at hlength
    have hnil : 0 = s.entries.length := hlength
    omega
  | cons oldest lru =>
    refine ⟨oldest, lru, rfl, ?_⟩
    have hremoved : (s.remove oldest).2.entries.length < capacity := by
      have hmem := h.mem_lru.1 (hlru ▸ List.mem_cons_self)
      obtain ⟨e, he, heq⟩ := List.mem_map.1 hmem
      rw [← hfull]
      refine List.length_filter_lt_length_iff_exists.2 ⟨e, he, ?_⟩
      simp [heq]
    show (IndexState.evict capacity (lru.length + 1) s).2 = _
    have hhead : s.lru.head? = some oldest := by rw [hlru, List.head?_cons]
    unfold IndexState.evict
    rw [if_pos hfull.ge, hhead]
    show (IndexState.evict capacity lru.length (s.remove oldest).2).2 = _
    cases hturns : lru.length with
    | zero => rfl
    | succ turns =>
      unfold IndexState.evict
      rw [if_neg hremoved.not_ge]

theorem evict_room (hroom : s.entries.length < capacity) (turns : Nat) : IndexState.evict capacity turns s = ([], s) := by
  cases turns with
  | zero => rfl
  | succ turns =>
    unfold IndexState.evict
    exact if_neg hroom.not_ge

theorem evict_law (h : Shelf used s) (hlength : s.entries.length ≤ capacity) (hcapacity : 1 ≤ capacity) :
    (IndexState.evict capacity s.lru.length s).2.entries.length < capacity ∧
      ∀ k ∈ Assoc.keys s.entries, k ∉ Assoc.keys (IndexState.evict capacity s.lru.length s).2.entries →
        s.entries.length = capacity ∧ ∀ k' ∈ Assoc.keys s.entries, k' ≠ k → Recency.UsedBefore used k k' := by
  rcases Nat.lt_or_eq_of_le hlength with hroom | hfull
  · rw [evict_room hroom]
    exact ⟨hroom, fun k hk hnot => absurd hk hnot⟩
  · obtain ⟨oldest, lru, hlru, hevict⟩ := evict_full h hfull hcapacity
    rw [hevict]
    have hmem := h.mem_lru.1 (hlru ▸ List.mem_cons_self)
    constructor
    · obtain ⟨e, he, heq⟩ := List.mem_map.1 hmem
      rw [← hfull]
      refine List.length_filter_lt_length_iff_exists.2 ⟨e, he, ?_⟩
      simp [heq]
    · intro k hk hnot
      have hold : k = oldest := by
        by_contra hne
        exact hnot (Assoc.mem_keys_erase.2 ⟨hne, hk⟩)
      subst hold
      refine ⟨hfull, fun k' hk' hne => ?_⟩
      have horder : Recency.recency used (Assoc.keys s.entries) = [k] ++ lru := h.lru_eq.symm.trans hlru
      refine Recency.usedBefore_of_append horder (List.mem_singleton.2 rfl) ?_
      have hin := h.mem_lru.2 hk'
      rw [hlru] at hin
      exact (List.mem_cons.1 hin).resolve_left hne

end

def IndexState.replaced (s : IndexState A) (digest : List UInt8) : List OpaquePayloadRef × IndexState A :=
  match s.entries.find? (·.2.requestDigest = digest) with
  | none => ([], s)
  | some existing => IndexState.removeAll [existing.1] s

theorem insert_eq (s : IndexState A) (entry : IndexEntry A) (capacity : Nat) : s.insert entry capacity =
    ((s.replaced entry.requestDigest).1 ++ (IndexState.evict capacity (s.replaced entry.requestDigest).2.lru.length
        (s.replaced entry.requestDigest).2).1,
      { (IndexState.evict capacity (s.replaced entry.requestDigest).2.lru.length (s.replaced entry.requestDigest).2).2 with
        entries := Assoc.put (IndexState.evict capacity (s.replaced entry.requestDigest).2.lru.length
          (s.replaced entry.requestDigest).2).2.entries entry.id entry
        lru := (IndexState.evict capacity (s.replaced entry.requestDigest).2.lru.length
          (s.replaced entry.requestDigest).2).2.lru ++ [entry.id] }) := rfl

section
variable {used : List Nat} {s : IndexState A} {digest : List UInt8}

theorem Dropped.replaced (s : IndexState A) (digest : List UInt8) : Dropped s (s.replaced digest).2 := by
  unfold IndexState.replaced
  split
  · exact refl s
  · exact removeAll _ s

theorem replaced_none (h : ∀ e ∈ s.entries, e.2.requestDigest ≠ digest) : s.replaced digest = ([], s) := by
  have hfind : s.entries.find? (·.2.requestDigest = digest) = none :=
    List.find?_eq_none.2 fun e he => by simpa using h e he
  rw [IndexState.replaced, hfind]

theorem replaced_head {e : Nat × IndexEntry A} {entries : List (Nat × IndexEntry A)} (hentries : s.entries = e :: entries)
    (h : e.2.requestDigest = digest) : s.replaced digest = IndexState.removeAll [e.1] s := by
  have hfind : s.entries.find? (·.2.requestDigest = digest) = some e := by
    rw [hentries]
    exact List.find?_cons_of_pos (decide_eq_true h)
  rw [IndexState.replaced, hfind]

theorem mem_replaced (h : Shelf used s) {e : Nat × IndexEntry A} :
    e ∈ (s.replaced digest).2.entries ↔ e ∈ s.entries ∧ e.2.requestDigest ≠ digest := by
  unfold IndexState.replaced
  cases hfind : s.entries.find? (·.2.requestDigest = digest) with
  | none =>
    have hnone := List.find?_eq_none.1 hfind
    refine ⟨fun he => ⟨he, ?_⟩, fun he => he.1⟩
    simpa using hnone e he
  | some existing =>
    have hmem := List.mem_of_find?_eq_some hfind
    have hdigest : existing.2.requestDigest = digest := by simpa using List.find?_some hfind
    show e ∈ (IndexState.removeAll [existing.1] s).2.entries ↔ _
    rw [mem_removeAll]
    refine and_congr_right fun he => ?_
    rw [List.mem_singleton, not_iff_not]
    constructor
    · intro heq
      rw [List.inj_on_of_nodup_map h.keys_nodup he hmem heq, hdigest]
    · intro heq
      rw [List.inj_on_of_nodup_map h.digests_nodup he hmem (heq.trans hdigest.symm)]

theorem Shelf.insert (h : Shelf used s) {entry : IndexEntry A} {capacity : Nat}
    (hid : entry.id ∉ Assoc.keys s.entries) : Shelf (used ++ [entry.id]) (s.insert entry capacity).2 := by
  have hdropped := (Dropped.replaced s entry.requestDigest).trans
    (Dropped.evict capacity (s.replaced entry.requestDigest).2.lru.length _)
  have hshelf := h.dropped hdropped
  obtain ⟨p, hkeys, -⟩ := hdropped.keys
  refine hshelf.push (fun hmem => hid ?_) fun e he => ?_
  · rw [hkeys] at hmem
    exact (List.mem_filter.1 hmem).1
  · exact ((mem_replaced h).1 ((evict_sublist _ _ _).subset he)).2

theorem insert_law (h : Shelf used s) {entry : IndexEntry A} {capacity : Nat} (hlength : s.entries.length ≤ capacity)
    (hcapacity : 1 ≤ capacity) : (s.insert entry capacity).2.entries.length ≤ capacity ∧
      ∀ e ∈ s.entries, e.1 ∉ Assoc.keys (s.insert entry capacity).2.entries → e.2.requestDigest ≠ entry.requestDigest →
        ∀ k' ∈ Assoc.keys s.entries, k' ≠ e.1 → Recency.UsedBefore used e.1 k' := by
  have hreplaced := h.dropped (Dropped.replaced s entry.requestDigest)
  have hsub : List.Sublist (s.replaced entry.requestDigest).2.entries s.entries := by
    obtain ⟨p, hentries, -⟩ := Dropped.replaced s entry.requestDigest
    rw [hentries]
    exact List.filter_sublist
  have hle : (s.replaced entry.requestDigest).2.entries.length ≤ capacity := hsub.length_le.trans hlength
  obtain ⟨hroom, hevicted⟩ := evict_law hreplaced hle hcapacity
  rw [insert_eq]
  constructor
  · exact Nat.le_trans (Nat.succ_le_succ (List.length_filter_le _ _)) hroom
  · intro e he hgone hdigest k' hk' hne
    have hin := (mem_replaced h).2 ⟨he, hdigest⟩
    have hkey := Assoc.mem_keys_of_mem hin
    have hnot : e.1 ∉ Assoc.keys (IndexState.evict capacity (s.replaced entry.requestDigest).2.lru.length
        (s.replaced entry.requestDigest).2).2.entries := fun hmem => hgone (Assoc.mem_keys_put.2 (.inr hmem))
    obtain ⟨hfull, hbefore⟩ := hevicted e.1 hkey hnot
    -- at the capacity nothing has been replaced
    have heq := hsub.eq_of_length (le_antisymm hsub.length_le (hfull ▸ hlength))
    rw [heq] at hbefore
    exact hbefore k' hk' hne

end

def IndexState.refs (s : IndexState A) : List OpaquePayloadRef := s.entries.map (·.2.payloadRef)

section
variable {s : IndexState A}

theorem refs_remove (hkeys : (Assoc.keys s.entries).Nodup) (id : Nat) :
    s.refs.Perm ((s.remove id).1.toList.map (·.payloadRef) ++ (s.remove id).2.refs) := by
  show s.refs.Perm ((Assoc.get s.entries id).toList.map (·.payloadRef) ++
    (Assoc.erase s.entries id).map (·.2.payloadRef))
  cases hget : Assoc.get s.entries id with
  | none =>
    rw [Assoc.erase_eq_self hget]
    exact List.Perm.refl _
  | some e =>
    have hperm : s.entries.Perm (Assoc.put s.entries id e) := by
      refine Assoc.perm_of_get hkeys (Assoc.nodup_put hkeys) fun k => ?_
      by_cases hk : k = id
      · rw [hk, Assoc.get_put_self, hget]
      · rw [Assoc.get_put_of_ne hk]
    exact hperm.map _

theorem Dropped.keys_nodup {s' : IndexState A} (h : Dropped s s') (hkeys : (Assoc.keys s.entries).Nodup) :
    (Assoc.keys s'.entries).Nodup := by
  obtain ⟨p, heq, -⟩ := h.keys
  rw [heq]
  exact hkeys.filter p

theorem refs_removeAll (hkeys : (Assoc.keys s.entries).Nodup) (ids : List Nat) :
    s.refs.Perm ((IndexState.removeAll ids s).1 ++ (IndexState.removeAll ids s).2.refs) := by
  induction ids generalizing s with
  | nil => exact List.Perm.refl _
  | cons id ids ih =>
    refine (refs_remove hkeys id).trans ?_
    have hrest := ih ((Dropped.remove s id).keys_nodup hkeys)
    show List.Perm _ ((_ ++ _) ++ _)
    rw [List.append_assoc]
    exact hrest.append_left _

theorem refs_evict (hkeys : (Assoc.keys s.entries).Nodup) (capacity turns : Nat) :
    s.refs.Perm ((IndexState.evict capacity turns s).1 ++ (IndexState.evict capacity turns s).2.refs) := by
  induction turns generalizing s with
  | zero => exact List.Perm.refl _
  | succ turns ih =>
    unfold IndexState.evict
    split
    · split
      · exact List.Perm.refl _
      · rename_i oldest _
        refine (refs_remove hkeys oldest).trans ?_
        show List.Perm _ ((_ ++ _) ++ _)
        rw [List.append_assoc]
        exact (ih ((Dropped.remove s oldest).keys_nodup hkeys)).append_left _
    · exact List.Perm.refl _

theorem refs_replaced (hkeys : (Assoc.keys s.entries).Nodup) (digest : List UInt8) :
    s.refs.Perm ((s.replaced digest).1 ++ (s.replaced digest).2.refs) := by
  unfold IndexState.replaced
  split
  · exact List.Perm.refl _
  · exact refs_removeAll hkeys _

theorem refs_insert (capacity : Nat) (hkeys : (Assoc.keys s.entries).Nodup) {entry : IndexEntry A}
    (hid : entry.id ∉ Assoc.keys s.entries) :
    (entry.payloadRef :: s.refs).Perm ((s.insert entry capacity).1 ++ (s.insert entry capacity).2.refs) := by
  have hreplaced := refs_replaced hkeys entry.requestDigest
  have hdropped := Dropped.replaced s entry.requestDigest
  have hevicted := refs_evict (hdropped.keys_nodup hkeys) capacity (s.replaced entry.requestDigest).2.lru.length
  have hboth := hdropped.trans (Dropped.evict capacity (s.replaced entry.requestDigest).2.lru.length _)
  obtain ⟨p, heq, -⟩ := hboth.keys
  have hnone : entry.id ∉ Assoc.keys (IndexState.evict capacity (s.replaced entry.requestDigest).2.lru.length
      (s.replaced entry.requestDigest).2).2.entries := by
    rw [heq]
    exact fun hmem => hid (List.mem_filter.1 hmem).1
  rw [insert_eq]
  simp only [IndexState.refs, Assoc.put, Assoc.erase_eq_self (Assoc.get_eq_none hnone), List.map_cons]
  refine List.Perm.trans ?_ List.perm_middle.symm
  rw [List.append_assoc]
  exact (hreplaced.trans (hevicted.append_left _)).cons _

theorem payloadRef_cases (s : IndexState A) (id now : Nat) : s.payloadRef id now = (.missing, s) ∨
    ∃ entry, Assoc.get s.entries id = some entry ∧
      (entry.expiresAt ≤ now ∧ s.payloadRef id now = (.expired entry.payloadRef, (s.remove id).2) ∨
        now < entry.expiresAt ∧ s.payloadRef id now = (.live entry.payloadRef, s.touch id)) := by
  unfold IndexState.payloadRef
  cases hget : Assoc.get s.entries id with
  | none => exact .inl rfl
  | some entry =>
    refine .inr ⟨entry, rfl, ?_⟩
    by_cases hexpired : entry.expiresAt ≤ now
    · refine .inl ⟨hexpired, ?_⟩
      simp [hexpired, IndexState.remove, hget]
    · exact .inr ⟨Nat.lt_of_not_le hexpired, if_neg hexpired⟩

end

/-! ### Calls under way -/

def InsertPhase.refs : InsertPhase → List OpaquePayloadRef
  | .checked => []
  | .stored ref => [ref]
  | .numbered ref _ => [ref]

def pendingRefs (tasks : List (InsertTask A)) : List OpaquePayloadRef := tasks.flatMap (·.phase.refs)

variable {tasks : List (InsertTask A)} {i : Nat} {task : InsertTask A}

theorem pendingRefs_erase (h : tasks[i]? = some task) :
    (pendingRefs tasks).Perm (task.phase.refs ++ pendingRefs (tasks.eraseIdx i)) := by
  obtain ⟨hlt, rfl⟩ := List.getElem?_eq_some_iff.1 h
  exact (List.getElem_cons_eraseIdx_perm hlt).symm.flatMap_right _

theorem pendingRefs_set (h : tasks[i]? = some task) (task' : InsertTask A) :
    (pendingRefs (tasks.set i task')).Perm (task'.phase.refs ++ pendingRefs (tasks.eraseIdx i)) := by
  obtain ⟨hlt, rfl⟩ := List.getElem?_eq_some_iff.1 h
  exact (List.set_perm_cons_eraseIdx hlt task').flatMap_right _

def FreshId (s : CacheSystem A) : CacheAction A → Prop
  | .commit task _ => ∀ input embedding ref id, s.tasks[task]? = some ⟨input, embedding, .numbered ref id⟩ →
    id ∉ Assoc.keys s.index.entries
  | _ => True

structure CacheInv (cache : InMemorySemanticCache A) (s : CacheSystem A) : Prop where
  shelf : Shelf s.used s.index
  length_le : s.index.entries.length ≤ cache.config.maxEntries
  ledger : s.puts.Perm (s.index.refs ++ (s.scheduled ++ pendingRefs s.tasks))

theorem maxEntries_pos (cache : InMemorySemanticCache A) : 1 ≤ cache.config.maxEntries := by
  have hvalid := cache.valid
  unfold SemanticCacheConfig.validate at hvalid
  split_ifs at hvalid with hzero
  omega

namespace CacheInv
variable {cache : InMemorySemanticCache A} {s s' : CacheSystem A}

theorem of_dropped (h : CacheInv cache s) (hshelf : Shelf s'.used s'.index)
    (hlength : s'.index.entries.length ≤ s.index.entries.length)
    (hledger : (s'.puts ++ (s.index.refs ++ (s.scheduled ++ pendingRefs s.tasks))).Perm
      (s.puts ++ (s'.index.refs ++ (s'.scheduled ++ pendingRefs s'.tasks)))) : CacheInv cache s' := by
  refine ⟨hshelf, hlength.trans h.length_le, ?_⟩
  refine List.perm_iff_count.2 fun r => ?_
  have hcount := hledger.count_eq r
  have hold := h.ledger.count_eq r
  simp only [List.count_append] at hcount hold ⊢
  omega

theorem begin_insert (h : CacheInv cache s) (input : SemanticInsertRequest A)
    (embedded : Except EmbeddingProviderErrorKind (List F32)) :
    CacheInv cache (s.beginInsert K cache input embedded).2 := by
  unfold CacheSystem.beginInsert
  split
  · exact h
  · split
    · exact h
    · split
      · exact h
      · split
        · exact h
        · split
          · exact h
          · rename_i embedding _ _ index hindex
            obtain ⟨hentries, hlru⟩ := validateDimension_entries hindex
            refine h.of_dropped (h.shelf.congr hentries hlru) (congrArg List.length hentries).le ?_
            have hpending : pendingRefs (s.tasks ++ [⟨input, embedding, .checked⟩]) = pendingRefs s.tasks := by
              simp [pendingRefs, InsertPhase.refs]
            simp only [IndexState.refs, hentries, hpending]
            exact List.Perm.refl _

theorem putPayload (h : CacheInv cache s) (task : Nat) (answer : Except PayloadStoreErrorKind OpaquePayloadRef) :
    CacheInv cache (s.putPayload task answer) := by
  unfold CacheSystem.putPayload
  split
  · rename_i input embedding htask
    have herase := pendingRefs_erase htask
    split
    · refine h.of_dropped h.shelf le_rfl ?_
      refine List.perm_iff_count.2 fun r => ?_
      have hcount := herase.count_eq r
      simp only [InsertPhase.refs, List.nil_append, List.count_append] at hcount ⊢
      omega
    · rename_i ref
      refine h.of_dropped h.shelf le_rfl ?_
      refine List.perm_iff_count.2 fun r => ?_
      have hcount := herase.count_eq r
      have hset := (pendingRefs_set htask ⟨input, embedding, .stored ref⟩).count_eq r
      simp only [InsertPhase.refs, List.nil_append, List.count_append] at hcount hset ⊢
      omega
  · exact h

theorem numberEntry (h : CacheInv cache s) (task : Nat) : CacheInv cache (s.numberEntry task) := by
  unfold CacheSystem.numberEntry
  split
  · rename_i input embedding ref htask
    refine h.of_dropped h.shelf le_rfl ?_
    refine List.perm_iff_count.2 fun r => ?_
    have hcount := (pendingRefs_erase htask).count_eq r
    have hset := (pendingRefs_set htask ⟨input, embedding, .numbered ref s.nextEntryId.1⟩).count_eq r
    simp only [InsertPhase.refs, List.count_append] at hcount hset ⊢
    omega
  · exact h

theorem commit (h : CacheInv cache s) {task now : Nat} (hfresh : FreshId s (.commit task now)) :
    CacheInv cache (s.commit K cache task now) := by
  unfold CacheSystem.commit
  split
  · rename_i input embedding ref id htask
    have hid := hfresh input embedding ref id htask
    have hdropped : Dropped s.index (s.index.removeExpired now).2 := Dropped.removeAll _ _
    have hshelf := h.shelf.dropped hdropped
    have hlength : (s.index.removeExpired now).2.entries.length ≤ cache.config.maxEntries :=
      (removeExpired_sublist s.index now).length_le.trans h.length_le
    have hnot : (cache.entry K input embedding ref id now).id ∉ Assoc.keys (s.index.removeExpired now).2.entries :=
      fun hmem => hid (((removeExpired_sublist s.index now).map Prod.fst).subset hmem)
    refine ⟨hshelf.insert hnot, (insert_law hshelf hlength (maxEntries_pos cache)).1, ?_⟩
    refine List.perm_iff_count.2 fun r => ?_
    have hold := h.ledger.count_eq r
    have hexpired : s.index.refs.Perm ((s.index.removeExpired now).1 ++ (s.index.removeExpired now).2.refs) :=
      refs_removeAll h.shelf.keys_nodup _
    have hexpired := hexpired.count_eq r
    have hinsert := (refs_insert cache.config.maxEntries hshelf.keys_nodup hnot).count_eq r
    have hpending := (pendingRefs_erase htask).count_eq r
    have href : (cache.entry K input embedding ref id now).payloadRef = ref := rfl
    rw [href] at hinsert
    simp only [InsertPhase.refs, List.count_append, List.count_cons, List.count_nil] at hold hexpired hinsert hpending ⊢
    omega
  · exact h

end CacheInv

def CacheSystem.swept (s : CacheSystem A) (index : IndexState A) (now : Nat) : CacheSystem A :=
  { s with index := (index.removeExpired now).2, now := now, scheduled := s.scheduled ++ (index.removeExpired now).1 }

section
variable {cache : InMemorySemanticCache A} {s : CacheSystem A} {input : MetadataLookupRequest}
  {embedded : Except EmbeddingProviderErrorKind (List F32)} {now : Nat}

/-- A lookup ends early, sweeps and misses, or sweeps and uses the entry that it hits. -/
theorem lookup_cases (cache : InMemorySemanticCache A) (s : CacheSystem A) :
    ((∀ hit, (s.lookupMetadata K cache input embedded now).1 ≠ .ok (.hit hit)) ∧
        (s.lookupMetadata K cache input embedded now).2 = s) ∨
      ∃ index, index.entries = s.index.entries ∧ index.lru = s.index.lru ∧
        (((∀ hit, (s.lookupMetadata K cache input embedded now).1 ≠ .ok (.hit hit)) ∧
            (s.lookupMetadata K cache input embedded now).2 = s.swept index now) ∨
          ∃ hit, ∃ e ∈ (index.removeExpired now).2.entries,
            s.lookupMetadata K cache input embedded now = (.ok (.hit hit), { s.swept index now with
              index := (index.removeExpired now).2.touch e.2.id, used := s.used ++ [e.2.id] }) ∧
            hit.entryId = e.2.id) := by
  unfold CacheSystem.lookupMetadata
  split
  · exact .inl ⟨fun hit h => (by cases h), rfl⟩
  · split
    · exact .inl ⟨fun hit h => (by cases h), rfl⟩
    · split
      · exact .inl ⟨fun hit h => (by cases h), rfl⟩
      · split
        · exact .inl ⟨fun hit h => (by cases h), rfl⟩
        · split
          · exact .inl ⟨fun hit h => (by cases h), rfl⟩
          · rename_i index hindex
            obtain ⟨hentries, hlru⟩ := validateDimension_entries hindex
            refine .inr ⟨index, hentries, hlru, ?_⟩
            dsimp only
            split
            · exact .inl ⟨fun hit h => (by cases h), rfl⟩
            · rename_i entry similarity hbest
              obtain ⟨⟨id, hmem⟩, -⟩ := best_some hbest
              exact .inr ⟨_, (id, entry), hmem, rfl, rfl⟩

theorem CacheInv.swept (h : CacheInv cache s) (now : Nat) {index : IndexState A} (hentries : index.entries = s.index.entries)
    (hlru : index.lru = s.index.lru) : CacheInv cache (s.swept index now) := by
  have hshelf := h.shelf.congr hentries hlru
  have hdropped : Dropped index (index.removeExpired now).2 := Dropped.removeAll _ _
  refine h.of_dropped (hshelf.dropped hdropped) ?_ ?_
  · exact (removeExpired_sublist index now).length_le.trans (congrArg List.length hentries).le
  · have hexpired : index.refs.Perm ((index.removeExpired now).1 ++ (index.removeExpired now).2.refs) :=
      refs_removeAll hshelf.keys_nodup _
    have hrefs : index.refs = s.index.refs := by rw [IndexState.refs, hentries, IndexState.refs]
    refine List.perm_iff_count.2 fun r => ?_
    have hcount := hexpired.count_eq r
    rw [hrefs] at hcount
    simp only [CacheSystem.swept, List.count_append] at hcount ⊢
    omega

theorem CacheInv.touch (h : CacheInv cache s) {id : Nat} (hid : id ∈ Assoc.keys s.index.entries) :
    CacheInv cache { s with index := s.index.touch id, used := s.used ++ [id] } :=
  ⟨h.shelf.touch hid, h.length_le, h.ledger⟩

theorem CacheInv.lookupMetadata (h : CacheInv cache s) :
    CacheInv cache (s.lookupMetadata K cache input embedded now).2 := by
  rcases lookup_cases (K := K) cache s with ⟨-, heq⟩ | ⟨index, hentries, hlru, ⟨-, heq⟩ | ⟨hit, e, he, heq, -⟩⟩
  · rw [heq]
    exact h
  · rw [heq]
    exact h.swept now hentries hlru
  · rw [heq]
    have hswept := h.swept now hentries hlru
    refine hswept.touch ?_
    rw [hswept.shelf.id_eq e he]
    exact Assoc.mem_keys_of_mem he

theorem CacheInv.retrievePayload (h : CacheInv cache s) {id : Nat} : CacheInv cache (s.retrievePayload id now).2 := by
  unfold CacheSystem.retrievePayload
  rcases payloadRef_cases s.index id now with heq | ⟨entry, hget, ⟨-, heq⟩ | ⟨-, heq⟩⟩
  · rw [heq]
    exact ⟨h.shelf, h.length_le, h.ledger⟩
  · rw [heq]
    refine h.of_dropped (h.shelf.dropped (Dropped.remove _ _)) (List.length_filter_le _ _) ?_
    have hremove := refs_remove h.shelf.keys_nodup id
    refine List.perm_iff_count.2 fun r => ?_
    have hcount := hremove.count_eq r
    have hfound : (s.index.remove id).1 = some entry := hget
    simp only [hfound, Option.toList_some, List.map_cons, List.map_nil, List.count_append] at hcount ⊢
    omega
  · rw [heq]
    have hid : id ∈ Assoc.keys s.index.entries := Assoc.mem_keys_of_mem (Assoc.mem_of_get hget)
    exact ⟨h.shelf.touch hid, h.length_le, h.ledger⟩

end

variable {cache : InMemorySemanticCache A}

theorem CacheInv.step {s : CacheSystem A} (h : CacheInv cache s)
    (action : CacheAction A) (hfresh : FreshId s action) : CacheInv cache (CacheSystem.step K cache s action) := by
  cases action with
  | insert input embedded => exact h.begin_insert input embedded
  | put task answer => exact h.putPayload task answer
  | number task => exact h.numberEntry task
  | commit task now =>
    show CacheInv cache (if s.now ≤ now then s.commit K cache task now else s)
    split
    · exact h.commit hfresh
    · exact h
  | lookup input embedded now =>
    show CacheInv cache (if s.now ≤ now then (s.lookupMetadata K cache input embedded now).2 else s)
    split
    · exact h.lookupMetadata
    · exact h
  | retrieve id now =>
    show CacheInv cache (if s.now ≤ now then (s.retrievePayload id now).2 else s)
    split
    · exact h.retrievePayload
    · exact h

/-! ### The law -/

def CacheAction.instant : CacheAction A → Option Nat
  | .commit _ now | .lookup _ _ now | .retrieve _ now => some now
  | _ => none

def ExpiredAt (action : CacheAction A) (entry : IndexEntry A) : Prop :=
  ∃ now ∈ action.instant, entry.expiresAt ≤ now

variable (K) in
def ReplacedBy (cache : InMemorySemanticCache A) (s : CacheSystem A) (action : CacheAction A) (entry : IndexEntry A) :
    Prop :=
  ∃ task now input embedding ref id, action = .commit task now ∧
    s.tasks[task]? = some ⟨input, embedding, .numbered ref id⟩ ∧
    entry.requestDigest = (cache.entry K input embedding ref id now).requestDigest

variable (K) in
structure IndexLaw (cache : InMemorySemanticCache A) (s : CacheSystem A) : Prop where
  keys_nodup : (Assoc.keys s.index.entries).Nodup
  mem_lru : ∀ id, id ∈ s.index.lru ↔ id ∈ Assoc.keys s.index.entries
  lru_nodup : s.index.lru.Nodup
  lru_sorted : s.index.lru.Pairwise (Recency.UsedBefore s.used)
  length_le : s.index.entries.length ≤ cache.config.maxEntries
  digests_nodup : (s.index.entries.map (·.2.requestDigest)).Nodup
  lookup_live : ∀ input embedded now hit, (s.lookupMetadata K cache input embedded now).1 = .ok (.hit hit) →
    ∃ e ∈ s.index.entries, e.1 = hit.entryId ∧ now < e.2.expiresAt
  retrieve_live : ∀ id now ref, (s.retrievePayload id now).1 = some ref →
    ∃ e ∈ s.index.entries, e.1 = id ∧ e.2.payloadRef = ref ∧ now < e.2.expiresAt
  gone : ∀ action, ∀ e ∈ s.index.entries, e.1 ∉ Assoc.keys (CacheSystem.step K cache s action).index.entries →
    ExpiredAt action e.2 ∨ ReplacedBy K cache s action e.2 ∨
      ∀ e' ∈ s.index.entries, e'.1 ≠ e.1 → ¬ ExpiredAt action e'.2 → Recency.UsedBefore s.used e.1 e'.1
  owned : s.puts.Perm (s.index.refs ++ (s.scheduled ++ pendingRefs s.tasks))

section
variable {cache : InMemorySemanticCache A} {s : CacheSystem A}

theorem beginInsert_entries (input : SemanticInsertRequest A) (embedded : Except EmbeddingProviderErrorKind (List F32)) :
    (s.beginInsert K cache input embedded).2.index.entries = s.index.entries := by
  unfold CacheSystem.beginInsert
  split
  · rfl
  · split
    · rfl
    · split
      · rfl
      · split
        · rfl
        · split
          · rfl
          · rename_i index hindex
            exact (validateDimension_entries hindex).1

theorem putPayload_index (task : Nat) (answer : Except PayloadStoreErrorKind OpaquePayloadRef) :
    (s.putPayload task answer).index = s.index := by
  unfold CacheSystem.putPayload
  split
  · split
    · rfl
    · rfl
  · rfl

theorem numberEntry_index (task : Nat) : (s.numberEntry task).index = s.index := by
  unfold CacheSystem.numberEntry
  split
  · rfl
  · rfl

variable {e : Nat × IndexEntry A}

theorem CacheInv.gone_commit (h : CacheInv cache s) {task now : Nat} (he : e ∈ s.index.entries)
    (hgone : e.1 ∉ Assoc.keys (s.commit K cache task now).index.entries) :
    ExpiredAt (.commit task now : CacheAction A) e.2 ∨ ReplacedBy K cache s (.commit task now) e.2 ∨
      ∀ e' ∈ s.index.entries, e'.1 ≠ e.1 → ¬ ExpiredAt (.commit task now : CacheAction A) e'.2 →
        Recency.UsedBefore s.used e.1 e'.1 := by
  unfold CacheSystem.commit at hgone
  split at hgone
  · rename_i input embedding ref id htask
    by_cases hexpired : e.2.expiresAt ≤ now
    · exact .inl ⟨now, rfl, hexpired⟩
    · by_cases hdigest : e.2.requestDigest = (cache.entry K input embedding ref id now).requestDigest
      · exact .inr (.inl ⟨task, now, input, embedding, ref, id, rfl, htask, hdigest⟩)
      · refine .inr (.inr fun e' he' hne hlive => ?_)
        have hkeys := h.shelf.keys_nodup
        have hdropped : Dropped s.index (s.index.removeExpired now).2 := Dropped.removeAll _ _
        have hlength := (removeExpired_sublist s.index now).length_le.trans h.length_le
        have hin := (mem_removeExpired hkeys).2 ⟨he, Nat.lt_of_not_le hexpired⟩
        have hin' : e' ∈ (s.index.removeExpired now).2.entries := by
          refine (mem_removeExpired hkeys).2 ⟨he', Nat.lt_of_not_le fun hle => hlive ⟨now, rfl, hle⟩⟩
        exact (insert_law (h.shelf.dropped hdropped) hlength (maxEntries_pos cache)).2 e hin hgone hdigest e'.1
          (Assoc.mem_keys_of_mem hin') hne
  · exact absurd (Assoc.mem_keys_of_mem he) hgone

theorem CacheInv.gone_lookup (h : CacheInv cache s) {input : MetadataLookupRequest}
    {embedded : Except EmbeddingProviderErrorKind (List F32)} {now : Nat}
    (he : e ∈ s.index.entries)
    (hgone : e.1 ∉ Assoc.keys (s.lookupMetadata K cache input embedded now).2.index.entries) : e.2.expiresAt ≤ now := by
  by_contra hlive
  have hswept : ∀ index : IndexState A, index.entries = s.index.entries →
      e.1 ∈ Assoc.keys (index.removeExpired now).2.entries := by
    intro index hentries
    refine Assoc.mem_keys_of_mem (a := e.2) ((mem_removeExpired ?_).2 ⟨?_, Nat.lt_of_not_le hlive⟩)
    · rw [hentries]
      exact h.shelf.keys_nodup
    · rw [hentries]
      exact he
  rcases lookup_cases (K := K) cache s with ⟨-, heq⟩ | ⟨index, hentries, -, ⟨-, heq⟩ | ⟨hit, e', -, heq, -⟩⟩
  · rw [heq] at hgone
    exact hgone (Assoc.mem_keys_of_mem he)
  · rw [heq] at hgone
    exact hgone (hswept index hentries)
  · rw [heq] at hgone
    exact hgone (hswept index hentries)

theorem gone_retrieve {id now : Nat} (hkeys : (Assoc.keys s.index.entries).Nodup)
    (he : e ∈ s.index.entries) (hgone : e.1 ∉ Assoc.keys (s.retrievePayload id now).2.index.entries) :
    e.2.expiresAt ≤ now := by
  unfold CacheSystem.retrievePayload at hgone
  have hin := Assoc.mem_keys_of_mem he
  rcases payloadRef_cases s.index id now with heq | ⟨entry, hget, ⟨hexpired, heq⟩ | ⟨-, heq⟩⟩
  · rw [heq] at hgone
    exact absurd hin hgone
  · rw [heq] at hgone
    have hid : e.1 = id := by
      by_contra hne
      exact hgone (Assoc.mem_keys_erase.2 ⟨hne, hin⟩)
    have hentry := (Assoc.mem_iff_get hkeys).1 he
    rw [hid, hget] at hentry
    obtain rfl := Option.some.inj hentry
    exact hexpired
  · rw [heq] at hgone
    exact absurd hin hgone

theorem CacheInv.law (h : CacheInv cache s) : IndexLaw K cache s where
  keys_nodup := h.shelf.keys_nodup
  mem_lru _ := h.shelf.mem_lru
  lru_nodup := by
    rw [h.shelf.lru_eq]
    exact Recency.nodup_recency
  lru_sorted := by
    rw [h.shelf.lru_eq, List.pairwise_iff_forall_sublist]
    exact fun hsub => Recency.usedBefore_of_dedup (hsub.trans List.filter_sublist)
  length_le := h.length_le
  digests_nodup := h.shelf.digests_nodup
  lookup_live input embedded now hit hhit := by
    rcases lookup_cases (K := K) cache s with ⟨hmiss, -⟩ | ⟨index, hentries, -, ⟨hmiss, -⟩ | ⟨hit', e, he, heq, hid⟩⟩
    · exact absurd hhit (hmiss hit)
    · exact absurd hhit (hmiss hit)
    · rw [heq] at hhit
      cases hhit
      have hkeys : (Assoc.keys index.entries).Nodup := by
        rw [hentries]
        exact h.shelf.keys_nodup
      obtain ⟨hmem, hlive⟩ := (mem_removeExpired hkeys).1 he
      rw [hentries] at hmem
      exact ⟨e, hmem, by rw [hid, h.shelf.id_eq e hmem], hlive⟩
  retrieve_live id now ref href := by
    unfold CacheSystem.retrievePayload at href
    rcases payloadRef_cases s.index id now with heq | ⟨entry, hget, ⟨-, heq⟩ | ⟨hlive, heq⟩⟩
    · rw [heq] at href
      cases href
    · rw [heq] at href
      cases href
    · rw [heq] at href
      exact ⟨(id, entry), Assoc.mem_of_get hget, rfl, Option.some.inj href, hlive⟩
  gone action e he hgone := by
    cases action with
    | insert input embedded =>
      change e.1 ∉ Assoc.keys (s.beginInsert K cache input embedded).2.index.entries at hgone
      rw [beginInsert_entries] at hgone
      exact absurd (Assoc.mem_keys_of_mem he) hgone
    | put task answer =>
      change e.1 ∉ Assoc.keys (s.putPayload task answer).index.entries at hgone
      rw [putPayload_index] at hgone
      exact absurd (Assoc.mem_keys_of_mem he) hgone
    | number task =>
      change e.1 ∉ Assoc.keys (s.numberEntry task).index.entries at hgone
      rw [numberEntry_index] at hgone
      exact absurd (Assoc.mem_keys_of_mem he) hgone
    | commit task now =>
      change e.1 ∉ Assoc.keys (if s.now ≤ now then s.commit K cache task now else s).index.entries at hgone
      split at hgone
      · exact h.gone_commit he hgone
      · exact absurd (Assoc.mem_keys_of_mem he) hgone
    | lookup input embedded now =>
      change e.1 ∉ Assoc.keys (if s.now ≤ now then (s.lookupMetadata K cache input embedded now).2
        else s).index.entries at hgone
      split at hgone
      · exact .inl ⟨now, rfl, h.gone_lookup he hgone⟩
      · exact absurd (Assoc.mem_keys_of_mem he) hgone
    | retrieve id now =>
      change e.1 ∉ Assoc.keys (if s.now ≤ now then (s.retrievePayload id now).2 else s).index.entries at hgone
      split at hgone
      · exact .inl ⟨now, rfl, gone_retrieve h.shelf.keys_nodup he hgone⟩
      · exact absurd (Assoc.mem_keys_of_mem he) hgone
  owned := h.ledger

theorem cacheInv_new : CacheInv cache .new :=
  ⟨⟨List.nodup_nil, fun _ h => (by cases h), fun _ h => (by cases h), rfl, List.nodup_nil⟩, Nat.zero_le _,
    List.Perm.refl _⟩

end

theorem cacheInv_run {actions : List (CacheAction A)} (h : Run.Along (CacheSystem.step K cache) FreshId .new actions) :
    CacheInv cache (Run.run (CacheSystem.step K cache) .new actions) :=
  Run.invariant (fun _ action hinv hfresh => hinv.step action hfresh) cacheInv_new h

/-- The index law, in every state of every run in which no id is given out while it is held. -/
theorem semantic_index_law (cache : InMemorySemanticCache A) (actions : List (CacheAction A))
    (h : Run.Along (CacheSystem.step K cache) FreshId .new actions) :
    IndexLaw K cache (Run.run (CacheSystem.step K cache) .new actions) := (cacheInv_run h).law

/-! ### Ids -/

def InsertPhase.ids : InsertPhase → List Nat
  | .numbered _ id => [id]
  | _ => []

def pendingIds (tasks : List (InsertTask A)) : List Nat := tasks.flatMap (·.phase.ids)

theorem pendingIds_erase (h : tasks[i]? = some task) :
    (pendingIds tasks).Perm (task.phase.ids ++ pendingIds (tasks.eraseIdx i)) := by
  obtain ⟨hlt, rfl⟩ := List.getElem?_eq_some_iff.1 h
  exact (List.getElem_cons_eraseIdx_perm hlt).symm.flatMap_right _

theorem pendingIds_set (h : tasks[i]? = some task) (task' : InsertTask A) :
    (pendingIds (tasks.set i task')).Perm (task'.phase.ids ++ pendingIds (tasks.eraseIdx i)) := by
  obtain ⟨hlt, rfl⟩ := List.getElem?_eq_some_iff.1 h
  exact (List.set_perm_cons_eraseIdx hlt task').flatMap_right _

def CacheAction.isNumber : CacheAction A → Bool
  | .number _ => true
  | _ => false

theorem count_keys_insert (entry : IndexEntry A) (capacity k : Nat) :
    (Assoc.keys (s.insert entry capacity).2.entries).count k ≤ [entry.id].count k + (Assoc.keys s.entries).count k := by
  have hdropped := (Dropped.replaced s entry.requestDigest).trans
    (Dropped.evict capacity (s.replaced entry.requestDigest).2.lru.length _)
  obtain ⟨p, hkeys, -⟩ := hdropped.keys
  have hfilter : ((Assoc.keys s.entries).filter p).count k ≤ (Assoc.keys s.entries).count k :=
    List.filter_sublist.count_le k
  rw [← hkeys] at hfilter
  rw [insert_eq]
  set entries := (IndexState.evict capacity (s.replaced entry.requestDigest).2.lru.length
    (s.replaced entry.requestDigest).2).2.entries
  have hsub : List.Sublist (Assoc.keys (Assoc.erase entries entry.id)) (Assoc.keys entries) :=
    List.filter_sublist.map _
  have hle := hsub.count_le k
  show (entry.id :: Assoc.keys (Assoc.erase entries entry.id)).count k ≤ _
  rw [List.count_cons, List.count_singleton]
  omega

/-- After `n` calls of `next_entry_id` no id is in use twice, and none is that is still to come. -/
structure Issued (n : Nat) (s : CacheSystem A) : Prop where
  pos : 0 < s.nextId
  le : s.nextId ≤ n + 1
  once : ∀ k, (Assoc.keys s.index.entries).count k + (pendingIds s.tasks).count k ≤ if k < s.nextId then 1 else 0

namespace Issued
variable {cache : InMemorySemanticCache A} {s s' : CacheSystem A} {n : Nat}

theorem mono (h : Issued n s) (hnext : s'.nextId = s.nextId)
    (hcount : ∀ k, (Assoc.keys s'.index.entries).count k + (pendingIds s'.tasks).count k ≤
      (Assoc.keys s.index.entries).count k + (pendingIds s.tasks).count k) : Issued n s' := by
  refine ⟨hnext ▸ h.pos, hnext ▸ h.le, fun k => ?_⟩
  rw [hnext]
  exact (hcount k).trans (h.once k)

theorem fresh (h : Issued n s) (action : CacheAction A) : FreshId s action := by
  cases action with
  | commit task now =>
    intro input embedding ref id htask hmem
    have hone := h.once id
    have hkeys := List.count_pos_iff.2 hmem
    have hids := (pendingIds_erase htask).count_eq id
    simp only [InsertPhase.ids, List.count_append, List.count_singleton_self] at hids
    split at hone
    · omega
    · omega
  | insert | put | number | lookup | retrieve => trivial

theorem step (h : Issued n s) (action : CacheAction A) (hbound : n + 2 < 2 ^ 64) :
    Issued (n + action.isNumber.toNat) (CacheSystem.step K cache s action) := by
  cases action with
  | insert input embedded =>
    show Issued n (s.beginInsert K cache input embedded).2
    unfold CacheSystem.beginInsert
    split
    · exact h
    · split
      · exact h
      · split
        · exact h
        · split
          · exact h
          · split
            · exact h
            · rename_i embedding _ _ index hindex
              refine h.mono rfl fun k => ?_
              rw [(validateDimension_entries hindex).1]
              simp [pendingIds, InsertPhase.ids]
  | put task answer =>
    show Issued n (s.putPayload task answer)
    unfold CacheSystem.putPayload
    split
    · rename_i input embedding htask
      have herase := pendingIds_erase htask
      split
      · refine h.mono rfl fun k => ?_
        have hcount := herase.count_eq k
        simp only [InsertPhase.ids, List.nil_append] at hcount ⊢
        omega
      · rename_i ref
        refine h.mono rfl fun k => ?_
        have hcount := herase.count_eq k
        have hset := (pendingIds_set htask ⟨input, embedding, .stored ref⟩).count_eq k
        simp only [InsertPhase.ids, List.nil_append] at hcount hset ⊢
        omega
    · exact h
  | number task =>
    show Issued (n + 1) (s.numberEntry task)
    have hpos := h.pos
    have hle := h.le
    unfold CacheSystem.numberEntry
    split
    · rename_i input embedding ref htask
      have hid : s.nextEntryId = (s.nextId, s.nextId + 1) := by
        rw [CacheSystem.nextEntryId, if_neg hpos.ne', Nat.mod_eq_of_lt (by omega)]
      rw [hid]
      refine ⟨Nat.succ_pos _, Nat.succ_le_succ hle, fun k => ?_⟩
      have hone := h.once k
      have hcount := (pendingIds_erase htask).count_eq k
      have hset := (pendingIds_set htask ⟨input, embedding, .numbered ref s.nextId⟩).count_eq k
      simp only [InsertPhase.ids, List.nil_append, List.count_append, List.count_singleton, beq_iff_eq] at hcount hset ⊢
      split_ifs at hone hset ⊢ <;> omega
    · exact ⟨hpos, Nat.le_succ_of_le hle, h.once⟩
  | commit task now =>
    show Issued n (if s.now ≤ now then s.commit K cache task now else s)
    split
    · unfold CacheSystem.commit
      split
      · rename_i input embedding ref id htask
        refine h.mono rfl fun k => ?_
        have hcount := (pendingIds_erase htask).count_eq k
        have hinsert := count_keys_insert (s := (s.index.removeExpired now).2)
          (cache.entry K input embedding ref id now) cache.config.maxEntries k
        have hexpired := ((removeExpired_sublist s.index now).map Prod.fst).count_le k
        have hid : (cache.entry K input embedding ref id now).id = id := rfl
        rw [hid] at hinsert
        simp only [InsertPhase.ids, List.count_append] at hcount
        change List.count k (Assoc.keys (s.index.removeExpired now).2.entries) ≤
          List.count k (Assoc.keys s.index.entries) at hexpired
        show (Assoc.keys ((s.index.removeExpired now).2.insert (cache.entry K input embedding ref id now)
          cache.config.maxEntries).2.entries).count k + (pendingIds (s.tasks.eraseIdx task)).count k ≤ _
        omega
      · exact h
    · exact h
  | lookup input embedded now =>
    show Issued n (if s.now ≤ now then (s.lookupMetadata K cache input embedded now).2 else s)
    split
    · have hswept : ∀ index : IndexState A, index.entries = s.index.entries → ∀ k,
          (Assoc.keys (index.removeExpired now).2.entries).count k ≤ (Assoc.keys s.index.entries).count k := by
        intro index hentries k
        rw [← hentries]
        exact ((removeExpired_sublist index now).map _).count_le k
      rcases lookup_cases (K := K) cache s with
        ⟨-, heq⟩ | ⟨index, hentries, -, ⟨-, heq⟩ | ⟨hit, e', -, heq, -⟩⟩
      · rw [heq]
        exact h
      · rw [heq]
        exact h.mono rfl fun k => Nat.add_le_add_right (hswept index hentries k) _
      · rw [heq]
        exact h.mono rfl fun k => Nat.add_le_add_right (hswept index hentries k) _
    · exact h
  | retrieve id now =>
    show Issued n (if s.now ≤ now then (s.retrievePayload id now).2 else s)
    split
    · have hsub := (payloadRef_sublist s.index id now).map Prod.fst
      unfold CacheSystem.retrievePayload
      dsimp only
      split
      · exact h.mono rfl fun k => Nat.add_le_add_right (hsub.count_le k) _
      · exact h.mono rfl fun k => Nat.add_le_add_right (hsub.count_le k) _
      · exact h.mono rfl fun k => Nat.add_le_add_right (hsub.count_le k) _
    · exact h

end Issued

theorem fresh_of_few {actions : List (CacheAction A)} (h : actions.countP CacheAction.isNumber + 2 < 2 ^ 64) :
    Run.Along (CacheSystem.step K cache) FreshId .new actions ∧
      Issued (actions.countP CacheAction.isNumber) (Run.run (CacheSystem.step K cache) .new actions) := by
  induction actions using List.reverseRecOn with
  | nil => exact ⟨trivial, ⟨Nat.one_pos, le_rfl, fun k => Nat.zero_le _⟩⟩
  | append_singleton actions action ih =>
    have hcount : (actions ++ [action]).countP CacheAction.isNumber =
        actions.countP CacheAction.isNumber + action.isNumber.toNat := by
      rw [List.countP_append, List.countP_singleton]
      cases action.isNumber <;> rfl
    rw [hcount] at h ⊢
    obtain ⟨hrun, hissued⟩ := ih (by omega)
    rw [Run.run_concat, Run.along_concat]
    exact ⟨⟨hrun, hissued.fresh action⟩, hissued.step action (by omega)⟩

end

theorem semantic_index_law_image : IndexLaw alignedPrimitives smallCache
    (Run.run (CacheSystem.step alignedPrimitives smallCache) .new (insertActions "https://img.example/a.png")) :=
  semantic_index_law smallCache (insertActions "https://img.example/a.png") (fresh_of_few (by decide)).1

/-! ### Past the last id -/

def roomyCacheConfig : SemanticCacheConfig ℚ := { smallCacheConfig with maxEntries := 3 }

theorem roomyCacheConfig_valid : roomyCacheConfig.validate exactScores = .ok () := rfl

theorem length_roomyHash : (List.replicate 32 (7 : UInt8)).length = 32 := List.length_replicate

def roomyCache : InMemorySemanticCache exactScores where
  config := roomyCacheConfig
  tenantAuthHash := List.replicate 32 7
  eligibility := {}
  valid := roomyCacheConfig_valid
  tenantAuthHash_length := length_roomyHash

theorem ref_ne_nil (b : UInt8) : [b] ≠ [] := List.cons_ne_nil _ _

def insertOnce (url : String) (b : UInt8) : List (CacheAction exactScores) :=
  [.insert (imageInsert url) (.ok unitVector), .put 0 (.ok ⟨[b], ref_ne_nil b⟩), .number 0, .commit 0 1]

def roomyEntry (url : String) (b : UInt8) (id : Nat) : IndexEntry exactScores :=
  roomyCache.entry alignedPrimitives (imageInsert url) unitVector ⟨[b], ref_ne_nil b⟩ id 1

variable (url : String)

theorem requestUsesTools_image : requestUsesTools (imageRequest url) = false := by
  have hrole : eqIgnoreAsciiCase "user" "tool" = false := by decide +kernel
  simp [requestUsesTools, imageRequest, imageMessage, hrole]

theorem isInstruction_image : isInstruction (imageMessage url) = false := by
  have hrole : eqIgnoreAsciiCase "user" "system" = false ∧ eqIgnoreAsciiCase "user" "developer" = false := by
    decide +kernel
  simp [isInstruction, imageMessage, hrole.1, hrole.2]

theorem ineligibility_image : roomyCache.ineligibility (imageInsert url).request (imageInsert url).context
    (some (imageInsert url).qualityScore) = none := by
  have hquality : exactScores.lt (ComplexityScore.new exactScores 1).value 0 = false := by decide +kernel
  have htools := requestUsesTools_image url
  simp [InMemorySemanticCache.ineligibility, imageInsert, imageLookup, roomyCache, roomyCacheConfig, smallCacheConfig,
    htools, hquality]

theorem semanticText_image :
    (semanticText alignedPrimitives.numbers (imageInsert url).request).isEmpty = false := by
  have hcontent : contentAsText Json.wireNumbers (imageMessage url).content = "What is this?".toList := rfl
  have htrim : (Text.trim "What is this?".toList).isEmpty = false := by decide +kernel
  have hrole : eqIgnoreAsciiCase (imageMessage url).role "tool" = false := by
    show eqIgnoreAsciiCase "user" "tool" = false
    decide +kernel
  show (semanticText Json.wireNumbers (imageRequest url)).isEmpty = false
  rw [semanticText, imageRequest, List.foldl_cons, List.foldl_nil, isInstruction_image, hrole, hcontent]
  simp only [htrim, Bool.or_false, Bool.false_eq_true, if_false, List.isEmpty_eq_false_iff]
  exact List.append_ne_nil_of_right_ne_nil _ (List.cons_ne_nil _ _)

variable {s : CacheSystem exactScores}

theorem beginInsert_image {index : IndexState exactScores}
    (hindex : s.index.validateDimension unitVector.length = some index) :
    (s.beginInsert alignedPrimitives roomyCache (imageInsert url) (.ok unitVector)).2 =
      { s with index := index, tasks := s.tasks ++ [⟨imageInsert url, unitVector, .checked⟩] } := by
  have hvalid : validateEmbedding alignedPrimitives unitVector = true := rfl
  unfold CacheSystem.beginInsert
  rw [ineligibility_image]
  simp only [semanticText_image, hvalid, Bool.not_true, Bool.false_eq_true, if_false]
  rw [hindex]

theorem removeExpired_none {s : IndexState exactScores} {now : Nat} (hlive : ∀ e ∈ s.entries, now < e.2.expiresAt) :
    s.removeExpired now = ([], s) := by
  have hnil : s.entries.filter (·.2.expiresAt ≤ now) = [] := by
    refine List.filter_eq_nil_iff.2 fun e he hle => ?_
    have hlt := hlive e he
    have hle := of_decide_eq_true hle
    omega
  rw [IndexState.removeExpired, hnil]
  rfl

theorem insertOnce_run {url : String} {b : UInt8} (index : IndexState exactScores)
    (htasks : s.tasks = []) (hnow : s.now ≤ 1)
    (hindex : s.index.validateDimension unitVector.length = some index)
    (hlive : ∀ e ∈ index.entries, 1 < e.2.expiresAt) :
    Run.run (CacheSystem.step alignedPrimitives roomyCache) s (insertOnce url b) =
      { s with
        index := (index.insert (roomyEntry url b s.nextEntryId.1) 3).2
        nextId := s.nextEntryId.2
        now := 1
        used := s.used ++ [s.nextEntryId.1]
        puts := s.puts ++ [⟨[b], ref_ne_nil b⟩]
        scheduled := s.scheduled ++ (index.insert (roomyEntry url b s.nextEntryId.1) 3).1
        committed := s.committed ++ [(s.nextEntryId.1, ⟨imageInsert url, unitVector,
          .numbered ⟨[b], ref_ne_nil b⟩ s.nextEntryId.1⟩)] } := by
  obtain ⟨before, nextId, tasks, now, used, puts, scheduled, committed⟩ := s
  obtain rfl : tasks = [] := htasks
  have hbegin := beginInsert_image url (s := ⟨before, nextId, [], now, used, puts, scheduled, committed⟩) hindex
  have hexpired := removeExpired_none (s := index) hlive
  have hput : CacheSystem.step alignedPrimitives roomyCache
      ⟨index, nextId, [⟨imageInsert url, unitVector, .checked⟩], now, used, puts, scheduled, committed⟩
        (.put 0 (.ok ⟨[b], ref_ne_nil b⟩)) =
      ⟨index, nextId, [⟨imageInsert url, unitVector, .stored ⟨[b], ref_ne_nil b⟩⟩], now, used,
        puts ++ [⟨[b], ref_ne_nil b⟩], scheduled, committed⟩ := rfl
  have hnumber : CacheSystem.step alignedPrimitives roomyCache
      ⟨index, nextId, [⟨imageInsert url, unitVector, .stored ⟨[b], ref_ne_nil b⟩⟩], now, used,
        puts ++ [⟨[b], ref_ne_nil b⟩], scheduled, committed⟩ (.number 0) =
      ⟨index, (if nextId = 0 then (1, 2) else (nextId, (nextId + 1) % 2 ^ 64)).2, [⟨imageInsert url, unitVector,
        .numbered ⟨[b], ref_ne_nil b⟩ (if nextId = 0 then (1, 2) else (nextId, (nextId + 1) % 2 ^ 64)).1⟩], now, used,
        puts ++ [⟨[b], ref_ne_nil b⟩], scheduled, committed⟩ := rfl
  have hcommit : ∀ (id nextId : Nat) (puts : List OpaquePayloadRef), CacheSystem.step alignedPrimitives roomyCache
      ⟨index, nextId, [⟨imageInsert url, unitVector, .numbered ⟨[b], ref_ne_nil b⟩ id⟩], now, used, puts, scheduled,
        committed⟩ (.commit 0 1) =
      ⟨(index.insert (roomyEntry url b id) 3).2, nextId, [], 1, used ++ [id], puts,
        scheduled ++ (index.insert (roomyEntry url b id) 3).1,
        committed ++ [(id, ⟨imageInsert url, unitVector, .numbered ⟨[b], ref_ne_nil b⟩ id⟩)]⟩ := by
    intro id nextId puts
    rw [CacheSystem.step, if_pos hnow]
    simp only [CacheSystem.commit, List.getElem?_cons_zero, hexpired]
    rfl
  rw [insertOnce, Run.run_cons, Run.run_cons, Run.run_cons, Run.run_cons, Run.run_nil]
  rw [CacheSystem.step, hbegin]
  simp only [List.nil_append]
  rw [hput, hnumber, hcommit]
  rfl

theorem roomyEntry_digest (b b' : UInt8) (id id' : Nat) :
    (roomyEntry url b id).requestDigest = (roomyEntry url b' id').requestDigest := rfl

def urlA : String := "https://img.example/a.png"
def urlB : String := "https://img.example/b.png"
def urlC : String := "https://img.example/c.png"

theorem get_messages_image : ∃ fields, requestValue (imageRequest url) = .object fields ∧
    (Assoc.keys fields).Nodup ∧ Assoc.get fields "messages" = some (.array ([imageMessage url].map Message.toValue)) := by
  refine ⟨_, rfl, ?_, ?_⟩
  · exact Assoc.nodup_insert (Assoc.nodup_insert (Assoc.nodup_insert (Assoc.nodup_insert List.nodup_nil)))
  · simp [imageRequest, Assoc.get_insert]

theorem digest_image {url url' : String} {b b' : UInt8} {id id' : Nat}
    (h : (roomyEntry url b id).requestDigest = (roomyEntry url' b' id').requestDigest) :
    SameUpToOrder (imageContent url) (imageContent url') := by
  have hfields : responseFields (imageRequest url) = responseFields (imageRequest url') := by
    simp [responseFields, imageRequest, isInstruction_image]
  have hscope : roomyCache.scopeKey alignedPrimitives (imageRequest url) "auto" =
      roomyCache.scopeKey alignedPrimitives (imageRequest url') "auto" := by
    rw [InMemorySemanticCache.scopeKey, InMemorySemanticCache.scopeKey, canonicalResponseFields, canonicalResponseFields,
      hfields]
  change hashField "scope" (roomyCache.scopeKey alignedPrimitives (imageRequest url) "auto") ++ _ =
    hashField "scope" (roomyCache.scopeKey alignedPrimitives (imageRequest url') "auto") ++ _ at h
  rw [hscope] at h
  have hprint := congrArg Utf8.lossy (Prefixed.field_inj (List.append_cancel_left h))
  rw [canonicalJson, canonicalJson, Utf8.lossy_encode, Utf8.lossy_encode] at hprint
  have hnormal := Json.print_injective hprint
  obtain ⟨fields, hvalue, hkeys, hmessages⟩ := get_messages_image url
  obtain ⟨fields', hvalue', hkeys', hmessages'⟩ := get_messages_image url'
  change (requestValue (imageRequest url)).normalize = (requestValue (imageRequest url')).normalize at hnormal
  rw [hvalue, hvalue', Json.normalize_object_eq_iff hkeys hkeys'] at hnormal
  have hagree := hnormal "messages"
  rw [hmessages, hmessages', Option.map_some, Option.map_some, Option.some.injEq] at hagree
  exact (List.forall₂_cons.1 (Cache.messages_agree_iff.1 hagree)).1.content

theorem digest_ne : (roomyEntry urlA 1 1).requestDigest ≠ (roomyEntry urlB 2 2).requestDigest ∧
    (roomyEntry urlA 1 1).requestDigest ≠ (roomyEntry urlC 3 1).requestDigest ∧
    (roomyEntry urlB 2 2).requestDigest ≠ (roomyEntry urlC 3 1).requestDigest := by
  have hprints : (imageContent urlA).normalize.print Json.wireNumbers ≠ (imageContent urlB).normalize.print Json.wireNumbers ∧
      (imageContent urlA).normalize.print Json.wireNumbers ≠ (imageContent urlC).normalize.print Json.wireNumbers ∧
      (imageContent urlB).normalize.print Json.wireNumbers ≠ (imageContent urlC).normalize.print Json.wireNumbers := by
    decide +kernel
  have hprint : ∀ {url url' : String}, SameUpToOrder (imageContent url) (imageContent url') →
      (imageContent url).normalize.print Json.wireNumbers = (imageContent url').normalize.print Json.wireNumbers :=
    fun h => congrArg _ (h.normalize_eq (nodupKeys_imageContent _))
  exact ⟨fun h => hprints.1 (hprint (digest_image h)),
    fun h => hprints.2.1 (hprint (digest_image h)),
    fun h => hprints.2.2 (hprint (digest_image h))⟩

/-- One request was inserted first, and another one again and again, up to the id `k`. -/
structure Turned (k : Nat) (s : CacheSystem exactScores) : Prop where
  index : s.index = ⟨[(k, roomyEntry urlB 2 k), (1, roomyEntry urlA 1 1)], [1, k], some 1⟩
  nextId : s.nextId = (k + 1) % 2 ^ 64
  tasks : s.tasks = []
  now : s.now = 1
  put : ⟨[1], ref_ne_nil 1⟩ ∈ s.puts
  scheduled : ∀ r ∈ s.scheduled, r = ⟨[2], ref_ne_nil 2⟩

variable {k : Nat}

theorem Turned.live (h : Turned k s) : ∀ e ∈ s.index.entries, 1 < e.2.expiresAt := by
  intro e he
  rw [h.index] at he
  rcases List.mem_cons.1 he with rfl | he
  · exact (by decide : 1 < 1 + 60)
  · obtain rfl := List.mem_singleton.1 he
    exact (by decide : 1 < 1 + 60)

theorem Turned.turn (h : Turned k s) (hk : 2 ≤ k) (hlast : k + 1 < 2 ^ 64) :
    Turned (k + 1) (Run.run (CacheSystem.step alignedPrimitives roomyCache) s (insertOnce urlB 2)) := by
  have hid : s.nextEntryId = (k + 1, (k + 1 + 1) % 2 ^ 64) := by
    rw [CacheSystem.nextEntryId, h.nextId, Nat.mod_eq_of_lt hlast, if_neg (Nat.succ_ne_zero k)]
  have hinsert : s.index.insert (roomyEntry urlB 2 (k + 1)) 3 =
      ([⟨[2], ref_ne_nil 2⟩], ⟨[(k + 1, roomyEntry urlB 2 (k + 1)), (1, roomyEntry urlA 1 1)], [1, k + 1], some 1⟩) := by
    have hne : ¬ 1 = k := by omega
    have hreplaced : s.index.replaced (roomyEntry urlB 2 (k + 1)).requestDigest =
        ([⟨[2], ref_ne_nil 2⟩], ⟨[(1, roomyEntry urlA 1 1)], [1], some 1⟩) := by
      have hentries : s.index.entries = [(k, roomyEntry urlB 2 k), (1, roomyEntry urlA 1 1)] := by rw [h.index]
      rw [replaced_head hentries (roomyEntry_digest urlB 2 2 k (k + 1)), h.index]
      simp only [IndexState.removeAll, IndexState.remove, Assoc.get_cons_self, Assoc.erase, ne_eq, decide_not,
        List.filter_cons, decide_true, Bool.not_true, Bool.false_eq_true, if_false, hne, decide_false, Bool.not_false,
        if_true, List.filter_nil, Option.toList_some, List.map_cons, List.map_nil, List.append_nil]
      rfl
    have hnew : ¬ 1 = k + 1 := by omega
    have hput : Assoc.put [(1, roomyEntry urlA 1 1)] (k + 1) (roomyEntry urlB 2 (k + 1)) =
        [(k + 1, roomyEntry urlB 2 (k + 1)), (1, roomyEntry urlA 1 1)] := by
      rw [Assoc.put, Assoc.erase_eq_self (Assoc.get_cons_of_ne hnew)]
    rw [insert_eq, hreplaced, evict_room (Nat.lt_succ_of_lt (Nat.lt_succ_self 1))]
    show (_, IndexState.mk (Assoc.put [(1, roomyEntry urlA 1 1)] (k + 1) (roomyEntry urlB 2 (k + 1))) _ _) = _
    rw [hput]
    rfl
  have hindex : s.index.validateDimension unitVector.length = some s.index := by
    rw [h.index]
    rfl
  rw [insertOnce_run _ h.tasks h.now.le hindex h.live, hid, hinsert]
  refine ⟨rfl, rfl, h.tasks, rfl, List.mem_append_left _ h.put, fun r hr => ?_⟩
  rcases List.mem_append.1 hr with hr | hr
  · exact h.scheduled r hr
  · exact List.mem_singleton.1 hr

theorem turned_two : Turned 2 (Run.run (CacheSystem.step alignedPrimitives roomyCache) .new
    (insertOnce urlA 1 ++ insertOnce urlB 2)) := by
  have hfirst : Run.run (CacheSystem.step alignedPrimitives roomyCache) .new (insertOnce urlA 1) =
      ⟨⟨[(1, roomyEntry urlA 1 1)], [1], some 1⟩, 2, [], 1, [1], [⟨[1], ref_ne_nil 1⟩], [],
        [(1, ⟨imageInsert urlA, unitVector, .numbered ⟨[1], ref_ne_nil 1⟩ 1⟩)]⟩ :=
    insertOnce_run ⟨[], [], some 1⟩ rfl (by decide) rfl fun e he => (by cases he)
  have hother : ∀ e ∈ [(1, roomyEntry urlA 1 1)], e.2.requestDigest ≠ (roomyEntry urlB 2 2).requestDigest := by
    intro e he
    obtain rfl := List.mem_singleton.1 he
    exact digest_ne.1
  have hinsert : (IndexState.mk [(1, roomyEntry urlA 1 1)] [1] (some 1)).insert (roomyEntry urlB 2 2) 3 =
      ([], ⟨[(2, roomyEntry urlB 2 2), (1, roomyEntry urlA 1 1)], [1, 2], some 1⟩) := by
    rw [insert_eq, replaced_none hother, evict_room (by decide)]
    rfl
  have hlive : ∀ e ∈ [(1, roomyEntry urlA 1 1)], 1 < e.2.expiresAt := by
    intro e he
    obtain rfl := List.mem_singleton.1 he
    exact (by decide : 1 < 1 + 60)
  have hid : ∀ tasks now used puts scheduled committed, (CacheSystem.mk (⟨[(1, roomyEntry urlA 1 1)], [1], some 1⟩ :
      IndexState exactScores) 2 tasks now used puts scheduled committed).nextEntryId = (2, 3) :=
    fun _ _ _ _ _ _ => rfl
  rw [Run.run_append, hfirst, insertOnce_run ⟨[(1, roomyEntry urlA 1 1)], [1], some 1⟩ rfl le_rfl
    rfl hlive, hid, hinsert]
  exact ⟨rfl, rfl, rfl, rfl, List.mem_cons_self, fun r hr => (by cases hr)⟩

/-- The actions up to the id `k + 2`. -/
def turns (k : Nat) : List (CacheAction exactScores) :=
  insertOnce urlA 1 ++ insertOnce urlB 2 ++ (List.replicate k (insertOnce urlB 2)).flatten

theorem turned_turns (hk : k + 2 < 2 ^ 64) :
    Turned (k + 2) (Run.run (CacheSystem.step alignedPrimitives roomyCache) .new (turns k)) := by
  induction k with
  | zero => exact turned_two
  | succ k ih =>
    have hturns : turns (k + 1) = turns k ++ insertOnce urlB 2 := by
      rw [turns, turns, List.replicate_succ', List.flatten_append, List.flatten_singleton, ← List.append_assoc]
    rw [hturns, Run.run_append]
    exact (ih (by omega)).turn (by omega) (by omega)

/-- Behind the last id comes the first one again. -/
theorem Turned.last (h : Turned k s) (hlast : k + 1 = 2 ^ 64) :
    (Run.run (CacheSystem.step alignedPrimitives roomyCache) s (insertOnce urlC 3)).index =
        ⟨[(1, roomyEntry urlC 3 1), (k, roomyEntry urlB 2 k)], [1, k, 1], some 1⟩ ∧
      (Run.run (CacheSystem.step alignedPrimitives roomyCache) s (insertOnce urlC 3)).scheduled = s.scheduled ++ [] ∧
      (Run.run (CacheSystem.step alignedPrimitives roomyCache) s (insertOnce urlC 3)).puts =
        s.puts ++ [⟨[3], ref_ne_nil 3⟩] ∧
      (Run.run (CacheSystem.step alignedPrimitives roomyCache) s (insertOnce urlC 3)).tasks = s.tasks := by
  have hne : ¬ k = 1 := by omega
  have hid : s.nextEntryId = (1, 2) := by rw [CacheSystem.nextEntryId, h.nextId, hlast, Nat.mod_self, if_pos rfl]
  have hindex : s.index.validateDimension unitVector.length = some s.index := by
    rw [h.index]
    rfl
  have hother : ∀ e ∈ s.index.entries, e.2.requestDigest ≠ (roomyEntry urlC 3 1).requestDigest := by
    intro e he
    rw [h.index] at he
    rcases List.mem_cons.1 he with rfl | he
    · exact fun heq => digest_ne.2.2 ((roomyEntry_digest urlB 2 2 2 k).trans heq)
    · obtain rfl := List.mem_singleton.1 he
      exact digest_ne.2.1
  have hput : Assoc.put [(k, roomyEntry urlB 2 k), (1, roomyEntry urlA 1 1)] 1 (roomyEntry urlC 3 1) =
      [(1, roomyEntry urlC 3 1), (k, roomyEntry urlB 2 k)] := by
    simp [Assoc.put, Assoc.erase, hne]
  have hinsert : s.index.insert (roomyEntry urlC 3 1) 3 =
      ([], ⟨[(1, roomyEntry urlC 3 1), (k, roomyEntry urlB 2 k)], [1, k, 1], some 1⟩) := by
    rw [insert_eq, replaced_none hother, h.index, evict_room (Nat.lt_succ_self 2)]
    show ([] ++ [], IndexState.mk (Assoc.put _ 1 (roomyEntry urlC 3 1)) _ _) = _
    rw [hput]
    rfl
  rw [insertOnce_run _ h.tasks h.now.le hindex h.live, hid, hinsert]
  exact ⟨rfl, rfl, rfl, rfl⟩

/-- Its entry is overwritten, listed twice in the order, and its payload neither held nor scheduled for deletion. -/
theorem id_reused : ∃ actions : List (CacheAction exactScores),
    (Run.run (CacheSystem.step alignedPrimitives roomyCache) .new actions).tasks = [] ∧
    ¬ (Run.run (CacheSystem.step alignedPrimitives roomyCache) .new actions).index.lru.Nodup ∧
    ∃ ref ∈ (Run.run (CacheSystem.step alignedPrimitives roomyCache) .new actions).puts,
      ref ∉ (Run.run (CacheSystem.step alignedPrimitives roomyCache) .new actions).index.refs ∧
      ref ∉ (Run.run (CacheSystem.step alignedPrimitives roomyCache) .new actions).scheduled := by
  obtain ⟨k, hk⟩ : ∃ k, k + 3 = 2 ^ 64 := ⟨2 ^ 64 - 3, by omega⟩
  have hturned : Turned (k + 2) _ := turned_turns (by omega)
  obtain ⟨hindex, hscheduled, hputs, htasks⟩ := hturned.last (by omega)
  refine ⟨turns k ++ insertOnce urlC 3, ?_⟩
  rw [Run.run_append, hindex, hscheduled, hputs, htasks]
  refine ⟨hturned.tasks, by simp, ⟨[1], ref_ne_nil 1⟩, List.mem_append_left _ hturned.put, ?_, fun hmem => ?_⟩
  · simp [IndexState.refs, roomyEntry, InMemorySemanticCache.entry]
  · rw [List.append_nil] at hmem
    have heq := hturned.scheduled _ hmem
    simp at heq

end ObeyGateway.SmartRouting
