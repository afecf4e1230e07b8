import Mathlib.Data.List.Dedup

/-!
# Order of last use

A cache that evicts what was used the longest time ago keeps its keys by their last use. `recency used keys` is that
order, from the log of all uses: the keys, each once, the one whose last use is oldest first. `touch`, `recency_erase`
and `usedBefore_of_sublist` say what a use, a removal and the order of two keys are.
-/

namespace Recency

variable {κ : Type*} [DecidableEq κ] {used keys : List κ} {k k' : κ}

def recency (used keys : List κ) : List κ := used.dedup.filter (· ∈ keys)

/-- After the last use of `k` there is one of `k'`. -/
def UsedBefore (used : List κ) (k k' : κ) : Prop :=
  ∃ before after, used = before ++ k :: after ∧ k ∉ after ∧ k' ∈ after

theorem mem_recency : k ∈ recency used keys ↔ k ∈ used ∧ k ∈ keys := by
  rw [recency, List.mem_filter, List.mem_dedup, decide_eq_true_eq]

theorem nodup_recency : (recency used keys).Nodup := (List.nodup_dedup used).filter _

theorem dedup_concat (used : List κ) (k : κ) : (used ++ [k]).dedup = used.dedup.filter (· ≠ k) ++ [k] := by
  induction used with
  | nil => simp
  | cons k' used ih =>
    rw [List.cons_append]
    by_cases hk : k' ∈ used
    · rw [List.dedup_cons_of_mem (List.mem_append_left _ hk), List.dedup_cons_of_mem hk, ih]
    · by_cases heq : k' = k
      · subst heq
        rw [List.dedup_cons_of_mem (by simp), ih, List.dedup_cons_of_notMem hk, List.filter_cons_of_neg (by simp)]
      · rw [List.dedup_cons_of_notMem (by simp [hk, heq]), ih, List.dedup_cons_of_notMem hk,
          List.filter_cons_of_pos (by simpa using heq), List.cons_append]

theorem recency_touch (hk : k ∈ keys) : recency (used ++ [k]) keys = (recency used keys).filter (· ≠ k) ++ [k] := by
  rw [recency, dedup_concat, List.filter_append, List.filter_filter, recency, List.filter_filter]
  simp [hk, Bool.and_comm]

theorem recency_filter (p : κ → Bool) : recency used (keys.filter p) = (recency used keys).filter p := by
  rw [recency, recency, List.filter_filter]
  refine List.filter_congr fun k _ => ?_
  simp [List.mem_filter, Bool.and_comm]

theorem recency_push (hk : k ∉ keys) : recency (used ++ [k]) (k :: keys) = recency used keys ++ [k] := by
  have hne : (recency used keys).filter (· ≠ k) = recency used keys := by
    refine List.filter_eq_self.2 fun k' hk' => ?_
    have hne : k' ≠ k := by
      rintro rfl
      exact hk (mem_recency.1 hk').2
    simpa using hne
  have hkeys : recency (used ++ [k]) (k :: keys) = used.dedup.filter (fun k' => k' ≠ k ∧ k' ∈ keys) ++ [k] := by
    rw [recency, dedup_concat, List.filter_append, List.filter_filter]
    congr 1
    · refine List.filter_congr fun k' _ => ?_
      by_cases heq : k' = k <;> simp [heq]
    · simp
  rw [hkeys, ← hne, recency, List.filter_filter]
  simp

theorem usedBefore_of_dedup (h : List.Sublist [k, k'] used.dedup) : UsedBefore used k k' := by
  induction used with
  | nil => simp at h
  | cons a used ih =>
    by_cases ha : a ∈ used
    · rw [List.dedup_cons_of_mem ha] at h
      obtain ⟨before, after, rfl, hk, hk'⟩ := ih h
      exact ⟨a :: before, after, rfl, hk, hk'⟩
    · rw [List.dedup_cons_of_notMem ha] at h
      rcases List.sublist_cons_iff.1 h with h | ⟨rest, hrest, hsub⟩
      · obtain ⟨before, after, rfl, hk, hk'⟩ := ih h
        exact ⟨a :: before, after, rfl, hk, hk'⟩
      · obtain ⟨rfl, rfl⟩ := List.cons.inj hrest
        exact ⟨[], used, rfl, ha, List.mem_dedup.1 (List.singleton_sublist.1 hsub)⟩

theorem usedBefore_of_append {front back : List κ} (h : recency used keys = front ++ back) (hk : k ∈ front)
    (hk' : k' ∈ back) : UsedBefore used k k' := by
  have hsub : List.Sublist [k, k'] (front ++ back) :=
    (List.singleton_sublist.2 hk).append (List.singleton_sublist.2 hk')
  rw [← h] at hsub
  exact usedBefore_of_dedup (hsub.trans List.filter_sublist)

end Recency
