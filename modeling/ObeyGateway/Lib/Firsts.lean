import Mathlib.Data.List.Nodup

/-!
# The first element of each key

`firsts key seen l` is what a filter by `seen.insert(key)` lets through: of the elements whose key is not in the set
yet, the first of each key. With the set it started from it has the keys of the whole list (`mem_keys_firsts`), each
once (`nodup_keys_firsts`).
-/

namespace Firsts

variable {α κ : Type*} [DecidableEq κ] (key : α → κ)

def firsts : List κ → List α → List α
  | _, [] => []
  | seen, a :: l => if key a ∈ seen then firsts seen l else a :: firsts (key a :: seen) l

variable {key} {seen : List κ} {l : List α}

theorem firsts_sublist : (firsts key seen l).Sublist l := by
  induction l generalizing seen with
  | nil => exact List.Sublist.refl []
  | cons a l ih =>
    unfold firsts
    split_ifs with ha
    · exact ih.cons a
    · exact ih.cons_cons a

theorem mem_keys_firsts {k : κ} : k ∈ (firsts key seen l).map key ↔ k ∈ l.map key ∧ k ∉ seen := by
  induction l generalizing seen with
  | nil => simp [firsts]
  | cons a l ih =>
    unfold firsts
    split_ifs with ha
    · rw [ih, List.map_cons, List.mem_cons]
      constructor
      · rintro ⟨hk, hnew⟩
        exact ⟨Or.inr hk, hnew⟩
      · rintro ⟨rfl | hk, hnew⟩
        · exact absurd ha hnew
        · exact ⟨hk, hnew⟩
    · rw [List.map_cons, List.mem_cons, ih, List.map_cons, List.mem_cons, List.mem_cons]
      constructor
      · rintro (rfl | ⟨hk, hnew⟩)
        · exact ⟨Or.inl rfl, ha⟩
        · exact ⟨Or.inr hk, fun h => hnew (Or.inr h)⟩
      · rintro ⟨rfl | hk, hnew⟩
        · exact Or.inl rfl
        · by_cases hka : k = key a
          · exact Or.inl hka
          · exact Or.inr ⟨hk, fun h => h.elim hka hnew⟩

theorem nodup_keys_firsts : ((firsts key seen l).map key).Nodup := by
  induction l generalizing seen with
  | nil => exact List.nodup_nil
  | cons a l ih =>
    unfold firsts
    split_ifs with ha
    · exact ih
    · rw [List.map_cons, List.nodup_cons]
      refine ⟨fun h => ?_, ih⟩
      exact (mem_keys_firsts.1 h).2 (List.mem_cons_self ..)

theorem firsts_concat_known {a : α} (h : key a ∈ seen ∨ key a ∈ l.map key) :
    firsts key seen (l ++ [a]) = firsts key seen l := by
  induction l generalizing seen with
  | nil =>
    have hmem : key a ∈ seen := h.resolve_right List.not_mem_nil
    simp [firsts, hmem]
  | cons b l ih =>
    rw [List.map_cons, List.mem_cons] at h
    rw [List.cons_append, firsts, firsts]
    split_ifs with hb
    · rcases h with h | h | h
      · exact ih (Or.inl h)
      · exact ih (Or.inl (h ▸ hb))
      · exact ih (Or.inr h)
    · refine congrArg (b :: ·) (ih ?_)
      rw [List.mem_cons]
      tauto

theorem firsts_concat_new {a : α} (hseen : key a ∉ seen) (hl : key a ∉ l.map key) :
    firsts key seen (l ++ [a]) = firsts key seen l ++ [a] := by
  induction l generalizing seen with
  | nil =>
    simp [firsts, hseen]
  | cons b l ih =>
    rw [List.map_cons, List.mem_cons, not_or] at hl
    rw [List.cons_append, firsts, firsts]
    split_ifs with hb
    · exact ih hseen hl.2
    · refine congrArg (b :: ·) (ih ?_ hl.2)
      rw [List.mem_cons, not_or]
      exact ⟨hl.1, hseen⟩

theorem mem_keys_append_firsts {known : List α} {a : α} (ha : a ∈ l) :
    key a ∈ (known ++ firsts key (known.map key) l).map key := by
  rw [List.map_append, List.mem_append]
  by_cases hknown : key a ∈ known.map key
  · exact Or.inl hknown
  · exact Or.inr (mem_keys_firsts.2 ⟨List.mem_map_of_mem ha, hknown⟩)

end Firsts
