import Mathlib.Data.List.Chain
import Mathlib.Data.List.Nodup
import Mathlib.Logic.Function.Basic

/-!
# Chains of pointers

Every element has at most one pointer. `Ends next n a z` says that `n` pointers lead from `a` to `z`, which has none; then
they pass no element twice (`Ends.trail`). Where an element without a pointer is given one, every chain that ended there goes
on (`Ends.redirect`), unless the new pointer leads back: then it ends nowhere any more (`Ends.not_of_return`).
-/

namespace Pointers

variable {κ : Type*} {next : κ → Option κ} {a b c z w : κ} {m n : Nat}

inductive Ends (next : κ → Option κ) : Nat → κ → κ → Prop
  | stop {a : κ} (h : next a = none) : Ends next 0 a a
  | step {n : Nat} {a b z : κ} (h : next a = some b) (rest : Ends next n b z) : Ends next (n + 1) a z

namespace Ends

theorem last (h : Ends next n a z) : next z = none := by
  induction h with
  | stop h => exact h
  | step _ _ ih => exact ih

theorem of_step (h : Ends next n a z) (hab : next a = some b) : ∃ k, n = k + 1 ∧ Ends next k b z := by
  cases h with
  | stop h =>
    rw [h] at hab
    cases hab
  | step h rest =>
    rw [h] at hab
    cases hab
    exact ⟨_, rfl, rest⟩

theorem unique (h : Ends next n a z) (h' : Ends next m a w) : n = m ∧ z = w := by
  induction h generalizing m with
  | stop h =>
    cases h' with
    | stop => exact ⟨rfl, rfl⟩
    | step hstep =>
      rw [h] at hstep
      cases hstep
  | step h rest ih =>
    obtain ⟨k, rfl, hrest⟩ := h'.of_step h
    obtain ⟨rfl, rfl⟩ := ih hrest
    exact ⟨rfl, rfl⟩

theorem trail (h : Ends next n a z) : ∃ path : List κ, path.head? = some a ∧ path.getLast? = some z ∧ path.Nodup ∧
    (path.IsChain fun x y => next x = some y) ∧ ∀ x ∈ path, ∃ k ≤ n, Ends next k x z := by
  induction h with
  | stop h =>
    refine ⟨[_], rfl, rfl, List.nodup_singleton _, List.isChain_singleton _, fun x hx => ?_⟩
    rw [List.mem_singleton.1 hx]
    exact ⟨0, le_refl 0, .stop h⟩
  | @step n a b z h rest ih =>
    obtain ⟨path, hhead, hlast, hnodup, hchain, hends⟩ := ih
    have hnotin : a ∉ path := by
      intro hmem
      obtain ⟨k, hk, ha⟩ := hends a hmem
      have heq := (ha.unique (.step h rest)).1
      omega
    have hpath : path ≠ [] := by
      rintro rfl
      cases hhead
    refine ⟨a :: path, rfl, ?_, List.nodup_cons.2 ⟨hnotin, hnodup⟩, ?_, fun x hx => ?_⟩
    · rw [List.getLast?_cons, hlast]
      rfl
    · rcases path with _ | ⟨c, path⟩
      · exact absurd rfl hpath
      cases hhead
      exact List.isChain_cons_cons.2 ⟨h, hchain⟩
    · rcases List.mem_cons.1 hx with rfl | hx
      · exact ⟨n + 1, le_refl _, .step h rest⟩
      · obtain ⟨k, hk, hx⟩ := hends x hx
        exact ⟨k, by omega, hx⟩

theorem of_chain {path : List κ} (h : path.IsChain fun x y => next x = some y) (hhead : path.head? = some a)
    (hlast : path.getLast? = some z) (hz : next z = none) : ∃ n, Ends next n a z := by
  induction path generalizing a with
  | nil => cases hhead
  | cons b path ih =>
    cases hhead
    rcases path with _ | ⟨c, path⟩
    · cases hlast
      exact ⟨0, .stop hz⟩
    obtain ⟨hbc, h⟩ := List.isChain_cons_cons.1 h
    obtain ⟨n, hn⟩ := ih h rfl (by rwa [List.getLast?_cons_cons] at hlast)
    exact ⟨n + 1, .step hbc hn⟩

section
variable [DecidableEq κ]

theorem update_of_ne (h : Ends next n c w) (ha : next a = none) (hw : w ≠ a) :
    Ends (Function.update next a (some b)) n c w := by
  induction h with
  | stop h => exact .stop (by rw [Function.update_of_ne hw, h])
  | @step n c d w h rest ih =>
    have hne : c ≠ a := by
      rintro rfl
      rw [ha] at h
      cases h
    exact .step (by rw [Function.update_of_ne hne, h]) (ih hw)

/-- Where the new pointer does not lead back, every chain still ends. -/
theorem redirect (h : Ends next n c w) (ha : next a = none) (hb : Ends next m b z) (hz : z ≠ a) :
    ∃ k, Ends (Function.update next a (some b)) k c (if w = a then z else w) := by
  by_cases hw : w = a
  · rw [if_pos hw]
    have hb' := hb.update_of_ne (b := b) ha hz
    induction h with
    | stop h =>
      subst hw
      exact ⟨m + 1, .step (Function.update_self ..) hb'⟩
    | @step n c d w h rest ih =>
      have hne : c ≠ a := by
        rintro rfl
        rw [ha] at h
        cases h
      obtain ⟨k, hk⟩ := ih hw
      exact ⟨k + 1, .step (by rw [Function.update_of_ne hne, h]) hk⟩
  · rw [if_neg hw]
    exact ⟨n, h.update_of_ne ha hw⟩

theorem follow (h : Ends next m c a) {k : Nat} (h' : Ends (Function.update next a (some b)) k c z) :
    ∃ j, j + m = k ∧ Ends (Function.update next a (some b)) j a z := by
  have ha : next a = none := h.last
  induction h generalizing k with
  | stop => exact ⟨k, rfl, h'⟩
  | @step m c d a h rest ih =>
    have hne : c ≠ a := by
      rintro rfl
      rw [ha] at h
      cases h
    obtain ⟨k, rfl, hrest⟩ := h'.of_step (b := d) (by rw [Function.update_of_ne hne, h])
    obtain ⟨j, rfl, hj⟩ := ih hrest ha
    exact ⟨j, rfl, hj⟩

/-- A pointer that leads back leaves an element from which no chain ends. -/
theorem not_of_return (h : Ends next m b a) {k : Nat} : ¬ Ends (Function.update next a (some b)) k a z := by
  intro hends
  obtain ⟨k, rfl, hb⟩ := hends.of_step (b := b) (Function.update_self ..)
  obtain ⟨j, rfl, hj⟩ := h.follow hb
  have heq := (hj.unique hends).1
  omega

theorem of_update (h : Ends (Function.update next a (some b)) n c w) (ha : next a = none) : ∃ k z, Ends next k c z := by
  induction h with
  | @stop c h =>
    have hne : c ≠ a := by
      rintro rfl
      rw [Function.update_self] at h
      cases h
    rw [Function.update_of_ne hne] at h
    exact ⟨0, c, .stop h⟩
  | @step n c d w h rest ih =>
    by_cases hc : c = a
    · subst hc
      exact ⟨0, c, .stop ha⟩
    · rw [Function.update_of_ne hc] at h
      obtain ⟨k, z, hk⟩ := ih
      exact ⟨k + 1, z, .step h hk⟩

end

end Ends

end Pointers
