import Mathlib.Data.List.Basic

/-!
# Walks that count

A walk over a list does something to each entry and says how often it changed something. What it did is the map of what
it does to each (`tally_fst`), and it counted nothing exactly if it did so at no entry (`tally_eq_zero`).
-/

namespace Tally

variable {α β : Type*}

def tally (f : α → β × Nat) : List α → List β × Nat
  | [] => ([], 0)
  | a :: as => ((f a).1 :: (tally f as).1, (f a).2 + (tally f as).2)

variable {f g : α → β × Nat} {as : List α}

theorem tally_fst (f : α → β × Nat) (as : List α) : (tally f as).1 = as.map fun a => (f a).1 := by
  induction as with
  | nil => rfl
  | cons a as ih => rw [tally, List.map_cons, ih]

theorem tally_eq_zero : (tally f as).2 = 0 ↔ ∀ a ∈ as, (f a).2 = 0 := by
  induction as with
  | nil => simp [tally]
  | cons a as ih => rw [tally, Nat.add_eq_zero_iff, ih, List.forall_mem_cons]

theorem tally_congr (h : ∀ a ∈ as, f a = g a) : tally f as = tally g as := by
  induction as with
  | nil => rfl
  | cons a as ih =>
    obtain ⟨ha, has⟩ := List.forall_mem_cons.1 h
    rw [tally, tally, ha, ih has]

theorem tally_map {γ : Type*} (e : γ → α) (cs : List γ) : tally f (cs.map e) = tally (fun c => f (e c)) cs := by
  induction cs with
  | nil => rfl
  | cons c cs ih => rw [List.map_cons, tally, tally, ih]

end Tally
