import Mathlib.Logic.Relation

/-!
# Loops that shrink their state

`while ¬ done s, s := next s`, where each step makes the state smaller and there may be none left. The loop
ends in the first state it passes that is done, or in one without a next: `run_first` says that it does not
run past a done state.
-/

structure Shrinking (σ : Type*) where
  next : σ → Option σ
  size : σ → Nat
  size_lt : ∀ {s t}, next s = some t → size t < size s

namespace Shrinking
variable {σ : Type*} (m : Shrinking σ) {done : σ → Bool} {s t : σ}

def run (done : σ → Bool) (s : σ) : σ :=
  if done s then s
  else
    match _h : m.next s with
    | none => s
    | some t => run done t
termination_by m.size s
decreasing_by exact m.size_lt _h

def Reaches : σ → σ → Prop := Relation.ReflTransGen fun s t => m.next s = some t

variable {m}

theorem run_of_done (h : done s = true) : m.run done s = s := by
  rw [run, if_pos h]

theorem run_of_none (h : m.next s = none) : m.run done s = s := by
  rw [run]
  split
  · rfl
  · split <;> simp_all

theorem run_of_some (hdone : done s = false) (h : m.next s = some t) : m.run done s = m.run done t := by
  rw [run, if_neg (by simp [hdone])]
  split <;> simp_all

theorem Reaches.size_le (h : m.Reaches s t) : m.size t ≤ m.size s := by
  induction h with
  | refl => exact Nat.le_refl _
  | tail _ hstep ih => exact Nat.le_trans (Nat.le_of_lt (m.size_lt hstep)) ih

theorem Reaches.eq_or_next (h : m.Reaches s t) : s = t ∨ ∃ u, m.next s = some u ∧ m.Reaches u t :=
  Relation.ReflTransGen.cases_head h

theorem Reaches.invariant {I : σ → Prop} (hstep : ∀ {s t}, m.next s = some t → I s → I t) (h : m.Reaches s t)
    (hs : I s) : I t := by
  induction h with
  | refl => exact hs
  | tail _ hnext ih => exact hstep hnext ih

theorem reaches_run (done : σ → Bool) (s : σ) : m.Reaches s (m.run done s) := by
  induction s using Shrinking.run.induct m done with
  | case1 s hdone =>
    rw [run_of_done hdone]
    exact .refl
  | case2 s hdone hnext =>
    rw [run_of_none hnext]
    exact .refl
  | case3 s hdone t hnext ih =>
    rw [run_of_some (by simpa using hdone) hnext]
    exact .head hnext ih

theorem run_ends (done : σ → Bool) (s : σ) : done (m.run done s) = true ∨ m.next (m.run done s) = none := by
  induction s using Shrinking.run.induct m done with
  | case1 s hdone =>
    rw [run_of_done hdone]
    exact .inl hdone
  | case2 s hdone hnext =>
    rw [run_of_none hnext]
    exact .inr hnext
  | case3 s hdone t hnext ih =>
    rw [run_of_some (by simpa using hdone) hnext]
    exact ih

/-- The loop does not run past a done state. -/
theorem run_first (h : m.Reaches s t) (ht : done t = true) : m.Reaches (m.run done s) t := by
  induction h using Relation.ReflTransGen.head_induction_on with
  | refl =>
    rw [run_of_done ht]
    exact .refl
  | @head s u hnext hrest ih =>
    cases hdone : done s with
    | true =>
      rw [run_of_done hdone]
      exact .head hnext hrest
    | false =>
      rw [run_of_some hdone hnext]
      exact ih

theorem run_eq (h : m.Reaches s t) (ht : done t = true) (hle : ∀ u, done u = true → m.size u ≤ m.size t) :
    m.run done s = t := by
  have hreach := run_first h ht
  rcases run_ends (m := m) done s with hdone | hnone
  · rcases hreach.eq_or_next with heq | ⟨u, hnext, hrest⟩
    · exact heq
    · have h1 := hle _ hdone
      have h2 := m.size_lt hnext
      have h3 := hrest.size_le
      omega
  · rcases hreach.eq_or_next with heq | ⟨u, hnext, -⟩
    · exact heq
    · rw [hnone] at hnext
      cases hnext

end Shrinking
