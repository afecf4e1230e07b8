import Mathlib.Algebra.Order.Ring.Unbundled.Rat
import Mathlib.Tactic.Linarith
import ObeyGateway.Lib.Run

/-!
# Token buckets

A state has a level at every instant: between operations it grows by no more than what is minted
meanwhile, and an operation lowers it by what it takes. Over any stretch of a run what the operations
take is then bounded by the level it starts from and by what is minted (`level_run`).
-/

namespace TokenBucket

variable {σ α : Type*} {first last : α → Nat}

/-- The operations come one after the other, all of them after `t`. -/
def InOrder (first last : α → Nat) : Nat → List α → Prop
  | _, [] => True
  | t, a :: as => t ≤ first a ∧ InOrder first last (last a) as

/-- The last instant of the operations, `t` when there is none. -/
def lastInstant (last : α → Nat) (t : Nat) (as : List α) : Nat := as.foldl (fun _ a => last a) t

/-- What the operations take along the run from `s`. -/
def total (step : σ → α → σ) (taken : σ → α → ℚ) : σ → List α → ℚ
  | _, [] => 0
  | s, a :: as => taken s a + total step taken (step s a) as

/-- `I` holds of the states of a run, `level` is what is in the bucket, `minted` what a length of time
brings. -/
structure Metered (step : σ → α → σ) (first last : α → Nat) (I : σ → Nat → Prop) (level : σ → Nat → ℚ)
    (taken : σ → α → ℚ) (minted : Nat → ℚ) : Prop where
  ordered : ∀ a, first a ≤ last a
  minted_add : ∀ d e, minted (d + e) = minted d + minted e
  later : ∀ s t u, I s t → t ≤ u → I s u
  grow : ∀ s t u, I s t → t ≤ u → level s u ≤ level s t + minted (u - t)
  step : ∀ s a, I s (first a) →
    I (step s a) (last a) ∧ level (step s a) (last a) + taken s a ≤ level s (last a)

section
variable {t u : Nat} {a : α} {as bs : List α}

@[simp] theorem lastInstant_nil : lastInstant last t [] = t := rfl

@[simp] theorem lastInstant_cons : lastInstant last t (a :: as) = lastInstant last (last a) as := rfl

theorem lastInstant_append :
    lastInstant last t (as ++ bs) = lastInstant last (lastInstant last t as) bs := List.foldl_append

theorem inOrder_append : InOrder first last t (as ++ bs) ↔
      InOrder first last t as ∧ InOrder first last (lastInstant last t as) bs := by
  induction as generalizing t with
  | nil => simp [InOrder]
  | cons a as ih => simp [InOrder, ih, and_assoc]

theorem InOrder.le_last (hfl : ∀ a, first a ≤ last a) (h : InOrder first last t as) (ha : a ∈ as) : t ≤ last a := by
  induction as generalizing t with
  | nil => cases ha
  | cons b as ih =>
    have hb : t ≤ last b := h.1.trans (hfl b)
    rcases List.mem_cons.1 ha with rfl | ha
    · exact hb
    · exact hb.trans (ih h.2 ha)

theorem InOrder.le_lastInstant (hfl : ∀ a, first a ≤ last a) (h : InOrder first last t as) : t ≤ lastInstant last t as := by
  induction as generalizing t with
  | nil => exact le_refl t
  | cons a as ih => exact (h.1.trans (hfl a)).trans (ih h.2)

theorem lastInstant_le {e : Nat} (ht : t ≤ e) (h : ∀ a ∈ as, last a ≤ e) : lastInstant last t as ≤ e := by
  induction as generalizing t with
  | nil => exact ht
  | cons a as ih => exact ih (h a List.mem_cons_self) fun b hb => h b (List.mem_cons_of_mem _ hb)

theorem InOrder.interval (hfl : ∀ a, first a ≤ last a) (h : InOrder first last t as) (s e : Nat) :
    ∃ before seg rest, as = before ++ seg ++ rest ∧ (∀ a ∈ before, last a < s) ∧
      (∀ a ∈ seg, s ≤ last a ∧ last a ≤ e) ∧ ∀ a ∈ rest, last a < s ∨ e < last a := by
  induction as generalizing t with
  | nil => exact ⟨[], [], [], rfl, by simp⟩
  | cons a as ih =>
    obtain ⟨before, seg, rest, rfl, hbefore, hseg, hrest⟩ := ih h.2
    have hall := fun b (hb : b ∈ before ++ seg ++ rest) => h.2.le_last hfl hb
    by_cases hs : last a < s
    · exact ⟨a :: before, seg, rest, rfl, by simpa [hs] using hbefore, hseg, hrest⟩
    · -- nothing after `a` ends before `s`
      obtain rfl : before = [] := by
        rw [List.eq_nil_iff_forall_not_mem]
        intro b hb
        have hab := hall b (by simp [hb])
        have hbs := hbefore b hb
        omega
      by_cases he : last a ≤ e
      · exact ⟨[], a :: seg, rest, rfl, by simp, by simpa [he, Nat.le_of_not_lt hs] using hseg, hrest⟩
      · refine ⟨[], [], a :: (seg ++ rest), rfl, by simp, by simp, ?_⟩
        intro b hb
        rcases List.mem_cons.1 hb with rfl | hb
        · exact .inr (by omega)
        · have hab := hall b hb
          exact .inr (by omega)

end

namespace Metered

variable {step : σ → α → σ} {I : σ → Nat → Prop} {level : σ → Nat → ℚ} {taken : σ → α → ℚ}
  {minted : Nat → ℚ} {s : σ} {t : Nat} {a : α} {as : List α}

/-- Along a run the level falls by what is taken, up to what is minted meanwhile. -/
theorem level_run (m : Metered step first last I level taken minted) (h : I s t) (ho : InOrder first last t as) :
    I (Run.run step s as) (lastInstant last t as) ∧
      level (Run.run step s as) (lastInstant last t as) + total step taken s as ≤
        level s t + minted (lastInstant last t as - t) := by
  induction as generalizing s t with
  | nil =>
    have hzero : minted 0 = 0 := by linarith [m.minted_add 0 0]
    exact ⟨h, by simp [total, hzero]⟩
  | cons a as ih =>
    have hta : t ≤ last a := ho.1.trans (m.ordered a)
    obtain ⟨hI, hstep⟩ := m.step s a (m.later s t _ h ho.1)
    obtain ⟨hend, hrest⟩ := ih hI ho.2
    have hgrow := m.grow s t _ h hta
    have hle := ho.2.le_lastInstant m.ordered
    have hsplit : lastInstant last (last a) as - t =
        (last a - t) + (lastInstant last (last a) as - last a) := by omega
    refine ⟨hend, ?_⟩
    rw [lastInstant_cons, hsplit, m.minted_add, Run.run_cons, total]
    linarith

theorem total_le {cap : ℚ} (m : Metered step first last I level taken minted) (hcap : ∀ s t, I s t → level s t ≤ cap) (h : I s t)
    (ho : InOrder first last t (a :: as)) :
    level (Run.run step s (a :: as)) (lastInstant last t (a :: as)) + total step taken s (a :: as) ≤
      cap + minted (lastInstant last t (a :: as) - last a) := by
  obtain ⟨hI, hstep⟩ := m.step s a (m.later s t _ h ho.1)
  obtain ⟨-, hrest⟩ := m.level_run hI ho.2
  have hfull := hcap s (last a) (m.later s t _ h (ho.1.trans (m.ordered a)))
  rw [lastInstant_cons, Run.run_cons, total]
  linarith

end Metered

end TokenBucket
