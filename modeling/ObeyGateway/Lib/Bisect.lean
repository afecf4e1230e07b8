import Mathlib.Tactic.Set

/-!
# Binary search for the first hit

`bisect hit fuel low high` halves the places from `low` to `high`. Where a hit is followed by hits and `high` is
one, it ends at the first (`bisect_spec`); as many rounds as there are places are enough.
-/

namespace Bisect

def bisect (hit : Nat → Bool) : Nat → Nat → Nat → Nat
  | 0, low, _ => low
  | fuel + 1, low, high =>
    if low < high then
      let middle := low + (high - low) / 2
      if hit middle then bisect hit fuel low middle else bisect hit fuel (middle + 1) high
    else low

/-- The first hit from `low` on. -/
structure First (hit : Nat → Bool) (low place : Nat) : Prop where
  le : low ≤ place
  found : hit place = true
  before : ∀ p, low ≤ p → p < place → hit p = false

theorem bisect_spec {hit : Nat → Bool} (hmono : ∀ p q, p ≤ q → hit p = true → hit q = true) {fuel low high : Nat}
    (hle : low ≤ high) (hfuel : high - low ≤ fuel) (hhigh : hit high = true) :
    First hit low (bisect hit fuel low high) ∧ bisect hit fuel low high ≤ high := by
  induction fuel generalizing low high with
  | zero =>
    obtain rfl : low = high := by omega
    exact ⟨⟨Nat.le_refl _, hhigh, fun p hlow hlt => absurd hlt (by simpa [bisect] using hlow)⟩, Nat.le_refl _⟩
  | succ fuel ih =>
    rw [bisect]
    by_cases hlt : low < high
    · rw [if_pos hlt]
      set middle := low + (high - low) / 2 with hmiddle
      have hlow : low ≤ middle := by omega
      have hhalf : middle < high := by omega
      by_cases hhit : hit middle = true
      · rw [if_pos hhit]
        obtain ⟨hfirst, hbound⟩ := ih hlow (by omega) hhit
        exact ⟨hfirst, Nat.le_trans hbound (Nat.le_of_lt hhalf)⟩
      · rw [if_neg hhit]
        obtain ⟨hfirst, hbound⟩ := ih (Nat.succ_le_of_lt hhalf) (by omega) hhigh
        refine ⟨⟨Nat.le_trans (Nat.le_succ_of_le hlow) hfirst.le, hfirst.found, fun p hp hpl => ?_⟩, hbound⟩
        -- up to the middle there is no hit, because the middle is none
        rcases Nat.lt_or_ge middle p with hbehind | hbefore
        · exact hfirst.before p hbehind hpl
        · exact Bool.eq_false_iff.2 fun hp => hhit (hmono p middle hbefore hp)
    · rw [if_neg hlt]
      obtain rfl : low = high := by omega
      exact ⟨⟨Nat.le_refl _, hhigh, fun p hlow hpl => absurd hpl (Nat.not_lt_of_le hlow)⟩, Nat.le_refl _⟩

end Bisect
