import Mathlib.Data.Nat.Notation

/-!
# Blocks of addresses

A block of addresses is a base and a length: it has the addresses whose first bits are those of the base. Of an
address in two parts a short block looks at the first alone (`contains_append_left`), a long one at the second when the
first is that of its base (`contains_append_right`), so that a block is found word by word.
-/

namespace Cidr

structure Block (w : Nat) where
  base : BitVec w
  length : Nat

namespace Block

variable {w v : Nat}

def Contains (b : Block w) (x : BitVec w) : Prop := x >>> (w - b.length) = b.base >>> (w - b.length)

instance (b : Block w) (x : BitVec w) : Decidable (b.Contains x) := inferInstanceAs (Decidable (_ = _))

theorem contains_iff {b : Block w} {x : BitVec w} :
    b.Contains x ↔ ∀ i, w - b.length ≤ i → x.getLsbD i = b.base.getLsbD i := by
  constructor
  · intro h i hi
    have hbit := congrArg (BitVec.getLsbD · (i - (w - b.length))) h
    simp only [BitVec.getLsbD_ushiftRight] at hbit
    rwa [Nat.add_sub_cancel' hi] at hbit
  · intro h
    refine BitVec.eq_of_getLsbD_eq fun i _ => ?_
    rw [BitVec.getLsbD_ushiftRight, BitVec.getLsbD_ushiftRight]
    exact h _ (Nat.le_add_right _ _)

theorem contains_full {a x : BitVec w} : (Block.mk a w).Contains x ↔ x = a := by
  rw [Contains, Nat.sub_self, BitVec.ushiftRight_zero, BitVec.ushiftRight_zero]

theorem contains_append_left {n : Nat} (hn : n ≤ w) (a x : BitVec w) (b y : BitVec v) :
    (Block.mk (a ++ b) n).Contains (x ++ y) ↔ (Block.mk a n).Contains x := by
  rw [contains_iff, contains_iff]
  constructor
  · intro h i hi
    have hbit := h (i + v) (by dsimp only at hi ⊢; omega)
    rwa [BitVec.getLsbD_append, BitVec.getLsbD_append, if_neg (by omega), if_neg (by omega), Nat.add_sub_cancel]
      at hbit
  · intro h i hi
    have hi' : v ≤ i := by
      dsimp only at hi
      omega
    rw [BitVec.getLsbD_append, BitVec.getLsbD_append, if_neg (by omega), if_neg (by omega)]
    exact h _ (by dsimp only at hi ⊢; omega)

theorem contains_append_right (n : Nat) (a x : BitVec w) (b y : BitVec v) :
    (Block.mk (a ++ b) (w + n)).Contains (x ++ y) ↔ x = a ∧ (Block.mk b n).Contains y := by
  rw [contains_iff, contains_iff]
  have hstart : w + v - (w + n) = v - n := Nat.add_sub_add_left w v n
  constructor
  · intro h
    refine ⟨BitVec.eq_of_getLsbD_eq fun i _ => ?_, fun i hi => ?_⟩
    · have hbit := h (i + v) (by dsimp only; omega)
      rwa [BitVec.getLsbD_append, BitVec.getLsbD_append, if_neg (by omega), if_neg (by omega), Nat.add_sub_cancel]
        at hbit
    · by_cases hlow : i < v
      · have hbit := h i (by dsimp only at hi ⊢; omega)
        rwa [BitVec.getLsbD_append, BitVec.getLsbD_append, if_pos hlow, if_pos hlow] at hbit
      · rw [BitVec.getLsbD_of_ge y i (Nat.le_of_not_lt hlow), BitVec.getLsbD_of_ge b i (Nat.le_of_not_lt hlow)]
  · rintro ⟨rfl, h⟩ i hi
    rw [BitVec.getLsbD_append, BitVec.getLsbD_append]
    by_cases hlow : i < v
    · rw [if_pos hlow, if_pos hlow]
      exact h i (by dsimp only at hi ⊢; omega)
    · rw [if_neg hlow, if_neg hlow]

/-- The mask that leaves the first `n` bits. -/
def mask (w n : Nat) : BitVec w := BitVec.allOnes w <<< (w - n)

theorem getLsbD_mask (w n i : Nat) : (mask w n).getLsbD i = decide (w - n ≤ i ∧ i < w) := by
  rw [mask, BitVec.getLsbD_shiftLeft, BitVec.getLsbD_allOnes]
  by_cases hi : i < w
  · by_cases hn : i < w - n
    · simp [hi, hn, Nat.not_le.2 hn]
    · simp [hi, hn, Nat.le_of_not_lt hn]
      omega
  · simp [hi]

theorem and_mask_eq_iff {n : Nat} {a x : BitVec w} (ha : a &&& mask w n = a) :
    x &&& mask w n = a ↔ (Block.mk a n).Contains x := by
  have hlow : ∀ i, ¬ w - n ≤ i → a.getLsbD i = false := by
    intro i hi
    rw [← ha, BitVec.getLsbD_and, getLsbD_mask, decide_eq_false (fun h => hi h.1), Bool.and_false]
  rw [contains_iff]
  constructor
  · rintro rfl i hi
    rw [BitVec.getLsbD_and, getLsbD_mask]
    by_cases hw : i < w
    · rw [decide_eq_true ⟨hi, hw⟩, Bool.and_true]
    · rw [BitVec.getLsbD_of_ge x i (Nat.le_of_not_lt hw), Bool.false_and]
  · intro h
    refine BitVec.eq_of_getLsbD_eq fun i hw => ?_
    rw [BitVec.getLsbD_and, getLsbD_mask]
    by_cases hi : w - n ≤ i
    · rw [decide_eq_true ⟨hi, hw⟩, Bool.and_true, h i hi]
    · rw [decide_eq_false (fun h => hi h.1), Bool.and_false, hlow i hi]

end Block

end Cidr
