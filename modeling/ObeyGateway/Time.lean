import Mathlib.Data.Rat.Floor
import Mathlib.Tactic.Linarith
import Mathlib.Tactic.Ring
import Mathlib.Tactic.Positivity

/-!
# Instants and durations

`std::time::Instant` and `Duration` are natural numbers of nanoseconds. Subtraction of instants
saturates at zero, as `Instant::duration_since` does. Seconds as `f64` are exact rationals.
-/

namespace ObeyGateway

/-- `Duration::as_secs_f64` -/
def asSecs (d : Nat) : ℚ := (d : ℚ) / 1000000000

/-- `Duration::from_secs_f64`: the nearest nanosecond, ties to even. -/
def fromSecs (secs : ℚ) : Nat :=
  let nanos := secs * 1000000000
  let low := ⌊nanos⌋.toNat
  if nanos - low < 1 / 2 then low
  else if 1 / 2 < nanos - low then low + 1
  else if low % 2 = 0 then low else low + 1

theorem asSecs_nonneg (d : Nat) : 0 ≤ asSecs d := by unfold asSecs; positivity

@[simp] theorem asSecs_zero : asSecs 0 = 0 := by simp [asSecs]

theorem asSecs_add (d e : Nat) : asSecs (d + e) = asSecs d + asSecs e := by
  simp only [asSecs, Nat.cast_add]; ring

theorem asSecs_mono {d e : Nat} (h : d ≤ e) : asSecs d ≤ asSecs e := by
  obtain ⟨c, rfl⟩ := Nat.exists_eq_add_of_le h
  rw [asSecs_add]
  linarith [asSecs_nonneg c]

theorem asSecs_pos {d : Nat} (h : 0 < d) : 0 < asSecs d := by unfold asSecs; positivity

end ObeyGateway
