import Mathlib.Algebra.Group.Nat.Defs
import Mathlib.Data.Nat.Log
import Mathlib.Tactic.Positivity

/-!
# Single precision

The `f32` values as their bits, with the comparisons of the language: against a NaN every one of them is
false.
-/

/-- The bits of an `f32`. -/
structure F32 where
  bits : UInt32
deriving DecidableEq

namespace F32

def magnitude (x : F32) : Nat := x.bits.toNat % 2 ^ 31

def isNan (x : F32) : Bool := 0x7f800000 < x.magnitude

/-- The order of the numbers; both zeros have rank zero. -/
def rank (x : F32) : Int := if x.bits.toNat < 2 ^ 31 then x.magnitude else -x.magnitude

/-- `x <= y` -/
def le (x y : F32) : Bool := !x.isNan && !y.isNan && x.rank ≤ y.rank

/-- `x > y` -/
def gt (x y : F32) : Bool := !x.isNan && !y.isNan && y.rank < x.rank

/-- `x as f64` -/
def toF64 (x : F32) : UInt64 :=
  let sign := x.bits.toNat / 2 ^ 31 * 2 ^ 63
  let exponent := x.magnitude / 2 ^ 23
  let mantissa := x.magnitude % 2 ^ 23
  if exponent = 255 then UInt64.ofNat (sign + 2047 * 2 ^ 52 + mantissa * 2 ^ 29)
  else if exponent ≠ 0 then UInt64.ofNat (sign + (exponent + 896) * 2 ^ 52 + mantissa * 2 ^ 29)
  else if mantissa = 0 then UInt64.ofNat sign
  else
    -- a subnormal is normal in the wider format: its leading bit becomes the implicit one
    let lead := mantissa.log2
    UInt64.ofNat (sign + (lead + 874) * 2 ^ 52 + (mantissa * 2 ^ (52 - lead)) % 2 ^ 52)

def zero : F32 := ⟨0⟩

theorem le_of_not_gt {x y : F32} (hx : x.isNan = false) (hy : y.isNan = false) (h : x.gt y = false) : x.le y = true := by
  simp only [gt, hx, hy, Bool.not_false, Bool.true_and, decide_eq_false_iff_not, not_lt] at h
  simp [le, hx, hy, h]

def isFinite (x : F32) : Bool := x.magnitude < 0x7f800000

def Wide (x : F32) (exponent mantissa : Nat) : Prop :=
  (x.magnitude / 2 ^ 23 = 255 ∧ exponent = 2047 ∧ mantissa = x.magnitude % 2 ^ 23 * 2 ^ 29) ∨
    (x.magnitude / 2 ^ 23 ≠ 255 ∧ x.magnitude / 2 ^ 23 ≠ 0 ∧ exponent = x.magnitude / 2 ^ 23 + 896 ∧
      mantissa = x.magnitude % 2 ^ 23 * 2 ^ 29) ∨
    (x.magnitude / 2 ^ 23 = 0 ∧ x.magnitude % 2 ^ 23 = 0 ∧ exponent = 0 ∧ mantissa = 0) ∨
    (x.magnitude / 2 ^ 23 = 0 ∧ ∃ lead rest, lead < 23 ∧ rest < 2 ^ lead ∧ x.magnitude % 2 ^ 23 = 2 ^ lead + rest ∧
      exponent = lead + 874 ∧ mantissa = rest * 2 ^ (52 - lead))

theorem magnitude_lt (x : F32) : x.magnitude < 2 ^ 31 := Nat.mod_lt _ (by decide)

theorem subnormal_mod {lead rest : Nat} (hlead : lead < 23) (hrest : rest < 2 ^ lead) :
    (2 ^ lead + rest) * 2 ^ (52 - lead) % 2 ^ 52 = rest * 2 ^ (52 - lead) := by
  have hpow : 2 ^ lead * 2 ^ (52 - lead) = 2 ^ 52 := by rw [← pow_add, Nat.add_sub_cancel' (by omega)]
  have hlt : rest * 2 ^ (52 - lead) < 2 ^ 52 :=
    calc rest * 2 ^ (52 - lead) < 2 ^ lead * 2 ^ (52 - lead) := Nat.mul_lt_mul_of_pos_right hrest (by positivity)
      _ = 2 ^ 52 := hpow
  rw [Nat.add_mul, hpow, Nat.add_mod_left, Nat.mod_eq_of_lt hlt]

theorem exists_wide (x : F32) : ∃ exponent mantissa, x.Wide exponent mantissa ∧
    x.toF64 = UInt64.ofNat (x.bits.toNat / 2 ^ 31 * 2 ^ 63 + exponent * 2 ^ 52 + mantissa) := by
  unfold Wide toF64
  by_cases hinf : x.magnitude / 2 ^ 23 = 255
  · exact ⟨_, _, .inl ⟨hinf, rfl, rfl⟩, by rw [if_pos hinf]⟩
  · by_cases hzero : x.magnitude / 2 ^ 23 = 0
    · by_cases hm : x.magnitude % 2 ^ 23 = 0
      · exact ⟨_, _, .inr (.inr (.inl ⟨hzero, hm, rfl, rfl⟩)), by rw [if_neg hinf, if_neg (not_not.2 hzero), if_pos hm, Nat.zero_mul, Nat.add_zero]⟩
      · set m := x.magnitude % 2 ^ 23 with hdef
        have hlt : m < 2 ^ 23 := Nat.mod_lt _ (by decide)
        have hlead : m.log2 < 23 := (Nat.log2_lt hm).2 hlt
        have hle : 2 ^ m.log2 ≤ m := Nat.log2_self_le hm
        have hrest : m - 2 ^ m.log2 < 2 ^ m.log2 := by
          have hlog : m < 2 ^ (m.log2 + 1) := Nat.lt_log2_self
          rw [pow_succ] at hlog
          omega
        have hsum : m = 2 ^ m.log2 + (m - 2 ^ m.log2) := by omega
        refine ⟨_, _, .inr (.inr (.inr ⟨hzero, m.log2, m - 2 ^ m.log2, hlead, hrest, hsum, rfl, rfl⟩)), ?_⟩
        rw [if_neg hinf, if_neg (not_not.2 hzero), if_neg hm, ← subnormal_mod hlead hrest, ← hsum]
    · exact ⟨_, _, .inr (.inl ⟨hinf, hzero, rfl, rfl⟩), by rw [if_neg hinf, if_pos hzero]⟩

theorem Wide.lt {x : F32} {exponent mantissa : Nat} (h : x.Wide exponent mantissa) :
    exponent < 2 ^ 11 ∧ mantissa < 2 ^ 52 := by
  have hlt := x.magnitude_lt
  rcases h with ⟨-, rfl, rfl⟩ | ⟨-, -, rfl, rfl⟩ | ⟨-, -, rfl, rfl⟩ | ⟨-, lead, rest, hlead, hrest, -, rfl, rfl⟩
  · omega
  · omega
  · omega
  · refine ⟨by omega, ?_⟩
    rw [← subnormal_mod hlead hrest]
    exact Nat.mod_lt _ (by decide)

theorem Wide.inj {x y : F32} {exponent mantissa : Nat} (h : x.Wide exponent mantissa) (h' : y.Wide exponent mantissa) :
    x.magnitude = y.magnitude := by
  have hx := x.magnitude_lt
  have hy := y.magnitude_lt
  rcases h with ⟨he, hexp, hman⟩ | ⟨he, he', hexp, hman⟩ | ⟨he, hm, hexp, hman⟩ | ⟨he, l, r, hl, hr, hm, hexp, hman⟩ <;>
    rcases h' with ⟨ge, gexp, gman⟩ | ⟨ge, ge', gexp, gman⟩ | ⟨ge, gm, gexp, gman⟩ | ⟨ge, l', r', hl', hr', gm, gexp, gman⟩
  -- only equal kinds have a common exponent
  case inr.inr.inr.inr.inr.inr =>
    obtain rfl : l = l' := by omega
    have hrest : r = r' := Nat.eq_of_mul_eq_mul_right (by positivity) (hman.symm.trans gman)
    omega
  all_goals omega

theorem toF64_injective : Function.Injective toF64 := by
  intro x y h
  obtain ⟨e, m, hx, hxv⟩ := x.exists_wide
  obtain ⟨e', m', hy, hyv⟩ := y.exists_wide
  have hlt := hx.lt
  have hlt' := hy.lt
  have hbits := x.bits.toNat_lt
  have hbits' := y.bits.toNat_lt
  rw [hxv, hyv] at h
  have hval := congrArg UInt64.toNat h
  have hsize : UInt64.size = 2 ^ 64 := rfl
  rw [UInt64.toNat_ofNat_of_lt' (by omega), UInt64.toNat_ofNat_of_lt' (by omega)] at hval
  obtain rfl : e = e' := by omega
  obtain rfl : m = m' := by omega
  have hsign : x.bits.toNat / 2 ^ 31 = y.bits.toNat / 2 ^ 31 := by omega
  have hmag := hx.inj hy
  unfold magnitude at hmag
  have hnat : x.bits.toNat = y.bits.toNat := by omega
  cases x
  cases y
  exact congrArg F32.mk (UInt32.toNat_inj.1 hnat)

end F32
