import Mathlib.Algebra.Group.Nat.Defs
import Mathlib.Data.List.Basic

/-!
# Length-prefixed fields

A label and a value, each behind its length in eight bytes. Where the labels are fixed, the concatenation of such
fields says what the values are (`field_append_inj`), as long as their lengths fit; for the last field this does not
even matter (`field_inj`).
-/

namespace Prefixed

/-- `u64::to_be_bytes` -/
def toBeBytes (n : Nat) : List UInt8 :=
  [.ofNat (n / 256 ^ 7), .ofNat (n / 256 ^ 6), .ofNat (n / 256 ^ 5), .ofNat (n / 256 ^ 4), .ofNat (n / 256 ^ 3),
    .ofNat (n / 256 ^ 2), .ofNat (n / 256), .ofNat n]

def field (label value : List UInt8) : List UInt8 :=
  toBeBytes label.length ++ label ++ toBeBytes value.length ++ value

theorem length_toBeBytes (n : Nat) : (toBeBytes n).length = 8 := rfl

theorem ofNat_inj {m n : Nat} (h : UInt8.ofNat m = UInt8.ofNat n) : m % 256 = n % 256 := by
  simpa using congrArg UInt8.toNat h

theorem toBeBytes_inj {m n : Nat} (hm : m < 2 ^ 64) (hn : n < 2 ^ 64) (h : toBeBytes m = toBeBytes n) : m = n := by
  simp only [toBeBytes, List.cons.injEq, and_true] at h
  obtain ⟨h7, h6, h5, h4, h3, h2, h1, h0⟩ := h
  have e7 := ofNat_inj h7
  have e6 := ofNat_inj h6
  have e5 := ofNat_inj h5
  have e4 := ofNat_inj h4
  have e3 := ofNat_inj h3
  have e2 := ofNat_inj h2
  have e1 := ofNat_inj h1
  have e0 := ofNat_inj h0
  omega

variable {label value value' rest rest' : List UInt8}

theorem field_append_inj (hvalue : value.length < 2 ^ 64) (hvalue' : value'.length < 2 ^ 64)
    (h : field label value ++ rest = field label value' ++ rest') : value = value' ∧ rest = rest' := by
  simp only [field, List.append_assoc] at h
  have h := List.append_cancel_left (List.append_cancel_left h)
  obtain ⟨hlength, h⟩ := List.append_inj h (by rw [length_toBeBytes, length_toBeBytes])
  exact List.append_inj h (toBeBytes_inj hvalue hvalue' hlength)

theorem field_inj (h : field label value = field label value') : value = value' := by
  simp only [field, List.append_assoc] at h
  have h := List.append_cancel_left (List.append_cancel_left h)
  exact (List.append_inj h (by rw [length_toBeBytes, length_toBeBytes])).2

end Prefixed
