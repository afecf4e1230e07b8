import ObeyGateway.Lib.Utf8
import Mathlib.Data.List.Enum

/-!
# Overwriting bytes of a text

Some bytes of a text in UTF-8 are replaced by one that is a character of its own. The result is UTF-8 exactly when each
character is replaced as a whole or not at all (`overwrite_valid_iff`): the first byte of a character says
how many come after it, and none of these can come first.
-/

namespace Utf8

variable {star : UInt8} {covered : Nat → Prop} [DecidablePred covered] {n : Nat} {b : UInt8} {bytes rest : List UInt8}
  {text m : List Char} {c d s : Char}

/-- The bytes from position `n` on, `star` where covered. -/
def overwrite (star : UInt8) (covered : Nat → Prop) [DecidablePred covered] (n : Nat) (bytes : List UInt8) :
    List UInt8 := (bytes.zipIdx n).map fun p => if covered p.2 then star else p.1

def Uniform (covered : Nat → Prop) : Nat → List Char → Prop
  | _, [] => True
  | n, c :: text => (∀ i < c.utf8Size, covered (n + i) ↔ covered n) ∧ Uniform covered (n + c.utf8Size) text

@[simp] theorem overwrite_nil : overwrite star covered n [] = [] := rfl

theorem overwrite_cons : overwrite star covered n (b :: bytes) =
    (if covered n then star else b) :: overwrite star covered (n + 1) bytes := rfl

@[simp] theorem length_overwrite : (overwrite star covered n bytes).length = bytes.length := by simp [overwrite]

theorem getElem?_overwrite {i : Nat} : (overwrite star covered n bytes)[i]? =
    if covered (n + i) then bytes[i]?.map fun _ => star else bytes[i]? := by
  rw [overwrite, List.getElem?_map, List.getElem?_zipIdx, Option.map_map]
  split
  · refine congrArg (Option.map · _) (funext fun b => ?_)
    exact if_pos ‹_›
  · rw [show ((fun p : UInt8 × Nat => if covered p.2 then star else p.1) ∘ fun b => (b, n + i)) = id from
      funext fun b => if_neg ‹_›]
    exact congrFun Option.map_id _

theorem overwrite_append : overwrite star covered n (bytes ++ rest) =
    overwrite star covered n bytes ++ overwrite star covered (n + bytes.length) rest := by
  rw [overwrite, List.zipIdx_append, List.map_append]
  rfl

theorem overwrite_of_covered (h : ∀ i < bytes.length, covered (n + i)) :
    overwrite star covered n bytes = List.replicate bytes.length star := by
  induction bytes generalizing n with
  | nil => rfl
  | cons b bytes ih =>
    rw [overwrite_cons, if_pos (show covered n from h 0 (Nat.succ_pos _)), ih, List.length_cons, List.replicate_succ]
    intro i hi
    rw [Nat.add_right_comm]
    exact h (i + 1) (Nat.succ_lt_succ hi)

theorem overwrite_of_not_covered (h : ∀ i < bytes.length, ¬ covered (n + i)) : overwrite star covered n bytes = bytes := by
  induction bytes generalizing n with
  | nil => rfl
  | cons b bytes ih =>
    rw [overwrite_cons, if_neg (show ¬ covered n from h 0 (Nat.succ_pos _)), ih]
    intro i hi
    rw [Nat.add_right_comm]
    exact h (i + 1) (Nat.succ_lt_succ hi)

theorem utf8EncodeChar_narrow (h : String.utf8EncodeChar c = [b]) : ∀ p, first b.toNat ≠ .more p := by
  intro p hp
  have hdecode := decode_utf8EncodeChar c []
  rw [h, List.singleton_append, decode_first hp, decode] at hdecode
  obtain rfl : replacement = c := (List.cons.inj hdecode).1
  have hlength : (String.utf8EncodeChar replacement).length = 1 := congrArg List.length h
  exact absurd hlength (by decide)

theorem tails_length_eq {tails tails' : List UInt8} (hc : String.utf8EncodeChar c = b :: tails)
    (hd : String.utf8EncodeChar d = b :: tails') : tails.length = tails'.length := by
  by_cases htails : tails = []
  · subst htails
    by_cases htails' : tails' = []
    · rw [htails']
    · obtain ⟨-, p, hp, -⟩ := utf8EncodeChar_wide hd htails'
      exact absurd hp (utf8EncodeChar_narrow hc p)
  · obtain ⟨-, p, hp, hlength⟩ := utf8EncodeChar_wide hc htails
    by_cases htails' : tails' = []
    · subst htails'
      exact absurd hp (utf8EncodeChar_narrow hd p)
    · obtain ⟨-, q, hq, hlength'⟩ := utf8EncodeChar_wide hd htails'
      rw [hp] at hq
      cases hq
      rw [hlength, hlength']

theorem isTail_narrow (h : String.utf8EncodeChar c = [b]) : isTail b = false := by
  obtain ⟨a, tails, hshape, ha, -⟩ := utf8EncodeChar_shape c
  rw [h] at hshape
  rwa [(List.cons.inj hshape).1]

theorem encode_eq_cons_narrow (hstar : String.utf8EncodeChar s = [star]) (h : star :: rest = encode text) :
    ∃ m, rest = encode m := by
  rcases text with _ | ⟨c, text⟩
  · cases h
  rw [encode_cons] at h
  obtain ⟨b, tails, hshape, -⟩ := utf8EncodeChar_shape c
  rw [hshape, List.cons_append] at h
  obtain ⟨rfl, hrest⟩ := List.cons.inj h
  by_cases htails : tails = []
  · subst htails
    exact ⟨text, hrest⟩
  · obtain ⟨-, p, hp, -⟩ := utf8EncodeChar_wide hshape htails
    exact absurd hp (utf8EncodeChar_narrow hstar p)

theorem encode_ne_cons_tail (h : b :: rest = encode text) : isTail b = false := by
  rcases text with _ | ⟨c, text⟩
  · cases h
  obtain ⟨a, tails, hshape, ha, -⟩ := utf8EncodeChar_shape c
  rw [encode_cons, hshape, List.cons_append] at h
  rw [(List.cons.inj h).1]
  exact ha

section
variable (hstar : String.utf8EncodeChar s = [star])
include hstar

theorem covered_of_tails {tails : List UInt8} (htails : ∀ x ∈ tails, isTail x = true)
    (h : overwrite star covered n tails ++ rest = encode text) :
    (∀ i < tails.length, covered (n + i)) ∧ ∃ m, rest = encode m := by
  induction tails generalizing n text with
  | nil => exact ⟨fun i hi => absurd hi (Nat.not_lt_zero i), text, h⟩
  | cons x tails ih =>
    obtain ⟨hx, htails⟩ := List.forall_mem_cons.1 htails
    rw [overwrite_cons, List.cons_append] at h
    by_cases hcovered : covered n
    · rw [if_pos hcovered] at h
      obtain ⟨m, hm⟩ := encode_eq_cons_narrow hstar h
      obtain ⟨hall, hrest⟩ := ih htails hm
      refine ⟨fun i hi => ?_, hrest⟩
      cases i with
      | zero => exact hcovered
      | succ i =>
        have hi := hall i (Nat.lt_of_succ_lt_succ hi)
        rwa [Nat.add_right_comm] at hi
    · rw [if_neg hcovered] at h
      rw [encode_ne_cons_tail h] at hx
      cases hx

theorem not_covered_of_tails (h : ∀ x ∈ overwrite star covered n bytes, isTail x = true) :
    ∀ i < bytes.length, ¬ covered (n + i) := by
  induction bytes generalizing n with
  | nil => exact fun i hi => absurd hi (Nat.not_lt_zero i)
  | cons b bytes ih =>
    rw [overwrite_cons] at h
    obtain ⟨hb, hbytes⟩ := List.forall_mem_cons.1 h
    intro i hi
    cases i with
    | zero =>
      intro hcovered
      rw [if_pos (show covered n from hcovered), isTail_narrow hstar] at hb
      cases hb
    | succ i =>
      have hi := ih hbytes i (Nat.lt_of_succ_lt_succ hi)
      rwa [Nat.add_right_comm] at hi

theorem overwrite_char_iff : (∃ m, overwrite star covered n (String.utf8EncodeChar c) ++ rest = encode m) ↔
    (∀ i < c.utf8Size, covered (n + i) ↔ covered n) ∧ ∃ m, rest = encode m := by
  obtain ⟨b, tails, hshape, -, htails⟩ := utf8EncodeChar_shape c
  have hlength : (String.utf8EncodeChar c).length = c.utf8Size := String.length_utf8EncodeChar c
  constructor
  · rintro ⟨m, hm⟩
    rw [← hlength, hshape, List.length_cons]
    rw [hshape, overwrite_cons, List.cons_append] at hm
    by_cases hcovered : covered n
    · rw [if_pos hcovered] at hm
      obtain ⟨m', hm'⟩ := encode_eq_cons_narrow hstar hm
      obtain ⟨hall, hrest⟩ := covered_of_tails hstar htails hm'
      refine ⟨fun i hi => iff_of_true ?_ hcovered, hrest⟩
      cases i with
      | zero => exact hcovered
      | succ i =>
        have hi := hall i (Nat.lt_of_succ_lt_succ hi)
        rwa [Nat.add_right_comm] at hi
    · rw [if_neg hcovered] at hm
      rcases m with _ | ⟨d, m⟩
      · cases hm
      obtain ⟨a, tails', hshape', -, htails'⟩ := utf8EncodeChar_shape d
      rw [encode_cons, hshape', List.cons_append] at hm
      obtain ⟨rfl, hmore⟩ := List.cons.inj hm
      -- the same first byte, so the same number of others
      have hsame : (overwrite star covered (n + 1) tails).length = tails'.length := by
        rw [length_overwrite]
        exact tails_length_eq hshape hshape'
      obtain ⟨heq, hrest⟩ := List.append_inj hmore hsame
      have hnone := not_covered_of_tails hstar (heq.symm ▸ htails')
      refine ⟨fun i hi => iff_of_false ?_ hcovered, m, hrest⟩
      cases i with
      | zero => exact hcovered
      | succ i =>
        have hi := hnone i (Nat.lt_of_succ_lt_succ hi)
        rwa [Nat.add_right_comm] at hi
  · rintro ⟨hwhole, m, rfl⟩
    by_cases hcovered : covered n
    · refine ⟨List.replicate c.utf8Size s ++ m, ?_⟩
      rw [overwrite_of_covered fun i hi => (hwhole i (hlength ▸ hi)).2 hcovered, hlength, encode, encode,
        List.flatMap_append]
      congr 1
      rw [List.flatMap_replicate, hstar, List.flatten_replicate_singleton]
    · refine ⟨c :: m, ?_⟩
      rw [overwrite_of_not_covered fun i hi h => hcovered ((hwhole i (hlength ▸ hi)).1 h), encode_cons]

theorem overwrite_valid_iff : (∃ m, overwrite star covered n (encode text) = encode m) ↔ Uniform covered n text := by
  induction text generalizing n with
  | nil => exact ⟨fun _ => trivial, fun _ => ⟨[], rfl⟩⟩
  | cons c text ih =>
    rw [encode_cons, overwrite_append, overwrite_char_iff hstar, String.length_utf8EncodeChar, ih]
    rfl

end

end Utf8
