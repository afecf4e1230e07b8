import Mathlib.Data.List.Infix
import ObeyGateway.Lib.Search
import ObeyGateway.Lib.Text
import ObeyGateway.Lib.Utf8

/-!
# Slices of a text at byte offsets

A text is a list of characters, and places in it are byte offsets, as in a Rust `str`. A slice at an offset that is
not between two characters is a panic. The offset of an occurrence is always between two characters
(`splitAt_eq_some`), while an offset computed from a length need not be.
-/

namespace StrSlice

/-- `str::len` -/
def size : List Char → Nat
  | [] => 0
  | c :: text => c.utf8Size + size text

/-- `str::split_at`; `none` is the panic. -/
def splitAt : Nat → List Char → Option (List Char × List Char)
  | 0, text => some ([], text)
  | _ + 1, [] => none
  | n + 1, c :: text =>
    if c.utf8Size ≤ n + 1 then (splitAt (n + 1 - c.utf8Size) text).map fun p => (c :: p.1, p.2) else none

/-- `&text[..n]` -/
def sliceTo (text : List Char) (n : Nat) : Option (List Char) := (splitAt n text).map (·.1)

/-- `&text[n..]` -/
def sliceFrom (text : List Char) (n : Nat) : Option (List Char) := (splitAt n text).map (·.2)

/-- `&text[start..stop]` -/
def slice (text : List Char) (start stop : Nat) : Option (List Char) := (sliceTo text stop).bind (sliceFrom · start)

/-- `str::find` -/
def find (pattern text : List Char) : Option Nat := (Frames.cut pattern text).map fun p => size p.1

/-- `str::rfind` of a character -/
def rfind (c : Char) : List Char → Option Nat
  | [] => none
  | d :: text => ((rfind c text).map (d.utf8Size + ·)).or (if d = c then some 0 else none)

/-- `str::rfind` of a text -/
def rfindStr (pattern text : List Char) : Option Nat := (Search.cutLast pattern text).map fun p => size p.1

/-- `String::replace_range` with nothing. -/
def removeRange (text : List Char) (start stop : Nat) : Option (List Char) :=
  if start ≤ stop then (sliceTo text start).bind fun front => (sliceFrom text stop).map (front ++ ·) else none

/-- `str::is_char_boundary` -/
def IsBoundary (text : List Char) (n : Nat) : Prop := ∃ front back, text = front ++ back ∧ size front = n

variable {text front back : List Char} {c : Char} {m n : Nat}

@[simp] theorem size_nil : size [] = 0 := rfl

@[simp] theorem size_cons : size (c :: text) = c.utf8Size + size text := rfl

@[simp] theorem size_append : size (front ++ back) = size front + size back := by
  induction front with
  | nil => simp
  | cons c front ih => simp [ih, Nat.add_assoc]

theorem splitAt_size (front back : List Char) : splitAt (size front) (front ++ back) = some (front, back) := by
  induction front with
  | nil => rw [size_nil, List.nil_append, splitAt]
  | cons c front ih =>
    obtain ⟨n, hn⟩ : ∃ n, c.utf8Size + size front = n + 1 :=
      Nat.exists_eq_add_one.2 (Nat.add_pos_left c.utf8Size_pos _)
    rw [size_cons, List.cons_append, hn, splitAt, if_pos (by omega), ← hn, Nat.add_sub_cancel_left, ih]
    rfl

/-- A text is cut between two characters, and nowhere else. -/
theorem splitAt_eq_some : splitAt n text = some (front, back) ↔ text = front ++ back ∧ size front = n := by
  constructor
  · intro h
    induction n, text using splitAt.induct generalizing front with
    | case1 text =>
      rw [splitAt] at h
      cases h
      exact ⟨rfl, rfl⟩
    | case2 n => cases h
    | case3 n c text hc ih =>
      rw [splitAt, if_pos hc] at h
      obtain ⟨⟨front', back'⟩, hcut, heq⟩ := Option.map_eq_some_iff.1 h
      cases heq
      obtain ⟨rfl, hsize⟩ := ih hcut
      refine ⟨rfl, ?_⟩
      rw [size_cons, hsize]
      omega
    | case4 n c text hc =>
      rw [splitAt, if_neg hc] at h
      cases h
  · rintro ⟨rfl, rfl⟩
    exact splitAt_size front back

theorem sliceTo_eq_some : sliceTo text n = some front ↔ front <+: text ∧ size front = n := by
  rw [sliceTo, Option.map_eq_some_iff]
  constructor
  · rintro ⟨⟨front', back⟩, hcut, rfl⟩
    obtain ⟨rfl, hsize⟩ := splitAt_eq_some.1 hcut
    exact ⟨List.prefix_append _ _, hsize⟩
  · rintro ⟨⟨back, rfl⟩, hsize⟩
    exact ⟨(front, back), splitAt_eq_some.2 ⟨rfl, hsize⟩, rfl⟩

theorem isSome_sliceTo : (sliceTo text n).isSome ↔ IsBoundary text n := by
  rw [Option.isSome_iff_exists]
  constructor
  · rintro ⟨front, h⟩
    obtain ⟨⟨back, rfl⟩, hsize⟩ := sliceTo_eq_some.1 h
    exact ⟨front, back, rfl, hsize⟩
  · rintro ⟨front, back, rfl, hsize⟩
    exact ⟨front, sliceTo_eq_some.2 ⟨List.prefix_append _ _, hsize⟩⟩

theorem rfind_eq_none : rfind c text = none ↔ c ∉ text := by
  induction text with
  | nil => simp [rfind]
  | cons d text ih =>
    rw [rfind, Option.or_eq_none_iff, Option.map_eq_none_iff, ih, List.mem_cons, not_or, and_comm]
    simp [eq_comm]

theorem rfind_append_cons (h : c ∉ back) : rfind c (front ++ c :: back) = some (size front) := by
  induction front with
  | nil =>
    rw [List.nil_append, rfind, rfind_eq_none.2 h, if_pos rfl]
    rfl
  | cons d front ih =>
    rw [List.cons_append, rfind, ih]
    rfl

theorem exists_last_char (h : c ∈ text) : ∃ front back, text = front ++ c :: back ∧ c ∉ back := by
  obtain ⟨front, d, back, rfl, hd, hback⟩ := Search.exists_last (p := (· == c)) ⟨c, h, beq_self_eq_true c⟩
  obtain rfl : d = c := eq_of_beq hd
  exact ⟨front, back, rfl, fun hmem => by simpa using hback d hmem⟩

theorem le_rfind (front back : List Char) : ∃ n, rfind c (front ++ c :: back) = some n ∧ size front ≤ n := by
  by_cases hmem : c ∈ back
  · obtain ⟨middle, d, rest, rfl, hd, hrest⟩ := Search.exists_last (p := (· == c)) ⟨c, hmem, beq_self_eq_true c⟩
    obtain rfl : d = c := eq_of_beq hd
    have hlast : d ∉ rest := fun hmem => by simpa using hrest d hmem
    refine ⟨size (front ++ d :: middle), ?_, by simp⟩
    rw [← List.cons_append, ← List.append_assoc, rfind_append_cons hlast]
  · exact ⟨size front, rfind_append_cons hmem, le_rfl⟩

theorem rfind_eq_some : rfind c text = some n ↔ ∃ front back, text = front ++ c :: back ∧ c ∉ back ∧ size front = n := by
  constructor
  · intro h
    have hmem : c ∈ text := by
      by_contra hnone
      rw [rfind_eq_none.2 hnone] at h
      cases h
    obtain ⟨front, back, rfl, hback⟩ := exists_last_char hmem
    rw [rfind_append_cons hback, Option.some.injEq] at h
    exact ⟨front, back, rfl, hback, h⟩
  · rintro ⟨front, back, rfl, hback, rfl⟩
    exact rfind_append_cons hback

theorem sliceFrom_size (front back : List Char) : sliceFrom (front ++ back) (size front) = some back := by
  rw [sliceFrom, splitAt_size]
  rfl

theorem slice_size (front middle back : List Char) :
    slice (front ++ (middle ++ back)) (size front) (size front + size middle) = some middle := by
  have hto : sliceTo (front ++ (middle ++ back)) (size front + size middle) = some (front ++ middle) :=
    sliceTo_eq_some.2 ⟨by simp, size_append⟩
  rw [slice, hto, Option.bind_some, sliceFrom_size]

variable {pattern : List Char}

theorem find_eq_some (h : find pattern text = some n) :
    ∃ front back, text = front ++ (pattern ++ back) ∧ Search.NoStart pattern front (pattern ++ back) ∧ size front = n := by
  obtain ⟨⟨front, back⟩, hcut, hsize⟩ := Option.map_eq_some_iff.1 h
  obtain ⟨htext, hfirst⟩ := Search.first_of_cut hcut
  exact ⟨front, back, htext, hfirst, hsize⟩

theorem find_eq_none (hpattern : pattern ≠ []) : find pattern text = none ↔ ¬ pattern <:+: text := by
  rw [find, Option.map_eq_none_iff, Search.cut_eq_none_iff hpattern]

@[simp] theorem sliceTo_size (front back : List Char) : sliceTo (front ++ back) (size front) = some front := by
  rw [sliceTo, splitAt_size]
  rfl

@[simp] theorem sliceTo_self (text : List Char) : sliceTo text (size text) = some text := by
  have h := sliceTo_size text []
  rwa [List.append_nil] at h

@[simp] theorem sliceFrom_self (text : List Char) : sliceFrom text (size text) = some [] := by
  have h := sliceFrom_size text []
  rwa [List.append_nil] at h

@[simp] theorem sliceFrom_zero (text : List Char) : sliceFrom text 0 = some text := sliceFrom_size [] text

theorem splitAt_add (front back : List Char) (n : Nat) :
    splitAt (size front + n) (front ++ back) = (splitAt n back).map fun p => (front ++ p.1, p.2) := by
  induction front with
  | nil => simp
  | cons c front ih =>
    obtain ⟨k, hk⟩ : ∃ k, c.utf8Size + size front + n = k + 1 :=
      Nat.exists_eq_add_one.2 (Nat.add_pos_left (Nat.add_pos_left c.utf8Size_pos _) _)
    have hsub : k + 1 - c.utf8Size = size front + n := by omega
    rw [size_cons, List.cons_append, hk, splitAt, if_pos (by omega), hsub, ih, Option.map_map]
    rfl

@[simp] theorem sliceFrom_add (front back : List Char) (n : Nat) : sliceFrom (front ++ back) (size front + n) = sliceFrom back n := by
  rw [sliceFrom, splitAt_add, sliceFrom, Option.map_map]
  rfl

theorem sliceFrom_sliceFrom {behind : List Char} (h : sliceFrom text n = some behind) (m : Nat) :
    sliceFrom text (n + m) = sliceFrom behind m := by
  obtain ⟨⟨front, back⟩, hcut, rfl⟩ := Option.map_eq_some_iff.1 h
  obtain ⟨rfl, rfl⟩ := splitAt_eq_some.1 hcut
  exact sliceFrom_add front back m

theorem sliceTo_add (front back : List Char) (n : Nat) :
    sliceTo (front ++ back) (size front + n) = (sliceTo back n).map (front ++ ·) := by
  rw [sliceTo, splitAt_add, sliceTo, Option.map_map, Option.map_map]
  rfl

@[simp] theorem slice_add (front back : List Char) (m n : Nat) :
    slice (front ++ back) (size front + m) (size front + n) = slice back m n := by
  rw [slice, sliceTo_add, slice]
  cases sliceTo back n with
  | none => rfl
  | some middle => exact sliceFrom_add front middle m

@[simp] theorem slice_size_add (front back : List Char) (n : Nat) :
    slice (front ++ back) (size front) (size front + n) = sliceTo back n := by
  rw [slice, sliceTo_add]
  cases sliceTo back n with
  | none => rfl
  | some middle => exact sliceFrom_size front middle

theorem sliceFrom_eq_none (h : size text < n) : sliceFrom text n = none := by
  rw [sliceFrom, Option.map_eq_none_iff]
  by_contra hne
  obtain ⟨⟨front, back⟩, hcut⟩ := Option.ne_none_iff_exists'.1 hne
  obtain ⟨rfl, rfl⟩ := splitAt_eq_some.1 hcut
  rw [size_append] at h
  omega

theorem slice_eq_none (h : n < m) : slice text m n = none := by
  rw [slice]
  rcases hto : sliceTo text n with _ | front
  · rfl
  have hsize := (sliceTo_eq_some.1 hto).2
  exact sliceFrom_eq_none (hsize ▸ h)

theorem find_of_cut (h : Frames.cut pattern text = some (front, back)) :
    find pattern text = some (size front) ∧ text = front ++ (pattern ++ back) :=
  ⟨by rw [find, h]; rfl, (Search.first_of_cut h).1⟩

theorem find_of_cut_none (h : Frames.cut pattern text = none) : find pattern text = none := by
  rw [find, h]
  rfl

theorem rfind_eq_cutLast (c : Char) (text : List Char) : rfind c text = rfindStr [c] text := by
  rw [rfindStr]
  induction text with
  | nil => rfl
  | cons d text ih =>
    rw [rfind, ih, Search.cutLast]
    cases Search.cutLast [c] text with
    | some p => rfl
    | none =>
      have hstart : [c] <+: d :: text ↔ d = c := by
        rw [List.cons_prefix_cons, eq_comm]
        exact and_iff_left List.nil_prefix
      dsimp only
      by_cases hd : d = c
      · rw [if_pos hd, if_pos (hstart.2 hd)]
        rfl
      · rw [if_neg hd, if_neg fun h => hd (hstart.1 h)]
        rfl

@[simp] theorem removeRange_size (front middle back : List Char) :
    removeRange (front ++ (middle ++ back)) (size front) (size front + size middle) = some (front ++ back) := by
  rw [removeRange, if_pos (Nat.le_add_right _ _), sliceTo_size, Option.bind_some, sliceFrom_add, sliceFrom_size]
  rfl

theorem utf8Size_toLower (c : Char) : c.toLower.utf8Size = c.utf8Size := by
  delta Char.toLower
  split
  · rename_i h
    have hsmall : ∀ n < 128, (Char.ofNat n).toLower.utf8Size = (Char.ofNat n).utf8Size := by decide
    have hupper : c.toNat < 128 := Nat.lt_of_le_of_lt h.2 (by decide)
    have hc := hsmall _ hupper
    rw [Char.ofNat_toNat] at hc
    delta Char.toLower at hc
    rwa [dif_pos h] at hc
  · rfl

theorem size_toAsciiLowercase (text : List Char) : size (Text.toAsciiLowercase text) = size text := by
  induction text with
  | nil => rfl
  | cons c text ih =>
    show c.toLower.utf8Size + size (Text.toAsciiLowercase text) = _
    rw [ih, utf8Size_toLower, size_cons]

theorem length_encode (text : List Char) : (Utf8.encode text).length = size text := by
  induction text with
  | nil => rfl
  | cons c text ih => rw [Utf8.encode_cons, List.length_append, String.length_utf8EncodeChar, ih, size_cons]

end StrSlice
