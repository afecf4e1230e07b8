import Mathlib.Order.MinMax
import ObeyGateway.Lib.StrSlice

/-!
# Protected ranges

`compression/protection.rs`: how the candidate ranges of a scan are merged, what is left between them, and the transform
of what is left. Ranges are of bytes. The rules that find candidates are a parameter.
-/

namespace ObeyGateway.Protection
open StrSlice

structure ProtectedRange where
  start : Nat
  stop : Nat
deriving DecidableEq

/-- What `retain` keeps. -/
def isValid (text : List Char) (range : ProtectedRange) : Bool :=
  range.start < range.stop && range.stop ≤ size text && (sliceTo text range.start).isSome && (sliceTo text range.stop).isSome

/-- The order of `sort_unstable_by_key`. Ranges that it does not tell apart are equal. -/
def keyLe (a b : ProtectedRange) : Bool := a.start < b.start || a.start = b.start && a.stop ≤ b.stop

def pushRange (merged : List ProtectedRange) (range : ProtectedRange) : List ProtectedRange :=
  match merged.getLast? with
  | some previous =>
    if range.start ≤ previous.stop then merged.dropLast ++ [{ previous with stop := max previous.stop range.stop }]
    else merged ++ [range]
  | none => [range]

def mergeRanges (text : List Char) (ranges : List ProtectedRange) : List ProtectedRange :=
  ((ranges.filter (isValid text)).mergeSort keyLe).foldl pushRange []

def gapBefore (cursor start : Nat) : List ProtectedRange := if cursor < start then [⟨cursor, start⟩] else []

def complementFrom (textLen cursor : Nat) : List ProtectedRange → List ProtectedRange
  | [] => gapBefore cursor textLen
  | range :: rest => gapBefore cursor range.start ++ complementFrom textLen (max cursor range.stop) rest

def complementRanges (textLen : Nat) (ranges : List ProtectedRange) : List ProtectedRange := complementFrom textLen 0 ranges

section
variable (candidates : List Char → List ProtectedRange)

def scan (text : List Char) : List ProtectedRange := mergeRanges text (candidates text)

def unprotectedRanges (text : List Char) : List ProtectedRange := complementRanges (size text) (scan candidates text)

/-- What is pushed for the text between the cursor and a range. A slice that is out of bounds or cuts a character panics:
`none`. -/
def pushGap (text : List Char) (transform : List Char → List Char) (cursor start : Nat) : Option (List Char) :=
  if cursor < start then (slice text cursor start).map transform else some []

/-- The loop of `transform_unprotected`. -/
def transformFrom (text : List Char) (transform : List Char → List Char) (cursor : Nat) : List ProtectedRange → Option (List Char)
  | [] => if cursor < size text then (sliceFrom text cursor).map transform else some []
  | range :: rest => do
    let gap ← pushGap text transform cursor range.start
    let kept ← slice text range.start range.stop
    let output ← transformFrom text transform range.stop rest
    return gap ++ (kept ++ output)

def transformUnprotected (text : List Char) (transform : List Char → List Char) : Option (List Char) :=
  transformFrom text transform 0 (scan candidates text)

end

/-! ### Merging -/

def Covers (ranges : List ProtectedRange) (i : Nat) : Prop := ∃ r ∈ ranges, r.start ≤ i ∧ i < r.stop

structure Valid (text : List Char) (r : ProtectedRange) : Prop where
  lt : r.start < r.stop
  le : r.stop ≤ size text
  start : IsBoundary text r.start
  stop : IsBoundary text r.stop

structure Separated (text : List Char) (ranges : List ProtectedRange) : Prop where
  valid : ∀ r ∈ ranges, Valid text r
  apart : ranges.Pairwise fun a b => a.stop < b.start

section
variable {text : List Char} {ranges merged : List ProtectedRange} {r p : ProtectedRange} {i : Nat}

theorem isValid_iff : isValid text r ↔ Valid text r := by
  simp only [isValid, Bool.and_eq_true, decide_eq_true_eq, isSome_sliceTo]
  exact ⟨fun ⟨⟨⟨hlt, hle⟩, hstart⟩, hstop⟩ => ⟨hlt, hle, hstart, hstop⟩, fun h => ⟨⟨⟨h.lt, h.le⟩, h.start⟩, h.stop⟩⟩

@[simp] theorem covers_nil : ¬ Covers [] i := fun ⟨_, h, _⟩ => nomatch h

@[simp] theorem covers_append {l l' : List ProtectedRange} : Covers (l ++ l') i ↔ Covers l i ∨ Covers l' i := by
  simp only [Covers, List.mem_append, or_and_right, exists_or]

@[simp] theorem covers_singleton : Covers [r] i ↔ r.start ≤ i ∧ i < r.stop := by simp [Covers]

theorem covers_cons : Covers (r :: ranges) i ↔ (r.start ≤ i ∧ i < r.stop) ∨ Covers ranges i := by simp [Covers]

theorem covers_filter : Covers (ranges.filter (isValid text)) i ↔ ∃ r ∈ ranges, Valid text r ∧ r.start ≤ i ∧ i < r.stop := by
  simp only [Covers, List.mem_filter, isValid_iff, and_assoc]

theorem Separated.push (h : Separated text merged) (hr : Valid text r) (hstart : ∀ p ∈ merged, p.start ≤ r.start) :
    Separated text (pushRange merged r) ∧ (∀ p ∈ pushRange merged r, p.start ≤ r.start) ∧
      ∀ i, Covers (pushRange merged r) i ↔ Covers merged i ∨ (r.start ≤ i ∧ i < r.stop) := by
  rcases List.eq_nil_or_concat merged with rfl | ⟨front, p, rfl⟩
  · refine ⟨⟨?_, List.pairwise_singleton _ _⟩, ?_, fun i => ?_⟩
    · intro q hq
      rw [List.mem_singleton.1 hq]
      exact hr
    · intro q hq
      rw [List.mem_singleton.1 hq]
    · simp [pushRange]
  · rw [List.concat_eq_append] at *
    have hp := h.valid p (by simp)
    have hpr := hstart p (by simp)
    have hapart := List.pairwise_append.1 h.apart
    have hfront : ∀ q ∈ front, q.stop < p.start := fun q hq => hapart.2.2 q hq p (by simp)
    simp only [pushRange, List.getLast?_append, List.getLast?_singleton, Option.some_or, List.dropLast_concat]
    split_ifs with htouch
    · refine ⟨⟨?_, ?_⟩, ?_, fun i => ?_⟩
      · intro q hq
        rcases List.mem_append.1 hq with hq | hq
        · exact h.valid q (List.mem_append_left _ hq)
        rw [List.mem_singleton.1 hq]
        have hlt := hr.lt
        rcases max_choice p.stop r.stop with hmax | hmax <;> rw [hmax]
        · exact hp
        · exact ⟨hpr.trans_lt hlt, hr.le, hp.start, hr.stop⟩
      · refine List.pairwise_append.2 ⟨hapart.1, List.pairwise_singleton _ _, ?_⟩
        intro q hq s hs
        rw [List.mem_singleton.1 hs]
        exact hfront q hq
      · intro q hq
        rcases List.mem_append.1 hq with hq | hq
        · exact hstart q (List.mem_append_left _ hq)
        · rw [List.mem_singleton.1 hq]
          exact hpr
      · have hlt := hp.lt
        simp only [covers_append, covers_singleton, or_assoc]
        refine or_congr_right ?_
        omega
    · refine ⟨⟨?_, ?_⟩, ?_, fun i => ?_⟩
      · intro q hq
        rcases List.mem_append.1 hq with hq | hq
        · exact h.valid q hq
        · rw [List.mem_singleton.1 hq]
          exact hr
      · refine List.pairwise_append.2 ⟨h.apart, List.pairwise_singleton _ _, ?_⟩
        intro q hq s hs
        rw [List.mem_singleton.1 hs]
        rcases List.mem_append.1 hq with hq | hq
        · have := hfront q hq
          omega
        · rw [List.mem_singleton.1 hq]
          omega
      · intro q hq
        rcases List.mem_append.1 hq with hq | hq
        · exact hstart q hq
        · rw [List.mem_singleton.1 hq]
      · rw [covers_append, covers_singleton]

theorem foldl_pushRange (hsep : Separated text merged) (hvalid : ∀ r ∈ ranges, Valid text r)
    (hsorted : ranges.Pairwise fun a b => a.start ≤ b.start) (hstart : ∀ r ∈ ranges, ∀ p ∈ merged, p.start ≤ r.start) :
    Separated text (ranges.foldl pushRange merged) ∧
      ∀ i, Covers (ranges.foldl pushRange merged) i ↔ Covers merged i ∨ Covers ranges i := by
  induction ranges generalizing merged with
  | nil => exact ⟨hsep, fun i => by simp⟩
  | cons r ranges ih =>
    obtain ⟨hr, hsorted⟩ := List.pairwise_cons.1 hsorted
    obtain ⟨hpush, hle, hcovers⟩ := hsep.push (hvalid r (by simp)) (hstart r (by simp))
    obtain ⟨hfold, hall⟩ := ih hpush (fun q hq => hvalid q (by simp [hq])) hsorted
      fun q hq p hp => (hle p hp).trans (hr q hq)
    refine ⟨hfold, fun i => ?_⟩
    rw [List.foldl_cons, hall, hcovers, covers_cons, or_assoc]

theorem keyLe_sorted (l : List ProtectedRange) : (l.mergeSort keyLe).Pairwise fun a b => a.start ≤ b.start := by
  refine (List.pairwise_mergeSort ?_ ?_ l).imp ?_
  · intro a b c hab hbc
    simp only [keyLe, Bool.or_eq_true, Bool.and_eq_true, decide_eq_true_eq] at hab hbc ⊢
    omega
  · intro a b
    simp only [keyLe, Bool.or_eq_true, Bool.and_eq_true, decide_eq_true_eq]
    omega
  · intro a b hab
    simp only [keyLe, Bool.or_eq_true, Bool.and_eq_true, decide_eq_true_eq] at hab
    omega

theorem mergeRanges_spec (text : List Char) (candidates : List ProtectedRange) :
    Separated text (mergeRanges text candidates) ∧
      ∀ i, Covers (mergeRanges text candidates) i ↔ ∃ r ∈ candidates, Valid text r ∧ r.start ≤ i ∧ i < r.stop := by
  have hmem : ∀ r, r ∈ (candidates.filter (isValid text)).mergeSort keyLe ↔ r ∈ candidates.filter (isValid text) :=
    fun r => List.mem_mergeSort
  obtain ⟨hsep, hcovers⟩ := @foldl_pushRange text _ [] ⟨fun _ h => absurd h List.not_mem_nil, List.Pairwise.nil⟩
    (fun r hr => isValid_iff.1 (List.mem_filter.1 ((hmem r).1 hr)).2) (keyLe_sorted _) fun _ _ _ h => absurd h List.not_mem_nil
  refine ⟨hsep, fun i => (hcovers i).trans ?_⟩
  rw [← covers_filter, or_iff_right covers_nil]
  simp only [Covers, hmem]

/-! ### The rest -/

theorem covers_gapBefore {cursor start : Nat} : Covers (gapBefore cursor start) i ↔ cursor ≤ i ∧ i < start := by
  rw [gapBefore]
  split_ifs with h
  · simp
  · simp only [covers_nil, false_iff]
    omega

theorem covers_complementFrom {textLen cursor : Nat} (hsep : ranges.Pairwise fun a b => a.stop < b.start)
    (hle : ∀ r ∈ ranges, cursor ≤ r.start ∧ r.start < r.stop ∧ r.stop ≤ textLen) :
    Covers (complementFrom textLen cursor ranges) i ↔ (cursor ≤ i ∧ i < textLen) ∧ ¬ Covers ranges i := by
  induction ranges generalizing cursor with
  | nil => simp [complementFrom, covers_gapBefore]
  | cons r ranges ih =>
    obtain ⟨hr, hsep⟩ := List.pairwise_cons.1 hsep
    have hhead := hle r (by simp)
    have hrest : ∀ i, Covers ranges i → r.stop < i := by
      rintro i ⟨q, hq, hqi⟩
      have := hr q hq
      omega
    have hrest := hrest i
    rw [complementFrom, covers_append, covers_gapBefore, max_eq_right (by omega), covers_cons,
      ih hsep fun q hq => ⟨(hr q hq).le, (hle q (by simp [hq])).2⟩]
    by_cases hcov : Covers ranges i
    · simp only [hcov, not_true_eq_false, and_false, or_false, or_true, iff_false]
      have := hrest hcov
      omega
    · simp only [hcov, not_false_eq_true, and_true, or_false]
      omega

/-! ### Segments -/

def read (text : List Char) (r : ProtectedRange) : List Char := (slice text r.start r.stop).getD []

/-- The segments from `cursor` on, each with whether it is protected. -/
def segments (textLen cursor : Nat) : List ProtectedRange → List (Bool × ProtectedRange)
  | [] => (gapBefore cursor textLen).map (false, ·)
  | r :: rest => (gapBefore cursor r.start).map (false, ·) ++ (true, r) :: segments textLen r.stop rest

def render (text : List Char) (transform : List Char → List Char) (segments : List (Bool × ProtectedRange)) : List Char :=
  segments.flatMap fun s => if s.1 then read text s.2 else transform (read text s.2)

theorem segments_protected (textLen cursor : Nat) (ranges : List ProtectedRange) :
    ((segments textLen cursor ranges).filter (·.1)).map (·.2) = ranges := by
  induction ranges generalizing cursor with
  | nil => simp [segments]
  | cons r ranges ih => simp [segments, ih]

theorem gaps_map (l : List ProtectedRange) : ((l.map fun r => (false, r)).filter fun s => !s.1).map (·.2) = l := by
  induction l with
  | nil => rfl
  | cons r l ih => simp [ih]

theorem segments_gaps {textLen cursor : Nat} (hsep : ranges.Pairwise fun a b => a.stop < b.start)
    (hle : ∀ r ∈ ranges, cursor ≤ r.start ∧ r.start < r.stop) :
    ((segments textLen cursor ranges).filter (!·.1)).map (·.2) = complementFrom textLen cursor ranges := by
  induction ranges generalizing cursor with
  | nil => exact gaps_map _
  | cons r ranges ih =>
    obtain ⟨hr, hsep⟩ := List.pairwise_cons.1 hsep
    have hhead := hle r (by simp)
    have ih := ih hsep fun q hq => ⟨(hr q hq).le, (hle q (by simp [hq])).2⟩
    rw [segments, complementFrom, List.filter_append, List.map_append, gaps_map, max_eq_right (by omega), ← ih]
    rfl

theorem exists_between {front back : List Char} {n : Nat} (h : IsBoundary (front ++ back) n) (hle : size front ≤ n) :
    ∃ middle rest, back = middle ++ rest ∧ size front + size middle = n := by
  obtain ⟨front', back', heq, rfl⟩ := h
  rcases List.append_eq_append_iff.1 heq with ⟨middle, rfl, rfl⟩ | ⟨middle, rfl, rfl⟩
  · exact ⟨middle, back', rfl, size_append.symm⟩
  · refine ⟨[], back, rfl, ?_⟩
    rw [size_append] at hle ⊢
    simp only [size_nil]
    omega

theorem size_pos_of_ne_nil {l : List Char} (h : l ≠ []) : 0 < size l := by
  rcases l with _ | ⟨c, l⟩
  · exact absurd rfl h
  have := c.utf8Size_pos
  simp only [size_cons]
  omega

theorem read_between (front middle back : List Char) :
    read (front ++ (middle ++ back)) ⟨size front, size front + size middle⟩ = middle := by
  rw [read, slice_size]
  rfl

/-- Up to the next boundary there is either nothing or a gap. -/
theorem render_gap (transform : List Char → List Char) (front middle back : List Char) :
    pushGap (front ++ (middle ++ back)) transform (size front) (size front + size middle) =
      some (render (front ++ (middle ++ back)) transform
        ((gapBefore (size front) (size front + size middle)).map (false, ·))) := by
  rw [pushGap, gapBefore]
  split_ifs with h
  · simp [render, read_between]
  · rfl

theorem render_id_gap (front middle back : List Char) : render (front ++ (middle ++ back)) id
    ((gapBefore (size front) (size front + size middle)).map (false, ·)) = middle := by
  rw [gapBefore]
  split_ifs with h
  · simp [render, read_between]
  · rcases eq_or_ne middle [] with rfl | hne
    · rfl
    · have := size_pos_of_ne_nil hne
      omega

theorem render_append (transform : List Char → List Char) (l l' : List (Bool × ProtectedRange)) :
    render text transform (l ++ l') = render text transform l ++ render text transform l' := List.flatMap_append

theorem transformFrom_eq {front back : List Char} (transform : List Char → List Char) (h : Separated (front ++ back) ranges)
    (hle : ∀ r ∈ ranges, size front ≤ r.start) :
    transformFrom (front ++ back) transform (size front) ranges =
        some (render (front ++ back) transform (segments (size (front ++ back)) (size front) ranges)) ∧
      render (front ++ back) id (segments (size (front ++ back)) (size front) ranges) = back := by
  induction ranges generalizing front back with
  | nil =>
    have hgap := render_gap transform front back []
    have hid := render_id_gap front back []
    simp only [List.append_nil] at hgap hid
    rw [transformFrom, segments, size_append]
    refine ⟨?_, hid⟩
    rw [← hgap, sliceFrom_size, pushGap]
    have hslice := slice_size front back []
    rw [List.append_nil] at hslice
    rw [hslice]
  | cons r ranges ih =>
    have hr := h.valid r (by simp)
    obtain ⟨happart, hrest⟩ := List.pairwise_cons.1 h.apart
    obtain ⟨gap, after, rfl, hgap⟩ := exists_between hr.start (hle r (by simp))
    have hstop := hr.stop
    rw [← List.append_assoc] at hstop
    obtain ⟨kept, back, rfl, hkept⟩ := exists_between hstop (by have := hr.lt; rw [size_append]; omega)
    rw [size_append, hgap] at hkept
    have hassoc : front ++ (gap ++ (kept ++ back)) = (front ++ gap ++ kept) ++ back := by simp
    have hsize : size (front ++ gap ++ kept) = r.stop := by rw [size_append, size_append, hgap, hkept]
    obtain ⟨hrun, hid⟩ := @ih (front ++ gap ++ kept) back
      ⟨fun q hq => hassoc ▸ h.valid q (by simp [hq]), hrest⟩ fun q hq => by rw [hsize]; exact (happart q hq).le
    rw [← hassoc, hsize] at hrun hid
    have hslice := slice_size (front ++ gap) kept back
    rw [size_append, hgap, hkept, List.append_assoc] at hslice
    have hread : read (front ++ (gap ++ (kept ++ back))) r = kept := by rw [read, hslice]; rfl
    have hgaps := render_gap transform front gap (kept ++ back)
    have hgapid := render_id_gap front gap (kept ++ back)
    rw [hgap] at hgaps hgapid
    have hcons : ∀ f rest, render (front ++ (gap ++ (kept ++ back))) f ((true, r) :: rest) =
        kept ++ render (front ++ (gap ++ (kept ++ back))) f rest := by
      intro f rest
      simp [render, hread]
    rw [transformFrom, segments, hgaps, hslice, hrun, render_append, render_append, hcons, hcons, hid, hgapid]
    exact ⟨rfl, rfl⟩

end

/-- The merged ranges are valid and strictly apart, and cover what the valid candidates cover; the complement covers the
rest; and the transform goes through the segments of the two, which make up the text. -/
theorem protection_law (candidates : List Char → List ProtectedRange) (text : List Char) :
    let merged := scan candidates text
    let rest := unprotectedRanges candidates text
    Separated text merged ∧
      (∀ i, Covers merged i ↔ ∃ r ∈ candidates text, Valid text r ∧ r.start ≤ i ∧ i < r.stop) ∧
      (∀ i, Covers rest i ↔ i < size text ∧ ¬ Covers merged i) ∧
      (∃ parts : List (Bool × ProtectedRange), (parts.filter (·.1)).map (·.2) = merged ∧
        (parts.filter (!·.1)).map (·.2) = rest ∧ parts.flatMap (read text ·.2) = text ∧
        ∀ transform, transformUnprotected candidates text transform =
          some (parts.flatMap fun s => if s.1 then read text s.2 else transform (read text s.2))) ∧
      transformUnprotected candidates text id = some text := by
  obtain ⟨hsep, hcovers⟩ := mergeRanges_spec text (candidates text)
  have hrun := fun transform => @transformFrom_eq _ [] text transform hsep fun _ _ => Nat.zero_le _
  have hid : render text id (segments (size text) 0 (scan candidates text)) = text := (hrun id).2
  refine ⟨hsep, hcovers, fun i => ?_, ⟨segments (size text) 0 (scan candidates text), segments_protected _ _ _,
    segments_gaps hsep.apart fun r hr => ⟨Nat.zero_le _, (hsep.valid r hr).lt⟩, ?_, fun transform => (hrun transform).1⟩, ?_⟩
  · refine (covers_complementFrom hsep.apart fun r hr =>
      ⟨Nat.zero_le _, (hsep.valid r hr).lt, (hsep.valid r hr).le⟩).trans ?_
    simp only [Nat.zero_le, true_and]
    rfl
  · simpa only [render, id, ite_self] using hid
  · exact (hrun id).1.trans (congrArg some hid)

end ObeyGateway.Protection
