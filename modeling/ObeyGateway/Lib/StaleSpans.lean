import ObeyGateway.Lib.Splice
import Mathlib.Data.List.Range
import Mathlib.Data.List.Sort

/-!
# Replacing overlapping spans from the right

Spans found beforehand are replaced from the last to the first, so an end that reaches over the start of the next span
is counted in a list that has changed. As long as no span reaches beyond the `room` of the next one (`Clear`), exactly
the elements outside the spans survive and every replacement is within bounds; otherwise one of the two fails
(`clear_iff`).
-/

namespace StaleSpans

open Splice

variable {α β : Type*}

/-- Every span of the list is replaced by `text`, the last one first. -/
def replaceSpans (text xs : List α) : List (Nat × Nat) → List α
  | [] => xs
  | f :: fs => replaceRange (replaceSpans text xs fs) f.1 f.2 text

def cells (text : List β) (n : Nat) (fs : List (Nat × Nat)) : List (Nat ⊕ β) :=
  replaceSpans (text.map .inr) ((List.range n).map .inl) fs

def survivors (text : List β) (n : Nat) (fs : List (Nat × Nat)) : List Nat :=
  (cells text n fs).filterMap Sum.getLeft?

def covers (fs : List (Nat × Nat)) (i : Nat) : Bool := fs.any fun f => f.1 ≤ i && i < f.2

def uncovered (n : Nat) (fs : List (Nat × Nat)) : List Nat := (List.range n).filter (!covers fs ·)

/-- The spans lie within `n` elements, start one after the other and end in the same order. -/
structure Spans (n : Nat) (fs : List (Nat × Nat)) : Prop where
  within : ∀ f ∈ fs, f.1 < f.2 ∧ f.2 ≤ n
  ascending : fs.Pairwise fun f g => f.1 < g.1 ∧ f.2 ≤ g.2

def InBounds (text : List β) (n : Nat) : List (Nat × Nat) → Prop
  | [] => True
  | f :: fs => InBounds text n fs ∧ f.2 ≤ (cells text n fs).length

/-- How many replaced elements stand at the start of the first span, for texts of length `k`. -/
def room (k : Nat) : List (Nat × Nat) → Nat
  | [] => 0
  | [_] => k
  | f :: g :: fs => if g.1 ≤ f.2 then k + (room k (g :: fs) - (f.2 - g.1)) else k

def Clear (k : Nat) : List (Nat × Nat) → Prop
  | [] | [_] => True
  | f :: g :: fs => f.2 ≤ g.1 + room k (g :: fs) ∧ Clear k (g :: fs)

instance decidableClear (k : Nat) : ∀ fs, Decidable (Clear k fs)
  | [] | [_] => isTrue trivial
  | _ :: g :: fs => @instDecidableAnd _ _ _ (decidableClear k (g :: fs))

section
variable {n i : Nat} {f g : Nat × Nat} {fs : List (Nat × Nat)}

theorem Spans.tail (h : Spans n (f :: fs)) : Spans n fs :=
  ⟨fun g hg => h.within g (List.mem_cons_of_mem _ hg), (List.pairwise_cons.1 h.ascending).2⟩

theorem Spans.head (h : Spans n (f :: fs)) : f.1 < f.2 ∧ f.2 ≤ n := h.within f List.mem_cons_self

theorem Spans.lt (h : Spans n (f :: fs)) (hg : g ∈ fs) : f.1 < g.1 ∧ f.2 ≤ g.2 :=
  (List.pairwise_cons.1 h.ascending).1 g hg

theorem covers_iff : covers fs i = true ↔ ∃ f ∈ fs, f.1 ≤ i ∧ i < f.2 := by
  simp [covers, List.any_eq_true]

theorem mem_uncovered : i ∈ uncovered n fs ↔ i < n ∧ ∀ f ∈ fs, f.1 ≤ i → f.2 ≤ i := by
  have hno : covers fs i = false ↔ ∀ f ∈ fs, f.1 ≤ i → f.2 ≤ i := by
    rw [← Bool.not_eq_true, covers_iff]
    push Not
    rfl
  simp [uncovered, hno]

theorem uncovered_cons (n : Nat) (f : Nat × Nat) (fs : List (Nat × Nat)) :
    uncovered n (f :: fs) = (uncovered n fs).filter fun i => !(f.1 ≤ i && i < f.2) := by
  unfold uncovered
  rw [List.filter_filter]
  refine List.filter_congr fun i _ => ?_
  rw [covers, List.any_cons, Bool.not_or]
  rfl

theorem pairwise_uncovered (n : Nat) (fs : List (Nat × Nat)) : (uncovered n fs).Pairwise (· < ·) :=
  List.pairwise_lt_range.sublist List.filter_sublist

end

section
variable {text : List β} {n : Nat} {f g : Nat × Nat} {fs : List (Nat × Nat)}

theorem replaceSpans_map {γ : Type*} (φ : α → γ) (text xs : List α) (fs : List (Nat × Nat)) :
    (replaceSpans text xs fs).map φ = replaceSpans (text.map φ) (xs.map φ) fs := by
  induction fs with
  | nil => rfl
  | cons f fs ih => simp only [replaceSpans, replaceRange, List.map_append, List.map_take, List.map_drop, ih]

theorem cells_cons (text : List β) (n : Nat) (f : Nat × Nat) (fs : List (Nat × Nat)) :
    cells text n (f :: fs) = (cells text n fs).take f.1 ++ text.map .inr ++ (cells text n fs).drop f.2 := rfl

theorem take_cells (text : List β) (h : Spans n fs) {s : Nat} (hs : s ≤ n) (hstart : ∀ g ∈ fs, s ≤ g.1) :
    (cells text n fs).take s = (List.range s).map .inl := by
  induction fs generalizing s with
  | nil =>
    show ((List.range n).map Sum.inl).take s = _
    rw [← List.map_take, List.take_range, Nat.min_eq_left hs]
  | cons g fs ih =>
    have hg := hstart g List.mem_cons_self
    have hgn : g.1 ≤ n := by have := h.head; omega
    have hfront := ih h.tail hgn fun g' hg' => (h.lt hg').1.le
    rw [cells_cons, hfront, List.append_assoc, List.take_append_of_le_length (by simpa using hg), ← List.map_take,
      List.take_range, Nat.min_eq_left hg]

@[simp] theorem filterMap_inl (is : List Nat) : (is.map Sum.inl : List (Nat ⊕ β)).filterMap Sum.getLeft? = is := by
  induction is with
  | nil => rfl
  | cons i is ih => simp [ih]

theorem filterMap_inr {cs : List (Nat ⊕ β)} (h : ∀ c ∈ cs, ∃ x, c = .inr x) : cs.filterMap Sum.getLeft? = [] := by
  rw [List.filterMap_eq_nil_iff]
  intro c hc
  obtain ⟨x, rfl⟩ := h c hc
  rfl

theorem mem_map_inr {c : Nat ⊕ β} (h : c ∈ text.map Sum.inr) : ∃ x, c = .inr x := by
  obtain ⟨x, -, rfl⟩ := List.mem_map.1 h
  exact ⟨x, rfl⟩

theorem survivors_cons (h : Spans n (f :: fs)) :
    survivors text n (f :: fs) = List.range f.1 ++ ((cells text n fs).drop f.2).filterMap Sum.getLeft? := by
  have hf := h.head
  rw [survivors, cells_cons, take_cells text h.tail (by omega) fun g hg => (h.lt hg).1.le, List.filterMap_append,
    List.filterMap_append, filterMap_inl, filterMap_inr fun c hc => mem_map_inr hc, List.append_nil]

theorem survivors_sublist_tail (h : Spans n (f :: fs)) :
    List.Sublist (survivors text n (f :: fs)) (survivors text n fs) := by
  have hf := h.head
  have hfront := take_cells text h.tail (by omega : f.1 ≤ n) fun g hg => (h.lt hg).1.le
  have hsplit : survivors text n fs = List.range f.1 ++ ((cells text n fs).drop f.1).filterMap Sum.getLeft? := by
    rw [survivors, ← List.take_append_drop f.1 (cells text n fs), hfront, List.filterMap_append, filterMap_inl,
      ← hfront, List.take_append_drop]
  have hdrop : List.Sublist ((cells text n fs).drop f.2) ((cells text n fs).drop f.1) :=
    List.drop_sublist_drop_left _ hf.1.le
  rw [survivors_cons h, hsplit]
  exact (List.Sublist.refl _).append (hdrop.filterMap _)

theorem survivors_sublist (text : List β) (h : Spans n fs) : List.Sublist (survivors text n fs) (List.range n) := by
  induction fs with
  | nil =>
    show List.Sublist (((List.range n).map Sum.inl : List (Nat ⊕ β)).filterMap Sum.getLeft?) _
    rw [filterMap_inl]
  | cons f fs ih => exact (survivors_sublist_tail h).trans (ih h.tail)

theorem survivors_eq_iff (h : Spans n fs) :
    survivors text n fs = uncovered n fs ↔ ∀ i, i ∈ survivors text n fs ↔ i ∈ uncovered n fs := by
  constructor
  · intro heq i
    rw [heq]
  · intro hmem
    exact (List.pairwise_lt_range.sublist (survivors_sublist text h)).eq_of_mem_iff (pairwise_uncovered n fs) hmem

theorem mem_drop_range {i s e : Nat} : i ∈ (List.range s).drop e ↔ e ≤ i ∧ i < s := by
  rw [List.range_eq_range', List.drop_range', List.mem_range'_1]
  omega

theorem drop_range_cons {s e : Nat} (h : e < s) : ∃ rest, (List.range s).drop e = e :: rest := by
  rw [List.drop_eq_getElem_cons (by simpa using h), List.getElem_range]
  exact ⟨_, rfl⟩

/-! ### Spans that keep clear of each other -/

/-- Positions up to the first span, then what is replaced there, then the position where some span ends, if any. -/
structure Shape (text : List β) (n : Nat) (f : Nat × Nat) (fs : List (Nat × Nat)) (junk tail : List (Nat ⊕ β)) : Prop where
  cells : cells text n (f :: fs) = (List.range f.1).map .inl ++ (junk ++ tail)
  length : junk.length = room text.length (f :: fs)
  junk : ∀ c ∈ junk, ∃ x ∈ text, c = .inr x
  tail : tail = [] ∨ ∃ g ∈ f :: fs, ∃ rest, tail = .inl g.2 :: rest
  survivors : survivors text n (f :: fs) = uncovered n (f :: fs)

variable {junk tail : List (Nat ⊕ β)}

theorem Shape.mem_uncovered (hs : Shape text n f fs junk tail) {i : Nat} :
    i ∈ uncovered n (f :: fs) ↔ i < f.1 ∨ i ∈ tail.filterMap Sum.getLeft? := by
  rw [← hs.survivors, StaleSpans.survivors, hs.cells, List.filterMap_append, filterMap_inl, List.filterMap_append,
    filterMap_inr fun c hc => (hs.junk c hc).imp fun x hx => hx.2, List.nil_append, List.mem_append, List.mem_range]

theorem Shape.le_of_mem (hs : Shape text n f fs junk tail) {i : Nat} (hi : i ∈ tail.filterMap Sum.getLeft?) : f.2 ≤ i := by
  have hpair := pairwise_uncovered n (f :: fs)
  rw [← hs.survivors, StaleSpans.survivors, hs.cells, List.filterMap_append, filterMap_inl, List.filterMap_append,
    filterMap_inr fun c hc => (hs.junk c hc).imp fun x hx => hx.2, List.nil_append] at hpair
  refine (StaleSpans.mem_uncovered.1 (hs.mem_uncovered.2 (.inr hi))).2 f List.mem_cons_self ?_
  -- the positions before the span come first
  by_contra hlt
  have hirr := (List.pairwise_append.1 hpair).2.2 i (List.mem_range.2 (Nat.lt_of_not_le hlt)) i hi
  omega

theorem shape_singleton (h : Spans n [f]) : Shape text n f [] (text.map .inr) (((List.range n).drop f.2).map .inl) where
  cells := by
    have hf := h.head
    rw [cells_cons, take_cells text h.tail (by omega) (by simp), List.append_assoc]
    show _ ++ (_ ++ ((List.range n).map Sum.inl).drop f.2) = _
    rw [List.map_drop]
  length := by simp [room]
  junk c hc := by
    obtain ⟨x, hx, rfl⟩ := List.mem_map.1 hc
    exact ⟨x, hx, rfl⟩
  tail := by
    by_cases hn : f.2 < n
    · obtain ⟨rest, hrest⟩ := drop_range_cons hn
      exact .inr ⟨f, List.mem_cons_self, rest.map .inl, by rw [hrest]; rfl⟩
    · exact .inl (by rw [List.drop_eq_nil_of_le (by simpa using hn)]; rfl)
  survivors := by
    have hf := h.head
    rw [survivors_eq_iff h]
    intro i
    rw [survivors_cons h]
    show i ∈ List.range f.1 ++ (((List.range n).map Sum.inl).drop f.2).filterMap Sum.getLeft? ↔ _
    rw [← List.map_drop, filterMap_inl, List.mem_append, List.mem_range, mem_drop_range, StaleSpans.mem_uncovered]
    simp only [List.mem_singleton, forall_eq]
    omega

theorem Shape.cons_apart (h : Spans n (g :: f :: fs)) (hs : Shape text n f fs junk tail) (hapart : g.2 < f.1) :
    Shape text n g (f :: fs) (text.map .inr) (((List.range f.1).drop g.2).map .inl ++ (junk ++ tail)) where
  cells := by
    have hg := h.head
    rw [cells_cons, take_cells text h.tail (by omega) fun f' hf' => (h.lt hf').1.le, List.append_assoc, hs.cells,
      List.drop_append_of_le_length (by simpa using hapart.le), List.map_drop]
  length := by simp [room, Nat.not_le.2 hapart]
  junk c hc := by
    obtain ⟨x, hx, rfl⟩ := List.mem_map.1 hc
    exact ⟨x, hx, rfl⟩
  tail := by
    obtain ⟨rest, hrest⟩ := drop_range_cons hapart
    exact .inr ⟨g, List.mem_cons_self, rest.map .inl ++ (junk ++ tail), by rw [hrest]; rfl⟩
  survivors := by
    have hg := h.head
    rw [survivors_eq_iff h]
    intro i
    have hle := fun hi => hs.le_of_mem (i := i) hi
    have hend := (h.lt (List.mem_cons_self (a := f) (l := fs))).2
    rw [survivors_cons h, hs.cells, List.drop_append_of_le_length (by simpa using hapart.le), ← List.map_drop,
      List.filterMap_append, filterMap_inl, List.filterMap_append,
      filterMap_inr fun c hc => (hs.junk c hc).imp fun x hx => hx.2, List.nil_append, List.mem_append,
      List.mem_append, List.mem_range, mem_drop_range, uncovered_cons, List.mem_filter, hs.mem_uncovered]
    simp only [Bool.not_eq_true', Bool.and_eq_false_iff, decide_eq_false_iff_not]
    constructor
    · rintro (hi | hi | hi)
      · exact ⟨.inl (by omega), .inl (by omega)⟩
      · exact ⟨.inl hi.2, .inr (by omega)⟩
      · have := hle hi
        exact ⟨.inr hi, .inr (by omega)⟩
    · rintro ⟨hi | hi, hout⟩
      · omega
      · exact .inr (.inr hi)

theorem Shape.drop_over (hs : Shape text n f fs junk tail) {e : Nat} (hover : f.1 ≤ e)
    (hroom : e ≤ f.1 + room text.length (f :: fs)) :
    (StaleSpans.cells text n (f :: fs)).drop e = junk.drop (e - f.1) ++ tail := by
  have hnil : ((List.range f.1).map Sum.inl : List (Nat ⊕ β)).drop e = [] := List.drop_eq_nil_of_le (by simpa using hover)
  have hjunk : e - f.1 ≤ junk.length := by rw [hs.length]; omega
  rw [hs.cells, List.drop_append, hnil, List.nil_append, List.length_map, List.length_range,
    List.drop_append_of_le_length hjunk]

theorem Shape.cons_over (h : Spans n (g :: f :: fs)) (hs : Shape text n f fs junk tail) (hover : f.1 ≤ g.2)
    (hroom : g.2 ≤ f.1 + room text.length (f :: fs)) :
    Shape text n g (f :: fs) (text.map .inr ++ junk.drop (g.2 - f.1)) tail where
  cells := by
    have hg := h.head
    rw [cells_cons, take_cells text h.tail (by omega) fun f' hf' => (h.lt hf').1.le, hs.drop_over hover hroom]
    simp only [List.append_assoc]
  length := by
    rw [List.length_append, List.length_map, List.length_drop, hs.length, room, if_pos hover]
  junk c hc := by
    rcases List.mem_append.1 hc with hc | hc
    · obtain ⟨x, hx, rfl⟩ := List.mem_map.1 hc
      exact ⟨x, hx, rfl⟩
    · exact hs.junk c (List.mem_of_mem_drop hc)
  tail := by
    rcases hs.tail with hnil | ⟨g', hg', rest, hrest⟩
    · exact .inl hnil
    · exact .inr ⟨g', List.mem_cons_of_mem _ hg', rest, hrest⟩
  survivors := by
    have hg := h.head
    rw [survivors_eq_iff h]
    intro i
    have hle := fun hi => hs.le_of_mem (i := i) hi
    have hnext := h.lt (List.mem_cons_self (a := f) (l := fs))
    rw [survivors_cons h, hs.drop_over hover hroom, List.filterMap_append,
      filterMap_inr fun c hc => (hs.junk c (List.mem_of_mem_drop hc)).imp fun x hx => hx.2, List.nil_append,
      List.mem_append, List.mem_range, uncovered_cons, List.mem_filter, hs.mem_uncovered]
    simp only [Bool.not_eq_true', Bool.and_eq_false_iff, decide_eq_false_iff_not]
    constructor
    · rintro (hi | hi)
      · exact ⟨.inl (by omega), .inl (by omega)⟩
      · have := hle hi
        exact ⟨.inr hi, .inr (by omega)⟩
    · rintro ⟨hi | hi, hout⟩
      · omega
      · exact .inr hi

theorem exists_shape (h : Spans n (f :: fs)) (hc : Clear text.length (f :: fs)) :
    ∃ junk tail, Shape text n f fs junk tail := by
  induction fs generalizing f with
  | nil => exact ⟨_, _, shape_singleton h⟩
  | cons g fs ih =>
    obtain ⟨junk, tail, hs⟩ := ih h.tail hc.2
    rcases Nat.lt_or_ge f.2 g.1 with hapart | hover
    · exact ⟨_, _, hs.cons_apart h hapart⟩
    · exact ⟨_, _, hs.cons_over h hover hc.1⟩

theorem Shape.length_cells (hs : Shape text n f fs junk tail) :
    (StaleSpans.cells text n (f :: fs)).length = f.1 + room text.length (f :: fs) + tail.length := by
  rw [hs.cells, List.length_append, List.length_append, List.length_map, List.length_range, hs.length, Nat.add_assoc]

theorem inBounds_of_clear (h : Spans n fs) (hc : Clear text.length fs) : InBounds text n fs := by
  induction fs with
  | nil => trivial
  | cons f fs ih =>
    rcases fs with _ | ⟨g, fs⟩
    · refine ⟨trivial, ?_⟩
      show f.2 ≤ ((List.range n).map Sum.inl : List (Nat ⊕ β)).length
      simpa using h.head.2
    obtain ⟨junk, tail, hs⟩ := exists_shape h.tail hc.2
    refine ⟨ih h.tail hc.2, ?_⟩
    rw [hs.length_cells]
    exact hc.1.trans (Nat.le_add_right _ _)

/-- Where some span reaches too far, a replacement is out of bounds or a position outside the spans is
gone. -/
theorem lost_of_not_clear (h : Spans n (f :: fs)) (hc : ¬ Clear text.length (f :: fs)) : ¬ InBounds text n (f :: fs) ∨
      ∃ i, f.2 ≤ i ∧ i ∈ uncovered n (f :: fs) ∧ i ∉ survivors text n (f :: fs) := by
  induction fs generalizing f with
  | nil => exact absurd trivial hc
  | cons g fs ih =>
    have hnext := h.lt (List.mem_cons_self (a := g) (l := fs))
    have hstill {i : Nat} (hi : i ∈ uncovered n (g :: fs)) (hle : f.2 ≤ i) : i ∈ uncovered n (f :: g :: fs) := by
      obtain ⟨hin, hout⟩ := mem_uncovered.1 hi
      refine mem_uncovered.2 ⟨hin, fun f' hf' hstart => ?_⟩
      rcases List.mem_cons.1 hf' with rfl | hf'
      · exact hle
      · exact hout f' hf' hstart
    by_cases hrest : Clear text.length (g :: fs)
    · have hfar : g.1 + room text.length (g :: fs) < f.2 := Nat.lt_of_not_le fun hle => hc ⟨hle, hrest⟩
      obtain ⟨junk, tail, hs⟩ := exists_shape h.tail hrest
      rcases hs.tail with rfl | ⟨g', hg', rest, rfl⟩
      · -- nothing follows the room
        refine .inl fun hin => absurd hin.2 ?_
        rw [hs.length_cells]
        simpa using hfar
      · -- the position after the room is replaced
        have hmem : g'.2 ∈ (Sum.inl g'.2 :: rest : List (Nat ⊕ β)).filterMap Sum.getLeft? := by simp
        have hle := hs.le_of_mem hmem
        refine .inr ⟨g'.2, by omega, hstill (hs.mem_uncovered.2 (.inr hmem)) (by omega), fun hin => ?_⟩
        have hnodup := (survivors_sublist text h.tail).nodup List.nodup_range
        have hsurv : survivors text n (g :: fs) = List.range g.1 ++ g'.2 :: rest.filterMap Sum.getLeft? := by
          rw [survivors, hs.cells, List.filterMap_append, filterMap_inl, List.filterMap_append,
            filterMap_inr fun c hc => (hs.junk c hc).imp fun x hx => hx.2, List.nil_append]
          rfl
        rw [hsurv] at hnodup
        have hfresh : g'.2 ∉ rest.filterMap Sum.getLeft? :=
          (List.nodup_cons.1 (List.nodup_append.1 hnodup).2.1).1
        rw [survivors_cons h, List.mem_append, List.mem_range] at hin
        rcases hin with hin | hin
        · have hf := h.head
          omega
        · refine hfresh ?_
          have hdrop : List.Sublist ((cells text n (g :: fs)).drop f.2) rest := by
            have hlen : f.2 = (g.1 + room text.length (g :: fs) + 1) + (f.2 - (g.1 + room text.length (g :: fs) + 1)) := by omega
            have hafter : (cells text n (g :: fs)).drop (g.1 + room text.length (g :: fs) + 1) = rest := by
              rw [← List.drop_drop, hs.drop_over (Nat.le_add_right _ _) (le_refl _), Nat.add_sub_cancel_left,
                List.drop_eq_nil_of_le hs.length.le]
              rfl
            rw [hlen, ← List.drop_drop, hafter]
            exact List.drop_sublist _ _
          exact (hdrop.filterMap _).subset hin
    · rcases ih h.tail hrest with hbounds | ⟨i, hle, hi, hgone⟩
      · exact .inl fun hin => hbounds hin.1
      · exact .inr ⟨i, hnext.2.trans hle, hstill hi (hnext.2.trans hle), fun hin =>
          hgone ((survivors_sublist_tail h).subset hin)⟩

/-- Exactly the spans that keep clear are replaced within bounds and without loss. -/
theorem clear_iff (h : Spans n fs) : Clear text.length fs ↔ InBounds text n fs ∧ survivors text n fs = uncovered n fs := by
  rcases fs with _ | ⟨f, fs⟩
  · refine iff_of_true trivial ⟨trivial, ?_⟩
    show ((List.range n).map Sum.inl : List (Nat ⊕ β)).filterMap Sum.getLeft? = (List.range n).filter fun _ => true
    rw [filterMap_inl, List.filter_eq_self.2 fun _ _ => rfl]
  constructor
  · intro hc
    obtain ⟨junk, tail, hs⟩ := exists_shape h hc
    exact ⟨inBounds_of_clear h hc, hs.survivors⟩
  · rintro ⟨hbounds, hsurv⟩
    by_contra hc
    rcases lost_of_not_clear h hc with hno | ⟨i, -, hi, hgone⟩
    · exact hno hbounds
    · rw [hsurv] at hgone
      exact hgone hi

/-! ### What stands where -/

/-- At the end of a clear span stands nothing, what is put for the next one, or where some span ends. -/
theorem end_cell (text : List β) (h : Spans n (f :: fs)) (hc : Clear text.length (f :: fs)) :
    f.2 = (cells text n fs).length ∨ (∃ x ∈ text, (cells text n fs)[f.2]? = some (.inr x)) ∨
      ∃ g ∈ f :: fs, (cells text n fs)[f.2]? = some (.inl g.2) := by
  have hf := h.head
  rcases fs with _ | ⟨g, fs⟩
  · rcases Nat.lt_or_ge f.2 n with hlt | hge
    · refine .inr (.inr ⟨f, List.mem_cons_self, ?_⟩)
      show ((List.range n).map Sum.inl : List (Nat ⊕ β))[f.2]? = _
      rw [List.getElem?_map, List.getElem?_range hlt]
      rfl
    · refine .inl ?_
      show f.2 = ((List.range n).map Sum.inl : List (Nat ⊕ β)).length
      rw [List.length_map, List.length_range]
      omega
  obtain ⟨junk, tail, hs⟩ := exists_shape h.tail hc.2
  have hlen := hs.length
  rcases Nat.lt_or_ge f.2 g.1 with hapart | hover
  · refine .inr (.inr ⟨f, List.mem_cons_self, ?_⟩)
    rw [hs.cells, List.getElem?_append_left (by simpa using hapart), List.getElem?_map, List.getElem?_range hapart]
    rfl
  · have hat : (cells text n (g :: fs))[f.2]? = (junk.drop (f.2 - g.1) ++ tail)[0]? := by
      rw [← hs.drop_over hover hc.1, List.getElem?_drop, Nat.add_zero]
    rcases Nat.lt_or_ge (f.2 - g.1) junk.length with hlt | hge
    · obtain ⟨c, hcell⟩ : ∃ c, junk[f.2 - g.1]? = some c := ⟨_, List.getElem?_eq_getElem hlt⟩
      obtain ⟨x, hx, rfl⟩ := hs.junk c (List.mem_of_getElem? hcell)
      refine .inr (.inl ⟨x, hx, ?_⟩)
      rw [hat, List.getElem?_append_left (by rw [List.length_drop]; omega), List.getElem?_drop, Nat.add_zero, hcell]
    · rw [List.drop_eq_nil_of_le hge, List.nil_append] at hat
      rcases hs.tail with rfl | ⟨g', hg', rest, rfl⟩
      · refine .inl ?_
        rw [hs.length_cells]
        have hroom := hc.1
        simp only [List.length_nil]
        omega
      · exact .inr (.inr ⟨g', List.mem_cons_of_mem _ hg', hat⟩)

theorem mem_of_cell {x : β} (h : .inr x ∈ cells text n fs) : x ∈ text := by
  induction fs with
  | nil => simp [cells, replaceSpans] at h
  | cons f fs ih =>
    rw [cells_cons, List.mem_append, List.mem_append] at h
    rcases h with (h | h) | h
    · exact ih (List.mem_of_mem_take h)
    · simpa using h
    · exact ih (List.mem_of_mem_drop h)

theorem start_cell (h : Spans n (f :: fs)) : (cells text n fs)[f.1]? = some (.inl f.1) := by
  have hf := h.head
  have htake := take_cells text h.tail (by omega : f.1 + 1 ≤ n) fun g hg => (h.lt hg).1
  have hat := congrArg (·[f.1]?) htake
  simp only [List.getElem?_take, Nat.lt_succ_self, if_true, List.getElem?_map,
    List.getElem?_range (Nat.lt_succ_self f.1)] at hat
  exact hat

/-- After a position stands the next one, what replaces a span that starts there, or nothing at the end of the list. -/
theorem next_cell (htext : text ≠ []) (h : Spans n fs) {p i : Nat} (hp : (cells text n fs)[p]? = some (.inl i)) :
    (cells text n fs)[p + 1]? = some (.inl (i + 1)) ∨
      (∃ x ∈ text, (cells text n fs)[p + 1]? = some (.inr x)) ∧ (∃ f ∈ fs, f.1 = i + 1) ∨
      (cells text n fs)[p + 1]? = none ∧ i + 1 = n := by
  induction fs generalizing p with
  | nil =>
    have hcells : cells text n [] = (List.range n).map .inl := rfl
    rw [hcells, List.getElem?_map] at hp
    rw [hcells, List.getElem?_map]
    have hpn : p < n := by
      by_contra hge
      rw [List.getElem?_eq_none (by simpa using hge)] at hp
      cases hp
    obtain rfl : p = i := by simpa [List.getElem?_range hpn] using hp
    rcases Nat.lt_or_ge (p + 1) n with hlt | hge
    · exact .inl (by rw [List.getElem?_range hlt]; rfl)
    · exact .inr (.inr ⟨by rw [List.getElem?_eq_none (by simpa using hge)]; rfl, by omega⟩)
  | cons f fs ih =>
    have hf := h.head
    have hfront := take_cells text h.tail (by omega : f.1 ≤ n) fun g hg => (h.lt hg).1.le
    have hlen : ((cells text n fs).take f.1).length = f.1 := by rw [hfront]; simp
    rw [cells_cons, List.append_assoc] at hp ⊢
    rcases Nat.lt_or_ge p f.1 with hbefore | hafter
    · rw [List.getElem?_append_left (by omega), hfront, List.getElem?_map, List.getElem?_range hbefore] at hp
      obtain rfl : p = i := by simpa using hp
      rcases Nat.lt_or_ge (p + 1) f.1 with hlt | hge
      · refine .inl ?_
        rw [List.getElem?_append_left (by omega), hfront, List.getElem?_map, List.getElem?_range hlt]
        rfl
      · -- the next position is where the span starts
        have hstart : f.1 = p + 1 := by omega
        obtain ⟨x, rest, rfl⟩ := List.exists_cons_of_ne_nil htext
        refine .inr (.inl ⟨⟨x, List.mem_cons_self, ?_⟩, f, List.mem_cons_self, hstart⟩)
        rw [List.getElem?_append_right (by omega), hlen, hstart, Nat.sub_self]
        rfl
    · have hin : ¬ p - f.1 < text.length := by
        intro hlt
        rw [List.getElem?_append_right (by omega), hlen, List.getElem?_append_left (by simpa using hlt),
          List.getElem?_map] at hp
        cases hx : text[p - f.1]? with
        | none | some => rw [hx] at hp; cases hp
      have hshift {q : Nat} (hq : f.1 + text.length ≤ q) :
          ((cells text n fs).take f.1 ++ (text.map Sum.inr ++ (cells text n fs).drop f.2))[q]? =
            (cells text n fs)[f.2 + (q - f.1 - text.length)]? := by
        rw [List.getElem?_append_right (by omega), hlen, List.getElem?_append_right (by simp; omega),
          List.length_map, List.getElem?_drop]
      rw [hshift (by omega)] at hp
      have hnext : f.2 + (p + 1 - f.1 - text.length) = f.2 + (p - f.1 - text.length) + 1 := by omega
      rw [hshift (by omega), hnext]
      rcases ih h.tail hp with hcell | ⟨hcell, g, hg, hstart⟩ | hcell
      · exact .inl hcell
      · exact .inr (.inl ⟨hcell, g, List.mem_cons_of_mem _ hg, hstart⟩)
      · exact .inr (.inr hcell)

end

end StaleSpans
