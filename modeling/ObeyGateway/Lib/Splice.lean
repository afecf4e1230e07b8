import Mathlib.Data.List.Basic
import Mathlib.Data.List.Infix

/-!
# Editing a list at spans

`Edit` is a span of a list and the text that replaces it. Edits that lie one after the other can be
applied from the right to the left, each by one `replaceRange`, or read off from the left to the right
(`assemble`); the two agree (`foldl_replaceRange`).
-/

namespace Splice

variable {α : Type*}

/-- The elements at the positions from `a` up to `b`. -/
def slice (xs : List α) (a b : Nat) : List α := (xs.take b).drop a

def replaceRange (xs : List α) (a b : Nat) (text : List α) : List α := xs.take a ++ text ++ xs.drop b

structure Edit (α : Type*) where
  start : Nat
  stop : Nat
  text : List α

/-- The edits lie one after the other between `pos` and `len`. -/
def Ascending (len : Nat) : Nat → List (Edit α) → Prop
  | pos, [] => pos ≤ len
  | pos, e :: es => pos ≤ e.start ∧ e.start ≤ e.stop ∧ Ascending len e.stop es

/-- Each edit ends before the one to its left in the list begins, all of them up to `bound`. -/
def Descending : Nat → List (Edit α) → Prop
  | _, [] => True
  | bound, e :: es => e.start ≤ e.stop ∧ e.stop ≤ bound ∧ Descending e.start es

/-- The list from `pos` on with the edits applied. -/
def assemble (xs : List α) : Nat → List (Edit α) → List α
  | pos, [] => xs.drop pos
  | pos, e :: es => slice xs pos e.start ++ (e.text ++ assemble xs e.stop es)

/-- What lies between the edits, from `pos` on. -/
def pieces (xs : List α) : Nat → List (Edit α) → List (List α)
  | pos, [] => [xs.drop pos]
  | pos, e :: es => slice xs pos e.start :: pieces xs e.stop es

theorem slice_zero (xs : List α) (b : Nat) : slice xs 0 b = xs.take b := rfl

theorem slice_append_drop (xs : List α) {a b : Nat} (h : a ≤ b) : slice xs a b ++ xs.drop b = xs.drop a := by
  unfold slice
  rw [List.drop_take]
  conv_rhs => rw [← List.take_append_drop (b - a) (xs.drop a)]
  rw [List.drop_drop, Nat.add_sub_cancel' h]

theorem slice_append_slice (xs : List α) {a b c : Nat} (hab : a ≤ b) (hbc : b ≤ c) :
    slice xs a b ++ slice xs b c = slice xs a c := by
  have h : slice (xs.take c) a b ++ (xs.take c).drop b = (xs.take c).drop a :=
    slice_append_drop _ hab
  unfold slice at h ⊢
  rwa [List.take_take, min_eq_left hbc] at h

theorem length_slice (xs : List α) {a b : Nat} (h : b ≤ xs.length) : (slice xs a b).length = b - a := by
  simp [slice, h]

namespace Ascending

variable {len pos : Nat} {es : List (Edit α)} {xs : List α}

theorem le (h : Ascending len pos es) : pos ≤ len := by
  induction es generalizing pos with
  | nil => exact h
  | cons e es ih => exact h.1.trans (h.2.1.trans (ih h.2.2))

theorem mono {pos' : Nat} (h : Ascending len pos es) (hp : pos' ≤ pos) : Ascending len pos' es := by
  cases es with
  | nil => exact hp.trans h
  | cons e es => exact ⟨hp.trans h.1, h.2⟩

theorem start_le (h : Ascending len pos es) {e : Edit α} (he : e ∈ es) :
    pos ≤ e.start ∧ e.start ≤ e.stop ∧ e.stop ≤ len := by
  induction es generalizing pos with
  | nil => cases he
  | cons e' es ih =>
    rcases List.mem_cons.1 he with rfl | he
    · exact ⟨h.1, h.2.1, h.2.2.le⟩
    · obtain ⟨h1, h2, h3⟩ := ih h.2.2 he
      exact ⟨(h.1.trans h.2.1).trans h1, h2, h3⟩

theorem filter (h : Ascending len pos es) (p : Edit α → Bool) : Ascending len pos (es.filter p) := by
  induction es generalizing pos with
  | nil => exact h
  | cons e es ih =>
    rw [List.filter_cons]
    split
    · exact ⟨h.1, h.2.1, ih h.2.2⟩
    · exact (ih h.2.2).mono (h.1.trans h.2.1)

theorem of_append {front : List (Edit α)} (h : Ascending len pos (front ++ es)) : Ascending len pos es := by
  induction front generalizing pos with
  | nil => exact h
  | cons f front ih => exact (ih h.2.2).mono (h.1.trans h.2.1)

end Ascending

theorem Ascending.concat {len len' pos : Nat} {e : Edit α} {es : List (Edit α)}
    (h : Ascending len pos es) (hs : len ≤ e.start) (hse : e.start ≤ e.stop) (he : e.stop ≤ len') :
    Ascending len' pos (es ++ [e]) := by
  induction es generalizing pos with
  | nil => exact ⟨h.trans hs, hse, he⟩
  | cons e' es ih => exact ⟨h.1, h.2.1, ih h.2.2⟩

theorem Descending.reverse {bound : Nat} {es : List (Edit α)} (h : Descending bound es) : Ascending bound 0 es.reverse := by
  induction es generalizing bound with
  | nil => exact Nat.zero_le _
  | cons e es ih =>
    rw [List.reverse_cons]
    exact (ih h.2.2).concat le_rfl h.1 h.2.1

variable {xs : List α} {pos : Nat} {e : Edit α} {es : List (Edit α)}

theorem assemble_zero_nil : assemble xs 0 [] = xs := rfl

theorem assemble_shift {len pos pos' : Nat} {es : List (Edit α)} (hpos : pos ≤ pos') (h : Ascending len pos' es) :
    assemble xs pos es = slice xs pos pos' ++ assemble xs pos' es := by
  rcases es with _ | ⟨e, es⟩
  · exact (slice_append_drop xs hpos).symm
  simp only [assemble]
  rw [← List.append_assoc (slice xs pos pos'), slice_append_slice xs hpos h.1]

theorem assemble_filter {q : Edit α → Bool} (h : Ascending xs.length pos es)
    (hq : ∀ e ∈ es, q e = false → e.text = slice xs e.start e.stop) :
    assemble xs pos (es.filter q) = assemble xs pos es := by
  induction es generalizing pos with
  | nil => rfl
  | cons e es ih =>
    obtain ⟨hpos, hse, hrest⟩ := h
    have hih := ih hrest fun e' he' => hq e' (List.mem_cons_of_mem _ he')
    rw [List.filter_cons]
    split
    · simp only [assemble, hih]
    · rename_i hno
      have htext := hq e List.mem_cons_self (by simpa using hno)
      have hfilter := hrest.filter q
      rw [assemble_shift hpos (hfilter.mono hse), assemble_shift hse hfilter, hih, ← htext]
      rfl

theorem replaceRange_assemble (h : Ascending xs.length 0 (e :: es)) :
    replaceRange (assemble xs 0 es) e.start e.stop e.text = assemble xs 0 (e :: es) := by
  obtain ⟨-, hse, hrest⟩ := h
  rcases es with _ | ⟨e', es⟩
  · simp [replaceRange, assemble, slice_zero]
  obtain ⟨hlt, hse', hrest'⟩ := hrest
  have hlen : e'.start ≤ xs.length := hse'.trans hrest'.le
  have htake : (xs.take e'.start).length = e'.start := by simp [hlen]
  have h1 : (assemble xs 0 (e' :: es)).take e.start = xs.take e.start := by
    simp only [assemble, slice_zero]
    rw [List.take_append_of_le_length (by omega), List.take_take, min_eq_left (hse.trans hlt)]
  have h2 : (assemble xs 0 (e' :: es)).drop e.stop = assemble xs e.stop (e' :: es) := by
    simp only [assemble, slice_zero]
    rw [List.drop_append_of_le_length (by omega)]
    rfl
  rw [replaceRange, h1, h2]
  simp [assemble, slice_zero]

/-- Replacing from the right to the left gives what reading from the left to the right gives. -/
theorem foldl_replaceRange (h : Ascending xs.length 0 (es.reverse)) :
    es.foldl (fun out e => replaceRange out e.start e.stop e.text) xs = assemble xs 0 es.reverse := by
  suffices hgen : ∀ (es acc : List (Edit α)), Ascending xs.length 0 (es.reverse ++ acc) →
      es.foldl (fun out e => replaceRange out e.start e.stop e.text) (assemble xs 0 acc) =
        assemble xs 0 (es.reverse ++ acc) by
    have := hgen es [] (by simpa using h)
    simpa [assemble_zero_nil] using this
  intro es
  induction es with
  | nil => intro acc _; rfl
  | cons e es ih =>
    intro acc hasc
    simp only [List.reverse_cons, List.append_assoc, List.singleton_append] at hasc ⊢
    rw [List.foldl_cons, replaceRange_assemble hasc.of_append]
    exact ih (e :: acc) hasc

/-- The elements at the positions that `covered` leaves out. -/
def keep (xs : List α) (covered : Nat → Bool) : List α :=
  (xs.zipIdx.filter fun p => !covered p.2).map (·.1)

def covers (es : List (Edit α)) (i : Nat) : Bool := es.any fun e => e.start ≤ i && i < e.stop

theorem not_covers (h : Ascending xs.length pos es) {i : Nat} (hi : i < pos) : covers es i = false := by
  simp only [covers, List.any_eq_false, Bool.and_eq_true, decide_eq_true_eq]
  rintro e he ⟨h1, -⟩
  have := (h.start_le he).1
  omega

theorem keepFrom_all {ys : List α} {n : Nat} {covered : Nat → Bool}
    (h : ∀ i, n ≤ i → i < n + ys.length → covered i = false) :
    ((ys.zipIdx n).filter fun p => !covered p.2).map (·.1) = ys := by
  rw [List.filter_eq_self.2]
  · simp
  · rintro ⟨y, i⟩ hmem
    obtain ⟨h1, h2, -⟩ := List.mem_zipIdx hmem
    simp [h i h1 h2]

theorem keepFrom_none {ys : List α} {n : Nat} {covered : Nat → Bool}
    (h : ∀ i, n ≤ i → i < n + ys.length → covered i = true) :
    (ys.zipIdx n).filter (fun p => !covered p.2) = [] := by
  rw [List.filter_eq_nil_iff]
  rintro ⟨y, i⟩ hmem
  obtain ⟨h1, h2, -⟩ := List.mem_zipIdx hmem
  simp [h i h1 h2]

/-- The pieces between the edits are the elements at the positions no edit covers. -/
theorem flatten_pieces_from (h : Ascending xs.length pos es) : (pieces xs pos es).flatten =
      (((xs.drop pos).zipIdx pos).filter fun p => !covers es p.2).map (·.1) := by
  induction es generalizing pos with
  | nil => simp [pieces, covers]
  | cons e es ih =>
    obtain ⟨hpos, hse, hrest⟩ := h
    have hlen := hrest.le
    have hcut : xs.drop pos = slice xs pos e.start ++ (slice xs e.start e.stop ++ xs.drop e.stop) := by
      rw [slice_append_drop xs hse, slice_append_drop xs hpos]
    have hl1 : (slice xs pos e.start).length = e.start - pos := length_slice xs (hse.trans hlen)
    have hl2 : (slice xs e.start e.stop).length = e.stop - e.start := length_slice xs hlen
    have hcov : ∀ i, covers (e :: es) i = (decide (e.start ≤ i) && decide (i < e.stop) || covers es i) :=
      fun i => by simp [covers]
    simp only [pieces, List.flatten_cons]
    rw [hcut, List.zipIdx_append, List.zipIdx_append, List.filter_append, List.filter_append,
      List.map_append, List.map_append, hl1, hl2]
    have e1 : pos + (e.start - pos) = e.start := by omega
    have e2 : e.start + (e.stop - e.start) = e.stop := by omega
    rw [e1, e2]
    congr 1
    · -- before the edit nothing is covered
      refine (keepFrom_all fun i h1 h2 => ?_).symm
      rw [hl1] at h2
      rw [hcov, not_covers hrest (by omega)]
      simp; omega
    · -- the span itself goes, the rest is covered by the other edits only
      rw [keepFrom_none fun i h1 h2 => by
        rw [hl2] at h2
        rw [hcov]
        simp; omega]
      rw [List.map_nil, List.nil_append, ih hrest]
      congr 1
      refine List.filter_congr fun p hp => ?_
      obtain ⟨x, i⟩ := p
      obtain ⟨h1, -, -⟩ := List.mem_zipIdx hp
      rw [hcov]
      simp
      omega

theorem mem_of_mem_pieces {piece : List α} (h : piece ∈ pieces xs pos es) {x : α} (hx : x ∈ piece) : x ∈ xs := by
  induction es generalizing pos with
  | nil =>
    rw [pieces, List.mem_singleton] at h
    exact List.mem_of_mem_drop (h ▸ hx)
  | cons e es ih =>
    rcases List.mem_cons.1 h with rfl | h
    · exact List.mem_of_mem_take (List.mem_of_mem_drop hx)
    · exact ih h

theorem flatten_pieces (h : Ascending xs.length 0 es) : (pieces xs 0 es).flatten = keep xs (covers es) := by
  rw [flatten_pieces_from h]
  rfl

end Splice
