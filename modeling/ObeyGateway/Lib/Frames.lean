import Mathlib.Data.List.Basic
import Mathlib.Data.List.Infix

/-!
# Frames

A stream is a sequence of frames, each closed by a separator. A reader keeps what it has read in a buffer and
takes the frames out that are complete; it gets the same frames however the stream is cut (`feed_chunks`).
-/

namespace Frames

variable {α : Type*} [DecidableEq α] (sep : List α)

def cut : List α → Option (List α × List α)
  | [] => none
  | c :: buf =>
    if sep <+: c :: buf then some ([], (c :: buf).drop sep.length)
    else (cut buf).map fun p => (c :: p.1, p.2)

def drainFuel : Nat → List α → List (List α) × List α
  | 0, buf => ([], buf)
  | fuel + 1, buf =>
    match cut sep buf with
    | none => ([], buf)
    | some (frame, rest) => (frame :: (drainFuel fuel rest).1, (drainFuel fuel rest).2)

def drain (buf : List α) : List (List α) × List α := drainFuel sep buf.length buf

def feed (s : List (List α) × List α) (chunk : List α) : List (List α) × List α :=
  (s.1 ++ (drain sep (s.2 ++ chunk)).1, (drain sep (s.2 ++ chunk)).2)

variable {sep} {buf more frame rest seg : List α} {c : α}

theorem cut_eq_some (h : cut sep buf = some (frame, rest)) : buf = frame ++ sep ++ rest := by
  induction buf generalizing frame with
  | nil => cases h
  | cons c buf ih =>
    unfold cut at h
    split at h
    · rename_i hsep
      cases h
      obtain ⟨tail, htail⟩ := hsep
      rw [← htail, List.drop_left, List.nil_append]
    · obtain ⟨⟨frame', rest'⟩, hcut, heq⟩ := Option.map_eq_some_iff.1 h
      cases heq
      rw [ih hcut]
      rfl

theorem length_cut (hsep : sep ≠ []) (h : cut sep buf = some (frame, rest)) : rest.length < buf.length := by
  have hpos := List.length_pos_iff.2 hsep
  rw [cut_eq_some h, List.length_append, List.length_append]
  omega

theorem cut_append (h : cut sep buf = some (frame, rest)) (more : List α) :
    cut sep (buf ++ more) = some (frame, rest ++ more) := by
  induction buf generalizing frame with
  | nil => cases h
  | cons c buf ih =>
    unfold cut at h
    rw [List.cons_append, cut]
    split at h
    · rename_i hsep
      cases h
      have hmore : sep <+: c :: (buf ++ more) := hsep.trans (List.prefix_append (c :: buf) more)
      rw [if_pos hmore, ← List.cons_append, List.drop_append_of_le_length hsep.length_le]
    · rename_i hsep
      obtain ⟨⟨frame', rest'⟩, hcut, heq⟩ := Option.map_eq_some_iff.1 h
      cases heq
      have hlong : sep.length ≤ (c :: buf).length := by
        rw [cut_eq_some hcut, List.length_cons, List.length_append, List.length_append]
        omega
      have hmore : ¬sep <+: c :: (buf ++ more) := fun hp =>
        hsep (List.prefix_of_prefix_length_le hp (List.prefix_append (c :: buf) more) hlong)
      rw [if_neg hmore, ih hcut]
      rfl

theorem cut_cons (h : ¬sep <+: c :: buf) : cut sep (c :: buf) = (cut sep buf).map fun p => (c :: p.1, p.2) := by
  rw [cut, if_neg h]

theorem cut_sep (hsep : sep ≠ []) (rest : List α) : cut sep (sep ++ rest) = some ([], rest) := by
  obtain ⟨c, tail, rfl⟩ := List.exists_cons_of_ne_nil hsep
  rw [List.cons_append, cut, if_pos (by rw [← List.cons_append]; exact List.prefix_append _ _), ← List.cons_append,
    List.drop_left]

section
variable (hsep : sep ≠ [])
include hsep

theorem drainFuel_eq {fuel fuel' : Nat} (h : buf.length ≤ fuel) (h' : buf.length ≤ fuel') :
    drainFuel sep fuel buf = drainFuel sep fuel' buf := by
  induction fuel generalizing buf fuel' with
  | zero =>
    obtain rfl := List.eq_nil_of_length_eq_zero (Nat.le_zero.1 h)
    cases fuel' <;> rfl
  | succ fuel ih =>
    cases fuel' with
    | zero =>
      obtain rfl := List.eq_nil_of_length_eq_zero (Nat.le_zero.1 h')
      rfl
    | succ fuel' =>
      rw [drainFuel, drainFuel]
      rcases hcut : cut sep buf with _ | p
      · rfl
      have hlength := length_cut hsep hcut
      dsimp only
      rw [ih (by omega) (by omega : p.2.length ≤ fuel')]

theorem drain_of_cut (h : cut sep buf = some (frame, rest)) :
    drain sep buf = (frame :: (drain sep rest).1, (drain sep rest).2) := by
  have hlength := length_cut hsep h
  obtain ⟨n, hn⟩ := Nat.exists_eq_succ_of_ne_zero (by omega : buf.length ≠ 0)
  rw [drain, hn, drainFuel, h]
  dsimp only
  rw [drain, drainFuel_eq hsep (by omega : rest.length ≤ n) (le_refl rest.length)]

omit hsep in
theorem drain_of_none (h : cut sep buf = none) : drain sep buf = ([], buf) := by
  rw [drain]
  cases buf.length with
  | zero => rfl
  | succ n => rw [drainFuel, h]

theorem drain_append (buf more : List α) : drain sep (buf ++ more) =
    ((drain sep buf).1 ++ (drain sep ((drain sep buf).2 ++ more)).1, (drain sep ((drain sep buf).2 ++ more)).2) := by
  induction hlength : buf.length using Nat.strongRecOn generalizing buf with
  | _ n ih =>
    rcases hcut : cut sep buf with _ | p
    · rw [drain_of_none hcut, List.nil_append]
    have hlt := length_cut hsep hcut
    rw [drain_of_cut hsep hcut, drain_of_cut hsep (cut_append hcut more), ih p.2.length (by omega) p.2 rfl]
    rfl

theorem cut_rest (buf : List α) : cut sep (drain sep buf).2 = none := by
  induction hlength : buf.length using Nat.strongRecOn generalizing buf with
  | _ n ih =>
    rcases hcut : cut sep buf with _ | p
    · rwa [drain_of_none hcut]
    have hlt := length_cut hsep hcut
    rw [drain_of_cut hsep hcut]
    exact ih p.2.length (by omega) p.2 rfl

/-- The frames do not depend on where the stream is cut. -/
theorem feed_chunks (chunks : List (List α)) : chunks.foldl (feed sep) ([], []) = drain sep chunks.flatten := by
  have hfold (frames : List (List α)) (buf : List α) (hbuf : cut sep buf = none) :
      chunks.foldl (feed sep) (frames, buf) =
        (frames ++ (drain sep (buf ++ chunks.flatten)).1, (drain sep (buf ++ chunks.flatten)).2) := by
    induction chunks generalizing frames buf with
    | nil => rw [List.foldl_nil, List.flatten_nil, List.append_nil, drain_of_none hbuf, List.append_nil]
    | cons chunk chunks ih =>
      rw [List.foldl_cons, feed, ih _ _ (cut_rest hsep _), List.flatten_cons, ← List.append_assoc,
        drain_append hsep (buf ++ chunk), List.append_assoc]
  rw [hfold [] [] rfl, List.nil_append]
  rfl

end

end Frames
