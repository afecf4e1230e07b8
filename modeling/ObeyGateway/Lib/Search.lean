import ObeyGateway.Lib.Frames

/-!
# Searching a list

`Frames.cut` finds the first occurrence of a pattern, `cutLast` the last one. `NoStart pat xs ys` says that no
occurrence begins in `xs` when `ys` follows, so that a search goes on in `ys`. A pattern that opens with a
character of its own can only begin where that character is: `noStart_of_notMem` and `noStart_tag` decide it piece
by piece.
-/

namespace Search
open Frames

variable {α : Type*} [DecidableEq α]

def cutLast (pat : List α) : List α → Option (List α × List α)
  | [] => none
  | c :: text =>
    match cutLast pat text with
    | some (before, after) => some (c :: before, after)
    | none => if pat <+: c :: text then some ([], (c :: text).drop pat.length) else none

def NoStart (pat : List α) : List α → List α → Prop
  | [], _ => True
  | c :: xs, ys => ¬ pat <+: c :: (xs ++ ys) ∧ NoStart pat xs ys

variable {pat w xs ys zs : List α} {c : α}

omit [DecidableEq α] in
theorem append_cons_inj {xs' ys' : List α} (hxs : c ∉ xs) (hys : c ∉ ys) (h : xs ++ c :: xs' = ys ++ c :: ys') :
    xs = ys ∧ xs' = ys' := by
  induction xs generalizing ys with
  | nil =>
    rcases ys with _ | ⟨d, ys⟩
    · simpa using h
    have hd : c = d := (List.cons.inj h).1
    exact absurd (hd ▸ List.mem_cons_self) hys
  | cons d xs ih =>
    rcases ys with _ | ⟨e, ys⟩
    · have hd : d = c := (List.cons.inj h).1
      exact absurd (hd ▸ List.mem_cons_self) hxs
    obtain ⟨rfl, h'⟩ := List.cons.inj h
    obtain ⟨rfl, rfl⟩ := ih (fun hc => hxs (List.mem_cons_of_mem _ hc)) (fun hc => hys (List.mem_cons_of_mem _ hc)) h'
    exact ⟨rfl, rfl⟩

omit [DecidableEq α] in
theorem NoStart.append (hxs : NoStart pat xs (ys ++ zs)) (hys : NoStart pat ys zs) : NoStart pat (xs ++ ys) zs := by
  induction xs with
  | nil => exact hys
  | cons d xs ih =>
    refine ⟨?_, ih hxs.2⟩
    show ¬ pat <+: d :: ((xs ++ ys) ++ zs)
    rw [List.append_assoc]
    exact hxs.1

omit [DecidableEq α] in
theorem NoStart.right (h : NoStart pat (xs ++ ys) zs) : NoStart pat ys zs := by
  induction xs with
  | nil => exact h
  | cons d xs ih => exact ih h.2

omit [DecidableEq α] in
theorem noStart_of_notMem (h : c ∉ xs) (ys : List α) : NoStart (c :: w) xs ys := by
  induction xs with
  | nil => trivial
  | cons d xs ih =>
    obtain ⟨hd, hxs⟩ : c ≠ d ∧ c ∉ xs := by simpa using h
    exact ⟨fun hp => hd (List.cons_prefix_cons.1 hp).1, ih hxs⟩

omit [DecidableEq α] in
theorem noStart_tag (hbody : c ∉ xs) (h : ¬ w <+: xs ++ ys) : NoStart (c :: w) (c :: xs) ys :=
  ⟨fun hp => h (List.cons_prefix_cons.1 hp).2, noStart_of_notMem hbody ys⟩

omit [DecidableEq α] in
theorem noStart_of_absent (h : ¬ pat <:+: xs ++ ys) : NoStart pat xs ys := by
  induction xs with
  | nil => trivial
  | cons d xs ih => exact ⟨fun hp => h hp.isInfix, ih fun hi => h (hi.trans (List.suffix_cons d _).isInfix)⟩

omit [DecidableEq α] in
theorem prefix_of_prefix_append_cons (hc : c ∉ w) (h : w <+: xs ++ c :: ys) : w <+: xs := by
  induction w generalizing xs with
  | nil => exact List.nil_prefix
  | cons d w ih =>
    obtain ⟨hd, hw⟩ : c ≠ d ∧ c ∉ w := by simpa using hc
    rcases xs with _ | ⟨e, xs⟩
    · exact absurd (List.cons_prefix_cons.1 h).1 hd.symm
    obtain ⟨rfl, h'⟩ := List.cons_prefix_cons.1 h
    exact List.cons_prefix_cons.2 ⟨rfl, ih hw h'⟩

omit [DecidableEq α] in
theorem NoStart.cons_of_notMem (h : NoStart pat xs ys) (hc : c ∉ pat) (zs : List α) : NoStart pat xs (c :: zs) := by
  induction xs with
  | nil => trivial
  | cons d xs ih =>
    refine ⟨fun hp => h.1 ?_, ih h.2⟩
    have hpat : pat <+: d :: xs := prefix_of_prefix_append_cons hc hp
    exact hpat.trans (List.prefix_append _ _)

omit [DecidableEq α] in
theorem noStart_cons_of_notMem (hc : c ∉ pat) (h : ¬ pat <:+: xs) (ys : List α) : NoStart pat xs (c :: ys) := by
  induction xs with
  | nil => trivial
  | cons d xs ih =>
    refine ⟨fun hp => h ?_, ih fun hi => h (hi.trans (List.suffix_cons d _).isInfix)⟩
    exact (prefix_of_prefix_append_cons hc hp).isInfix

omit [DecidableEq α] in
theorem noStart_cons_of_absent (hc : c ∉ w) (h : ¬ c :: w <:+: xs) (ys : List α) : NoStart (c :: w) xs (c :: ys) := by
  induction xs with
  | nil => trivial
  | cons d xs ih =>
    refine ⟨fun hp => h ?_, ih fun hi => h (hi.trans (List.suffix_cons d _).isInfix)⟩
    obtain ⟨rfl, hw⟩ := List.cons_prefix_cons.1 hp
    exact (List.cons_prefix_cons.2 ⟨rfl, prefix_of_prefix_append_cons hc hw⟩).isInfix

theorem cut_of_noStart (h : NoStart pat xs ys) : cut pat (xs ++ ys) = (cut pat ys).map fun p => (xs ++ p.1, p.2) := by
  induction xs with
  | nil => simp
  | cons d xs ih =>
    rw [List.cons_append, cut_cons h.1, ih h.2, Option.map_map]
    rfl

theorem cut_occurrence (hpat : pat ≠ []) (h : NoStart pat xs (pat ++ ys)) :
    cut pat (xs ++ (pat ++ ys)) = some (xs, ys) := by
  rw [cut_of_noStart h, cut_sep hpat]
  simp

theorem cut_singleton (h : c ∉ xs) : cut [c] (xs ++ c :: ys) = some (xs, ys) :=
  cut_occurrence (List.cons_ne_nil _ _) (noStart_of_notMem h _)

theorem cut_eq_none (h : NoStart pat xs []) : cut pat xs = none := by
  induction xs with
  | nil => rfl
  | cons d xs ih =>
    have hd : ¬ pat <+: d :: xs := by simpa using h.1
    rw [cut_cons hd, ih h.2]
    rfl

theorem first_of_cut (h : cut pat zs = some (xs, ys)) : zs = xs ++ (pat ++ ys) ∧ NoStart pat xs (pat ++ ys) := by
  refine ⟨by rw [cut_eq_some h, List.append_assoc], ?_⟩
  induction zs generalizing xs with
  | nil => cases h
  | cons d zs ih =>
    by_cases hpat : pat <+: d :: zs
    · rw [cut, if_pos hpat] at h
      cases h
      trivial
    · have htext := cut_eq_some h
      rw [cut_cons hpat] at h
      obtain ⟨⟨xs', ys'⟩, hcut, heq⟩ := Option.map_eq_some_iff.1 h
      cases heq
      refine ⟨?_, ih hcut⟩
      rw [List.append_assoc] at htext
      exact fun h => hpat (htext ▸ h)

omit [DecidableEq α] in
theorem NoStart.prefix_of_eq (h : NoStart pat xs (pat ++ ys)) {zs ws : List α} (heq : xs ++ (pat ++ ys) = zs ++ (pat ++ ws)) :
    xs <+: zs := by
  induction xs generalizing zs with
  | nil => exact List.nil_prefix
  | cons d xs ih =>
    rcases zs with _ | ⟨e, zs⟩
    · rw [List.nil_append] at heq
      exact absurd ⟨ws, heq.symm⟩ h.1
    obtain ⟨rfl, htail⟩ := List.cons.inj heq
    exact List.cons_prefix_cons.2 ⟨rfl, ih h.2 htail⟩

theorem cutLast_eq_some (h : cutLast pat zs = some (xs, ys)) : zs = xs ++ (pat ++ ys) := by
  induction zs generalizing xs with
  | nil => cases h
  | cons c zs ih =>
    rw [cutLast] at h
    cases hcut : cutLast pat zs with
    | some p =>
      rw [hcut] at h
      cases h
      rw [ih hcut]
      rfl
    | none =>
      rw [hcut] at h
      dsimp only at h
      split at h
      · rename_i hpre
        cases h
        exact List.prefix_append_drop hpre
      · cases h

theorem cut_eq_none_iff (hpat : pat ≠ []) : cut pat zs = none ↔ ¬ pat <:+: zs := by
  constructor
  · rintro h ⟨front, back, rfl⟩
    induction front with
    | nil =>
      rw [List.nil_append, cut_sep hpat] at h
      cases h
    | cons d front ih =>
      rw [List.cons_append, List.cons_append] at h
      by_cases hd : pat <+: d :: (front ++ pat ++ back)
      · rw [cut, if_pos hd] at h
        cases h
      · rw [cut_cons hd, Option.map_eq_none_iff] at h
        exact ih h
  · intro h
    exact cut_eq_none (noStart_of_absent (by rwa [List.append_nil]))

theorem cutLast_eq_none (h : NoStart pat xs []) : cutLast pat xs = none := by
  induction xs with
  | nil => rfl
  | cons d xs ih =>
    have hd : ¬ pat <+: d :: xs := by simpa using h.1
    rw [cutLast, ih h.2]
    exact if_neg hd

theorem cutLast_occurrence (h : NoStart (c :: w) (w ++ ys) []) (xs : List α) :
    cutLast (c :: w) (xs ++ (c :: w ++ ys)) = some (xs, ys) := by
  induction xs with
  | nil =>
    rw [List.nil_append, List.cons_append, cutLast, cutLast_eq_none h]
    simp
  | cons d xs ih => rw [List.cons_append, cutLast, ih]

omit [DecidableEq α] in
theorem exists_occurrence (hpat : pat ≠ []) (h : pat <:+: xs) : ∃ ys zs, xs = ys ++ (pat ++ zs) ∧ ¬ pat <:+: ys := by
  induction xs with
  | nil => exact absurd (List.infix_nil.1 h) hpat
  | cons d xs ih =>
    by_cases hp : pat <+: d :: xs
    · obtain ⟨zs, hzs⟩ := hp
      exact ⟨[], zs, hzs.symm, fun hi => hpat (List.infix_nil.1 hi)⟩
    · rcases List.infix_cons_iff.1 h with hp' | hi
      · exact absurd hp' hp
      · obtain ⟨ys, zs, rfl, hys⟩ := ih hi
        refine ⟨d :: ys, zs, rfl, fun hi => ?_⟩
        rcases List.infix_cons_iff.1 hi with hpre | hi
        · exact hp (hpre.trans (List.prefix_append (d :: ys) _))
        · exact hys hi

omit [DecidableEq α] in
theorem length_le_flatMap {β : Type*} {f : β → List α} {bs : List β} (h : ∀ b ∈ bs, f b ≠ []) :
    bs.length ≤ (bs.flatMap f).length := by
  induction bs with
  | nil => exact Nat.zero_le _
  | cons b bs ih =>
    rw [List.forall_mem_cons] at h
    have hb : 0 < (f b).length := List.length_pos_iff.2 h.1
    have hbs := ih h.2
    rw [List.flatMap_cons, List.length_append, List.length_cons]
    omega

omit [DecidableEq α] in
theorem exists_last {p : α → Bool} (h : ∃ a ∈ xs, p a = true) :
    ∃ ys a zs, xs = ys ++ a :: zs ∧ p a = true ∧ ∀ d ∈ zs, p d = false := by
  obtain ⟨a, ha⟩ : ∃ a, xs.reverse.find? p = some a :=
    Option.isSome_iff_exists.1 (List.find?_isSome.2 (by simpa using h))
  obtain ⟨hp, zs, ys, hrev, hzs⟩ := List.find?_eq_some_iff_append.1 ha
  refine ⟨ys.reverse, a, zs.reverse, ?_, hp, fun d hd => ?_⟩
  · rw [← List.reverse_reverse xs, hrev]
    simp
  · simpa using hzs d (List.mem_reverse.1 hd)

omit [DecidableEq α] in
theorem exists_first {p : α → Bool} (h : ∃ a ∈ xs, p a = true) :
    ∃ ys a zs, xs = ys ++ a :: zs ∧ p a = true ∧ ∀ d ∈ ys, p d = false := by
  obtain ⟨a, ha⟩ : ∃ a, xs.find? p = some a := Option.isSome_iff_exists.1 (List.find?_isSome.2 h)
  obtain ⟨hp, ys, zs, hxs, hys⟩ := List.find?_eq_some_iff_append.1 ha
  exact ⟨ys, a, zs, hxs, hp, fun d hd => by simpa using hys d hd⟩

end Search
