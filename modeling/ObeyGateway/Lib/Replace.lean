import ObeyGateway.Lib.Splice

/-!
# Replacing the occurrences of a token

`replaceAll` replaces the occurrences of a pattern from the left to the right, without overlap. A
`Bracketed` pattern opens with two `lt`, closes with two `gt` and has neither in between. In a list
put together from pieces and tokens the occurrences of a token that no piece has are exactly the
places where it was put (`replaceAll_assemble`).
-/

namespace Splice

variable {α : Type*}

structure Bracketed (lt gt : α) (p : List α) : Prop where
  ne : lt ≠ gt
  shape : ∃ body, p = lt :: lt :: (body ++ [gt, gt]) ∧ lt ∉ body ∧ gt ∉ body

variable {lt gt : α} {p q xs ys : List α}

theorem eq_of_prefix_before_gt {b b' r r' : List α} (hb : gt ∉ b) (hb' : gt ∉ b')
    (h : b ++ gt :: r <+: b' ++ gt :: r') : b = b' := by
  induction b generalizing b' with
  | nil =>
    rcases b' with _ | ⟨x, b'⟩
    · rfl
    have : gt = x := (List.cons_prefix_cons.1 h).1
    exact absurd (this ▸ List.mem_cons_self) hb'
  | cons y b ih =>
    rcases b' with _ | ⟨x, b'⟩
    · have : y = gt := (List.cons_prefix_cons.1 h).1
      exact absurd (this ▸ List.mem_cons_self) hb
    obtain ⟨rfl, htail⟩ := List.cons_prefix_cons.1 h
    rw [ih (fun hm => hb (List.mem_cons_of_mem _ hm))
      (fun hm => hb' (List.mem_cons_of_mem _ hm)) htail]

namespace Bracketed

theorem ne_nil (hp : Bracketed lt gt p) : p ≠ [] := by
  obtain ⟨b, rfl, -, -⟩ := hp.shape
  simp

/-- A token does not begin inside another one, nor at its start unless it is that one. -/
theorem not_prefix_token (hp : Bracketed lt gt p) (hq : Bracketed lt gt q) (hpq : q ≠ p)
    (ys : List α) {i : Nat} (hi : i < q.length) : ¬ p <+: q.drop i ++ ys := by
  obtain ⟨b, rfl, hlb, hgb⟩ := hp.shape
  obtain ⟨b', rfl, hlb', hgb'⟩ := hq.shape
  have hlt : ∀ x ∈ b' ++ [gt, gt], x ≠ lt := by
    intro x hx hxl
    rcases List.mem_append.1 hx with hx | hx
    · exact hlb' (hxl ▸ hx)
    · have : x = gt := by simpa using hx
      exact hp.ne (hxl.symm.trans this)
  intro h
  match i, hi with
  | 0, _ =>
    have h1 : b ++ gt :: [gt] <+: b' ++ gt :: (gt :: ys) := by
      simpa using h
    exact hpq (by rw [eq_of_prefix_before_gt hgb hgb' h1])
  | 1, _ =>
    have h1 : lt :: (b ++ [gt, gt]) <+: (b' ++ [gt, gt]) ++ ys := (List.cons_prefix_cons.1 h).2
    rcases hc : b' ++ [gt, gt] with _ | ⟨x, c⟩
    · simp at hc
    rw [hc] at h1
    exact hlt x (by rw [hc]; exact List.mem_cons_self) (List.cons_prefix_cons.1 h1).1.symm
  | i + 2, hi =>
    have h1 : lt :: lt :: (b ++ [gt, gt]) <+: (b' ++ [gt, gt]).drop i ++ ys := h
    rcases hc : (b' ++ [gt, gt]).drop i with _ | ⟨x, c⟩
    · rw [List.drop_eq_nil_iff] at hc
      simp only [List.length_cons] at hi
      omega
    rw [hc] at h1
    refine hlt x (List.mem_of_mem_drop (i := i) ?_) (List.cons_prefix_cons.1 h1).1.symm
    rw [hc]
    exact List.mem_cons_self

/-- A token that a text does not have does not begin in it, whether the text is the last one or a token follows. -/
theorem not_prefix_text (hp : Bracketed lt gt p) (hxs : ¬ p <:+: xs)
    (hys : ys = [] ∨ ∃ zs, ys = lt :: lt :: zs) {i : Nat} (hi : i < xs.length) :
    ¬ p <+: xs.drop i ++ ys := by
  have hinfix : ¬ p <+: xs.drop i := fun h =>
    hxs (h.isInfix.trans (List.drop_suffix i xs).isInfix)
  rintro ⟨t, ht⟩
  rcases List.append_eq_append_iff.1 ht with ⟨a, hdrop, -⟩ | ⟨w, hpw, hrest⟩
  · exact hinfix ⟨a, hdrop.symm⟩
  · -- the occurrence is the end `xs.drop i` of the text and a beginning `w` of what follows
    rcases w with _ | ⟨c, w⟩
    · exact hinfix ⟨[], by rw [hpw]; simp⟩
    rcases hys with rfl | ⟨zs, rfl⟩
    · cases hrest
    · obtain ⟨b, rfl, hlb, -⟩ := hp.shape
      have hlt : lt ∉ b ++ [gt, gt] := by simpa [hlb] using hp.ne
      obtain ⟨rfl, hzs⟩ := List.cons.inj hrest
      obtain ⟨u, us, hu⟩ := List.exists_cons_of_ne_nil (l := xs.drop i) (by simpa using hi)
      rw [hu] at hpw
      obtain ⟨-, hpw⟩ := List.cons.inj hpw
      rcases us with _ | ⟨u', us⟩
      · obtain ⟨-, hw⟩ := List.cons.inj hpw
        refine hlt ?_
        rcases w with _ | ⟨d, w⟩
        · simp at hw
        rw [hw, (List.cons.inj hzs).1]
        exact List.mem_cons_self
      obtain ⟨-, hw⟩ := List.cons.inj hpw
      exact hlt (by rw [hw]; simp)

end Bracketed

variable [DecidableEq α] {pat text : List α}

/-- The first argument counts the elements of the current occurrence still to be skipped. -/
def replaceFrom (pat text : List α) : Nat → List α → List α
  | _, [] => []
  | 0, x :: xs =>
    if pat <+: x :: xs then text ++ replaceFrom pat text (pat.length - 1) xs
    else x :: replaceFrom pat text 0 xs
  | k + 1, _ :: xs => replaceFrom pat text k xs

def replaceAll (pat text xs : List α) : List α := replaceFrom pat text 0 xs

theorem replaceFrom_skip (pat text : List α) (xs ys : List α) :
    replaceFrom pat text xs.length (xs ++ ys) = replaceFrom pat text 0 ys := by
  induction xs with
  | nil => rfl
  | cons x xs ih => exact ih

theorem replaceAll_append (h : ∀ i, i < xs.length → ¬ pat <+: xs.drop i ++ ys) :
    replaceAll pat text (xs ++ ys) = xs ++ replaceAll pat text ys := by
  induction xs with
  | nil => rfl
  | cons x xs ih =>
    have h0 : ¬ pat <+: x :: (xs ++ ys) := h 0 (by simp)
    rw [List.cons_append, replaceAll, replaceFrom, if_neg h0]
    exact congrArg (x :: ·) (ih fun i hi => h (i + 1) (by simpa using hi))

theorem replaceAll_occurrence (hne : pat ≠ []) : replaceAll pat text (pat ++ ys) = text ++ replaceAll pat text ys := by
  obtain ⟨x, p, rfl⟩ := List.exists_cons_of_ne_nil hne
  have h0 : x :: p <+: x :: (p ++ ys) := List.prefix_append (x :: p) ys
  rw [List.cons_append, replaceAll, replaceFrom, if_pos h0]
  exact congrArg (text ++ ·) (replaceFrom_skip _ _ p ys)

theorem replaceAll_of_absent (h : ¬ pat <:+: xs) : replaceAll pat text xs = xs := by
  have hcopy : replaceAll pat text (xs ++ []) = xs ++ replaceAll pat text [] :=
    replaceAll_append fun i _ hpre => by
      rw [List.append_nil] at hpre
      exact h (hpre.isInfix.trans (List.drop_suffix i xs).isInfix)
  simpa [replaceAll, replaceFrom] using hcopy

theorem length_replaceFrom_le (k : Nat) (xs : List α) : (replaceFrom pat [] k xs).length ≤ xs.length := by
  induction xs generalizing k with
  | nil => exact Nat.zero_le _
  | cons x xs ih =>
    cases k with
    | succ k => exact Nat.le_succ_of_le (ih k)
    | zero =>
      rw [replaceFrom]
      split
      · exact Nat.le_succ_of_le (ih _)
      · exact Nat.succ_le_succ (ih 0)

theorem length_replaceAll_lt (hne : pat ≠ []) {xs : List α} (h : pat <:+: xs) : (replaceAll pat [] xs).length < xs.length := by
  induction xs with
  | nil => exact absurd (List.infix_nil.1 h) hne
  | cons x xs ih =>
    rw [replaceAll, replaceFrom]
    by_cases hstart : pat <+: x :: xs
    · rw [if_pos hstart]
      exact Nat.lt_succ_of_le (length_replaceFrom_le _ xs)
    · rw [if_neg hstart]
      exact Nat.succ_lt_succ (ih ((List.infix_cons_iff.1 h).resolve_left hstart))

theorem replaceAll_self (hne : pat ≠ []) (xs : List α) : replaceAll pat pat xs = xs := by
  induction hn : xs.length using Nat.strong_induction_on generalizing xs with
  | _ n ih =>
    rcases xs with _ | ⟨x, xs⟩
    · rfl
    by_cases hpre : pat <+: x :: xs
    · obtain ⟨rest, hrest⟩ := hpre
      have hlen := congrArg List.length hrest
      have hpos := List.length_pos_of_ne_nil hne
      rw [List.length_append] at hlen
      rw [← hrest, replaceAll_occurrence hne, ih rest.length (by omega) rest rfl]
    · rw [replaceAll, replaceFrom, if_neg hpre]
      exact congrArg (x :: ·) (ih xs.length (by simp [← hn]) xs rfl)

/-- Replacing a token by what stood at its edits undoes these edits, when no piece has the token. -/
theorem replaceAll_assemble {pos : Nat} {es : List (Edit α)} {v : List α}
    (hp : Bracketed lt gt p) (h : Ascending xs.length pos es)
    (htokens : ∀ e ∈ es, Bracketed lt gt e.text)
    (hv : ∀ e ∈ es, e.text = p → slice xs e.start e.stop = v)
    (hpieces : ∀ piece ∈ pieces xs pos es, ¬ p <:+: piece) :
    replaceAll p v (assemble xs pos es) = assemble xs pos (es.filter (·.text ≠ p)) := by
  induction es generalizing pos with
  | nil =>
    have hcopy : replaceAll p v (xs.drop pos ++ []) = xs.drop pos ++ replaceAll p v [] :=
      replaceAll_append fun i hi =>
        hp.not_prefix_text (hpieces _ List.mem_cons_self) (.inl rfl) hi
    simpa [assemble, replaceAll, replaceFrom] using hcopy
  | cons e es ih =>
    obtain ⟨hpos, hse, hrest⟩ := h
    have hih := ih hrest (fun e' he' => htokens e' (List.mem_cons_of_mem _ he'))
      (fun e' he' => hv e' (List.mem_cons_of_mem _ he'))
      (fun piece hm => hpieces piece (List.mem_cons_of_mem _ hm))
    have htok := htokens e List.mem_cons_self
    have hstart : ∃ zs, e.text ++ assemble xs e.stop es = lt :: lt :: zs := by
      obtain ⟨b, hb, -, -⟩ := htok.shape
      exact ⟨b ++ [gt, gt] ++ assemble xs e.stop es, by rw [hb]; simp⟩
    simp only [assemble]
    rw [replaceAll_append fun i hi => hp.not_prefix_text (hpieces _ List.mem_cons_self)
      (.inr hstart) hi]
    by_cases he : e.text = p
    · rw [List.filter_cons_of_neg (by simpa using he), he, replaceAll_occurrence hp.ne_nil, hih,
        ← hv e List.mem_cons_self he]
      rw [← assemble_shift hse (hrest.filter _), ← assemble_shift hpos ((hrest.filter _).mono hse)]
    · rw [List.filter_cons_of_pos (by simpa using he),
        replaceAll_append fun i hi => hp.not_prefix_token htok he _ hi, hih]
      rfl

end Splice
