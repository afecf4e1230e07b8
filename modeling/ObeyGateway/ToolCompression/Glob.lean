import ObeyGateway.Lib.Search

/-!
# Glob patterns (`stages/pruner.rs`)

A pattern is cut at its stars. The first piece has to begin the name, the last one to end it, and those between them
are looked for from left to right, each at its first occurrence. That is enough: what is behind the first occurrence
has what is behind any other as its end (`floats_cut`), so a name matches exactly if stars can be replaced by texts to
get it (`matches_iff`).
-/

namespace ObeyGateway.ToolCompression

open Frames

/-- `str::split('*')`: the first piece and the others. -/
def splitStars : List Char → List Char × List (List Char)
  | [] => ([], [])
  | c :: pattern =>
    if c = '*' then ([], (splitStars pattern).1 :: (splitStars pattern).2)
    else (c :: (splitStars pattern).1, (splitStars pattern).2)

structure GlobPattern where
  pattern : List Char
  segments : List (List Char)
deriving DecidableEq

namespace GlobPattern

def new (pattern : List Char) : GlobPattern := ⟨pattern, (splitStars pattern).1 :: (splitStars pattern).2⟩

/-- The loop over `count` segments, from segment `i` on. -/
def matchFrom (count : Nat) : Nat → List (List Char) → List Char → Bool
  | _, [], _ => true
  | i, segment :: segments, remaining =>
    if segment.isEmpty then matchFrom count (i + 1) segments remaining
    else if i = 0 then
      segment.isPrefixOf remaining && matchFrom count (i + 1) segments (remaining.drop segment.length)
    else if i = count - 1 then
      segment.isSuffixOf remaining &&
        matchFrom count (i + 1) segments (remaining.take (remaining.length - segment.length))
    else
      match cut segment remaining with
      | some (_, behind) => matchFrom count (i + 1) segments behind
      | none => false

def matchesName (glob : GlobPattern) (name : List Char) : Bool :=
  if glob.segments.length = 1 then name = glob.pattern
  else matchFrom glob.segments.length 0 glob.segments name

end GlobPattern

inductive Expands : List Char → List Char → Prop
  | nil : Expands [] []
  | star {pattern name : List Char} (text : List Char) (h : Expands pattern name) : Expands ('*' :: pattern) (text ++ name)
  | char {pattern name : List Char} {c : Char} (hc : c ≠ '*') (h : Expands pattern name) :
    Expands (c :: pattern) (c :: name)

def Spread : List Char → List (List Char) → List Char → Prop
  | segment, [], name => name = segment
  | segment, next :: segments, name =>
    ∃ text rest, name = segment ++ (text ++ rest) ∧ Spread next segments rest

def Floats : List (List Char) → List Char → Prop
  | [], _ => True
  | segment :: segments, name => ∃ text rest, name = text ++ rest ∧ Spread segment segments rest

variable {pattern name text rest segment next remaining before behind : List Char} {segments : List (List Char)} {c : Char}

theorem spread_cons : Spread (c :: segment) segments name ↔ ∃ rest, name = c :: rest ∧ Spread segment segments rest := by
  rcases segments with _ | ⟨next, segments⟩
  · constructor
    · intro h
      exact ⟨segment, h, rfl⟩
    · rintro ⟨rest, rfl, h⟩
      exact congrArg (c :: ·) h
  constructor
  · rintro ⟨text, rest, rfl, h⟩
    exact ⟨segment ++ (text ++ rest), rfl, text, rest, rfl, h⟩
  · rintro ⟨_, rfl, text, rest, rfl, h⟩
    exact ⟨text, rest, rfl, h⟩

theorem spread_append_cons : Spread segment (next :: segments) name ↔
    ∃ rest, name = segment ++ rest ∧ Floats (next :: segments) rest := by
  constructor
  · rintro ⟨text, rest, rfl, h⟩
    exact ⟨text ++ rest, rfl, text, rest, rfl, h⟩
  · rintro ⟨_, rfl, text, rest, rfl, h⟩
    exact ⟨text, rest, rfl, h⟩

/-- A pattern stands for its pieces with texts between them. -/
theorem expands_iff : Expands pattern name ↔ Spread (splitStars pattern).1 (splitStars pattern).2 name := by
  induction pattern generalizing name with
  | nil =>
    constructor
    · rintro ⟨⟩
      rfl
    · rintro rfl
      exact .nil
  | cons c pattern ih =>
    rw [splitStars]
    by_cases hc : c = '*'
    · subst hc
      rw [if_pos rfl]
      dsimp only
      rw [spread_append_cons]
      constructor
      · intro h
        cases h with
        | star text h => exact ⟨_, rfl, text, _, rfl, ih.1 h⟩
        | char hc _ => exact absurd rfl hc
      · rintro ⟨_, rfl, text, rest, rfl, h⟩
        exact .star text (ih.2 h)
    · rw [if_neg hc]
      dsimp only
      rw [spread_cons]
      constructor
      · intro h
        cases h with
        | star text h => exact absurd rfl hc
        | char _ h => exact ⟨_, rfl, ih.1 h⟩
      · rintro ⟨rest, rfl, h⟩
        exact .char hc (ih.2 h)

theorem splitStars_of_nil (h : (splitStars pattern).2 = []) : (splitStars pattern).1 = pattern := by
  induction pattern with
  | nil => rfl
  | cons c pattern ih =>
    rw [splitStars] at h ⊢
    by_cases hc : c = '*'
    · rw [if_pos hc] at h
      cases h
    · rw [if_neg hc] at h ⊢
      exact congrArg (c :: ·) (ih h)

/-! ### The search from left to right -/

theorem Floats.append_left (h : Floats segments rest) (text : List Char) : Floats segments (text ++ rest) := by
  rcases segments with _ | ⟨segment, segments⟩
  · trivial
  obtain ⟨more, rest', rfl, h⟩ := h
  exact ⟨text ++ more, rest', (List.append_assoc ..).symm, h⟩

theorem floats_cons : Floats (segment :: next :: segments) remaining ↔
    ∃ text rest, remaining = text ++ (segment ++ rest) ∧ Floats (next :: segments) rest := by
  constructor
  · rintro ⟨text, _, rfl, h⟩
    obtain ⟨rest, rfl, hfloats⟩ := spread_append_cons.1 h
    exact ⟨text, rest, rfl, hfloats⟩
  · rintro ⟨text, rest, rfl, h⟩
    exact ⟨text, segment ++ rest, rfl, spread_append_cons.2 ⟨rest, rfl, h⟩⟩

theorem suffix_behind (hne : segment ≠ []) (h : cut segment (text ++ (segment ++ rest)) = some (before, behind)) :
    rest <:+ behind := by
  induction text generalizing before with
  | nil =>
    rw [List.nil_append, cut_sep hne] at h
    cases h
    exact List.suffix_rfl
  | cons c text ih =>
    rw [List.cons_append, cut] at h
    split at h
    · cases h
      refine List.suffix_of_suffix_length_le ⟨c :: (text ++ segment), by simp⟩ (List.drop_suffix _ _) ?_
      simp
      omega
    · obtain ⟨⟨before', behind'⟩, hcut, heq⟩ := Option.map_eq_some_iff.1 h
      cases heq
      exact ih hcut

theorem cut_ne_none (hne : segment ≠ []) (text rest : List Char) : cut segment (text ++ (segment ++ rest)) ≠ none := by
  induction text with
  | nil =>
    rw [List.nil_append, cut_sep hne]
    simp
  | cons c text ih =>
    rw [List.cons_append, cut]
    split
    · simp
    · rw [Ne, Option.map_eq_none_iff]
      exact ih

theorem floats_cut (hne : segment ≠ []) : Floats (segment :: next :: segments) remaining ↔
    ∃ before behind, cut segment remaining = some (before, behind) ∧ Floats (next :: segments) behind := by
  rw [floats_cons]
  constructor
  · rintro ⟨text, rest, rfl, h⟩
    obtain ⟨⟨before, behind⟩, hcut⟩ := Option.ne_none_iff_exists'.1 (cut_ne_none hne text rest)
    obtain ⟨more, rfl⟩ := suffix_behind hne hcut
    exact ⟨before, _, hcut, h.append_left more⟩
  · rintro ⟨before, behind, hcut, h⟩
    refine ⟨before, behind, ?_, h⟩
    rw [cut_eq_some hcut, List.append_assoc]

theorem floats_nil_cons : Floats ([] :: next :: segments) remaining ↔ Floats (next :: segments) remaining := by
  rw [floats_cons]
  constructor
  · rintro ⟨text, rest, rfl, h⟩
    exact h.append_left text
  · intro h
    exact ⟨[], remaining, rfl, h⟩

theorem floats_singleton : Floats [segment] remaining ↔ segment <:+ remaining := by
  constructor
  · rintro ⟨text, rest, rfl, rfl⟩
    exact List.suffix_append _ _
  · rintro ⟨text, rfl⟩
    exact ⟨text, segment, rfl, rfl⟩

namespace GlobPattern

theorem matchFrom_iff {count i : Nat} (hi : 0 < i) (hcount : i + segments.length = count) :
    matchFrom count i segments remaining = true ↔ Floats segments remaining := by
  induction segments generalizing i remaining with
  | nil => exact iff_of_true rfl trivial
  | cons segment segments ih =>
    rw [List.length_cons] at hcount
    have hrest : ∀ remaining, matchFrom count (i + 1) segments remaining = true ↔ Floats segments remaining :=
      fun remaining => ih (Nat.succ_pos i) (by omega)
    rw [matchFrom, if_neg (Nat.ne_of_gt hi)]
    rcases segments with _ | ⟨next, segments⟩
    · rw [floats_singleton, if_pos (show i = count - 1 by rw [← hcount]; rfl)]
      cases segment with
      | nil => exact iff_of_true rfl (List.nil_suffix)
      | cons c segment => simp [matchFrom]
    rw [List.length_cons] at hcount
    rw [if_neg (show ¬ i = count - 1 by omega)]
    rcases segment with _ | ⟨c, segment⟩
    · rw [floats_nil_cons]
      exact hrest remaining
    rw [List.isEmpty_cons, if_neg Bool.false_ne_true, floats_cut (List.cons_ne_nil c segment)]
    rcases hcut : cut (c :: segment) remaining with _ | ⟨before, behind⟩
    · simp
    dsimp only
    rw [hrest behind]
    constructor
    · intro h
      exact ⟨before, behind, rfl, h⟩
    · rintro ⟨_, _, ⟨⟩, h⟩
      exact h

/-- A name matches exactly if it is the pattern with texts in the places of the stars. -/
theorem matches_iff (pattern name : List Char) : (new pattern).matchesName name = true ↔ Expands pattern name := by
  rw [expands_iff, matchesName, new]
  dsimp only
  rcases hsegments : (splitStars pattern).2 with _ | ⟨next, segments⟩
  · rw [List.length_singleton, if_pos rfl, decide_eq_true_iff, splitStars_of_nil hsegments]
    rfl
  rw [spread_append_cons, if_neg (by simp), matchFrom]
  have hrest : ∀ remaining, matchFrom ((splitStars pattern).1 :: next :: segments).length 1 (next :: segments) remaining =
      true ↔ Floats (next :: segments) remaining := fun remaining => matchFrom_iff (by decide) (by simp [Nat.add_comm])
  rcases hfirst : (splitStars pattern).1 with _ | ⟨c, segment⟩
  · rw [hfirst] at hrest
    rw [List.isEmpty_nil, if_pos rfl, hrest]
    simp
  rw [hfirst] at hrest
  rw [List.isEmpty_cons, if_neg Bool.false_ne_true, if_pos rfl, Bool.and_eq_true, hrest, List.isPrefixOf_iff_prefix]
  constructor
  · rintro ⟨⟨rest, rfl⟩, h⟩
    rw [List.drop_left] at h
    exact ⟨rest, rfl, h⟩
  · rintro ⟨rest, rfl, h⟩
    refine ⟨List.prefix_append _ _, ?_⟩
    rwa [List.drop_left]

end GlobPattern

end ObeyGateway.ToolCompression
