import ObeyGateway.Guardrail.Pii
import ObeyGateway.Lib.SortBy

/-!
# The regex provider (`guardrail/providers/regex.rs`)

Every pattern gives ranges of the content, if it keeps its time budget; the ranges are the regex crate's and
stand here for any. Those of deny patterns are dropped where an allow range overlaps them, and from the rest,
sorted by start and then by end, a finding is taken when it does not begin inside the one taken before.
-/

namespace ObeyGateway.Guardrail

open SortBy

inductive RegexRuleMode
  | allow
  | deny
deriving DecidableEq

structure CompiledPattern (Regex : Type) where
  name : Str
  entity : Str
  mode : RegexRuleMode
  regex : Regex

def rangesOverlap (aStart aEnd bStart bEnd : Nat) : Bool := aStart < bEnd && bStart < aEnd

/-- `sort_by` of the candidates -/
def compareSpans : Finding → Finding → Ordering := compareLex (compareOn (·.start)) (compareOn (·.stop))

/-- The loop over the sorted candidates; the number is `last_end`, if there is a selection. -/
def selectFrom : Option Nat → List Finding → List Finding
  | _, [] => []
  | lastEnd, f :: candidates =>
    if lastEnd.any (f.start < ·) then selectFrom lastEnd candidates else f :: selectFrom (some f.stop) candidates

structure RegexProvider (Regex : Type) where
  patterns : List (CompiledPattern Regex)
  /-- `scan_pattern`: the ranges of a pattern, unless it exceeds its budget -/
  scanPattern : CompiledPattern Regex → Str → Option (List (Nat × Nat))

namespace RegexProvider

variable {Regex : Type} (provider : RegexProvider Regex) (content : Str)

def ranges (pattern : CompiledPattern Regex) : List (Nat × Nat) := (provider.scanPattern pattern content).getD []

def allowRanges : List (Nat × Nat) :=
  (provider.patterns.filter (·.mode = .allow)).flatMap (provider.ranges content)

def denyCandidates : List Finding :=
  (provider.patterns.filter (·.mode = .deny)).flatMap fun pattern =>
    (provider.ranges content pattern).map fun r => ⟨pattern.entity, r.1, r.2⟩

def allowed (f : Finding) : Bool :=
  (provider.allowRanges content).any fun r => rangesOverlap f.start f.stop r.1 r.2

def scan : List Finding :=
  if (provider.denyCandidates content).isEmpty then []
  else selectFrom none (sortBy compareSpans ((provider.denyCandidates content).filter (!provider.allowed content ·)))

end RegexProvider

/-! ### The selection -/

section
variable {lastEnd : Option Nat} {candidates : List Finding} {f : Finding}

theorem selectFrom_sublist : (selectFrom lastEnd candidates).Sublist candidates := by
  induction candidates generalizing lastEnd with
  | nil => exact List.nil_sublist []
  | cons f candidates ih =>
    rw [selectFrom]
    split
    · exact ih.cons f
    · exact ih.cons_cons f

theorem le_start_of_mem_selectFrom (hsorted : candidates.Pairwise fun a b => a.start ≤ b.start) {n : Nat}
    (hf : f ∈ selectFrom (some n) candidates) : n ≤ f.start := by
  induction candidates with
  | nil => cases hf
  | cons g candidates ih =>
    obtain ⟨hg, hsorted⟩ := List.pairwise_cons.1 hsorted
    rw [selectFrom] at hf
    split at hf
    · exact ih hsorted hf
    · rename_i hlast
      rw [Option.any_some, decide_eq_true_eq, not_lt] at hlast
      rcases List.mem_cons.1 hf with rfl | hf
      · exact hlast
      · exact hlast.trans (hg f (selectFrom_sublist.subset hf))

theorem selectFrom_pairwise (hsorted : candidates.Pairwise fun a b => a.start ≤ b.start) :
    (selectFrom lastEnd candidates).Pairwise fun a b => a.stop ≤ b.start := by
  induction candidates generalizing lastEnd with
  | nil => exact List.Pairwise.nil
  | cons f candidates ih =>
    obtain ⟨-, hsorted⟩ := List.pairwise_cons.1 hsorted
    rw [selectFrom]
    split
    · exact ih hsorted
    · exact List.pairwise_cons.2 ⟨fun g hg => le_start_of_mem_selectFrom hsorted hg, ih hsorted⟩

theorem covered_of_mem (hsorted : candidates.Pairwise fun a b => a.start ≤ b.start) (hf : f ∈ candidates)
    (hne : f.start < f.stop) :
    (∃ g ∈ selectFrom lastEnd candidates, g.start ≤ f.start ∧ f.start < g.stop) ∨ ∃ n ∈ lastEnd, f.start < n := by
  induction candidates generalizing lastEnd with
  | nil => cases hf
  | cons g candidates ih =>
    obtain ⟨hg, hsorted⟩ := List.pairwise_cons.1 hsorted
    rw [selectFrom]
    split
    · rename_i hlast
      rcases List.mem_cons.1 hf with rfl | hf
      · cases lastEnd with
        | none => cases hlast
        | some n => exact .inr ⟨n, rfl, of_decide_eq_true hlast⟩
      · exact ih hsorted hf
    · rcases List.mem_cons.1 hf with rfl | hf
      · exact .inl ⟨f, List.mem_cons_self, Nat.le_refl _, hne⟩
      · have hrest : (∃ g' ∈ selectFrom (some g.stop) candidates, g'.start ≤ f.start ∧ f.start < g'.stop) ∨
            ∃ n ∈ some g.stop, f.start < n := ih hsorted hf
        rcases hrest with ⟨g', hg', hcover⟩ | ⟨n, hn, hlt⟩
        · exact .inl ⟨g', List.mem_cons_of_mem g hg', hcover⟩
        · obtain rfl := Option.mem_some_iff.1 hn
          exact .inl ⟨g, List.mem_cons_self, hg f hf, hlt⟩

end

instance : Std.TransCmp compareSpans :=
  inferInstanceAs (Std.TransCmp (compareLex (compareOn Finding.start) (compareOn Finding.stop)))

theorem totalOn_compareSpans (l : List Finding) : TotalOn compareSpans l where
  swap _ _ _ _ := Std.OrientedCmp.eq_swap
  trans _ _ _ _ _ _ hab hbc := Std.TransCmp.isLE_trans hab hbc

theorem start_le_of_isLE {a b : Finding} (h : (compareSpans a b).isLE) : a.start ≤ b.start := by
  rw [compareSpans, compareLex, Ordering.isLE_then_iff_and] at h
  exact Nat.isLE_compare.1 h.1

namespace RegexProvider

variable {Regex : Type} (provider : RegexProvider Regex) (content : Str)

def candidates : List Finding :=
  sortBy compareSpans ((provider.denyCandidates content).filter (!provider.allowed content ·))

theorem scan_eq : provider.scan content = selectFrom none (provider.candidates content) := by
  unfold scan
  split
  · rename_i hempty
    rw [candidates, List.isEmpty_iff.1 hempty, List.filter_nil, sortBy, List.mergeSort_nil]
    rfl
  · rfl

theorem candidates_sorted : (provider.candidates content).Pairwise fun a b => a.start ≤ b.start :=
  (totalOn_compareSpans _).sortBy_pairwise.imp start_le_of_isLE

theorem mem_candidates {f : Finding} :
    f ∈ provider.candidates content ↔ f ∈ provider.denyCandidates content ∧ provider.allowed content f = false := by
  rw [candidates, mem_sortBy, List.mem_filter, Bool.not_eq_true']

/-- The findings are deny matches in their order that overlap neither an allow match nor each other, and of
every deny match that overlaps no allow match the first byte is in a finding that begins no later. -/
theorem scan_law : (provider.scan content).Pairwise (fun a b => a.start ≤ b.start ∧ a.stop ≤ b.start) ∧
    (∀ f ∈ provider.scan content, f ∈ provider.denyCandidates content ∧
      ∀ r ∈ provider.allowRanges content, rangesOverlap f.start f.stop r.1 r.2 = false) ∧
    ∀ f ∈ provider.denyCandidates content, f.start < f.stop →
      (∀ r ∈ provider.allowRanges content, rangesOverlap f.start f.stop r.1 r.2 = false) →
        ∃ g ∈ provider.scan content, g.start ≤ f.start ∧ f.start < g.stop := by
  have hsorted := provider.candidates_sorted content
  have hallowed (f : Finding) : provider.allowed content f = false ↔
      ∀ r ∈ provider.allowRanges content, rangesOverlap f.start f.stop r.1 r.2 = false := by
    rw [allowed, List.any_eq_false]
    exact forall₂_congr fun r _ => iff_of_eq (Bool.not_eq_true _)
  rw [scan_eq]
  refine ⟨?_, fun f hf => ?_, fun f hf hne hno => ?_⟩
  · exact (hsorted.sublist selectFrom_sublist).and (selectFrom_pairwise hsorted)
  · obtain ⟨hdeny, hno⟩ := (provider.mem_candidates content).1 (selectFrom_sublist.subset hf)
    exact ⟨hdeny, (hallowed f).1 hno⟩
  · have hmem := (provider.mem_candidates content).2 ⟨hf, (hallowed f).2 hno⟩
    have hcover : (∃ g ∈ selectFrom none (provider.candidates content), g.start ≤ f.start ∧ f.start < g.stop) ∨
        ∃ n ∈ none, f.start < n := covered_of_mem hsorted hmem hne
    rcases hcover with hcover | ⟨n, hn, -⟩
    · exact hcover
    · cases hn

end RegexProvider

/-- Two patterns whose matches overlap by two bytes: the end of the second match is not covered. -/
def chained : RegexProvider (List (Nat × Nat)) where
  patterns := [⟨[97], [65], .deny, [(0, 3)]⟩, ⟨[98], [66], .deny, [(1, 5)]⟩]
  scanPattern pattern _ := some pattern.regex

theorem chained_match_uncovered : ¬ ∀ (provider : RegexProvider (List (Nat × Nat))) (content : Str),
    ∀ f ∈ provider.denyCandidates content, f.start < f.stop →
      (∀ r ∈ provider.allowRanges content, rangesOverlap f.start f.stop r.1 r.2 = false) →
        ∀ i, f.start ≤ i → i < f.stop → ∃ g ∈ provider.scan content, g.start ≤ i ∧ i < g.stop := by
  intro h
  have hsorted : chained.candidates [97, 98, 99, 100, 101] = [⟨[65], 0, 3⟩, ⟨[66], 1, 5⟩] :=
    List.mergeSort_of_pairwise (by decide)
  have hscan : chained.scan [97, 98, 99, 100, 101] = [⟨[65], 0, 3⟩] := by
    rw [RegexProvider.scan_eq, hsorted]
    rfl
  obtain ⟨g, hg, -, hstop⟩ := h chained [97, 98, 99, 100, 101] ⟨[66], 1, 5⟩ (by decide) (by decide) (by decide) 4
    (by decide) (by decide)
  rw [hscan, List.mem_singleton] at hg
  subst hg
  exact absurd hstop (by decide)

end ObeyGateway.Guardrail
