import ObeyGateway.Guardrail.PlaceholderTable
import ObeyGateway.Lib.StaleSpans
import Mathlib.Data.List.TakeWhile
import Mathlib.Tactic.Tauto

/-!
# Safe re-injection

`reinject_safe` first restores what it can and then replaces the corrupted fragments, from the last to
the first, at the positions they had before the first replacement. The last pass keeps the text outside
the fragments, stays within bounds and leaves no fragment exactly when every window ends within what was
put at the start of the next one (`reinject_safe_iff`).
-/

namespace ObeyGateway.Guardrail

open Splice StaleSpans

def redacted : Str := str "[REDACTED]"

def GuardrailContext.restored (ctx : GuardrailContext) (content : Str) : Str :=
  let out := ctx.reinject content
  let complete := ctx.reinjectionMap.map (·.1)
  if 0 < ctx.overflowCount then
    replacePlaceholders (fun m => if complete.contains m then m else redacted) 0 out
  else out

theorem reinjectSafe_eq (ctx : GuardrailContext) (content : Str) :
    ctx.reinjectSafe content = replaceCorruptedFragments (ctx.restored content) := by
  simp only [GuardrailContext.reinjectSafe, GuardrailContext.restored, List.contains_iff_mem]
  rfl

/-- `ys` is `xs` with some of its parts replaced as `p` says. -/
inductive Rewritten (p : Str → Str → Prop) : Str → Str → Prop
  | nil : Rewritten p [] []
  | keep (b : UInt8) {xs ys : Str} : Rewritten p xs ys → Rewritten p (b :: xs) (b :: ys)
  | put {old new xs ys : Str} : p old new → Rewritten p xs ys → Rewritten p (old ++ xs) (new ++ ys)

def RestoredBy : List (Str × Str) → Str → Str → Prop
  | [], xs, ys => ys = xs
  | entry :: entries, xs, ys =>
    ∃ mid, Rewritten (fun old new => old = entry.1 ∧ new = entry.2) xs mid ∧ RestoredBy entries mid ys

def IsPlaceholder (s : Str) : Prop := placeholderAt s = some s.length

/-- Up to the last pass nothing but placeholders is replaced: mapped ones by their values, and in a context
that overflowed the others. -/
def Restores (ctx : GuardrailContext) (content text : Str) : Prop :=
  ∃ mid, RestoredBy ctx.reinjectionMap content mid ∧
    (ctx.overflowCount = 0 → text = mid) ∧
    Rewritten (fun old new => IsPlaceholder old ∧ new = if (ctx.reinjectionMap.map (·.1)).contains old then old else redacted)
      mid text

def read (text : Str) : Nat ⊕ UInt8 → UInt8
  | .inl i => text.getD i 0
  | .inr b => b

/-- The positions of the text that are still there after the replacements, with the bytes put between
them. -/
def redactedCells (text : Str) : List (Nat ⊕ UInt8) := cells redacted text.length (corruptedFragments text)

/-- The result has the bytes of the text outside the fragments, all of them and in order. -/
structure KeepsOutside (text r : Str) : Prop where
  bytes : r = (redactedCells text).map (read text)
  kept : survivors redacted text.length (corruptedFragments text) = uncovered text.length (corruptedFragments text)

/-- Every `<<PII_` of the text starts a complete placeholder. -/
def NoFragment (r : Str) : Prop := ∀ p, str "<<PII_" <+: r.drop p → (placeholderAt (r.drop p)).isSome = true

/-- The promise of `reinject_safe`. -/
def SafelyReinjected (ctx : GuardrailContext) (content : Str) : Prop :=
  Restores ctx content (ctx.restored content) ∧
    ∃ r, ctx.reinjectSafe content = some r ∧ KeepsOutside (ctx.restored content) r ∧ NoFragment r

def isWordByte (b : UInt8) : Bool := isAsciiAlphanumeric b || b == 95

def isDigitByte (b : UInt8) : Bool := 48 ≤ b && b ≤ 57

/-- What the regular expression asks of the text between `<<PII_` and `>>`. -/
def isBody (body : Str) : Bool :=
  let digits := body.reverse.takeWhile isDigitByte
  match body.reverse.drop digits.length with
  | 95 :: _ :: _ => digits ≠ []
  | _ => false

theorem prefix_bytes : str "<<PII_" = [60, 60, 80, 73, 73, 95] := by decide +kernel

theorem suffix_bytes : str ">>" = [62, 62] := by decide +kernel

theorem redacted_bytes : redacted = [91, 82, 69, 68, 65, 67, 84, 69, 68, 93] := by decide +kernel

theorem isBody_iff {body : Str} : isBody body = true ↔
    (∃ b rest, body.reverse.drop (body.reverse.takeWhile isDigitByte).length = 95 :: b :: rest) ∧
      body.reverse.takeWhile isDigitByte ≠ [] := by
  unfold isBody
  dsimp only
  split
  · rename_i b rest hrest
    simp [hrest]
  · rename_i hno
    refine iff_of_false (by simp) ?_
    rintro ⟨⟨b, rest, hrest⟩, -⟩
    exact hno b rest hrest

theorem placeholderAt_iff {s : Str} {n : Nat} {body : Str} (hbody : (s.drop 6).takeWhile isWordByte = body) :
    placeholderAt s = some n ↔
      (∃ b rest, body.reverse.drop (body.reverse.takeWhile isDigitByte).length = 95 :: b :: rest) ∧
        (str "<<PII_" <+: s ∧ body.reverse.takeWhile isDigitByte ≠ [] ∧ str ">>" <+: (s.drop 6).drop body.length) ∧
          n = body.length + 8 := by
  have hword : isWordByte = fun b => isAsciiAlphanumeric b || b == 95 := rfl
  have hdigit : isDigitByte = fun b => 48 ≤ b && b ≤ 57 := rfl
  rw [hword] at hbody
  unfold placeholderAt
  rw [hdigit]
  dsimp only
  rw [hbody]
  split
  · rename_i b rest hrest
    rw [Option.ite_none_right_eq_some, Option.some_inj, eq_comm (a := n)]
    exact ⟨fun h => ⟨⟨b, rest, hrest⟩, h⟩, And.right⟩
  · rename_i hno
    refine iff_of_false (by simp) ?_
    rintro ⟨⟨b, rest, hrest⟩, -⟩
    exact hno b rest hrest

theorem placeholderAt_eq (s : Str) (n : Nat) : placeholderAt s = some n ↔
      isBody ((s.drop 6).takeWhile isWordByte) = true ∧ str "<<PII_" <+: s ∧
        str ">>" <+: (s.drop 6).drop ((s.drop 6).takeWhile isWordByte).length ∧
        n = ((s.drop 6).takeWhile isWordByte).length + 8 := by
  rw [placeholderAt_iff rfl, isBody_iff]
  constructor
  · rintro ⟨hmark, ⟨hstart, hdigits, hend⟩, hn⟩
    exact ⟨⟨hmark, hdigits⟩, hstart, hend, hn⟩
  · rintro ⟨⟨hmark, hdigits⟩, hstart, hend, hn⟩
    exact ⟨hmark, ⟨hstart, hdigits, hend⟩, hn⟩

theorem placeholderAt_eq_some {s : Str} {n : Nat} :
    placeholderAt s = some n ↔ ∃ body rest, s = str "<<PII_" ++ (body ++ (str ">>" ++ rest)) ∧
      (∀ b ∈ body, isWordByte b = true) ∧ isBody body = true ∧ n = body.length + 8 := by
  rw [placeholderAt_eq]
  constructor
  · rintro ⟨hbody, ⟨t, rfl⟩, hend, hn⟩
    have hdrop : (str "<<PII_" ++ t).drop 6 = t := by simp [prefix_bytes]
    rw [hdrop] at hbody hend hn
    obtain ⟨rest, hrest⟩ := hend
    refine ⟨t.takeWhile isWordByte, rest, ?_, fun b hb => List.mem_takeWhile_imp hb, hbody, hn⟩
    rw [hrest]
    exact congrArg (str "<<PII_" ++ ·) (List.prefix_append_drop (List.takeWhile_prefix isWordByte))
  · rintro ⟨body, rest, rfl, hword, hbody, rfl⟩
    have hdrop : (str "<<PII_" ++ (body ++ (str ">>" ++ rest))).drop 6 = body ++ (str ">>" ++ rest) := by
      simp [prefix_bytes]
    have htake : (body ++ (str ">>" ++ rest)).takeWhile isWordByte = body := by
      rw [List.takeWhile_append_of_pos hword, suffix_bytes]
      simp [isWordByte, isAsciiAlphanumeric]
    rw [hdrop, htake, List.drop_left]
    exact ⟨hbody, List.prefix_append _ _, List.prefix_append _ _, rfl⟩

def fragmentStarts (content : Str) : List Nat :=
  let complete := (placeholderMatches 0 0 content).map (·.1)
  (List.range content.length).filter fun start => str "<<PII_" <+: content.drop start && !complete.contains start

def fragmentEnd (content : Str) (start : Nat) : Nat :=
  ((List.range (content.length + 1)).find? fun i =>
    min (start + 32) content.length ≤ i && isCharBoundary content i).getD content.length

theorem corruptedFragments_eq (content : Str) :
    corruptedFragments content = (fragmentStarts content).map fun start => (start, fragmentEnd content start) := rfl

section
variable {content : Str} {start : Nat}

theorem isCharBoundary_length (content : Str) : isCharBoundary content content.length = true := by
  simp [isCharBoundary]

theorem fragmentEnd_spec (content : Str) (start : Nat) :
    min (start + 32) content.length ≤ fragmentEnd content start ∧ fragmentEnd content start ≤ content.length ∧
      isCharBoundary content (fragmentEnd content start) = true ∧
      ∀ j, min (start + 32) content.length ≤ j → j ≤ content.length → isCharBoundary content j = true →
        fragmentEnd content start ≤ j := by
  unfold fragmentEnd
  cases hfind : (List.range (content.length + 1)).find? fun i =>
      min (start + 32) content.length ≤ i && isCharBoundary content i with
  | none =>
    have hno := List.find?_eq_none.1 hfind content.length (by simp)
    simp [isCharBoundary_length] at hno
  | some e =>
    rw [List.find?_range_eq_some] at hfind
    obtain ⟨he, hmem, hfirst⟩ := hfind
    simp only [Bool.and_eq_true, decide_eq_true_eq] at he
    refine ⟨he.1, Nat.lt_succ_iff.1 (List.mem_range.1 hmem), he.2, fun j hj hlen hb => ?_⟩
    by_contra hlt
    have hno := hfirst j (Nat.lt_of_not_le hlt)
    simp [hj, hb] at hno

theorem fragmentEnd_mono {start' : Nat} (h : start ≤ start') : fragmentEnd content start ≤ fragmentEnd content start' := by
  obtain ⟨hle, hlen, hb, -⟩ := fragmentEnd_spec content start'
  exact (fragmentEnd_spec content start).2.2.2 _ (by omega) hlen hb

theorem mem_fragmentStarts : start ∈ fragmentStarts content ↔ start < content.length ∧ str "<<PII_" <+: content.drop start ∧
      start ∉ (placeholderMatches 0 0 content).map (·.1) := by
  simp [fragmentStarts]

theorem mem_corruptedFragments {f : Nat × Nat} :
    f ∈ corruptedFragments content ↔ f.1 ∈ fragmentStarts content ∧ f.2 = fragmentEnd content f.1 := by
  rw [corruptedFragments_eq, List.mem_map]
  constructor
  · rintro ⟨start, hstart, rfl⟩
    exact ⟨hstart, rfl⟩
  · rintro ⟨hstart, hend⟩
    exact ⟨f.1, hstart, Prod.ext rfl hend.symm⟩

theorem spans_corruptedFragments (content : Str) : Spans content.length (corruptedFragments content) where
  within f hf := by
    obtain ⟨hstart, hend⟩ := mem_corruptedFragments.1 hf
    obtain ⟨hle, hlen, -⟩ := fragmentEnd_spec content f.1
    have hlt := (mem_fragmentStarts.1 hstart).1
    rw [hend]
    exact ⟨by omega, hlen⟩
  ascending := by
    rw [corruptedFragments_eq, List.pairwise_map]
    have hsorted : (fragmentStarts content).Pairwise (· < ·) := List.pairwise_lt_range.sublist List.filter_sublist
    exact hsorted.imp fun h => ⟨h, fragmentEnd_mono h.le⟩

end

/-- The loop of `replace_corrupted_fragments`, from the last fragment on. -/
def checkedSpans (text : Str) : List (Nat × Nat) → Option Str
  | [] => some text
  | f :: fs => (checkedSpans text fs).bind fun out => checkedReplaceRange out f.1 f.2 redacted

theorem replaceCorruptedFragments_eq (text : Str) :
    replaceCorruptedFragments text = checkedSpans text (corruptedFragments text) := by
  rw [replaceCorruptedFragments, List.foldlM_reverse]
  induction corruptedFragments text with
  | nil => rfl
  | cons f fs ih =>
    rw [List.foldrM_cons, ih]
    rfl

theorem replaceSpans_eq (text : Str) (fs : List (Nat × Nat)) :
    replaceSpans redacted text fs = (cells redacted text.length fs).map (read text) := by
  have hbytes : ((List.range text.length).map Sum.inl : List (Nat ⊕ UInt8)).map (read text) = text := by
    rw [List.map_map]
    refine List.ext_getElem (by simp) fun i hi hi' => ?_
    simp [read, List.getElem?_eq_getElem hi']
  have hput : (redacted.map Sum.inr : List (Nat ⊕ UInt8)).map (read text) = redacted := by
    rw [List.map_map]
    exact List.map_id redacted
  rw [cells, replaceSpans_map, hbytes, hput]

section
variable {text r : Str} {f : Nat × Nat} {fs : List (Nat × Nat)}

theorem length_cells (text : Str) (fs : List (Nat × Nat)) :
    (cells redacted text.length fs).length = (replaceSpans redacted text fs).length := by
  rw [replaceSpans_eq, List.length_map]

theorem checkedSpans_eq_some (h : checkedSpans text fs = some r) :
    r = replaceSpans redacted text fs ∧ InBounds redacted text.length fs := by
  induction fs generalizing r with
  | nil =>
    cases h
    exact ⟨rfl, trivial⟩
  | cons f fs ih =>
    obtain ⟨out, hout, hstep⟩ := Option.bind_eq_some_iff.1 h
    obtain ⟨rfl, hin⟩ := ih hout
    unfold checkedReplaceRange at hstep
    split at hstep
    · rename_i hc
      cases hstep
      exact ⟨rfl, hin, by rw [length_cells]; exact hc.2.1⟩
    · cases hstep

theorem isContinuation_redacted {b : UInt8} (hb : b ∈ redacted) : isContinuation b = false := by
  rw [redacted_bytes] at hb
  simp only [List.mem_cons, List.not_mem_nil, or_false] at hb
  rcases hb with rfl | rfl | rfl | rfl | rfl | rfl | rfl | rfl | rfl | rfl <;> rfl

theorem lt_of_cell {p i : Nat} (h : Spans text.length fs) (hcell : (cells redacted text.length fs)[p]? = some (.inl i)) :
    i < text.length := by
  have hmem : i ∈ survivors redacted text.length fs :=
    List.mem_filterMap.2 ⟨_, List.mem_of_getElem? hcell, rfl⟩
  exact List.mem_range.1 ((survivors_sublist redacted h).subset hmem)

theorem isCharBoundary_of_cell {p : Nat} {c : Nat ⊕ UInt8} (hcell : (cells redacted text.length fs)[p]? = some c)
    (hc : isContinuation (read text c) = false) : isCharBoundary (replaceSpans redacted text fs) p = true := by
  rw [replaceSpans_eq, isCharBoundary, List.getElem?_map, hcell]
  simp [hc]

/-- Spans that are clear, start at `<` and end at boundaries are replaced without a panic. -/
theorem checkedSpans_of_clear (h : Spans text.length fs) (hc : Clear redacted.length fs)
    (hends : ∀ f ∈ fs, isCharBoundary text f.2 = true) (hstarts : ∀ f ∈ fs, text[f.1]? = some 60) :
    checkedSpans text fs = some (replaceSpans redacted text fs) := by
  induction fs with
  | nil => rfl
  | cons f fs ih =>
    have hrest : Clear redacted.length fs := by
      cases fs with
      | nil => trivial
      | cons g fs => exact hc.2
    rw [checkedSpans, ih h.tail hrest (fun g hg => hends g (List.mem_cons_of_mem _ hg))
      fun g hg => hstarts g (List.mem_cons_of_mem _ hg), Option.bind_some]
    have hstart : isCharBoundary (replaceSpans redacted text fs) f.1 = true := by
      refine isCharBoundary_of_cell (start_cell h) ?_
      simp [read, hstarts f List.mem_cons_self, isContinuation]
    have hend : isCharBoundary (replaceSpans redacted text fs) f.2 = true := by
      rcases end_cell redacted h hc with hlen | ⟨b, hb, hcell⟩ | ⟨g, hg, hcell⟩
      · rw [hlen, length_cells]
        exact isCharBoundary_length _
      · exact isCharBoundary_of_cell hcell (isContinuation_redacted hb)
      · refine isCharBoundary_of_cell hcell ?_
        have hlt := lt_of_cell h.tail hcell
        have hpos := h.within g hg
        have hne : g.2 ≠ 0 := by omega
        have hb := hends g hg
        rw [isCharBoundary, List.getElem?_eq_getElem hlt] at hb
        simpa [read, List.getElem?_eq_getElem hlt, hne] using hb
    have hbound : f.2 ≤ (replaceSpans redacted text fs).length := by
      rw [← length_cells]
      exact (inBounds_of_clear h hc).2
    exact if_pos ⟨h.head.1.le, hbound, hstart, hend⟩

end

/-! ### What is left of the prefix -/

theorem prefix_not_redacted {b : UInt8} (h : b ∈ str "<<PII_") : b ∉ redacted := by
  rw [prefix_bytes] at h
  rw [redacted_bytes]
  simp only [List.mem_cons, List.not_mem_nil, or_false] at h
  rcases h with rfl | rfl | rfl | rfl | rfl | rfl <;> simp

theorem placeholderAt_of_mem_matches {s : Str} {pos k i : Nat} (h : i ∈ (placeholderMatches pos k s).map (·.1)) :
    pos ≤ i ∧ (placeholderAt (s.drop (i - pos))).isSome = true := by
  induction s generalizing pos k with
  | nil => simp [placeholderMatches] at h
  | cons b s ih =>
    have hlater {k : Nat} (h : i ∈ (placeholderMatches (pos + 1) k s).map (·.1)) :
        pos ≤ i ∧ (placeholderAt ((b :: s).drop (i - pos))).isSome = true := by
      obtain ⟨hle, hsome⟩ := ih h
      have hsub : i - pos = i - (pos + 1) + 1 := by omega
      exact ⟨by omega, by rw [hsub, List.drop_succ_cons]; exact hsome⟩
    cases k with
    | succ k => exact hlater h
    | zero =>
      rw [placeholderMatches] at h
      split at h
      · rename_i n hat
        rcases List.mem_cons.1 h with rfl | h
        · exact ⟨le_refl _, by simp [hat]⟩
        · exact hlater h
      · exact hlater h

theorem cells_run (text : Str) {p i : Nat} (hp : (redactedCells text)[p]? = some (.inl i)) (n : Nat)
    (hrun : ∀ k, k ≤ n → ∀ f ∈ corruptedFragments text, f.1 ≠ i + k) (hn : i + n < text.length) :
    ∀ k, k ≤ n → (redactedCells text)[p + k]? = some (.inl (i + k)) := by
  intro k
  induction k with
  | zero => exact fun _ => hp
  | succ k ih =>
    intro hk
    have htext : redacted ≠ [] := by rw [redacted_bytes]; simp
    rcases next_cell htext (spans_corruptedFragments text) (ih (by omega)) with hnext | ⟨-, f, hf, hstart⟩ | ⟨-, hend⟩
    · exact hnext
    · exact absurd hstart (hrun (k + 1) hk f hf)
    · omega

section
variable {text : Str} {p i : Nat}

theorem placeholder_no_lt {body : Str} (hword : ∀ b ∈ body, isWordByte b = true) {k : Nat} (hk : 2 ≤ k)
    (h : (str "<<PII_" ++ (body ++ str ">>"))[k]? = some 60) : False := by
  rw [prefix_bytes, suffix_bytes] at h
  obtain ⟨k, rfl⟩ := Nat.exists_eq_add_of_le' hk
  have hmem : (60 : UInt8) ∈ [80, 73, 73, 95] ++ (body ++ [62, 62]) := by
    refine List.mem_of_getElem? (i := k) ?_
    simpa using h
  rcases List.mem_append.1 hmem with hm | hm
  · simp at hm
  · rcases List.mem_append.1 hm with hm | hm
    · have hb := hword 60 hm
      simp [isWordByte, isAsciiAlphanumeric] at hb
    · simp at hm

theorem read_inl (hi : i < text.length) : text[i]? = some (read text (.inl i)) := by
  simp [read, List.getElem?_eq_getElem hi]

/-- Where the prefix stands in the result, it stands in the text. -/
theorem prefix_cells (hpre : str "<<PII_" <+: ((redactedCells text).map (read text)).drop p) :
    ∃ i, (redactedCells text)[p]? = some (.inl i) ∧ str "<<PII_" <+: text.drop i := by
  have hspans := spans_corruptedFragments text
  have hcell : ∀ k (hk : k < (str "<<PII_").length), ∃ c, (redactedCells text)[p + k]? = some c ∧
      read text c = (str "<<PII_")[k] := by
    intro k hk
    have hat := List.prefix_iff_getElem?.1 hpre k hk
    rw [List.getElem?_drop, List.getElem?_map, Option.map_eq_some_iff] at hat
    exact hat
  -- a byte of the prefix is none of a replacement
  have hinl : ∀ k (hk : k < (str "<<PII_").length), ∃ j, (redactedCells text)[p + k]? = some (.inl j) := by
    intro k hk
    obtain ⟨c, hc, hread⟩ := hcell k hk
    rcases c with j | b
    · exact ⟨j, hc⟩
    have hb : b ∈ redacted := mem_of_cell (List.mem_of_getElem? hc)
    refine absurd hb (prefix_not_redacted ?_)
    rw [show b = (str "<<PII_")[k] from hread]
    exact List.getElem_mem hk
  have hlen : (str "<<PII_").length = 6 := by rw [prefix_bytes]; rfl
  obtain ⟨i, hi⟩ := hinl 0 (by omega)
  have hrun : ∀ k, k < (str "<<PII_").length → (redactedCells text)[p + k]? = some (.inl (i + k)) := by
    intro k
    induction k with
    | zero => exact fun _ => hi
    | succ k ih =>
      intro hk
      have htext : redacted ≠ [] := by rw [redacted_bytes]; simp
      obtain ⟨j, hj⟩ := hinl (k + 1) hk
      rcases next_cell htext hspans (ih (by omega)) with hnext | ⟨⟨x, -, hx⟩, -⟩ | ⟨hnone, -⟩
      · exact hnext
      · rw [show (cells redacted text.length (corruptedFragments text))[p + k + 1]? = _ from hj] at hx
        cases hx
      · rw [show (cells redacted text.length (corruptedFragments text))[p + k + 1]? = _ from hj] at hnone
        cases hnone
  refine ⟨i, hi, List.prefix_iff_getElem?.2 fun k hk => ?_⟩
  obtain ⟨c, hc, hread⟩ := hcell k hk
  rw [hrun k hk] at hc
  cases hc
  rw [List.getElem?_drop, read_inl (lt_of_cell hspans (hrun k hk)), hread]

/-- With exactly the text outside the fragments kept, the result has no corrupted prefix. -/
theorem noFragment_of_kept (hkept : survivors redacted text.length (corruptedFragments text) =
      uncovered text.length (corruptedFragments text)) :
    NoFragment ((redactedCells text).map (read text)) := by
  intro p hpre
  obtain ⟨i, hp, hprefix⟩ := prefix_cells hpre
  have hi : i ∈ uncovered text.length (corruptedFragments text) := by
    rw [← hkept]
    exact List.mem_filterMap.2 ⟨_, List.mem_of_getElem? hp, rfl⟩
  obtain ⟨hlt, hout⟩ := mem_uncovered.1 hi
  have hno : ∀ f ∈ corruptedFragments text, f.1 ≠ i := fun f hf hstart => by
    have hend := hout f hf hstart.le
    have hlen := ((spans_corruptedFragments text).within f hf).1
    omega
  have hmatch : i ∈ (placeholderMatches 0 0 text).map (·.1) := by
    by_contra hnot
    exact hno (i, fragmentEnd text i) (mem_corruptedFragments.2 ⟨mem_fragmentStarts.2 ⟨hlt, hprefix, hnot⟩, rfl⟩) rfl
  obtain ⟨n, hn⟩ := Option.isSome_iff_exists.1 (placeholderAt_of_mem_matches hmatch).2
  rw [Nat.sub_zero] at hn
  obtain ⟨body, rest, htext, hword, hbody, -⟩ := placeholderAt_eq_some.1 hn
  -- the placeholder of the text, in one piece
  set w := str "<<PII_" ++ (body ++ str ">>") with hw
  have hdrop : text.drop i = w ++ rest := by rw [htext, hw]; simp only [List.append_assoc]
  have hat : ∀ k, k < w.length → text[i + k]? = w[k]? := fun k hk => by
    rw [← List.getElem?_drop, hdrop, List.getElem?_append_left hk]
  have hlen : w.length = body.length + 8 := by rw [hw, prefix_bytes, suffix_bytes]; simp
  have hwithin : i + w.length ≤ text.length := by
    have hall := congrArg List.length hdrop
    rw [List.length_drop, List.length_append] at hall
    omega
  -- no fragment starts in it, so all of it is in the result
  have hrun := cells_run text hp (w.length - 1) (fun k hk f hf hstart => by
    rcases Nat.eq_zero_or_pos k with rfl | hk0
    · exact hno f hf hstart
    · obtain ⟨-, ⟨t, ht⟩, -⟩ := mem_fragmentStarts.1 (mem_corruptedFragments.1 hf).1
      rw [hstart, prefix_bytes] at ht
      have hfirst : text[i + k]? = some 60 := by
        have := congrArg (·[0]?) ht
        simpa [List.getElem?_drop] using this.symm
      have hsecond : text[i + (k + 1)]? = some 60 := by
        have := congrArg (·[1]?) ht
        simpa [List.getElem?_drop, Nat.add_assoc] using this.symm
      rcases Nat.lt_or_ge k 2 with h1 | h2
      · obtain rfl : k = 1 := by omega
        rw [hat 2 (by omega), hw, prefix_bytes] at hsecond
        simp at hsecond
      · rw [hat k (by omega)] at hfirst
        exact placeholder_no_lt hword h2 hfirst) (by omega)
  have hresult : w <+: ((redactedCells text).map (read text)).drop p := by
    rw [List.prefix_iff_getElem?]
    intro k hk
    rw [List.getElem?_drop, List.getElem?_map, hrun k (by omega), Option.map_some, ← read_inl (by omega), hat k hk,
      List.getElem?_eq_getElem hk]
  obtain ⟨rest', hrest'⟩ := hresult
  rw [Option.isSome_iff_exists]
  refine ⟨body.length + 8, placeholderAt_eq_some.2 ⟨body, rest', ?_, hword, hbody, rfl⟩⟩
  rw [← hrest', hw]
  simp only [List.append_assoc]

end

theorem Rewritten.refl (p : Str → Str → Prop) (xs : Str) : Rewritten p xs xs := by
  induction xs with
  | nil => exact .nil
  | cons b xs ih => exact .keep b ih

theorem rewritten_replaceAll {pat text : Str} (hne : pat ≠ []) (xs : Str) :
    Rewritten (fun old new => old = pat ∧ new = text) xs (replaceAll pat text xs) := by
  induction hn : xs.length using Nat.strong_induction_on generalizing xs with
  | _ n ih =>
    rcases xs with _ | ⟨b, xs⟩
    · exact .nil
    by_cases hpre : pat <+: b :: xs
    · obtain ⟨rest, hrest⟩ := hpre
      have hlen := congrArg List.length hrest
      have hpos := List.length_pos_of_ne_nil hne
      rw [List.length_append] at hlen
      rw [← hrest, replaceAll_occurrence hne]
      exact .put ⟨rfl, rfl⟩ (ih rest.length (by omega) rest rfl)
    · rw [replaceAll, replaceFrom, if_neg hpre]
      exact .keep b (ih xs.length (by simp [← hn]) xs rfl)

theorem restoredBy_reinject {entries : List (Str × Str)} (h : ∀ entry ∈ entries, entry.1 ≠ []) (xs : Str) :
    RestoredBy entries xs (entries.foldl
      (fun out entry => if entry.1 <:+: out then replaceAll entry.1 entry.2 out else out) xs) := by
  induction entries generalizing xs with
  | nil => rfl
  | cons entry entries ih =>
    refine ⟨if entry.1 <:+: xs then replaceAll entry.1 entry.2 xs else xs, ?_,
      ih (fun e he => h e (List.mem_cons_of_mem _ he)) _⟩
    split
    · exact rewritten_replaceAll (h entry List.mem_cons_self) xs
    · exact .refl _ _

theorem replacePlaceholders_skip (g : Str → Str) (k : Nat) (xs : Str) :
    replacePlaceholders g k xs = replacePlaceholders g 0 (xs.drop k) := by
  induction xs generalizing k with
  | nil => cases k <;> rfl
  | cons b xs ih =>
    cases k with
    | zero => rfl
    | succ k => exact ih k

theorem isPlaceholder_take {s : Str} {n : Nat} (h : placeholderAt s = some n) : IsPlaceholder (s.take n) ∧ 0 < n := by
  obtain ⟨body, rest, rfl, hword, hbody, rfl⟩ := placeholderAt_eq_some.1 h
  have htake : (str "<<PII_" ++ (body ++ (str ">>" ++ rest))).take (body.length + 8) =
      str "<<PII_" ++ (body ++ (str ">>" ++ [])) := by
    rw [prefix_bytes, suffix_bytes]
    simp [List.take_length_add_append]
  have hlen : (str "<<PII_" ++ (body ++ (str ">>" ++ []))).length = body.length + 8 := by
    rw [prefix_bytes, suffix_bytes]
    simp
  refine ⟨?_, by omega⟩
  rw [htake, IsPlaceholder, hlen]
  exact placeholderAt_eq_some.2 ⟨body, [], rfl, hword, hbody, rfl⟩

theorem rewritten_replacePlaceholders (g : Str → Str) (xs : Str) :
    Rewritten (fun old new => IsPlaceholder old ∧ new = g old) xs (replacePlaceholders g 0 xs) := by
  induction hn : xs.length using Nat.strong_induction_on generalizing xs with
  | _ n ih =>
    rcases xs with _ | ⟨b, xs⟩
    · exact .nil
    rw [replacePlaceholders]
    split
    · rename_i m hat
      obtain ⟨hplace, hm⟩ := isPlaceholder_take hat
      obtain ⟨m, rfl⟩ : ∃ k, m = k + 1 := ⟨m - 1, by omega⟩
      rw [replacePlaceholders_skip, Nat.add_sub_cancel]
      have hsplit := List.take_append_drop (m + 1) (b :: xs)
      rw [List.drop_succ_cons] at hsplit
      conv => enter [2]; rw [← hsplit]
      refine .put ⟨hplace, rfl⟩ (ih _ ?_ _ rfl)
      simp only [List.length_drop, ← hn, List.length_cons]
      omega
    · exact .keep b (ih xs.length (by simp [← hn]) xs rfl)

theorem restores {ctx : GuardrailContext} (h : ∀ entry ∈ ctx.reinjectionMap, entry.1 ≠ []) (content : Str) :
    Restores ctx content (ctx.restored content) := by
  refine ⟨ctx.reinject content, restoredBy_reinject h content, fun hzero => ?_, ?_⟩
  · rw [GuardrailContext.restored, hzero]
    rfl
  · unfold GuardrailContext.restored
    dsimp only
    split
    · exact rewritten_replacePlaceholders _ _
    · exact .refl _ _

theorem placeholder_ne_nil_of_run (cap : Nat) (ops : List ContextOp) {entry : Str × Str}
    (h : entry ∈ (Run.run GuardrailContext.step (GuardrailContext.withCapacity cap) ops).reinjectionMap) :
    entry.1 ≠ [] := by
  rw [GuardrailContext.run_eq_answers, withCapacity_eq, (answers_table _ _ _).2] at h
  obtain ⟨k, -, rfl⟩ := List.mem_map.1 h
  simp [token, placeholder_eq]

/-- `reinject_safe` keeps its promise exactly where every window of a corrupted fragment ends within what
its right neighbour leaves at its start. -/
theorem reinject_safe_iff (cap : Nat) (ops : List ContextOp) (content : Str) :
    let ctx := Run.run GuardrailContext.step (GuardrailContext.withCapacity cap) ops
    SafelyReinjected ctx content ↔ Clear 10 (corruptedFragments (ctx.restored content)) := by
  intro ctx
  set text := ctx.restored content with htext
  have hspans := spans_corruptedFragments text
  have hlen : redacted.length = 10 := by rw [redacted_bytes]; rfl
  rw [← hlen]
  constructor
  · rintro ⟨-, r, hrun, hkeeps, -⟩
    rw [reinjectSafe_eq, replaceCorruptedFragments_eq] at hrun
    exact (clear_iff hspans).2 ⟨(checkedSpans_eq_some hrun).2, hkeeps.kept⟩
  · intro hc
    have hkept := ((clear_iff hspans).1 hc).2
    have hrun : ctx.reinjectSafe content = some ((redactedCells text).map (read text)) := by
      rw [reinjectSafe_eq, replaceCorruptedFragments_eq, redactedCells, ← replaceSpans_eq]
      refine checkedSpans_of_clear hspans hc (fun f hf => ?_) fun f hf => ?_
      · rw [(mem_corruptedFragments.1 hf).2]
        exact (fragmentEnd_spec text f.1).2.2.1
      · obtain ⟨-, ⟨t, ht⟩, -⟩ := mem_fragmentStarts.1 (mem_corruptedFragments.1 hf).1
        rw [prefix_bytes] at ht
        have hfirst := congrArg (·[0]?) ht
        simpa [List.getElem?_drop] using hfirst.symm
    exact ⟨restores (fun entry he => placeholder_ne_nil_of_run cap ops he) content, _, hrun,
      ⟨rfl, hkept⟩, noFragment_of_kept hkept⟩

/-- Two prefixes eight bytes apart in a response of forty bytes: the first window ends at a byte that the
replacement of the second one has taken away. -/
theorem overlapping_fragments_panic :
    ¬ SafelyReinjected (GuardrailContext.withCapacity 256) (str "<<PII_aa<<PII_bbcccccccccccccccccccccccc") := by
  rintro ⟨-, r, hrun, -⟩
  have hpanic : (GuardrailContext.withCapacity 256).reinjectSafe
      (str "<<PII_aa<<PII_bbcccccccccccccccccccccccc") = none := by decide +kernel
  rw [hpanic] at hrun
  cases hrun

end ObeyGateway.Guardrail
