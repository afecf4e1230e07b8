import ObeyGateway.Lib.Text
import ObeyGateway.Memory.Store

/-!
# The ranking of `MemoryStore::retrieve`

What `retrieve` of `memory/store.rs` makes of the rows of its query: a score for each, those at or above the threshold
from the best down, one for each trimmed content, and at most fifty of these. The pass that takes duplicates out
replaces in place; since it sees the best candidates first, the one it keeps is the best of its kind (`Kept.place`).
-/

namespace ObeyGateway.Memory

structure ScoredMemory where
  entry : MemoryEntry
  finalScore : ℚ
  estimatedTokens : Nat

def maxRetrievalCandidates : Nat := 50

def contextScopeBoost : ℚ := 3 / 2

/-- A rank that is not finite is `none`. -/
def normalizeFtsRank : Option ℚ → ℚ
  | none => 0
  | some rawRank =>
    let positiveRank := if rawRank < 0 then -rawRank else 1 / (1 + rawRank)
    positiveRank / (positiveRank + 1 / 10 ^ 6)

def scored (now : Int) (contextScope : Option String) (row : MemoryEntry × Option ℚ) : ScoredMemory :=
  let normalizedRank := normalizeFtsRank row.2
  let elapsedSeconds : ℚ := ((now - row.1.lastAccessedAt).tdiv (10 ^ 6) : Int) / 1000
  let daysSinceAccess := max (elapsedSeconds / 86400) 0
  let recencyBoost := 1 / (1 + daysSinceAccess * (1 / 10))
  let scopeBoost := if contextScope = some row.1.ns then contextScopeBoost else 1
  ⟨row.1, normalizedRank * row.1.relevanceScore * recencyBoost * scopeBoost, 0⟩

def trimmed (m : ScoredMemory) : List Char := Text.trim m.entry.content.toList

def byScore (l : List ScoredMemory) : List ScoredMemory := SortBy.sortBy (fun a b => compare b.finalScore a.finalScore) l

section
variable (contextScope : Option String)

def isContext (m : ScoredMemory) : Bool := contextScope = some m.entry.ns

/-- One candidate of the pass: in place of the first entry with its content, or left out, or at the end. -/
def place (deduplicated : List ScoredMemory) (candidate : ScoredMemory) : List ScoredMemory :=
  match deduplicated with
  | [] => [candidate]
  | existing :: rest =>
    if trimmed existing = trimmed candidate then
      if isContext contextScope candidate ∧ ¬ isContext contextScope existing then candidate :: rest else existing :: rest
    else existing :: place rest candidate

def deduplicate (candidates : List ScoredMemory) : List ScoredMemory := candidates.foldl (place contextScope) []

def rank (threshold : ℚ) (candidates : List ScoredMemory) : List ScoredMemory :=
  let candidates := byScore (candidates.filter (threshold ≤ ·.finalScore))
  (byScore (deduplicate contextScope candidates)).take maxRetrievalCandidates

/-- `retrieve` from the rows that its query has found. -/
def retrieveRows (now : Int) (threshold : ℚ) (rows : List (MemoryEntry × Option ℚ)) : List ScoredMemory :=
  rank contextScope threshold (rows.map (scored now contextScope))

end

/-! ### What is kept -/

/-- `m` stands for its content among `candidates`: the best of the context scope, or the best where there is none. -/
def Represents (contextScope : Option String) (candidates : List ScoredMemory) (m : ScoredMemory) : Prop :=
  m ∈ candidates ∧ if isContext contextScope m then
    ∀ c ∈ candidates, trimmed c = trimmed m → isContext contextScope c → c.finalScore ≤ m.finalScore
  else ∀ c ∈ candidates, trimmed c = trimmed m → ¬ isContext contextScope c ∧ c.finalScore ≤ m.finalScore

/-- After the candidates `seen`, the pass holds `kept`. -/
structure Kept (contextScope : Option String) (seen kept : List ScoredMemory) : Prop where
  nodup : (kept.map trimmed).Nodup
  represents : ∀ m ∈ kept, Represents contextScope seen m
  covers : ∀ c ∈ seen, ∃ m ∈ kept, trimmed m = trimmed c

section
variable {contextScope : Option String} {seen kept : List ScoredMemory} {c m : ScoredMemory}

theorem place_cases : (∀ e ∈ kept, trimmed e ≠ trimmed c) ∧ place contextScope kept c = kept ++ [c] ∨
    ∃ front e back, kept = front ++ e :: back ∧ trimmed e = trimmed c ∧ place contextScope kept c =
      front ++ (if isContext contextScope c ∧ ¬ isContext contextScope e then c else e) :: back := by
  induction kept with
  | nil => exact .inl ⟨fun _ h => absurd h List.not_mem_nil, rfl⟩
  | cons e kept ih =>
    by_cases he : trimmed e = trimmed c
    · refine .inr ⟨[], e, kept, rfl, he, ?_⟩
      simp only [place, he, if_true]
      split_ifs <;> rfl
    · rcases ih with ⟨hnone, heq⟩ | ⟨front, x, back, rfl, hx, heq⟩
      · refine .inl ⟨?_, by simp [place, he, heq]⟩
        intro x hx
        rcases List.mem_cons.1 hx with rfl | hx
        · exact he
        · exact hnone x hx
      · exact .inr ⟨e :: front, x, back, rfl, hx, by simp [place, he, heq]⟩

theorem Represents.snoc (h : Represents contextScope seen m) (hle : c.finalScore ≤ m.finalScore)
    (hcontext : trimmed c = trimmed m → isContext contextScope c → isContext contextScope m) :
    Represents contextScope (seen ++ [c]) m := by
  obtain ⟨hmem, h⟩ := h
  refine ⟨List.mem_append_left _ hmem, ?_⟩
  split_ifs at h ⊢ with hm <;> intro x hx hsame <;> rcases List.mem_append.1 hx with hx | hx
  · exact h x hx hsame
  · rw [List.mem_singleton.1 hx]
    exact fun _ => hle
  · exact h x hx hsame
  · rw [List.mem_singleton.1 hx] at hsame ⊢
    exact ⟨fun hc => hm (hcontext hsame hc), hle⟩

/-- The candidate stands for its content where no earlier one does, or where it alone is of the context scope. -/
theorem Represents.last (hcontext : ∀ x ∈ seen, trimmed x = trimmed c → ¬ isContext contextScope x)
    (hnone : isContext contextScope c ∨ ∀ x ∈ seen, trimmed x ≠ trimmed c) : Represents contextScope (seen ++ [c]) c := by
  refine ⟨by simp, ?_⟩
  split_ifs with hc <;> intro x hx hsame <;> rcases List.mem_append.1 hx with hx | hx
  · exact fun hx' => absurd hx' (hcontext x hx hsame)
  · rw [List.mem_singleton.1 hx]
    exact fun _ => le_rfl
  · rcases hnone with h | h
    · exact absurd h hc
    · exact absurd hsame (h x hx)
  · rw [List.mem_singleton.1 hx]
    exact ⟨hc, le_rfl⟩

/-- A candidate that scores no higher than the earlier ones keeps the pass right. -/
theorem Kept.place (h : Kept contextScope seen kept) (hle : ∀ x ∈ seen, c.finalScore ≤ x.finalScore) :
    Kept contextScope (seen ++ [c]) (place contextScope kept c) := by
  rcases @place_cases contextScope kept c with
    ⟨hnone, heq⟩ | ⟨front, e, back, rfl, he, heq⟩ <;> rw [heq]
  · have hseen : ∀ x ∈ seen, trimmed x ≠ trimmed c := by
      intro x hx hsame
      obtain ⟨m, hm, hmx⟩ := h.covers x hx
      exact hnone m hm (hmx.trans hsame)
    refine ⟨?_, ?_, ?_⟩
    · rw [List.map_append, List.map_singleton, List.nodup_append_comm, List.singleton_append, List.nodup_cons]
      exact ⟨by simpa using hnone, h.nodup⟩
    · intro m hm
      rcases List.mem_append.1 hm with hm | hm
      · have hrep := h.represents m hm
        exact hrep.snoc (hle m hrep.1) fun hsame => absurd hsame.symm (hnone m hm)
      · rw [List.mem_singleton.1 hm]
        exact .last (fun x hx hsame => absurd hsame (hseen x hx)) (.inr hseen)
    · intro x hx
      rcases List.mem_append.1 hx with hx | hx
      · obtain ⟨m, hm, hmx⟩ := h.covers x hx
        exact ⟨m, List.mem_append_left _ hm, hmx⟩
      · exact ⟨c, by simp, by rw [List.mem_singleton.1 hx]⟩
  · have hrep := h.represents e (by simp)
    set r := if isContext contextScope c ∧ ¬ isContext contextScope e then c else e with hr
    have hr' : trimmed r = trimmed e := by
      rw [hr]
      split_ifs
      · exact he.symm
      · rfl
    have hmap : (front ++ r :: back).map trimmed = (front ++ e :: back).map trimmed := by simp [hr']
    refine ⟨by rw [hmap]; exact h.nodup, ?_, ?_⟩
    · have hnodup := h.nodup
      rw [List.map_append, List.map_cons, List.nodup_middle, List.nodup_cons, ← List.map_append] at hnodup
      intro m hm
      rcases List.mem_append.1 hm with hm' | hm'
      · have hm := h.represents m (List.mem_append_left _ hm')
        refine hm.snoc (hle m hm.1) fun hsame => absurd ?_ hnodup.1
        exact List.mem_map.2 ⟨m, List.mem_append_left _ hm', hsame.symm.trans he.symm⟩
      rcases List.mem_cons.1 hm' with rfl | hm'
      · rw [hr]
        split_ifs with hreplace
        · refine .last (fun x hx hsame => ?_) (.inl hreplace.1)
          have hnot := hrep.2
          rw [if_neg hreplace.2] at hnot
          exact (hnot x hx (hsame.trans he.symm)).1
        · refine hrep.snoc (hle e hrep.1) fun _ hc => ?_
          by_contra hne
          exact hreplace ⟨hc, hne⟩
      · have hm := h.represents m (by simp [hm'])
        refine hm.snoc (hle m hm.1) fun hsame => absurd ?_ hnodup.1
        exact List.mem_map.2 ⟨m, List.mem_append_right _ hm', hsame.symm.trans he.symm⟩
    · have hcover : ∀ y ∈ (front ++ e :: back).map trimmed, ∃ m ∈ front ++ r :: back, trimmed m = y := by
        rw [← hmap]
        exact fun y hy => List.mem_map.1 hy
      intro x hx
      rcases List.mem_append.1 hx with hx | hx
      · obtain ⟨m, hm, hmx⟩ := h.covers x hx
        exact hcover _ (List.mem_map.2 ⟨m, hm, hmx⟩)
      · rw [List.mem_singleton.1 hx]
        exact hcover _ (List.mem_map.2 ⟨e, by simp, he⟩)

theorem Kept.empty : Kept contextScope [] [] := ⟨List.nodup_nil, fun _ h => absurd h List.not_mem_nil,
  fun _ h => absurd h List.not_mem_nil⟩

theorem Kept.foldl {candidates : List ScoredMemory} (h : Kept contextScope seen kept)
    (hsorted : (seen ++ candidates).Pairwise fun a b => b.finalScore ≤ a.finalScore) :
    Kept contextScope (seen ++ candidates) (candidates.foldl (Memory.place contextScope) kept) := by
  induction candidates generalizing seen kept with
  | nil => simpa using h
  | cons c candidates ih =>
    have hle : ∀ x ∈ seen, c.finalScore ≤ x.finalScore := fun x hx =>
      (List.pairwise_append.1 hsorted).2.2 x hx c List.mem_cons_self
    rw [List.append_cons] at hsorted ⊢
    exact ih (h.place hle) hsorted

end

theorem byScore_sorted (l : List ScoredMemory) : (byScore l).Pairwise fun a b => b.finalScore ≤ a.finalScore :=
  (SortBy.sortBy_descending (R := fun _ _ => True) _ (List.pairwise_of_forall fun _ _ => trivial)).imp And.left

theorem mem_byScore {l : List ScoredMemory} {m : ScoredMemory} : m ∈ byScore l ↔ m ∈ l := (SortBy.sortBy_perm _ l).mem_iff

/-- `all` are the representatives of the candidates at or above the threshold, best first; the result is its first
fifty. -/
structure RankLaw (contextScope : Option String) (threshold : ℚ) (candidates all result : List ScoredMemory) : Prop where
  truncated : result = all.take maxRetrievalCandidates
  sorted : all.Pairwise fun a b => b.finalScore ≤ a.finalScore
  distinct : (all.map trimmed).Nodup
  represents : ∀ m ∈ all, Represents contextScope (candidates.filter (threshold ≤ ·.finalScore)) m
  covers : ∀ c ∈ candidates, threshold ≤ c.finalScore → ∃ m ∈ all, trimmed m = trimmed c

theorem rank_all (contextScope : Option String) (threshold : ℚ) (candidates : List ScoredMemory) :
    RankLaw contextScope threshold candidates
      (byScore (deduplicate contextScope (byScore (candidates.filter (threshold ≤ ·.finalScore)))))
      (rank contextScope threshold candidates) := by
  have hkept : Kept contextScope (byScore (candidates.filter (threshold ≤ ·.finalScore)))
      (deduplicate contextScope (byScore (candidates.filter (threshold ≤ ·.finalScore)))) :=
    Kept.foldl .empty (byScore_sorted _)
  refine ⟨rfl, byScore_sorted _, ?_, ?_, ?_⟩
  · exact (((SortBy.sortBy_perm _ _).map trimmed).nodup_iff).2 hkept.nodup
  · intro m hm
    simpa only [Represents, mem_byScore] using hkept.represents m (mem_byScore.1 hm)
  · intro c hc hle
    obtain ⟨m, hm, hmc⟩ := hkept.covers c (mem_byScore.2 (List.mem_filter.2 ⟨hc, by simpa using hle⟩))
    exact ⟨m, mem_byScore.2 hm, hmc⟩

/-- The result is sorted, has at most fifty entries with distinct contents at or above the threshold, and leaves a
representative out only where it is cut off. -/
theorem retrieval_law (contextScope : Option String) (threshold : ℚ) (candidates : List ScoredMemory) :
    let result := rank contextScope threshold candidates
    result.Pairwise (fun a b => b.finalScore ≤ a.finalScore) ∧ result.length ≤ maxRetrievalCandidates ∧
      (result.map trimmed).Nodup ∧ (∀ m ∈ result, threshold ≤ m.finalScore) ∧
      ∃ all, RankLaw contextScope threshold candidates all result := by
  have h := rank_all contextScope threshold candidates
  have hsub : (rank contextScope threshold candidates).Sublist _ := h.truncated ▸ List.take_sublist _ _
  refine ⟨h.sorted.sublist hsub, ?_, h.distinct.sublist (hsub.map trimmed), ?_, _, h⟩
  · rw [h.truncated]
    exact List.length_take_le _ _
  · intro m hm
    simpa using (List.mem_filter.1 (h.represents m (hsub.subset hm)).1).2

end ObeyGateway.Memory
