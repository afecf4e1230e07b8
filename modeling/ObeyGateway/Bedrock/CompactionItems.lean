import Mathlib.Algebra.GroupWithZero.Nat
import Mathlib.Data.List.Basic
import ObeyGateway.Lib.Json

/-!
# `dedupe_compaction_items`

`providers/bedrock.rs` leaves one compaction item in the `input` of a request. The item to keep is chosen by a count that
goes into compaction items, and found by an index that does not. Where no compaction item lies inside another one the last
one is kept; elsewhere every one is removed, the only valid one too (`dedupe_law_iff`).
-/

namespace ObeyGateway.Bedrock
open Json

def isCompactionItem (value : Json) : Bool :=
  (value.get "type").bind asStr = some "compaction" || (value.get "encrypted_content").isSome

mutual

def countCompactionItems : Json → Nat
  | .array items => items.countP isCompactionItem + countItems items
  | .object fields => countFields fields
  | _ => 0

def countItems : List Json → Nat
  | [] => 0
  | v :: vs => countCompactionItems v + countItems vs

def countFields : List (String × Json) → Nat
  | [] => 0
  | f :: fs => countCompactionItems f.2 + countFields fs

end

section
variable (keepIndex : Nat)

mutual

/-- The inner `walk`, from how many items have been seen: what is left of the value, how many have been seen after it, and
how many were removed. -/
def walk : Json → Nat → Json × Nat × Nat
  | .array items, seen =>
    let (items, rest) := walkItems items seen
    (.array items, rest)
  | .object fields, seen =>
    let (fields, rest) := walkFields fields seen
    (.object fields, rest)
  | v, seen => (v, seen, 0)

def walkItems : List Json → Nat → List Json × Nat × Nat
  | [], seen => ([], seen, 0)
  | v :: vs, seen =>
    if isCompactionItem v then
      let (items, last, removed) := walkItems vs (seen + 1)
      if seen = keepIndex then (v :: items, last, removed) else (items, last, removed + 1)
    else
      let (v, next, here) := walk v seen
      let (items, last, removed) := walkItems vs next
      (v :: items, last, here + removed)

def walkFields : List (String × Json) → Nat → List (String × Json) × Nat × Nat
  | [], seen => ([], seen, 0)
  | f :: fs, seen =>
    let (v, next, here) := walk f.2 seen
    let (fields, last, removed) := walkFields fs next
    ((f.1, v) :: fields, last, here + removed)

end

end

def dedupeCompactionItems (input : Json) : Json × Nat :=
  let total := countCompactionItems input
  if total ≤ 1 then (input, 0)
  else
    let (left, _, removed) := walk (total - 1) input 0
    (left, removed)

/-! ### Outermost items -/

mutual

def outermost : Json → List Json
  | .array items => outermostItems items
  | .object fields => outermostFields fields
  | _ => []

def outermostItems : List Json → List Json
  | [] => []
  | v :: vs => (if isCompactionItem v then [v] else outermost v) ++ outermostItems vs

def outermostFields : List (String × Json) → List Json
  | [] => []
  | f :: fs => outermost f.2 ++ outermostFields fs

end

mutual

/-- The value without the first `k` of its outermost items. -/
def dropFirst : Nat → Json → Json
  | k, .array items => .array (dropItems k items)
  | k, .object fields => .object (dropFields k fields)
  | _, v => v

def dropItems : Nat → List Json → List Json
  | _, [] => []
  | k, v :: vs =>
    if isCompactionItem v then
      if k = 0 then v :: dropItems 0 vs else dropItems (k - 1) vs
    else dropFirst k v :: dropItems (k - (outermost v).length) vs

def dropFields : Nat → List (String × Json) → List (String × Json)
  | _, [] => []
  | k, f :: fs => (f.1, dropFirst k f.2) :: dropFields (k - (outermost f.2).length) fs

end

/-- The last outermost item is kept, the others are removed and counted; nothing else changes, nor does another round.
-/
structure DedupeLaw (input : Json) : Prop where
  kept : outermost (dedupeCompactionItems input).1 = (outermost input).getLast?.toList
  rest : (dedupeCompactionItems input).1 = dropFirst ((outermost input).length - 1) input
  removed : (dedupeCompactionItems input).2 = (outermost input).length - 1
  again : dedupeCompactionItems (dedupeCompactionItems input).1 = ((dedupeCompactionItems input).1, 0)

theorem count_eq (v : Json) : countCompactionItems v = ((outermost v).map fun o => countCompactionItems o + 1).sum := by
  induction v with
  | array items ih =>
    rw [countCompactionItems, outermost]
    induction items with
    | nil => rfl
    | cons v vs ihs =>
      have hv := ih v List.mem_cons_self
      have hvs := ihs fun w hw => ih w (List.mem_cons_of_mem v hw)
      rw [outermostItems, countItems, List.map_append, List.sum_append, ← hvs, List.countP_cons]
      split_ifs with hc
      · simp only [List.map_cons, List.map_nil, List.sum_cons, List.sum_nil]
        omega
      · omega
  | object fields ih =>
    rw [countCompactionItems, outermost]
    induction fields with
    | nil => rfl
    | cons f fs ihs =>
      rw [outermostFields, countFields, List.map_append, List.sum_append, ih f List.mem_cons_self,
        ihs fun g hg => ih g (List.mem_cons_of_mem f hg)]
  | _ => rfl

theorem sum_add_one (l : List Json) :
    (l.map fun o => countCompactionItems o + 1).sum = (l.map countCompactionItems).sum + l.length := by
  induction l with
  | nil => rfl
  | cons o l ih =>
    simp only [List.map_cons, List.sum_cons, List.length_cons, ih]
    omega

/-- An index that at most one outermost item can reach makes the walk drop those before it. -/
theorem walk_eq (keepIndex : Nat) (v : Json) (seen : Nat) (h : seen + (outermost v).length ≤ keepIndex + 1) :
    walk keepIndex v seen = (dropFirst (keepIndex - seen) v, seen + (outermost v).length,
      min (keepIndex - seen) (outermost v).length) := by
  induction v generalizing seen with
  | array items ih =>
    suffices hitems : walkItems keepIndex items seen = (dropItems (keepIndex - seen) items, seen + (outermostItems items).length,
        min (keepIndex - seen) (outermostItems items).length) by
      rw [walk, hitems, dropFirst, outermost]
    rw [outermost] at h
    induction items generalizing seen with
    | nil => simp [walkItems, dropItems, outermostItems]
    | cons v vs ihs =>
      have ihs := ihs fun w hw => ih w (List.mem_cons_of_mem v hw)
      rw [walkItems, dropItems, outermostItems]
      rw [outermostItems] at h
      split_ifs at h ⊢ with hc hseen hk hk
      · rw [ihs (seen + 1) (by simp at h; omega)]
        simp only [List.singleton_append, List.length_cons, Prod.mk.injEq, List.cons.injEq, true_and]
        exact ⟨by congr 1; omega, by omega, by omega⟩
      · omega
      · simp only [List.singleton_append, List.length_cons] at h
        omega
      · rw [ihs (seen + 1) (by simp at h; omega)]
        simp only [List.singleton_append, List.length_cons, Prod.mk.injEq] at h ⊢
        exact ⟨by rw [Nat.sub_sub], by omega, by omega⟩
      · rw [List.length_append] at h
        rw [ih v List.mem_cons_self seen (by omega)]
        dsimp only
        rw [ihs _ (by omega), List.length_append]
        simp only [Prod.mk.injEq, List.cons.injEq, true_and]
        exact ⟨by congr 1; omega, by omega, by omega⟩
  | object fields ih =>
    suffices hfields : walkFields keepIndex fields seen =
        (dropFields (keepIndex - seen) fields, seen + (outermostFields fields).length,
          min (keepIndex - seen) (outermostFields fields).length) by
      rw [walk, hfields, dropFirst, outermost]
    rw [outermost] at h
    induction fields generalizing seen with
    | nil => simp [walkFields, dropFields, outermostFields]
    | cons f fs ihs =>
      rw [outermostFields, List.length_append] at h
      rw [walkFields, dropFields, outermostFields, ih f List.mem_cons_self seen (by omega)]
      dsimp only
      rw [ihs (fun g hg => ih g (List.mem_cons_of_mem f hg)) _ (by omega), List.length_append]
      simp only [Prod.mk.injEq, List.cons.injEq, true_and]
      exact ⟨by congr 1; omega, by omega, by omega⟩
  | _ => simp [walk, dropFirst, outermost]

/-! ### What is dropped -/

theorem asStr_dropFirst (k : Nat) (v : Json) : asStr (dropFirst k v) = asStr v := by
  cases v <;> simp [dropFirst, asStr]

theorem get_dropFields (k : Nat) (fields : Map) (key : String) :
    (Assoc.get (dropFields k fields) key).bind asStr = (Assoc.get fields key).bind asStr ∧
      (Assoc.get (dropFields k fields) key).isSome = (Assoc.get fields key).isSome := by
  induction fields generalizing k with
  | nil => exact ⟨rfl, rfl⟩
  | cons f fs ih =>
    by_cases hkey : f.1 = key
    · subst hkey
      simp [dropFields, Assoc.get, asStr_dropFirst]
    · simpa [dropFields, Assoc.get, hkey] using ih (k - (outermost f.2).length)

theorem isCompactionItem_dropFirst (k : Nat) (v : Json) : isCompactionItem (dropFirst k v) = isCompactionItem v := by
  cases v with
  | object fields =>
    rw [dropFirst, isCompactionItem, isCompactionItem, Json.get, Json.get, (get_dropFields k fields "type").1,
      (get_dropFields k fields "encrypted_content").2]
    rfl
  | _ => simp [dropFirst, isCompactionItem, Json.get]

theorem outermost_dropFirst (k : Nat) (v : Json) : outermost (dropFirst k v) = (outermost v).drop k := by
  induction v generalizing k with
  | array items ih =>
    rw [dropFirst, outermost, outermost]
    induction items generalizing k with
    | nil => simp [dropItems, outermostItems]
    | cons v vs ihs =>
      have ihs := ihs fun w hw => ih w (List.mem_cons_of_mem v hw)
      rw [dropItems, outermostItems]
      split_ifs with hc hk
      · subst hk
        simp [outermostItems, hc, ihs]
      · obtain ⟨k, rfl⟩ := Nat.exists_eq_succ_of_ne_zero hk
        simp [ihs]
      · rw [outermostItems, isCompactionItem_dropFirst, if_neg hc, ih v List.mem_cons_self, ihs, List.drop_append]
  | object fields ih =>
    rw [dropFirst, outermost, outermost]
    induction fields generalizing k with
    | nil => simp [dropFields, outermostFields]
    | cons f fs ihs =>
      rw [dropFields, outermostFields, outermostFields, ih f List.mem_cons_self,
        ihs (fun g hg => ih g (List.mem_cons_of_mem f hg)), List.drop_append]
  | _ => simp [dropFirst, outermost]

theorem dropFirst_zero (v : Json) : dropFirst 0 v = v := by
  induction v with
  | array items ih =>
    rw [dropFirst]
    congr 1
    induction items with
    | nil => rfl
    | cons v vs ihs =>
      have hvs := ihs fun w hw => ih w (List.mem_cons_of_mem v hw)
      simp [dropItems, ih v List.mem_cons_self, hvs]
  | object fields ih =>
    rw [dropFirst]
    congr 1
    induction fields with
    | nil => rfl
    | cons f fs ihs =>
      rw [dropFields, Nat.zero_sub, ihs fun g hg => ih g (List.mem_cons_of_mem f hg), ih f List.mem_cons_self]
  | _ => simp [dropFirst]

theorem dedupe_eq {v : Json} (h : 2 ≤ countCompactionItems v) (hle : (outermost v).length ≤ countCompactionItems v) :
    dedupeCompactionItems v = (dropFirst (countCompactionItems v - 1) v,
      min (countCompactionItems v - 1) (outermost v).length) := by
  rw [dedupeCompactionItems, if_neg (by omega), walk_eq _ _ _ (by omega), Nat.sub_zero]

theorem dedupe_of_count_le {v : Json} (h : countCompactionItems v ≤ 1) : dedupeCompactionItems v = (v, 0) := by
  rw [dedupeCompactionItems, if_pos h]

theorem drop_length_sub_one (l : List Json) : l.drop (l.length - 1) = l.getLast?.toList := by
  rcases List.eq_nil_or_concat l with rfl | ⟨l, o, rfl⟩ <;> simp

/-- The last one is kept exactly when the outermost items have none inside. -/
theorem dedupe_law_iff (input : Json) : DedupeLaw input ↔ ∀ item ∈ outermost input, countCompactionItems item = 0 := by
  have hcount := (count_eq input).trans (sum_add_one _)
  constructor
  · intro h item hitem
    by_contra hne
    have hsum := List.sum_pos_iff_exists_pos_nat.2
      ⟨_, List.mem_map.2 ⟨item, hitem, rfl⟩, Nat.pos_of_ne_zero hne⟩
    have hpos := List.length_pos_of_mem hitem
    have hkept := h.kept
    rw [dedupe_eq (by omega) (by omega), outermost_dropFirst, List.drop_eq_nil_of_le (by omega),
      ← drop_length_sub_one] at hkept
    have := List.drop_eq_nil_iff.1 hkept.symm
    omega
  · intro h
    have hsum : ((outermost input).map countCompactionItems).sum = 0 :=
      List.sum_eq_zero_iff_forall_eq_nat.2 fun n hn => by
        obtain ⟨o, ho, rfl⟩ := List.mem_map.1 hn
        exact h o ho
    rw [hsum, Nat.zero_add] at hcount
    have heq : dedupeCompactionItems input =
        (dropFirst ((outermost input).length - 1) input, (outermost input).length - 1) := by
      rcases Nat.lt_or_ge 1 (outermost input).length with hlen | hlen
      · rw [dedupe_eq (by omega) (by omega), hcount, min_eq_left (by omega)]
      · rw [dedupe_of_count_le (by omega), show (outermost input).length - 1 = 0 by omega, dropFirst_zero]
    have hkept : outermost (dedupeCompactionItems input).1 = (outermost input).getLast?.toList := by
      rw [heq, outermost_dropFirst, drop_length_sub_one]
    refine ⟨hkept, by rw [heq], by rw [heq], dedupe_of_count_le ?_⟩
    rw [count_eq, hkept]
    rcases hlast : (outermost input).getLast? with _ | o
    · simp
    · simp [h o (List.mem_of_getLast? hlast)]

/-- One compaction item with another one inside: both are gone. -/
theorem dedupe_nested : ¬ DedupeLaw (.array [.object [("content", .array [.object [("type", .string "compaction")]]),
    ("type", .string "compaction")]]) := by
  intro h
  exact absurd h.kept (by decide +kernel)

end ObeyGateway.Bedrock
