import Mathlib.Data.List.Sort
import Mathlib.Data.List.Perm.Basic
import ObeyGateway.Lib.Assoc

/-!
# Buckets

Maps from keys to lists of items, as an `entry(..).or_default()` makes them. `Sorts m items h` says that the
buckets of `m` hold the items, each under the key that `h` gives it, and that none of them is empty; it is
kept by adding an item (`Sorts.push`) and by pouring one bucket into another (`Sorts.pour`).
-/

structure HashOrder where
  order : {α : Type} → List α → List α
  perm : ∀ {α : Type} (l : List α), (order l).Perm l

def HashOrder.insertion : HashOrder := ⟨fun l => l, fun _ => .rfl⟩

namespace Buckets

variable {κ ι : Type} [DecidableEq κ]

def bucket (m : List (κ × List ι)) (k : κ) : List ι := (Assoc.get m k).getD []

def extend (m : List (κ × List ι)) (k : κ) (more : List ι) : List (κ × List ι) :=
  Assoc.put m k (bucket m k ++ more)

def groupBy (h : ι → κ) (items : List ι) : List (κ × List ι) :=
  items.foldl (fun m i => extend m (h i) [i]) []

/-- The bucket of `source` goes to the end of that of `target`. -/
def pour (target : κ) (m : List (κ × List ι)) (source : κ) : List (κ × List ι) :=
  match Assoc.get m source with
  | none => m
  | some items => extend (Assoc.erase m source) target items

structure Sorts (m : List (κ × List ι)) (items : List ι) (h : ι → κ) : Prop where
  bucket : ∀ k, (bucket m k).Perm (items.filter (h · = k))
  nonempty : ∀ k ∈ Assoc.keys m, Buckets.bucket m k ≠ []
  nodup : (Assoc.keys m).Nodup

variable {m : List (κ × List ι)} {items more : List ι} {h : ι → κ} {k k' : κ} {i : ι}

theorem bucket_extend : bucket (extend m k more) k' = if k' = k then bucket m k ++ more else bucket m k' := by
  unfold extend
  split
  · rename_i hk
    rw [hk, bucket, Assoc.get_put_self]
    rfl
  · rename_i hk
    rw [bucket, Assoc.get_put_of_ne hk]
    rfl

theorem bucket_erase : bucket (Assoc.erase m k) k' = if k' = k then [] else bucket m k' := by
  split
  · rename_i hk
    rw [hk, bucket, Assoc.get_erase_self]
    rfl
  · rename_i hk
    rw [bucket, Assoc.get_erase_of_ne hk]
    rfl

theorem mem_keys_extend : k' ∈ Assoc.keys (extend m k more) ↔ k' = k ∨ k' ∈ Assoc.keys m :=
  Assoc.mem_keys_put

theorem nodup_extend (hm : (Assoc.keys m).Nodup) : (Assoc.keys (extend m k more)).Nodup :=
  Assoc.nodup_put hm

theorem Sorts.mem_keys (hs : Sorts m items h) : k ∈ Assoc.keys m ↔ ∃ i ∈ items, h i = k := by
  constructor
  · intro hk
    obtain ⟨i, hi⟩ := List.exists_mem_of_ne_nil _ (hs.nonempty k hk)
    have hmem := (hs.bucket k).mem_iff.1 hi
    rw [List.mem_filter, decide_eq_true_iff] at hmem
    exact ⟨i, hmem.1, hmem.2⟩
  · rintro ⟨i, hi, hk⟩
    by_contra hnone
    have hmem := (hs.bucket k).mem_iff.2 (List.mem_filter.2 ⟨hi, decide_eq_true hk⟩)
    rw [Buckets.bucket, Assoc.get_eq_none hnone] at hmem
    cases hmem

theorem Sorts.congr (hs : Sorts m items h) {h' : ι → κ} (hh : ∀ i ∈ items, h i = h' i) : Sorts m items h' := by
  refine ⟨fun k => ?_, hs.nonempty, hs.nodup⟩
  have hfilter : items.filter (h · = k) = items.filter (h' · = k) :=
    List.filter_congr fun i hi => by rw [hh i hi]
  rw [← hfilter]
  exact hs.bucket k

theorem sorts_nil : Sorts ([] : List (κ × List ι)) [] h :=
  ⟨fun _ => .nil, fun _ hk => absurd hk List.not_mem_nil, List.nodup_nil⟩

theorem Sorts.push (hs : Sorts m items h) : Sorts (extend m (h i) [i]) (items ++ [i]) h := by
  refine ⟨fun k => ?_, fun k hk => ?_, nodup_extend hs.nodup⟩
  · rw [bucket_extend, List.filter_append]
    split
    · rename_i hk
      rw [← hk, List.filter_cons_of_pos (by simp [hk])]
      exact (hs.bucket k).append_right _
    · rename_i hk
      rw [List.filter_cons_of_neg (by simpa using fun h => hk h.symm), List.filter_nil, List.append_nil]
      exact hs.bucket k
  · rw [bucket_extend]
    split
    · exact List.append_ne_nil_of_right_ne_nil _ (by simp)
    · rename_i hne
      exact hs.nonempty k ((mem_keys_extend.1 hk).resolve_left hne)

theorem Sorts.foldl_push (hs : Sorts m items h) (more : List ι) :
    Sorts (more.foldl (fun m i => extend m (h i) [i]) m) (items ++ more) h := by
  induction more generalizing m items with
  | nil => rwa [List.append_nil]
  | cons i more ih =>
    have := ih (hs.push (i := i))
    rwa [List.append_assoc] at this

theorem sorts_groupBy (h : ι → κ) (items : List ι) : Sorts (groupBy h items) items h :=
  sorts_nil.foldl_push items

theorem filter_or_perm {p q : ι → Bool} (hpq : ∀ i ∈ items, p i = true → q i = false) :
    (items.filter p ++ items.filter q).Perm (items.filter fun i => p i || q i) := by
  induction items with
  | nil => exact .nil
  | cons i items ih =>
    have ih := ih fun j hj => hpq j (List.mem_cons_of_mem _ hj)
    by_cases hp : p i = true
    · have hq := hpq i List.mem_cons_self hp
      rw [List.filter_cons_of_pos hp, List.filter_cons_of_neg (by simp [hq]),
        List.filter_cons_of_pos (by simp [hp])]
      exact ih.cons i
    · by_cases hq : q i = true
      · rw [List.filter_cons_of_neg hp, List.filter_cons_of_pos hq, List.filter_cons_of_pos (by simp [hq])]
        exact List.perm_middle.trans (ih.cons i)
      · rw [List.filter_cons_of_neg hp, List.filter_cons_of_neg hq,
          List.filter_cons_of_neg (by simp [hp, hq])]
        exact ih

section
variable {source target : κ} (hne : source ≠ target)
include hne

theorem bucket_pour : bucket (pour target m source) k =
    if k = target then bucket m target ++ bucket m source else if k = source then [] else bucket m k := by
  unfold pour
  split
  · rename_i hnone
    have hempty : bucket m source = [] := by
      rw [bucket, hnone]
      rfl
    by_cases hkt : k = target
    · rw [if_pos hkt, hempty, List.append_nil, hkt]
    · rw [if_neg hkt]
      split
      · rename_i hks
        rw [hks, hempty]
      · rfl
  · rename_i items hsome
    have hitems : bucket m source = items := by
      rw [bucket, hsome]
      rfl
    rw [bucket_extend, bucket_erase, bucket_erase, if_neg hne.symm, hitems]

theorem filter_moved_target : (items.filter (h · = target) ++ items.filter (h · = source)).Perm
    (items.filter fun i => (if h i = source then target else h i) = target) := by
  refine (filter_or_perm fun i _ hi => ?_).trans (List.Perm.of_eq (List.filter_congr fun i _ => ?_))
  · rw [decide_eq_true_iff] at hi
    rw [hi]
    exact decide_eq_false hne.symm
  · by_cases hi : h i = source
    · simp [hi]
    · simp [hi]

theorem filter_moved_source : items.filter (fun i => (if h i = source then target else h i) = source) = [] := by
  refine List.filter_eq_nil_iff.2 fun i _ => ?_
  split
  · simpa using hne.symm
  · rename_i hi
    simpa using hi

omit hne in
theorem filter_moved_of_ne (hks : k ≠ source) (hkt : k ≠ target) :
    items.filter (fun i => (if h i = source then target else h i) = k) = items.filter (h · = k) := by
  refine List.filter_congr fun i _ => ?_
  split
  · rename_i hi
    rw [hi]
    simp [hks.symm, hkt.symm]
  · rfl

theorem Sorts.pour (hs : Sorts m items h) :
    Sorts (pour target m source) items fun i => if h i = source then target else h i := by
  refine ⟨fun k => ?_, ?_, ?_⟩
  · rw [bucket_pour hne]
    by_cases hkt : k = target
    · rw [if_pos hkt, hkt]
      exact ((hs.bucket target).append (hs.bucket source)).trans (filter_moved_target hne)
    · rw [if_neg hkt]
      by_cases hks : k = source
      · rw [if_pos hks, hks, filter_moved_source hne]
      · rw [if_neg hks, filter_moved_of_ne hks hkt]
        exact hs.bucket k
  · unfold Buckets.pour
    split
    · exact hs.nonempty
    · rename_i items' hsome
      have hitems : Buckets.bucket m source = items' := by
        rw [Buckets.bucket, hsome]
        rfl
      intro k hk
      rw [bucket_extend, bucket_erase, bucket_erase, if_neg hne.symm]
      split
      · refine List.append_ne_nil_of_right_ne_nil _ ?_
        rw [← hitems]
        exact hs.nonempty source (Assoc.get_isSome.1 (by rw [hsome]; rfl))
      · rename_i hkt
        have hmem := Assoc.mem_keys_erase.1 ((mem_keys_extend.1 hk).resolve_left hkt)
        rw [if_neg hmem.1]
        exact hs.nonempty k hmem.2
  · unfold Buckets.pour
    split
    · exact hs.nodup
    · exact nodup_extend (Assoc.nodup_erase hs.nodup)

end

theorem Sorts.foldl_pour (hs : Sorts m items h) {target : κ} {sources : List κ}
    (hne : target ∉ sources) : Sorts (sources.foldl (Buckets.pour target) m) items
      fun i => if h i ∈ sources then target else h i := by
  induction sources generalizing m h with
  | nil => simpa using hs
  | cons source sources ih =>
    obtain ⟨hfirst, hrest⟩ := not_or.1 (List.mem_cons.not.1 hne)
    have hall := ih (hs.pour (fun heq => hfirst heq.symm)) hrest
    have hsame : (fun i => if (if h i = source then target else h i) ∈ sources then target
        else if h i = source then target else h i) =
        fun i => if h i ∈ source :: sources then target else h i := by
      funext i
      by_cases hi : h i = source
      · simp [hi, hrest]
      · simp [hi]
    rwa [hsame] at hall

section
variable {α : Type} {l : List α} {key : α → κ} {at' : Nat → κ}

def groupPositions (key : α → κ) (l : List α) : List (κ × List Nat) :=
  l.zipIdx.foldl (fun m e => extend m (key e.1) [e.2]) []

theorem range_length : List.range l.length = l.zipIdx.map (·.2) := by
  rw [List.zipIdx_map_snd, List.range_eq_range']

theorem sorts_groupPositions (hkey : ∀ (i : Nat) (a : α), l[i]? = some a → at' i = key a) :
    Sorts (groupPositions key l) (List.range l.length) at' := by
  have hsame : groupPositions key l = groupBy at' (List.range l.length) := by
    rw [groupBy, range_length, List.foldl_map]
    refine List.foldl_ext _ _ _ fun m e he => ?_
    rw [hkey e.2 e.1 (List.mem_zipIdx_iff_getElem?.1 he)]
  rw [hsame]
  exact sorts_groupBy at' _

theorem filterMap_positions {p : α → Bool} (hp : ∀ (i : Nat) (a : α), l[i]? = some a → (at' i = k ↔ p a = true)) :
    ((List.range l.length).filter (at' · = k)).filterMap (l[·]?) = l.filter p := by
  have hget : ∀ e ∈ l.zipIdx, l[e.2]? = some e.1 := fun e he => List.mem_zipIdx_iff_getElem?.1 he
  have hfilter : l.zipIdx.filter ((fun i => decide (at' i = k)) ∘ (·.2)) =
      l.zipIdx.filter (p ∘ (·.1)) := by
    refine List.filter_congr fun e he => ?_
    rw [Function.comp_apply, Function.comp_apply, Bool.eq_iff_iff, decide_eq_true_iff]
    exact hp e.2 e.1 (hget e he)
  have hmap : (l.zipIdx.filter (p ∘ (·.1))).filterMap ((l[·]?) ∘ (·.2)) =
      (l.zipIdx.filter (p ∘ (·.1))).filterMap (some ∘ (·.1)) :=
    List.filterMap_congr fun e he => hget e (List.mem_of_mem_filter he)
  rw [range_length, List.filter_map, List.filterMap_map, hfilter, hmap, List.filterMap_eq_map,
    ← List.filter_map, List.zipIdx_map_fst]

theorem length_positions {p : α → Bool} (hp : ∀ (i : Nat) (a : α), l[i]? = some a → (at' i = k ↔ p a = true)) :
    ((List.range l.length).filter (at' · = k)).length = (l.filter p).length := by
  have hlength : ∀ is : List Nat, (∀ i ∈ is, i < l.length) →
      (is.filterMap (l[·]?)).length = is.length := by
    intro is his
    induction is with
    | nil => rfl
    | cons i is ih =>
      have hi := his i List.mem_cons_self
      rw [List.filterMap_cons_some (List.getElem?_eq_getElem hi), List.length_cons, List.length_cons,
        ih fun j hj => his j (List.mem_cons_of_mem _ hj)]
  rw [← filterMap_positions hp, hlength]
  intro i hi
  exact List.mem_range.1 (List.mem_of_mem_filter hi)

end

end Buckets
