import Mathlib.Algebra.Order.Field.Basic
import Mathlib.Data.List.Sort
import Mathlib.Tactic.Linarith

/-!
# Sorting with a comparator

`slice::sort_by`: a stable sort by a comparator that is promised to be a total preorder (`TotalOn`). Where it is one the
result is sorted and, for elements the comparator tells apart, does not depend on their order. `bandCmp` compares by a
cost, and by a second key where two costs are close; it is transitive on a list exactly if the second key reverses no
chain of two close steps (`Reversed`).
-/

namespace SortBy

variable {α : Type*}

def sortBy (cmp : α → α → Ordering) (l : List α) : List α := l.mergeSort fun a b => (cmp a b).isLE

structure TotalOn (cmp : α → α → Ordering) (l : List α) : Prop where
  swap : ∀ a ∈ l, ∀ b ∈ l, cmp b a = (cmp a b).swap
  trans : ∀ a ∈ l, ∀ b ∈ l, ∀ c ∈ l, (cmp a b).isLE → (cmp b c).isLE → (cmp a c).isLE

variable {cmp cmp' : α → α → Ordering} {l l' : List α}

theorem sortBy_perm (cmp : α → α → Ordering) (l : List α) : (sortBy cmp l).Perm l := List.mergeSort_perm l _

@[simp] theorem mem_sortBy {a : α} : a ∈ sortBy cmp l ↔ a ∈ l := (sortBy_perm cmp l).mem_iff

namespace TotalOn

theorem mono (h : TotalOn cmp l) (hl : ∀ a ∈ l', a ∈ l) : TotalOn cmp l' where
  swap a ha b hb := h.swap a (hl a ha) b (hl b hb)
  trans a ha b hb c hc := h.trans a (hl a ha) b (hl b hb) c (hl c hc)

theorem total (h : TotalOn cmp l) {a b : α} (ha : a ∈ l) (hb : b ∈ l) : (cmp a b).isLE || (cmp b a).isLE := by
  rw [h.swap a ha b hb]
  cases cmp a b <;> rfl

theorem eq_of_isLE (h : TotalOn cmp l) {a b : α} (ha : a ∈ l) (hb : b ∈ l) (hab : (cmp a b).isLE)
    (hba : (cmp b a).isLE) : cmp a b = .eq := by
  rw [h.swap a ha b hb] at hba
  cases hc : cmp a b <;> simp_all

theorem eq_trans (h : TotalOn cmp l) {a b c : α} (ha : a ∈ l) (hb : b ∈ l) (hc : c ∈ l) (hab : cmp a b = .eq)
    (hbc : cmp b c = .eq) : cmp a c = .eq := by
  have hba : cmp b a = .eq := by rw [h.swap a ha b hb, hab]; rfl
  have hcb : cmp c b = .eq := by rw [h.swap b hb c hc, hbc]; rfl
  refine h.eq_of_isLE ha hc ?_ ?_
  · exact h.trans a ha b hb c hc (by simp [hab]) (by simp [hbc])
  · exact h.trans c hc b hb a ha (by simp [hcb]) (by simp [hba])

theorem sortBy_attach (cmp : α → α → Ordering) (l : List α) :
    (sortBy (fun a b : { a // a ∈ l } => cmp a b) l.attach).map Subtype.val = sortBy cmp l := by
  have hmap := List.map_mergeSort (l := l.attach) (f := Subtype.val) (r := fun a b => (cmp a.1 b.1).isLE)
    (s := fun a b => (cmp a b).isLE) fun _ _ _ _ => rfl
  rw [List.attach_map_subtype_val] at hmap
  exact hmap

theorem sortBy_pairwise (h : TotalOn cmp l) : (sortBy cmp l).Pairwise fun a b => (cmp a b).isLE := by
  rw [← sortBy_attach, List.pairwise_map]
  refine List.pairwise_mergeSort ?_ ?_ _
  · intro a b c hab hbc
    exact h.trans a a.2 b b.2 c c.2 hab hbc
  · intro a b
    exact h.total a.2 b.2

theorem sortBy_eq_of_perm (h : TotalOn cmp l) (hl : l.Pairwise fun a b => cmp a b ≠ .eq) (hp : l'.Perm l) :
    sortBy cmp l' = sortBy cmp l := by
  have h' : TotalOn cmp l' := h.mono fun a ha => hp.subset ha
  have hs : (sortBy cmp l').Perm (sortBy cmp l) := (sortBy_perm cmp l').trans (hp.trans (sortBy_perm cmp l).symm)
  refine hs.eq_of_pairwise ?_ h'.sortBy_pairwise h.sortBy_pairwise
  intro a b ha hb hab hba
  have hal : a ∈ l := hp.subset (mem_sortBy.1 ha)
  have hbl : b ∈ l := mem_sortBy.1 hb
  have hne : ∀ x ∈ l, ∀ y ∈ l, cmp x y ≠ .eq → cmp y x ≠ .eq := by
    intro x hx y hy hxy hyx
    rw [h.swap x hx y hy, Ordering.swap_eq_eq] at hyx
    exact hxy hyx
  have hall : ∀ x ∈ l, ∀ y ∈ l, x ≠ y → cmp x y ≠ .eq := by
    intro x hx y hy
    refine List.Pairwise.forall_of_forall_of_flip (R := fun x y => x ≠ y → cmp x y ≠ .eq) ?_ ?_ ?_ hx hy
    · exact fun x _ hxx => absurd rfl hxx
    · exact hl.imp_of_mem fun _ _ hxy _ => hxy
    · exact hl.imp_of_mem fun hx hy hxy _ => hne _ hx _ hy hxy
  by_contra hab'
  exact hall a hal b hbl hab' (h.eq_of_isLE hal hbl hab hba)

end TotalOn

/-- A stable sort of a list in the order of `R` leaves the elements it does not tell apart in that order. -/
theorem sortBy_stable (hcmp : ∀ l, TotalOn cmp l) {R : α → α → Prop} (hR : l.Pairwise R) :
    (sortBy cmp l).Pairwise fun a b => (cmp a b).isLE ∧ ((cmp b a).isLE → R a b) := by
  have htrans : ∀ a b c : α, (cmp a b).isLE → (cmp b c).isLE → (cmp a c).isLE := fun a b c =>
    (hcmp [a, b, c]).trans a (by simp) b (by simp) c (by simp)
  have htotal : ∀ a b : α, (cmp a b).isLE || (cmp b a).isLE := fun a b =>
    (hcmp [a, b]).total (by simp) (by simp)
  -- with the positions attached the order is strict, and equal elements compare by position
  have hsorted := List.pairwise_mergeSort (List.zipIdxLE_trans htrans) (List.zipIdxLE_total htotal) l.zipIdx
  have hidx : ((l.zipIdx.mergeSort (List.zipIdxLE fun a b => (cmp a b).isLE))).Pairwise
      fun a b => a.2 ≠ b.2 := by
    have hnodup : (l.zipIdx.map Prod.snd).Nodup := by
      rw [List.zipIdx_map_snd]
      exact List.nodup_range'
    rw [← ((List.mergeSort_perm _ _).map Prod.snd).nodup_iff] at hnodup
    exact List.pairwise_map.1 hnodup
  unfold sortBy
  rw [← List.mergeSort_zipIdx, List.pairwise_map]
  refine (hsorted.and hidx).imp_of_mem ?_
  intro a b ha hb ⟨hab, hne⟩
  rw [List.mem_mergeSort, List.mem_zipIdx_iff_getElem?] at ha hb
  simp only [List.zipIdxLE, Bool.if_false_right, Bool.if_true_right, Bool.and_eq_true, Bool.or_eq_true,
    Bool.not_eq_true', decide_eq_true_eq] at hab
  refine ⟨hab.1, fun hba => ?_⟩
  have hlt : a.2 < b.2 := by
    rcases hab.2 with h | h
    · simp [hba] at h
    · omega
  obtain ⟨ha', ha''⟩ := List.getElem?_eq_some_iff.1 ha
  obtain ⟨hb', hb''⟩ := List.getElem?_eq_some_iff.1 hb
  rw [← ha'', ← hb'']
  exact List.pairwise_iff_getElem.1 hR a.2 b.2 ha' hb' hlt

theorem totalOn_descending {L : Type*} [LinearOrder L] (f : α → L) (l : List α) :
    TotalOn (fun a b => compare (f b) (f a)) l where
  swap _ _ _ _ := Std.OrientedOrd.eq_swap
  trans a _ b _ c _ hab hbc := by
    rw [Std.LawfulBCmp.isLE_iff_le] at hab hbc ⊢
    exact hbc.trans hab

theorem sortBy_descending {L : Type*} [LinearOrder L] (f : α → L) {R : α → α → Prop} (hR : l.Pairwise R) :
    (sortBy (fun a b => compare (f b) (f a)) l).Pairwise fun a b => f b ≤ f a ∧ (f a = f b → R a b) := by
  refine (sortBy_stable (totalOn_descending f) hR).imp ?_
  rintro a b ⟨hle, htie⟩
  exact ⟨Std.LawfulBCmp.isLE_iff_le.1 hle, fun he => htie (Std.LawfulBCmp.isLE_iff_le.2 he.le)⟩

/-- The first `n` elements in the order of the comparator. -/
def lowest (cmp : α → α → Ordering) (n : Nat) (l : List α) : List α := (sortBy cmp l).take n

theorem mem_of_mem_lowest {n : Nat} {a : α} (h : a ∈ lowest cmp n l) : a ∈ l := mem_sortBy.1 (List.mem_of_mem_take h)

theorem TotalOn.isLE_of_lowest (h : TotalOn cmp l) {n : Nat} {a b : α} (ha : a ∈ lowest cmp n l) (hb : b ∈ l)
    (hleft : b ∉ lowest cmp n l) : (cmp a b).isLE := by
  have hsorted := h.sortBy_pairwise
  rw [← List.take_append_drop n (sortBy cmp l), List.pairwise_append] at hsorted
  have hmem : b ∈ (sortBy cmp l).take n ++ (sortBy cmp l).drop n := by
    rw [List.take_append_drop]
    exact mem_sortBy.2 hb
  rcases List.mem_append.1 hmem with htake | hdrop
  · exact absurd htake hleft
  · exact hsorted.2.2 a ha b hdrop

theorem mem_take_iff_of_sorted (hswap : ∀ a b, cmp b a = (cmp a b).swap) (h : l.Pairwise fun a b => cmp a b = .lt)
    {a : α} (ha : a ∈ l) (n : Nat) : a ∈ l.take n ↔ (l.filter (cmp · a = .lt)).length < n := by
  have hself : ∀ x, cmp x x ≠ .lt := by
    intro x hx
    have hswapped := hswap x x
    rw [hx] at hswapped
    cases hswapped
  induction l generalizing n with
  | nil => cases ha
  | cons x l ih =>
    obtain ⟨hx, hl⟩ := List.pairwise_cons.1 h
    cases n with
    | zero => simp
    | succ n =>
      rw [List.take_succ_cons, List.mem_cons]
      rcases List.mem_cons.1 ha with rfl | hal
      · have habove : l.filter (cmp · a = .lt) = [] := by
          refine List.filter_eq_nil_iff.2 fun y hy hlt => ?_
          rw [hswap, hx y hy] at hlt
          simp at hlt
        rw [List.filter_cons_of_neg (by simpa using hself a), habove]
        simp
      · have hne : a ≠ x := by
          rintro rfl
          exact hself a (hx a hal)
        have hrest := ih hl hal n
        rw [List.filter_cons_of_pos (by simpa using hx a hal), List.length_cons, Nat.add_lt_add_iff_right]
        exact (or_iff_right hne).trans hrest

theorem mem_lowest_iff (h : TotalOn cmp l) (hswap : ∀ a b, cmp b a = (cmp a b).swap)
    (hl : l.Pairwise fun a b => cmp a b ≠ .eq) {a : α} (ha : a ∈ l) (n : Nat) :
    a ∈ lowest cmp n l ↔ (l.filter (cmp · a = .lt)).length < n := by
  have hsym : ∀ {x y : α}, cmp x y ≠ .eq → cmp y x ≠ .eq := by
    intro x y hxy hyx
    rw [hswap, Ordering.swap_eq_eq] at hyx
    exact hxy hyx
  have hne : (sortBy cmp l).Pairwise fun a b => cmp a b ≠ .eq :=
    (List.Perm.pairwise_iff hsym (sortBy_perm cmp l)).2 hl
  have hstrict : (sortBy cmp l).Pairwise fun a b => cmp a b = .lt := by
    refine (h.sortBy_pairwise.and hne).imp ?_
    rintro x y ⟨hle, hneq⟩
    cases hcmp : cmp x y with
    | lt => rfl
    | eq => exact absurd hcmp hneq
    | gt => simp [hcmp] at hle
  rw [lowest, mem_take_iff_of_sorted hswap hstrict (mem_sortBy.2 ha) n, ((sortBy_perm cmp l).filter _).length_eq]

/-! ### Costs in bands -/

section Band
variable {K L M : Type*} [Field K] [LinearOrder K] [LinearOrder L] [LinearOrder M]

/-- The costs differ by at most the share `r` of the smaller one. -/
def Near (r x y : K) : Prop := |x - y| ≤ min x y * r

instance (r x y : K) : Decidable (Near r x y) := inferInstanceAs (Decidable (_ ≤ _))

/-- By the cost, and by `tie` where the costs are near. -/
def bandCmp (r : K) (cost : α → K) (tie : α → L) (a b : α) : Ordering :=
  if Near r (cost a) (cost b) then compare (tie a) (tie b) else compare (cost a) (cost b)

/-- By `key` first. -/
def keyedBandCmp (key : α → M) (r : K) (cost : α → K) (tie : α → L) (a b : α) : Ordering :=
  (compare (key a) (key b)).then (bandCmp r cost tie a b)

/-- Two near steps lead from `a` to a cost that is not near, and `tie` goes the other way. -/
structure Reversed (r : K) (cost : α → K) (tie : α → L) (a b c : α) : Prop where
  near_left : Near r (cost a) (cost b)
  near_right : Near r (cost b) (cost c)
  not_near : ¬ Near r (cost a) (cost c)
  dearer : cost a < cost c
  tie_right : tie c ≤ tie b
  tie_left : tie b ≤ tie a

variable {r x y : K} {key : α → M} {cost : α → K} {tie : α → L} {a b c : α}

theorem near_comm : Near r x y ↔ Near r y x := by
  unfold Near
  rw [abs_sub_comm, min_comm]

theorem bandCmp_isLE_of_near (h : Near r (cost a) (cost b)) : (bandCmp r cost tie a b).isLE ↔ tie a ≤ tie b := by
  rw [bandCmp, if_pos h, Std.LawfulBCmp.isLE_iff_le]

theorem bandCmp_isLE_of_not_near (h : ¬ Near r (cost a) (cost b)) : (bandCmp r cost tie a b).isLE ↔ cost a ≤ cost b := by
  rw [bandCmp, if_neg h, Std.LawfulBCmp.isLE_iff_le]

theorem bandCmp_not_isLE_cases (h : ¬ (bandCmp r cost tie a b).isLE) :
    Near r (cost a) (cost b) ∧ tie b < tie a ∨ ¬ Near r (cost a) (cost b) ∧ cost b < cost a := by
  by_cases hn : Near r (cost a) (cost b)
  · rw [bandCmp_isLE_of_near hn, not_le] at h
    exact .inl ⟨hn, h⟩
  · rw [bandCmp_isLE_of_not_near hn, not_le] at h
    exact .inr ⟨hn, h⟩

theorem bandCmp_swap : bandCmp r cost tie b a = (bandCmp r cost tie a b).swap := by
  unfold bandCmp
  by_cases h : Near r (cost a) (cost b)
  · rw [if_pos h, if_pos (near_comm.1 h)]
    exact Std.OrientedOrd.eq_swap
  · rw [if_neg h, if_neg fun h' => h (near_comm.1 h')]
    exact Std.OrientedOrd.eq_swap

theorem keyedBandCmp_swap : keyedBandCmp key r cost tie b a = (keyedBandCmp key r cost tie a b).swap := by
  unfold keyedBandCmp
  rw [Ordering.swap_then, ← bandCmp_swap, ← Std.OrientedOrd.eq_swap]

theorem keyedBandCmp_isLE :
    (keyedBandCmp key r cost tie a b).isLE ↔ key a < key b ∨ key a = key b ∧ (bandCmp r cost tie a b).isLE := by
  rw [keyedBandCmp, Ordering.isLE_then_iff_or, Std.LawfulBCmp.eq_lt_iff_lt, Std.LawfulEqCmp.compare_eq_iff_eq]

theorem Reversed.not_isLE (h : Reversed r cost tie a b c) :
    (bandCmp r cost tie c b).isLE ∧ (bandCmp r cost tie b a).isLE ∧ ¬ (bandCmp r cost tie c a).isLE := by
  rw [bandCmp_isLE_of_near (near_comm.1 h.near_right), bandCmp_isLE_of_near (near_comm.1 h.near_left),
    bandCmp_isLE_of_not_near fun h' => h.not_near (near_comm.1 h'), not_le]
  exact ⟨h.tie_right, h.tie_left, h.dearer⟩

variable [IsStrictOrderedRing K]

theorem near_iff (hr : 0 ≤ r) (hx : 0 ≤ x) (hy : 0 ≤ y) : Near r x y ↔ y ≤ x + x * r ∧ x ≤ y + y * r := by
  have hxr : 0 ≤ x * r := mul_nonneg hx hr
  have hyr : 0 ≤ y * r := mul_nonneg hy hr
  unfold Near
  rcases le_total x y with h | h
  · rw [abs_sub_comm, abs_of_nonneg (sub_nonneg.2 h), min_eq_left h, sub_le_iff_le_add']
    exact ⟨fun hyx => ⟨hyx, by linarith⟩, fun hyx => hyx.1⟩
  · rw [abs_of_nonneg (sub_nonneg.2 h), min_eq_right h, sub_le_iff_le_add']
    exact ⟨fun hxy => ⟨by linarith, hxy⟩, fun hxy => hxy.2⟩

theorem Near.between {x y z : K} (hr : 0 ≤ r) (hx : 0 ≤ x) (h : Near r x z) (hxy : x ≤ y) (hyz : y ≤ z) :
    Near r x y ∧ Near r y z := by
  have hy : 0 ≤ y := hx.trans hxy
  have hz : 0 ≤ z := hy.trans hyz
  have hxr : x * r ≤ y * r := mul_le_mul_of_nonneg_right hxy hr
  have hyr : 0 ≤ y * r := mul_nonneg hy hr
  have hzr : 0 ≤ z * r := mul_nonneg hz hr
  rw [near_iff hr hx hz] at h
  rw [near_iff hr hx hy, near_iff hr hy hz]
  refine ⟨⟨?_, ?_⟩, ?_, ?_⟩ <;> linarith

theorem near_self (hr : 0 ≤ r) (hx : 0 ≤ x) : Near r x x := by
  have hxr : 0 ≤ x * r := mul_nonneg hx hr
  rw [near_iff hr hx hx]
  constructor <;> linarith

theorem bandCmp_isLE_cases (hr : 0 ≤ r) (ha : 0 ≤ cost a) (h : (bandCmp r cost tie a b).isLE) :
    Near r (cost a) (cost b) ∧ tie a ≤ tie b ∨ ¬ Near r (cost a) (cost b) ∧ cost a < cost b := by
  by_cases hn : Near r (cost a) (cost b)
  · exact .inl ⟨hn, (bandCmp_isLE_of_near hn).1 h⟩
  · refine .inr ⟨hn, lt_of_le_of_ne ((bandCmp_isLE_of_not_near hn).1 h) fun he => hn ?_⟩
    exact he ▸ near_self hr ha

theorem bandCmp_trans (hr : 0 ≤ r) (ha : 0 ≤ cost a) (hb : 0 ≤ cost b) (hc : 0 ≤ cost c)
    (hcba : ¬ Reversed r cost tie c b a) (hbac : ¬ Reversed r cost tie b a c) (hacb : ¬ Reversed r cost tie a c b)
    (hab : (bandCmp r cost tie a b).isLE) (hbc : (bandCmp r cost tie b c).isLE) :
    (bandCmp r cost tie a c).isLE := by
  by_contra hac
  rcases bandCmp_isLE_cases hr ha hab with ⟨nab, tab⟩ | ⟨nab, cab⟩ <;>
    rcases bandCmp_isLE_cases hr hb hbc with ⟨nbc, tbc⟩ | ⟨nbc, cbc⟩ <;>
      rcases bandCmp_not_isLE_cases hac with ⟨nac, tac⟩ | ⟨nac, cac⟩
  · exact absurd (tab.trans tbc) (not_le.2 tac)
  · exact hcba ⟨near_comm.1 nbc, near_comm.1 nab, fun h => nac (near_comm.1 h), cac, tab, tbc⟩
  · exact hbac ⟨near_comm.1 nab, nac, nbc, cbc, tac.le, tab⟩
  · exact nbc ((near_comm.1 nab).between hr hb cbc.le cac.le).1
  · exact hacb ⟨nac, near_comm.1 nbc, nab, cab, tbc, tac.le⟩
  · exact nac (near_comm.1 ((near_comm.1 nbc).between hr hc cac.le cab.le).1)
  · exact nab (nac.between hr ha cab.le cbc.le).1
  · exact lt_asymm cac (cab.trans cbc)

theorem keyedBandCmp_totalOn_iff (hr : 0 ≤ r) (hcost : ∀ a ∈ l, 0 ≤ cost a) : TotalOn (keyedBandCmp key r cost tie) l ↔
      ∀ a ∈ l, ∀ b ∈ l, ∀ c ∈ l, key a = key b → key b = key c → ¬ Reversed r cost tie a b c := by
  constructor
  · intro h a ha b hb c hc hab hbc hrev
    obtain ⟨hcb, hba, hca⟩ := hrev.not_isLE
    have := h.trans c hc b hb a ha (keyedBandCmp_isLE.2 (.inr ⟨hbc.symm, hcb⟩))
      (keyedBandCmp_isLE.2 (.inr ⟨hab.symm, hba⟩))
    rcases keyedBandCmp_isLE.1 this with hlt | ⟨-, hle⟩
    · exact absurd hlt (by simp [hab, hbc])
    · exact hca hle
  · intro h
    refine ⟨fun a _ b _ => keyedBandCmp_swap, fun a ha b hb c hc hab hbc => ?_⟩
    rw [keyedBandCmp_isLE] at hab hbc ⊢
    rcases hab with hab | ⟨hab, lab⟩ <;> rcases hbc with hbc | ⟨hbc, lbc⟩
    · exact .inl (hab.trans hbc)
    · exact .inl (hbc ▸ hab)
    · exact .inl (hab ▸ hbc)
    · refine .inr ⟨hab.trans hbc, bandCmp_trans hr (hcost a ha) (hcost b hb) (hcost c hc) ?_ ?_ ?_ lab lbc⟩
      · exact h c hc b hb a ha hbc.symm hab.symm
      · exact h b hb a ha c hc hab.symm (hab.trans hbc)
      · exact h a ha c hc b hb (hab.trans hbc) hbc.symm

end Band

end SortBy
