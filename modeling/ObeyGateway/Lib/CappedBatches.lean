import Mathlib.Data.List.Perm.Subperm
import Mathlib.Tactic.Set
import ObeyGateway.Lib.Search

/-!
# Two lists with one cap

Batches of items are appended to two lists, and both are cut to the cap when the second is longer; between the batches
extra items are appended to the first alone. Every item of a batch is left or counted when the extra items come behind
a full list, and, where no item is there twice, only then (`full_of_accounted`).
-/

namespace CappedBatches

variable {α : Type*}

inductive Event (α : Type*)
  | extra (x : α)
  | batch (ys : List α)

structure TwoLists (α : Type*) where
  named : List α
  held : List α

def Overflows (cap length : Nat) : Prop := 0 < cap ∧ cap < length

instance (cap length : Nat) : Decidable (Overflows cap length) := inferInstanceAs (Decidable (_ ∧ _))

def TwoLists.trim (cap : Nat) (s : TwoLists α) : TwoLists α :=
  if Overflows cap s.held.length then ⟨s.named.take cap, s.held.take cap⟩ else s

def step (cap : Nat) (s : TwoLists α) : Event α → TwoLists α
  | .extra x => { s with named := s.named ++ [x] }
  | .batch ys => TwoLists.trim cap ⟨s.named ++ ys, s.held ++ ys⟩

def run (cap : Nat) (events : List (Event α)) : TwoLists α := events.foldl (step cap) ⟨[], []⟩

def omitted (cap : Nat) (s : TwoLists α) (ys : List α) : Nat :=
  if Overflows cap (s.held ++ ys).length then (s.held ++ ys).length - cap else 0

def Event.held : Event α → List α
  | .extra _ => []
  | .batch ys => ys

def Event.named : Event α → List α
  | .extra x => [x]
  | .batch ys => ys

def Event.isExtra : Event α → Bool
  | .extra _ => true
  | .batch _ => false

def batches (events : List (Event α)) : List α := events.flatMap Event.held

def names (events : List (Event α)) : List α := events.flatMap Event.named

def late (events : List (Event α)) : List α :=
  events.foldl (fun late e => match e with
    | .extra x => late ++ [x]
    | .batch ys => if ys.isEmpty then late else []) []

section
variable {cap : Nat} {events before after : List (Event α)} {e : Event α} {x : α} {ys : List α}

theorem batches_append (before after : List (Event α)) : batches (before ++ after) = batches before ++ batches after :=
  List.flatMap_append

theorem names_append (before after : List (Event α)) : names (before ++ after) = names before ++ names after :=
  List.flatMap_append

theorem batches_concat (events : List (Event α)) (e : Event α) : batches (events ++ [e]) = batches events ++ e.held := by
  rw [batches_append, batches, batches, List.flatMap_singleton]

theorem names_concat (events : List (Event α)) (e : Event α) : names (events ++ [e]) = names events ++ e.named := by
  rw [names_append, names, names, List.flatMap_singleton]

theorem late_concat (events : List (Event α)) (e : Event α) : late (events ++ [e]) = match e with
    | .extra x => late events ++ [x]
    | .batch ys => if ys.isEmpty then late events else [] := by
  rw [late, List.foldl_concat]
  rfl

theorem batches_sublist (events : List (Event α)) : (batches events).Sublist (names events) := by
  induction events with
  | nil => exact List.Sublist.refl _
  | cons e events ih =>
    refine List.Sublist.append ?_ ih
    cases e with
    | extra x => exact List.nil_sublist _
    | batch ys => exact List.Sublist.refl _

theorem names_eq_batches (h : ∀ e ∈ events, e.isExtra = false) : names events = batches events := by
  refine List.flatMap_congr fun e he => ?_
  cases e with
  | extra x => exact absurd (h _ he) (by simp [Event.isExtra])
  | batch ys => rfl

theorem mem_names : x ∈ names events ↔ x ∈ batches events ∨ .extra x ∈ events := by
  simp only [names, batches, List.mem_flatMap]
  constructor
  · rintro ⟨e, he, hx⟩
    cases e with
    | extra y =>
      obtain rfl := List.mem_singleton.1 hx
      exact .inr he
    | batch ys => exact .inl ⟨_, he, hx⟩
  · rintro (⟨e, he, hx⟩ | he)
    · cases e with
      | extra y => cases hx
      | batch ys => exact ⟨_, he, hx⟩
    · exact ⟨_, he, List.mem_singleton_self x⟩

theorem mem_late : x ∈ late events ↔ ∃ before after, events = before ++ .extra x :: after ∧ batches after = [] := by
  induction events using List.reverseRecOn with
  | nil => simp [late]
  | append_singleton events e ih =>
    rw [late_concat]
    constructor
    · intro hx
      cases e with
      | extra y =>
        rcases List.mem_append.1 hx with hx | hx
        · obtain ⟨before, after, rfl, hafter⟩ := ih.1 hx
          exact ⟨before, after ++ [.extra y], by simp, by rw [batches_concat, hafter]; rfl⟩
        · obtain rfl := List.mem_singleton.1 hx
          exact ⟨events, [], rfl, rfl⟩
      | batch ys =>
        cases ys with
        | nil =>
          obtain ⟨before, after, rfl, hafter⟩ := ih.1 hx
          exact ⟨before, after ++ [.batch []], by simp, by rw [batches_concat, hafter]; rfl⟩
        | cons y ys => cases hx
    · rintro ⟨before, after, hsplit, hafter⟩
      rcases List.eq_nil_or_concat after with rfl | ⟨after, last, rfl⟩
      · obtain ⟨rfl, hlast⟩ := List.append_inj' hsplit rfl
        obtain rfl := List.singleton_inj.1 hlast
        exact List.mem_append_right _ (List.mem_singleton_self x)
      · rw [List.concat_eq_append, ← List.cons_append, ← List.append_assoc] at hsplit
        obtain ⟨rfl, hlast⟩ := List.append_inj' hsplit rfl
        obtain rfl := List.singleton_inj.1 hlast
        rw [List.concat_eq_append, batches_concat, List.append_eq_nil_iff] at hafter
        have hx := ih.2 ⟨before, after, rfl, hafter.1⟩
        cases e with
        | extra y => exact List.mem_append_left _ hx
        | batch ys =>
          obtain rfl : ys = [] := hafter.2
          exact hx

theorem run_concat (cap : Nat) (events : List (Event α)) (e : Event α) :
    run cap (events ++ [e]) = step cap (run cap events) e := by
  rw [run, List.foldl_concat]
  rfl

theorem run_eq (cap : Nat) (events : List (Event α)) : run cap events = if Overflows cap (batches events).length then
      ⟨(names events).take cap ++ late events, (batches events).take cap⟩
    else ⟨names events, batches events⟩ := by
  induction events using List.reverseRecOn with
  | nil =>
    rw [if_neg fun h => Nat.not_lt_zero _ h.2]
    rfl
  | append_singleton events e ih =>
    have hle := (batches_sublist events).length_le
    rw [run_concat, ih, batches_concat, names_concat, late_concat]
    by_cases hover : Overflows cap (batches events).length
    · have hnames : cap ≤ (names events).length := hover.2.le.trans hle
      have hmore : Overflows cap (batches events ++ e.held).length :=
        ⟨hover.1, hover.2.trans_le (by rw [List.length_append]; exact Nat.le_add_right _ _)⟩
      have hcut : ((batches events).take cap).length = cap := by
        rw [List.length_take]
        exact Nat.min_eq_left hover.2.le
      have hcut' : ((names events).take cap).length = cap := by
        rw [List.length_take]
        exact Nat.min_eq_left hnames
      rw [if_pos hover, if_pos hmore, List.take_append_of_le_length hnames, List.take_append_of_le_length hover.2.le]
      cases e with
      | extra x => simp [step]
      | batch ys =>
        rw [step, TwoLists.trim]
        rcases ys with _ | ⟨y, ys⟩
        · have hfits : ¬ Overflows cap ((batches events).take cap ++ []).length := fun h => by
            rw [List.append_nil, hcut] at h
            exact absurd h.2 (lt_irrefl cap)
          rw [if_neg hfits]
          simp
        have hagain : Overflows cap ((batches events).take cap ++ y :: ys).length := by
          rw [List.length_append, hcut, List.length_cons]
          exact ⟨hover.1, by omega⟩
        rw [if_pos hagain, List.append_assoc, List.take_append_of_le_length hcut'.ge,
          List.take_append_of_le_length hcut.ge, List.take_take, List.take_take, Nat.min_self]
        simp
    · rw [if_neg hover]
      cases e with
      | extra x =>
        have hsame : ¬ Overflows cap (batches events ++ (Event.extra x).held).length := by
          rwa [Event.held, List.append_nil]
        rw [if_neg hsame]
        simp [step, Event.held, Event.named]
      | batch ys =>
        rw [step, TwoLists.trim]
        by_cases hnow : Overflows cap (batches events ++ ys).length
        · have hys : ys.isEmpty = false := by
            cases ys with
            | nil => exact absurd (by simpa using hnow) hover
            | cons y ys => rfl
          simp only [Event.held, Event.named, if_pos hnow, hys]
          simp
        · rw [Event.held, Event.named, if_neg hnow, if_neg hnow]

theorem length_held (cap : Nat) (events : List (Event α)) :
    (run cap events).held.length = if 0 < cap then min cap (batches events).length else (batches events).length := by
  rw [run_eq]
  by_cases hcap : 0 < cap
  · rw [if_pos hcap]
    by_cases hover : Overflows cap (batches events).length
    · rw [if_pos hover, List.length_take]
    · rw [if_neg hover]
      have hle : ¬ cap < (batches events).length := fun h => hover ⟨hcap, h⟩
      exact (Nat.min_eq_right (Nat.le_of_not_lt hle)).symm
  · rw [if_neg hcap, if_neg fun h => hcap h.1]

theorem step_batch_nil (cap : Nat) (events : List (Event α)) : step cap (run cap events) (.batch []) = run cap events := by
  have hfits : ¬ Overflows cap (run cap events).held.length := by
    rw [length_held]
    rintro ⟨hcap, hover⟩
    rw [if_pos hcap] at hover
    omega
  rw [step, List.append_nil, List.append_nil, TwoLists.trim, if_neg hfits]

theorem omitted_eq (cap : Nat) (before : List (Event α)) (ys : List α) : omitted cap (run cap before) ys =
      if 0 < cap then min cap (batches before).length + ys.length - cap else 0 := by
  rw [omitted, List.length_append, length_held]
  by_cases hcap : 0 < cap
  · rw [if_pos hcap, if_pos hcap]
    by_cases hover : Overflows cap (min cap (batches before).length + ys.length)
    · rw [if_pos hover]
    · rw [if_neg hover]
      have hle : ¬ cap < min cap (batches before).length + ys.length := fun h => hover ⟨hcap, h⟩
      omega
  · rw [if_neg hcap, if_neg hcap, if_neg fun h => hcap h.1]

theorem overflows_of_omitted (hsplit : events = before ++ .batch ys :: after) (h : 0 < omitted cap (run cap before) ys) :
    Overflows cap (batches events).length := by
  rw [omitted_eq] at h
  by_cases hcap : 0 < cap
  · rw [if_pos hcap] at h
    refine ⟨hcap, ?_⟩
    rw [hsplit, batches_append, List.length_append]
    show cap < (batches before).length + (ys ++ batches after).length
    rw [List.length_append]
    omega
  · rw [if_neg hcap] at h
    exact absurd h (lt_irrefl 0)

/-- Every item of a batch is left in the first list, or counted as omitted when the batch came. -/
def Accounted [DecidableEq α] (cap : Nat) (events : List (Event α)) : Prop :=
  ∀ before ys after, events = before ++ .batch ys :: after →
    ys.countP (· ∉ (run cap events).named) ≤ omitted cap (run cap before) ys

/-- Where there is more than the cap, the extra items come when the second list is full. -/
def FullBeforeExtra (cap : Nat) (events : List (Event α)) : Prop :=
  Overflows cap (batches events).length →
    ∀ before x after, events = before ++ .extra x :: after → cap ≤ (batches before).length

theorem take_names (hfull : FullBeforeExtra cap events) (hover : Overflows cap (batches events).length) :
    (names events).take cap = (batches events).take cap := by
  by_cases hextra : ∃ e ∈ events, e.isExtra = true
  · obtain ⟨before, e, after, hsplit, he, hbefore⟩ := Search.exists_first hextra
    cases e with
    | batch ys => cases he
    | extra x =>
      have hle := hfull hover before x after hsplit
      have hnames := names_eq_batches hbefore
      rw [hsplit, names_append, batches_append, List.take_append_of_le_length hle,
        List.take_append_of_le_length (by rwa [hnames]), hnames]
  · refine congrArg (List.take cap) (names_eq_batches fun e he => ?_)
    exact Bool.eq_false_iff.2 fun h => hextra ⟨e, he, h⟩

theorem mem_named_iff (hfull : FullBeforeExtra cap events) : x ∈ (run cap events).named ↔ x ∈ (run cap events).held ∨
      ∃ before after, events = before ++ .extra x :: after ∧
        (Overflows cap (batches events).length → batches after = []) := by
  rw [run_eq]
  by_cases hover : Overflows cap (batches events).length
  · rw [if_pos hover, take_names hfull hover, List.mem_append, mem_late]
    simp only [hover, forall_const]
  · rw [if_neg hover, mem_names]
    simp only [hover, false_imp_iff, and_true]
    refine or_congr_right ⟨fun h => ?_, fun ⟨before, after, h⟩ => ?_⟩
    · exact List.append_of_mem h
    · rw [h]
      exact List.mem_append_right _ List.mem_cons_self

theorem accounted_of_full [DecidableEq α] (hfull : FullBeforeExtra cap events) : Accounted cap events := by
  intro before ys after hsplit
  rw [omitted_eq]
  have hbatches : batches events = batches before ++ (ys ++ batches after) := by
    rw [hsplit, batches_append]
    rfl
  have hheld : ∀ y ∈ (run cap events).held, y ∈ (run cap events).named := fun y hy => (mem_named_iff hfull).2 (.inl hy)
  by_cases hover : Overflows cap (batches events).length
  · -- the front of the batch is left, and no more than the back of it is missing
    set room := cap - (batches before).length with hroom
    have hfront : ∀ y ∈ ys.take room, y ∈ (run cap events).named := by
      intro y hy
      refine hheld y ?_
      rw [run_eq, if_pos hover]
      show y ∈ (batches events).take cap
      rw [hbatches, List.take_append, List.take_append]
      exact List.mem_append_right _ (List.mem_append_left _ hy)
    have hcount : (ys.take room).countP (· ∉ (run cap events).named) = 0 :=
      List.countP_eq_zero.2 fun y hy => by simpa using hfront y hy
    have hback := List.countP_le_length (p := fun y => decide (y ∉ (run cap events).named)) (l := ys.drop room)
    rw [← List.take_append_drop room ys, List.countP_append, hcount, if_pos hover.1, List.take_append_drop]
    rw [List.length_drop] at hback
    omega
  · have hall : ys.countP (· ∉ (run cap events).named) = 0 := by
      refine List.countP_eq_zero.2 fun y hy => ?_
      have hmem : y ∈ (run cap events).held := by
        rw [run_eq, if_neg hover]
        show y ∈ batches events
        rw [hbatches]
        exact List.mem_append_right _ (List.mem_append_left _ hy)
      simpa using hheld y hmem
    rw [hall]
    exact Nat.zero_le _

/-! ### Where no item is there twice -/

theorem perm_names (events : List (Event α)) :
    (names events).Perm (batches events ++ (events.filter Event.isExtra).flatMap Event.named) := by
  induction events with
  | nil => exact List.Perm.refl _
  | cons e events ih =>
    cases e with
    | extra x => exact (ih.cons x).trans List.perm_middle.symm
    | batch ys =>
      show (ys ++ names events).Perm _
      exact (ih.append_left ys).trans (by
        rw [← List.append_assoc]
        exact List.Perm.refl _)

theorem extra_notMem (hnodup : (names events).Nodup) (hx : .extra x ∈ events) : x ∉ batches events := by
  have hsplit := (perm_names events).nodup_iff.1 hnodup
  intro hbatch
  have hextra : x ∈ (events.filter Event.isExtra).flatMap Event.named :=
    List.mem_flatMap.2 ⟨.extra x, List.mem_filter.2 ⟨hx, rfl⟩, List.mem_singleton_self x⟩
  exact (List.nodup_append.1 hsplit).2.2 x hbatch x hextra rfl

theorem exists_missing (hnodup : (names events).Nodup) (hfull : FullBeforeExtra cap events)
    (hover : Overflows cap (batches events).length) : ∃ x ∈ batches events, x ∉ (run cap events).named := by
  obtain ⟨x, rest, hdrop⟩ := List.exists_cons_of_ne_nil (List.drop_eq_nil_iff.not.2 (Nat.not_le.2 hover.2))
  have hx : x ∈ (batches events).drop cap := hdrop ▸ List.mem_cons_self
  refine ⟨x, List.mem_of_mem_drop hx, fun hnamed => ?_⟩
  rw [run_eq, if_pos hover] at hnamed
  rcases List.mem_append.1 hnamed with htake | hlate
  · rw [take_names hfull hover] at htake
    have hsplit := hnodup.sublist (batches_sublist events)
    rw [← List.take_append_drop cap (batches events)] at hsplit
    exact (List.nodup_append.1 hsplit).2.2 x htake x hx rfl
  · obtain ⟨b, a, hlater, -⟩ := mem_late.1 hlate
    have hextra : Event.extra x ∈ events := by
      rw [hlater]
      exact List.mem_append_right _ List.mem_cons_self
    exact extra_notMem hnodup hextra (List.mem_of_mem_drop hx)

theorem count_missing_le [DecidableEq α] (haccounted : Accounted cap events) (hcap : 0 < cap)
    (hsplit : events = before ++ after) :
    (batches before).countP (· ∉ (run cap events).named) ≤ (batches before).length - cap := by
  induction before using List.reverseRecOn generalizing after with
  | nil => exact Nat.zero_le _
  | append_singleton before e ih =>
    rw [List.append_assoc] at hsplit
    have hih := ih hsplit
    rw [batches_concat, List.countP_append, List.length_append]
    cases e with
    | extra x => simpa [Event.held] using hih
    | batch ys =>
      have hcount := haccounted before ys after hsplit
      rw [omitted_eq, if_pos hcap] at hcount
      show _ + ys.countP _ ≤ _ + ys.length - cap
      omega

theorem full_of_accounted [DecidableEq α] (hnodup : (names events).Nodup) (haccounted : Accounted cap events) :
    FullBeforeExtra cap events := by
  intro hover before x after hsplit
  by_contra hshort
  -- the first extra item is among those that the cut leaves
  obtain ⟨front, e, back, hfirst, he, hfront⟩ : ∃ front e back, before ++ [.extra x] = front ++ e :: back ∧
      e.isExtra = true ∧ ∀ d ∈ front, d.isExtra = false :=
    Search.exists_first ⟨.extra x, by simp, rfl⟩
  cases e with
  | batch ys => cases he
  | extra y =>
    have hevents : events = front ++ .extra y :: (back ++ after) := by
      rw [hsplit, ← List.cons_append, ← List.append_assoc, ← hfirst]
      simp
    have hlength : (batches front).length ≤ (batches before).length := by
      have h := congrArg batches hfirst
      rw [batches_concat, batches_append] at h
      have h' := congrArg List.length h
      simp only [List.length_append, Event.held, List.length_nil] at h'
      omega
    have hyleft : y ∈ (names events).take cap := by
      have hnames := names_eq_batches hfront
      rw [hevents, names_append, List.take_append]
      refine List.mem_append_right _ ?_
      obtain ⟨room, hroom⟩ : ∃ room, cap - (names front).length = room + 1 := by
        rw [hnames]
        exact ⟨cap - (batches front).length - 1, by omega⟩
      rw [hroom]
      exact List.mem_cons_self
    have hy : Event.extra y ∈ events := by
      rw [hevents]
      exact List.mem_append_right _ List.mem_cons_self
    -- of the batches at least as many items as the cap are left, all of them in the cut list beside `y`
    set left := (batches events).filter (· ∈ (run cap events).named) with hleft
    have hmissing := count_missing_le haccounted hover.1 (List.append_nil events).symm
    have hcount := List.length_eq_countP_add_countP (fun z => decide (z ∈ (run cap events).named)) (l := batches events)
    have hlong : cap ≤ left.length := by
      rw [hleft, ← List.countP_eq_length_filter]
      have hnot : (batches events).countP (fun z => !decide (z ∈ (run cap events).named)) =
          (batches events).countP (· ∉ (run cap events).named) := by simp
      have hover' := hover.2
      simp only [decide_eq_true_eq] at hcount
      omega
    have hsub : y :: left ⊆ (names events).take cap := by
      intro z hz
      rcases List.mem_cons.1 hz with rfl | hz
      · exact hyleft
      · obtain ⟨hbatch, hnamed⟩ := List.mem_filter.1 hz
        have hnamed := of_decide_eq_true hnamed
        rw [run_eq, if_pos hover] at hnamed
        rcases List.mem_append.1 hnamed with htake | hlate
        · exact htake
        · obtain ⟨b, a, hlater, -⟩ := mem_late.1 hlate
          have hz : Event.extra z ∈ events := by
            rw [hlater]
            exact List.mem_append_right _ List.mem_cons_self
          exact absurd hbatch (extra_notMem hnodup hz)
    have hnew : (y :: left).Nodup :=
      List.nodup_cons.2 ⟨fun h => extra_notMem hnodup hy (List.mem_filter.1 h).1,
        (hnodup.sublist (batches_sublist events)).filter _⟩
    have hbound := (hnew.subperm hsub).length_le
    rw [List.length_cons, List.length_take] at hbound
    omega

end

end CappedBatches
