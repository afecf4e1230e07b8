import Mathlib.Data.List.Dedup
import Mathlib.Data.List.Nodup
import Mathlib.Data.Finset.Card
import Mathlib.Data.Finset.Range

/-!
# Connected groups

Depth-first search over the nodes below `n`: a node is marked when it is pushed. The visited nodes not
on the stack are closed under the edges; when the stack is empty the collected nodes are, and they are
a group. For symmetric edges every group is closed, and every node is in one (`groups_closed`,
`exists_group`).
-/

namespace Components

def push (related : List Nat) (visited stack : List Nat) : List Nat × List Nat :=
  related.foldl (fun s r => if r ∈ s.1 then s else (r :: s.1, r :: s.2)) (visited, stack)

def collect (adj : Nat → List Nat) : Nat → List Nat → List Nat → List Nat → List Nat × List Nat
  | 0, _, visited, group => (group, visited)
  | _ + 1, [], visited, group => (group, visited)
  | fuel + 1, position :: stack, visited, group =>
    let next := push (adj position) visited stack
    collect adj fuel next.2 next.1 (group ++ [position])

def addGroup (adj : Nat → List Nat) (n : Nat) (state : List (List Nat) × List Nat) (start : Nat) :
    List (List Nat) × List Nat :=
  if start ∈ state.2 then state
  else
    let found := collect adj n [start] (start :: state.2) []
    (state.1 ++ [found.1], found.2)

def groups (adj : Nat → List Nat) (n : Nat) : List (List Nat) :=
  ((List.range n).foldl (addGroup adj n) ([], [])).1

def Closed (adj : Nat → List Nat) (nodes : List Nat) : Prop :=
  ∀ p ∈ nodes, ∀ q ∈ adj p, q ∈ nodes

variable {adj : Nat → List Nat} {n : Nat}

theorem push_spec (related visited stack : List Nat) : ∃ added : List Nat,
    push related visited stack = (added ++ visited, added ++ stack) ∧ added.Nodup ∧
    (∀ r ∈ added, r ∉ visited ∧ r ∈ related) ∧ ∀ r ∈ related, r ∈ added ++ visited := by
  induction related generalizing visited stack with
  | nil =>
    refine ⟨[], rfl, List.nodup_nil, ?_, ?_⟩
    · intro r hr
      cases hr
    · intro r hr
      cases hr
  | cons r related ih =>
    by_cases hr : r ∈ visited
    · obtain ⟨added, heq, hnodup, hfresh, hall⟩ := ih visited stack
      refine ⟨added, ?_, hnodup, fun x hx => ?_, fun x hx => ?_⟩
      · rw [push, List.foldl_cons, if_pos hr]
        exact heq
      · exact ⟨(hfresh x hx).1, List.mem_cons_of_mem _ (hfresh x hx).2⟩
      · rcases List.mem_cons.1 hx with rfl | hx
        · exact List.mem_append_right _ hr
        · exact hall x hx
    · obtain ⟨added, heq, hnodup, hfresh, hall⟩ := ih (r :: visited) (r :: stack)
      refine ⟨added ++ [r], ?_, ?_, fun x hx => ?_, fun x hx => ?_⟩
      · rw [push, List.foldl_cons, if_neg hr, List.append_assoc, List.append_assoc]
        exact heq
      · rw [List.nodup_append]
        refine ⟨hnodup, List.nodup_singleton r, ?_⟩
        rintro x hx y hy rfl
        rw [List.mem_singleton] at hy
        exact (hfresh x hx).1 (hy ▸ List.mem_cons_self)
      · rcases List.mem_append.1 hx with hx | hx
        · obtain ⟨hnot, hrel⟩ := hfresh x hx
          exact ⟨fun h => hnot (List.mem_cons_of_mem _ h), List.mem_cons_of_mem _ hrel⟩
        · rw [List.mem_singleton] at hx
          exact ⟨hx ▸ hr, hx ▸ List.mem_cons_self⟩
      · rw [List.append_assoc, List.singleton_append]
        rcases List.mem_cons.1 hx with rfl | hx
        · exact List.mem_append_right _ List.mem_cons_self
        · exact hall x hx

/-- The state of the search: `before` was visited when it began. -/
structure Searching (adj : Nat → List Nat) (n : Nat) (before stack visited group : List Nat) : Prop where
  nodup : visited.Nodup
  bound : ∀ x ∈ visited, x < n
  mem_visited : ∀ x, x ∈ visited ↔ x ∈ before ∨ x ∈ stack ∨ x ∈ group
  fresh : ∀ x, x ∈ stack ∨ x ∈ group → x ∉ before
  explored : ∀ p ∈ group, ∀ q ∈ adj p, q ∈ visited

theorem length_le_of_bound {l : List Nat} (hnodup : l.Nodup) (hbound : ∀ x ∈ l, x < n) : l.length ≤ n := by
  rw [← List.toFinset_card_of_nodup hnodup, ← Finset.card_range n]
  refine Finset.card_le_card fun x hx => ?_
  rw [List.mem_toFinset] at hx
  exact Finset.mem_range.2 (hbound x hx)

theorem Searching.pop {before stack visited group : List Nat} {position : Nat}
    (h : Searching adj n before (position :: stack) visited group)
    (hadj : ∀ q ∈ adj position, q < n) : ∃ added : List Nat,
    push (adj position) visited stack = (added ++ visited, added ++ stack) ∧
    Searching adj n before (added ++ stack) (added ++ visited) (group ++ [position]) := by
  obtain ⟨added, heq, hnodup, hfresh, hall⟩ := push_spec (adj position) visited stack
  refine ⟨added, heq, ?_, ?_, ?_, ?_, ?_⟩
  · rw [List.nodup_append]
    refine ⟨hnodup, h.nodup, ?_⟩
    rintro x hx y hy rfl
    exact (hfresh x hx).1 hy
  · intro x hx
    rcases List.mem_append.1 hx with hx | hx
    · exact hadj x (hfresh x hx).2
    · exact h.bound x hx
  · intro x
    have hx := h.mem_visited x
    simp only [List.mem_append, List.mem_cons] at hx ⊢
    tauto
  · intro x hx
    simp only [List.mem_append, List.mem_singleton] at hx
    rcases hx with (hx | hx) | hx | rfl
    · exact fun hbefore => (hfresh x hx).1 ((h.mem_visited x).2 (.inl hbefore))
    · exact h.fresh x (.inl (List.mem_cons_of_mem _ hx))
    · exact h.fresh x (.inr hx)
    · exact h.fresh x (.inl List.mem_cons_self)
  · intro p hp q hq
    rcases List.mem_append.1 hp with hp | hp
    · exact List.mem_append_right _ (h.explored p hp q hq)
    · rw [List.mem_singleton] at hp
      subst hp
      exact hall q hq

/-- The search ends with an empty stack: a node leaves it for each unit of fuel, and each comes once. -/
theorem Searching.collect (hadj : ∀ p, ∀ q ∈ adj p, q < n) {before stack visited group : List Nat}
    (h : Searching adj n before stack visited group) {fuel : Nat}
    (hfuel : n - visited.length + stack.length ≤ fuel) :
    Searching adj n before [] (Components.collect adj fuel stack visited group).2
      (Components.collect adj fuel stack visited group).1 ∧
    ∀ x ∈ visited, x ∈ (Components.collect adj fuel stack visited group).2 := by
  induction fuel generalizing stack visited group with
  | zero =>
    obtain rfl : stack = [] := List.eq_nil_of_length_eq_zero (by omega)
    exact ⟨h, fun x hx => hx⟩
  | succ fuel ih =>
    rcases stack with _ | ⟨position, stack⟩
    · exact ⟨h, fun x hx => hx⟩
    obtain ⟨added, heq, hnext⟩ := h.pop (hadj position)
    have hlen := length_le_of_bound hnext.nodup hnext.bound
    have hless : n - (added ++ visited).length + (added ++ stack).length ≤ fuel := by
      simp only [List.length_append, List.length_cons] at hfuel hlen ⊢
      omega
    obtain ⟨hend, hkept⟩ := ih hnext hless
    simp only [Components.collect, heq]
    exact ⟨hend, fun x hx => hkept x (List.mem_append_right _ hx)⟩

structure Grouped (adj : Nat → List Nat) (n : Nat) (state : List (List Nat) × List Nat) : Prop where
  nodup : state.2.Nodup
  bound : ∀ x ∈ state.2, x < n
  closed : Closed adj state.2
  groups : ∀ g ∈ state.1, Closed adj g
  covered : ∀ x ∈ state.2, ∃ g ∈ state.1, x ∈ g

theorem Grouped.searching {state : List (List Nat) × List Nat} (h : Grouped adj n state) {start : Nat}
    (hstart : start < n) (hvisited : start ∉ state.2) :
    Searching adj n state.2 [start] (start :: state.2) [] := by
  refine ⟨List.nodup_cons.2 ⟨hvisited, h.nodup⟩, ?_, ?_, ?_, ?_⟩
  · rintro x hx
    rcases List.mem_cons.1 hx with rfl | hx
    · exact hstart
    · exact h.bound x hx
  · intro x
    simp only [List.mem_cons, List.not_mem_nil, or_false]
    tauto
  · rintro x (hx | hx)
    · rw [List.mem_singleton] at hx
      exact hx ▸ hvisited
    · cases hx
  · intro p hp
    cases hp

theorem Grouped.add (hadj : ∀ p, ∀ q ∈ adj p, q < n) (hsymm : ∀ p, ∀ q ∈ adj p, p ∈ adj q)
    {state : List (List Nat) × List Nat} (h : Grouped adj n state) {start : Nat} (hstart : start < n) :
    Grouped adj n (addGroup adj n state start) ∧ start ∈ (addGroup adj n state start).2 ∧
      ∀ x ∈ state.2, x ∈ (addGroup adj n state start).2 := by
  by_cases hvisited : start ∈ state.2
  · rw [addGroup, if_pos hvisited]
    exact ⟨h, hvisited, fun x hx => hx⟩
  · have hbegin := h.searching hstart hvisited
    have hfuel : n - (start :: state.2).length + [start].length ≤ n := by
      simp only [List.length_cons, List.length_nil]
      omega
    obtain ⟨hend, hkept⟩ := hbegin.collect hadj hfuel
    rw [addGroup, if_neg hvisited]
    generalize Components.collect adj n [start] (start :: state.2) [] = found at hend hkept ⊢
    obtain ⟨group, visited⟩ := found
    have hmem : ∀ x, x ∈ visited ↔ x ∈ state.2 ∨ x ∈ group := fun x => by
      simpa using hend.mem_visited x
    -- an edge back into what was visited before would have brought its end there, too
    have hgroup : Closed adj group := by
      intro p hp q hq
      rcases (hmem q).1 (hend.explored p hp q hq) with hold | hnew
      · exact absurd (h.closed q hold p (hsymm p q hq)) (hend.fresh p (.inr hp))
      · exact hnew
    refine ⟨⟨hend.nodup, hend.bound, ?_, ?_, ?_⟩, ?_, fun x hx => (hmem x).2 (.inl hx)⟩
    · intro p hp q hq
      rcases (hmem p).1 hp with hp | hp
      · exact (hmem q).2 (.inl (h.closed p hp q hq))
      · exact (hmem q).2 (.inr (hgroup p hp q hq))
    · intro g hg
      rcases List.mem_append.1 hg with hg | hg
      · exact h.groups g hg
      · rw [List.mem_singleton] at hg
        exact hg ▸ hgroup
    · intro x hx
      rcases (hmem x).1 hx with hx | hx
      · obtain ⟨g, hg, hxg⟩ := h.covered x hx
        exact ⟨g, List.mem_append_left _ hg, hxg⟩
      · exact ⟨group, List.mem_append_right _ (List.mem_singleton.2 rfl), hx⟩
    · exact hkept start List.mem_cons_self

theorem grouped (hadj : ∀ p, ∀ q ∈ adj p, q < n) (hsymm : ∀ p, ∀ q ∈ adj p, p ∈ adj q) :
    Grouped adj n ((List.range n).foldl (addGroup adj n) ([], [])) ∧
      ∀ x < n, x ∈ ((List.range n).foldl (addGroup adj n) ([], [])).2 := by
  have hloop : ∀ (starts : List Nat) (state : List (List Nat) × List Nat), (∀ x ∈ starts, x < n) →
      Grouped adj n state → Grouped adj n (starts.foldl (addGroup adj n) state) ∧
        (∀ x ∈ starts, x ∈ (starts.foldl (addGroup adj n) state).2) ∧
        ∀ x ∈ state.2, x ∈ (starts.foldl (addGroup adj n) state).2 := by
    intro starts
    induction starts with
    | nil =>
      intro state _ h
      exact ⟨h, fun x hx => absurd hx List.not_mem_nil, fun x hx => hx⟩
    | cons start starts ih =>
      intro state hbound h
      obtain ⟨hadd, hstart, hold⟩ := h.add hadj hsymm (hbound start List.mem_cons_self)
      obtain ⟨hend, hmem, hkept⟩ := ih _ (fun x hx => hbound x (List.mem_cons_of_mem _ hx)) hadd
      refine ⟨hend, fun x hx => ?_, fun x hx => hkept x (hold x hx)⟩
      rcases List.mem_cons.1 hx with rfl | hx
      · exact hkept x hstart
      · exact hmem x hx
  have hempty : Grouped adj n ([], []) := by
    refine ⟨List.nodup_nil, ?_, ?_, ?_, ?_⟩ <;> (intro x hx; cases hx)
  obtain ⟨hend, hmem, -⟩ := hloop (List.range n) ([], []) (fun x hx => List.mem_range.1 hx) hempty
  exact ⟨hend, fun x hx => hmem x (List.mem_range.2 hx)⟩

theorem groups_closed (hadj : ∀ p, ∀ q ∈ adj p, q < n) (hsymm : ∀ p, ∀ q ∈ adj p, p ∈ adj q)
    {g : List Nat} (hg : g ∈ groups adj n) : Closed adj g :=
  (grouped hadj hsymm).1.groups g hg

theorem exists_group (hadj : ∀ p, ∀ q ∈ adj p, q < n) (hsymm : ∀ p, ∀ q ∈ adj p, p ∈ adj q)
    {x : Nat} (hx : x < n) : ∃ g ∈ groups adj n, x ∈ g :=
  (grouped hadj hsymm).1.covered x ((grouped hadj hsymm).2 x hx)

end Components
