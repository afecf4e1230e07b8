import Mathlib.Data.List.Basic

/-!
# Loops that take pieces out of a text

A round finds nothing, or takes some items out and goes on with the text that is left, or takes the last ones; it may
also fail. When each round that goes on leaves a shorter text, the loop ends without failing and with good items only
exactly if that is so of the round at each text it comes to (`scan_iff`).
-/

namespace Scanner

variable {α β ι : Type*}

inductive Round (α β : Type*)
  | done
  | found (items : List β) (left : List α)
  | last (items : List β) (left : List α)

def Round.items : Round α β → List β
  | done => []
  | found items _ => items
  | last items _ => items

/-- The text that is left and the items that were taken out; `none` is a failure, or no end. -/
def scan (round : List α → Option (Round α β)) : (fuel : Nat) → List α → Option (List α × List β)
  | 0, _ => none
  | fuel + 1, text =>
    (round text).bind fun r =>
      match r with
      | .done => some (text, [])
      | .found items left => (scan round fuel left).map fun r => (r.1, items ++ r.2)
      | .last items left => some (left, items)

inductive Comes (round : List α → Option (Round α β)) : List α → List α → Prop
  | here (text : List α) : Comes round text text
  | next {text left t : List α} {items : List β} : round text = some (.found items left) → Comes round left t → Comes round text t

def Shortens (round : List α → Option (Round α β)) : Prop :=
  ∀ text items left, round text = some (.found items left) → left.length < text.length

def Clean (P : β → Prop) (round : Option (Round α β)) : Prop := ∃ r, round = some r ∧ ∀ b ∈ r.items, P b

/-- The loops of `passes`, one after the other. -/
def runAll (round : ι → List α → Option (Round α β)) : List ι → List α → Option (List α × List β)
  | [], text => some (text, [])
  | i :: passes, text =>
    (scan (round i) (text.length + 1) text).bind fun r => (runAll round passes r.1).map fun r' => (r'.1, r.2 ++ r'.2)

inductive Reaches (round : ι → List α → Option (Round α β)) : List ι → List α → ι → List α → Prop
  | here {i : ι} {passes : List ι} {text t : List α} : Comes (round i) text t → Reaches round (i :: passes) text i t
  | later {i j : ι} {passes : List ι} {text t : List α} {r : List α × List β} : scan (round i) (text.length + 1) text = some r →
      Reaches round passes r.1 j t → Reaches round (i :: passes) text j t

def runPhases (round : ι → List α → Option (Round α β)) : List (List ι) → List α → Option (List α × List β)
  | [], text => some (text, [])
  | passes :: phases, text =>
    (runAll round passes text).bind fun r => if r.2.isEmpty then runPhases round phases r.1 else some r

inductive Visits (round : ι → List α → Option (Round α β)) : List (List ι) → List α → ι → List α → Prop
  | here {passes : List ι} {phases : List (List ι)} {text t : List α} {i : ι} : Reaches round passes text i t →
      Visits round (passes :: phases) text i t
  | later {passes : List ι} {phases : List (List ι)} {text left t : List α} {i : ι} : runAll round passes text = some (left, []) →
      Visits round phases left i t → Visits round (passes :: phases) text i t

section
variable {round : List α → Option (Round α β)} {P : β → Prop} {text left : List α} {items : List β} {fuel fuel' : Nat}

theorem comes_iff {t : List α} : Comes round text t ↔ t = text ∨ ∃ items left, round text = some (.found items left) ∧ Comes round left t := by
  constructor
  · intro h
    cases h with
    | here => exact .inl rfl
    | next hround h => exact .inr ⟨_, _, hround, h⟩
  · rintro (rfl | ⟨items, left, hround, h⟩)
    · exact .here _
    · exact .next hround h

theorem scan_done (h : round text = some .done) : scan round (fuel + 1) text = some (text, []) := by rw [scan, h]; rfl

theorem scan_last (h : round text = some (.last items left)) : scan round (fuel + 1) text = some (left, items) := by
  rw [scan, h]; rfl

theorem scan_found (h : round text = some (.found items left)) :
    scan round (fuel + 1) text = (scan round fuel left).map fun r => (r.1, items ++ r.2) := by rw [scan, h]; rfl

theorem scan_fails (h : round text = none) : scan round (fuel + 1) text = none := by rw [scan, h]; rfl

def step (round : List α → Option (Round α β)) (loop : List α → List β → Option (List α × List β)) (text : List α)
    (acc : List β) : Option (List α × List β) :=
  (round text).bind fun r =>
    match r with
    | .done => some (text, acc)
    | .found items left => loop left (acc ++ items)
    | .last items left => some (left, acc ++ items)

theorem loop_eq_scan (loop : Nat → List α → List β → Option (List α × List β))
    (hloop : ∀ fuel text acc, loop (fuel + 1) text acc = step round (loop fuel) text acc) (hshort : Shortens round)
    (hfuel : text.length < fuel) (acc : List β) :
    loop fuel text acc = (scan round fuel text).map fun r => (r.1, acc ++ r.2) := by
  induction fuel generalizing text acc with
  | zero => exact absurd hfuel (Nat.not_lt_zero _)
  | succ fuel ih =>
    rw [hloop, step]
    rcases hround : round text with _ | r
    · rw [scan_fails hround]; rfl
    rw [Option.bind_some]
    cases r with
    | done => rw [scan_done hround, Option.map_some, List.append_nil]
    | last items left => rw [scan_last hround]; rfl
    | found items left =>
      have hleft := hshort text items left hround
      have hrest : loop fuel left (acc ++ items) = (scan round fuel left).map fun r => (r.1, (acc ++ items) ++ r.2) :=
        ih (by omega) _
      rw [scan_found hround, Option.map_map]
      dsimp only
      rw [hrest]
      refine congrArg (Option.map · _) (funext fun r => ?_)
      rw [Function.comp_apply, List.append_assoc]

theorem scan_iff (hshort : Shortens round) (hfuel : text.length < fuel) :
    (∃ left items, scan round fuel text = some (left, items) ∧ ∀ b ∈ items, P b) ↔
      ∀ t, Comes round text t → Clean P (round t) := by
  induction fuel generalizing text with
  | zero => exact absurd hfuel (Nat.not_lt_zero _)
  | succ fuel ih =>
    rcases hround : round text with _ | r
    · rw [scan_fails hround]
      constructor
      · rintro ⟨left, items, h, -⟩
        cases h
      · intro h
        obtain ⟨r, hr, -⟩ := h text (.here text)
        rw [hround] at hr
        cases hr
    -- a round that does not go on is the only one
    have hend {left : List α} {items : List β} (hitems : r.items = items) (hlast : ∀ t, Comes round text t → t = text) :
        (∃ left' items', some (left, items) = some (left', items') ∧ ∀ b ∈ items', P b) ↔
          ∀ t, Comes round text t → Clean P (round t) := by
      constructor
      · rintro ⟨left', items', heq, hgood⟩ t ht
        cases heq
        rw [hlast t ht, hround]
        exact ⟨r, rfl, hitems ▸ hgood⟩
      · intro h
        obtain ⟨r', hr', hgood⟩ := h text (.here text)
        rw [hround] at hr'
        cases hr'
        exact ⟨left, items, rfl, hitems ▸ hgood⟩
    cases r with
    | done =>
      rw [scan_done hround]
      refine hend rfl fun t ht => ?_
      rcases comes_iff.1 ht with rfl | ⟨items, left, hfound, -⟩
      · rfl
      · rw [hround] at hfound
        cases hfound
    | last items left =>
      rw [scan_last hround]
      refine hend rfl fun t ht => ?_
      rcases comes_iff.1 ht with rfl | ⟨items, left, hfound, -⟩
      · rfl
      · rw [hround] at hfound
        cases hfound
    | found items left =>
      have hleft := hshort text items left hround
      have ih : (∃ left' items, scan round fuel left = some (left', items) ∧ ∀ b ∈ items, P b) ↔
          ∀ t, Comes round left t → Clean P (round t) := ih (by omega)
      rw [scan_found hround]
      constructor
      · rintro ⟨left', items', hrun, hgood⟩ t ht
        obtain ⟨⟨left'', items''⟩, hscan, heq⟩ := Option.map_eq_some_iff.1 hrun
        cases heq
        rcases comes_iff.1 ht with rfl | ⟨items₂, left₂, hfound, ht⟩
        · exact ⟨_, hround, fun b hb => hgood b (List.mem_append_left _ hb)⟩
        · rw [hround] at hfound
          cases hfound
          exact ih.1 ⟨_, _, hscan, fun b hb => hgood b (List.mem_append_right _ hb)⟩ t ht
      · intro h
        obtain ⟨left', items', hscan, hgood⟩ := ih.2 fun t ht => h t (.next hround ht)
        obtain ⟨r, hr, hfirst⟩ := h text (.here text)
        rw [hround] at hr
        cases hr
        refine ⟨left', items ++ items', by rw [hscan]; rfl, fun b hb => ?_⟩
        rcases List.mem_append.1 hb with hb | hb
        · exact hfirst b hb
        · exact hgood b hb

end

section
variable {round : ι → List α → Option (Round α β)} {P : β → Prop} {passes : List ι} {text : List α}

theorem runAll_append (passes passes' : List ι) (text : List α) : runAll round (passes ++ passes') text =
    (runAll round passes text).bind fun r => (runAll round passes' r.1).map fun r' => (r'.1, r.2 ++ r'.2) := by
  induction passes generalizing text with
  | nil =>
    rw [List.nil_append, runAll, Option.bind_some]
    exact Option.map_id'.symm
  | cons i passes ih =>
    rw [List.cons_append, runAll, runAll, Option.bind_assoc]
    refine congrArg (Option.bind _) (funext fun r => ?_)
    rw [ih, Option.map_bind, Option.bind_map]
    refine congrArg (Option.bind _) (funext fun r' => ?_)
    rw [Function.comp_apply, Function.comp_apply, Option.map_map]
    refine congrArg (Option.map · _) (funext fun r'' => ?_)
    rw [Function.comp_apply, List.append_assoc]

theorem runAll_singleton (i : ι) (text : List α) : runAll round [i] text = scan (round i) (text.length + 1) text := by
  rw [runAll]
  cases scan (round i) (text.length + 1) text with
  | none => rfl
  | some r => exact congrArg some (Prod.ext rfl (List.append_nil _))

theorem foldlM_eq_runAll {κ : Type*} {pass : κ → ι} {f : List α × List β → κ → Option (List α × List β)} {js : List κ}
    (hf : ∀ j ∈ js, ∀ s, f s j = (scan (round (pass j)) (s.1.length + 1) s.1).map fun r => (r.1, s.2 ++ r.2))
    (s : List α × List β) : js.foldlM f s = (runAll round (js.map pass) s.1).map fun r => (r.1, s.2 ++ r.2) := by
  induction js generalizing s with
  | nil => exact congrArg some (Prod.ext rfl (List.append_nil _).symm)
  | cons j js ih =>
    obtain ⟨hj, hjs⟩ := List.forall_mem_cons.1 hf
    rw [List.foldlM_cons, hj, List.map_cons, runAll, Option.bind_eq_bind, Option.bind_map, Option.map_bind]
    refine congrArg (Option.bind _) (funext fun r => ?_)
    rw [Function.comp_apply, ih hjs, Function.comp_apply, Option.map_map]
    refine congrArg (Option.map · _) (funext fun r' => ?_)
    rw [Function.comp_apply, List.append_assoc]

theorem runAll_iff (hshort : ∀ i ∈ passes, Shortens (round i)) (text : List α) :
    (∃ left items, runAll round passes text = some (left, items) ∧ ∀ b ∈ items, P b) ↔
      ∀ i t, Reaches round passes text i t → Clean P (round i t) := by
  induction passes generalizing text with
  | nil =>
    refine ⟨fun _ i t h => ?_, fun _ => ⟨text, [], rfl, fun b hb => absurd hb List.not_mem_nil⟩⟩
    cases h
  | cons i passes ih =>
    obtain ⟨hi, hpasses⟩ := List.forall_mem_cons.1 hshort
    have ih := ih hpasses
    have hfirst := scan_iff (P := P) hi (Nat.lt_succ_self text.length)
    rw [runAll]
    constructor
    · rintro ⟨left, items, hrun, hgood⟩ j t h
      obtain ⟨⟨left₁, items₁⟩, hscan, hmap⟩ := Option.bind_eq_some_iff.1 hrun
      obtain ⟨⟨left₂, items₂⟩, hrest, heq⟩ := Option.map_eq_some_iff.1 hmap
      cases heq
      cases h with
      | here h => exact hfirst.1 ⟨_, _, hscan, fun b hb => hgood b (List.mem_append_left _ hb)⟩ t h
      | later hscan' h =>
        rw [hscan] at hscan'
        cases hscan'
        exact (ih left₁).1 ⟨_, _, hrest, fun b hb => hgood b (List.mem_append_right _ hb)⟩ j t h
    · intro h
      obtain ⟨left₁, items₁, hscan, hgood₁⟩ := hfirst.2 fun t ht => h i t (.here ht)
      obtain ⟨left₂, items₂, hrest, hgood₂⟩ := (ih left₁).2 fun j t ht => h j t (.later hscan ht)
      refine ⟨left₂, items₁ ++ items₂, by rw [hscan, Option.bind_some, hrest]; rfl, fun b hb => ?_⟩
      rcases List.mem_append.1 hb with hb | hb
      · exact hgood₁ b hb
      · exact hgood₂ b hb

end

section
variable {round : ι → List α → Option (Round α β)} {P : β → Prop} {phases : List (List ι)}

theorem Reaches.mem {passes : List ι} {text t : List α} {i : ι} (h : Reaches round passes text i t) : i ∈ passes := by
  induction h with
  | here => exact List.mem_cons_self
  | later _ _ ih => exact List.mem_cons_of_mem _ ih

theorem Visits.mem {text t : List α} {i : ι} (h : Visits round phases text i t) : ∃ passes ∈ phases, i ∈ passes := by
  induction h with
  | here h => exact ⟨_, List.mem_cons_self, h.mem⟩
  | later _ _ ih =>
    obtain ⟨passes, hpasses, hi⟩ := ih
    exact ⟨passes, List.mem_cons_of_mem _ hpasses, hi⟩

theorem runPhases_singleton (passes : List ι) (text : List α) : runPhases round [passes] text = runAll round passes text := by
  rw [runPhases]
  rcases runAll round passes text with _ | ⟨left, items⟩
  · rfl
  cases items with
  | nil | cons => rfl

theorem runPhases_iff (hshort : ∀ passes ∈ phases, ∀ i ∈ passes, Shortens (round i)) (text : List α) :
    (∃ left items, runPhases round phases text = some (left, items) ∧ ∀ b ∈ items, P b) ↔
      ∀ i t, Visits round phases text i t → Clean P (round i t) := by
  induction phases generalizing text with
  | nil =>
    refine ⟨fun _ i t h => ?_, fun _ => ⟨text, [], rfl, fun b hb => absurd hb List.not_mem_nil⟩⟩
    cases h
  | cons passes phases ih =>
    obtain ⟨hpasses, hphases⟩ := List.forall_mem_cons.1 hshort
    have ih := ih hphases
    have hfirst := runAll_iff (P := P) hpasses text
    rw [runPhases]
    constructor
    · rintro ⟨left, items, hrun, hgood⟩ i t h
      obtain ⟨⟨left₁, items₁⟩, hpass, hnext⟩ := Option.bind_eq_some_iff.1 hrun
      rcases items₁ with _ | ⟨b, items₁⟩
      · cases h with
        | here h => exact hfirst.1 ⟨_, _, hpass, fun b hb => absurd hb List.not_mem_nil⟩ i t h
        | later hpass' h =>
          rw [hpass] at hpass'
          cases hpass'
          exact (ih left₁).1 ⟨_, _, hnext, hgood⟩ i t h
      cases hnext
      cases h with
      | here h => exact hfirst.1 ⟨_, _, hpass, hgood⟩ i t h
      | later hpass' h =>
        rw [hpass] at hpass'
        cases hpass'
    · intro h
      obtain ⟨left₁, items₁, hpass, hgood⟩ := hfirst.2 fun i t ht => h i t (.here ht)
      rw [hpass, Option.bind_some]
      cases items₁ with
      | nil => exact (ih left₁).2 fun i t ht => h i t (.later hpass ht)
      | cons b items₁ => exact ⟨left₁, b :: items₁, rfl, hgood⟩

end

end Scanner
