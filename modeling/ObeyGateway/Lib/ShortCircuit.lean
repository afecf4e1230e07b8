import Mathlib.Data.List.Basic

/-!
# Runs that stop at the first halt

A stage takes a state to the next one and may halt with an outcome; it may also fail altogether
(`none`). `runUntil` is the run of a list of stages that stops at the first one that halts.
`runCarrying` is a loop that is entered with an outcome that is already there: it looks at it only
after a stage, so that it runs one more (`runCarrying_some_cons`).
-/

namespace ShortCircuit

variable {σ S β : Type*} (exec exec' : σ → S → Option (σ × Option β))

def runUntil : σ → List S → Option (σ × Option β)
  | s, [] => some (s, none)
  | s, x :: xs =>
    match exec s x with
    | none => none
    | some (s', some b) => some (s', some b)
    | some (s', none) => runUntil s' xs

def firstHalt : σ → List S → Option S
  | _, [] => none
  | s, x :: xs =>
    match exec s x with
    | none => none
    | some (_, some _) => some x
    | some (s', none) => firstHalt s' xs

/-- A loop over a shared outcome `t`: a stage that halts overwrites it, and the loop is left after a
stage when there is one. -/
def runCarrying : σ → Option β → List S → Option (σ × Option β)
  | s, t, [] => some (s, t)
  | s, t, x :: xs =>
    match exec s x with
    | none => none
    | some (s', o) => if (o <|> t).isSome then some (s', o <|> t) else runCarrying s' (o <|> t) xs

/-- The first stage of the list that halts decides what is returned: its state and its outcome. -/
def FirstHaltDecides (s : σ) (xs : List S) (returns : σ → β → Prop) : Prop :=
  ∀ front x back s₁ s' b, xs = front ++ x :: back → runUntil exec s front = some (s₁, none) →
    exec s₁ x = some (s', some b) → returns s' b

variable {exec exec'} {s s' : σ} {b : β} {x : S} {xs ys : List S}

theorem runUntil_append (s : σ) (xs ys : List S) : runUntil exec s (xs ++ ys) = match runUntil exec s xs with
    | none => none
    | some (s', some b) => some (s', some b)
    | some (s', none) => runUntil exec s' ys := by
  induction xs generalizing s with
  | nil => rfl
  | cons x xs ih =>
    simp only [List.cons_append, runUntil]
    rcases exec s x with _ | ⟨s', _ | b⟩
    · rfl
    · exact ih s'
    · rfl

theorem runUntil_congr (h : ∀ x ∈ xs, ∀ s, exec s x = exec' s x) (s : σ) : runUntil exec s xs = runUntil exec' s xs := by
  induction xs generalizing s with
  | nil => rfl
  | cons x xs ih =>
    have hrest := fun s => ih (fun y hy => h y (List.mem_cons_of_mem _ hy)) s
    simp only [runUntil, h x List.mem_cons_self]
    rcases exec' s x with _ | ⟨s', _ | b⟩
    · rfl
    · exact hrest s'
    · rfl

theorem runUntil_halts_iff : runUntil exec s xs = some (s', some b) ↔
    ∃ front x back s₁, xs = front ++ x :: back ∧ runUntil exec s front = some (s₁, none) ∧
      exec s₁ x = some (s', some b) := by
  constructor
  · intro h
    induction xs generalizing s with
    | nil => simp [runUntil] at h
    | cons x xs ih =>
      rcases hx : exec s x with _ | ⟨s₁, _ | b₁⟩
      · simp [runUntil, hx] at h
      · obtain ⟨front, y, back, s₂, rfl, hfront, hy⟩ := ih (by simpa [runUntil, hx] using h)
        exact ⟨x :: front, y, back, s₂, rfl, by simpa [runUntil, hx] using hfront, hy⟩
      · obtain ⟨rfl, rfl⟩ : s₁ = s' ∧ b₁ = b := by simpa [runUntil, hx] using h
        exact ⟨[], x, xs, s, rfl, rfl, hx⟩
  · rintro ⟨front, x, back, s₁, rfl, hfront, hx⟩
    rw [runUntil_append, hfront]
    simp [runUntil, hx]

theorem firstHaltDecides_iff {returns : σ → β → Prop} : FirstHaltDecides exec s xs returns ↔
    ∀ s' b, runUntil exec s xs = some (s', some b) → returns s' b := by
  constructor
  · intro h s' b hrun
    obtain ⟨front, x, back, s₁, hxs, hfront, hx⟩ := runUntil_halts_iff.1 hrun
    exact h front x back s₁ s' b hxs hfront hx
  · intro h front x back s₁ s' b hxs hfront hx
    exact h s' b (runUntil_halts_iff.2 ⟨front, x, back, s₁, hxs, hfront, hx⟩)

theorem FirstHaltDecides.of_head {returns : σ → β → Prop} (h : FirstHaltDecides exec s (x :: xs) returns)
    (hx : (exec s x).map Prod.snd = some (some b)) : ∃ s', returns s' b := by
  obtain ⟨⟨s', o⟩, hexec, rfl⟩ := Option.map_eq_some_iff.1 hx
  exact ⟨s', h [] x xs s s' b rfl rfl hexec⟩

theorem firstHalt_of_halts (h : runUntil exec s xs = some (s', some b)) :
    ∃ x ∈ xs, firstHalt exec s xs = some x ∧ ∃ s₁, exec s₁ x = some (s', some b) := by
  induction xs generalizing s with
  | nil => simp [runUntil] at h
  | cons x xs ih =>
    rcases hx : exec s x with _ | ⟨s₁, _ | b₁⟩
    · simp [runUntil, hx] at h
    · obtain ⟨y, hy, hfirst, s₂, hexec⟩ := ih (by simpa [runUntil, hx] using h)
      exact ⟨y, List.mem_cons_of_mem _ hy, by simpa [firstHalt, hx] using hfirst, s₂, hexec⟩
    · obtain ⟨rfl, rfl⟩ : s₁ = s' ∧ b₁ = b := by simpa [runUntil, hx] using h
      exact ⟨x, List.mem_cons_self, by simp [firstHalt, hx], s, hx⟩

theorem firstHalt_eq_none (h : ∀ s' b, runUntil exec s xs ≠ some (s', some b)) : firstHalt exec s xs = none := by
  induction xs generalizing s with
  | nil => rfl
  | cons x xs ih =>
    rcases hx : exec s x with _ | ⟨s₁, _ | b₁⟩
    · simp [firstHalt, hx]
    · simp only [firstHalt, hx]
      exact ih fun s' b hb => h s' b (by simpa [runUntil, hx] using hb)
    · exact absurd (by simp [runUntil, hx]) (h s₁ b₁)

theorem runCarrying_none (s : σ) (xs : List S) : runCarrying exec s none xs = runUntil exec s xs := by
  induction xs generalizing s with
  | nil => rfl
  | cons x xs ih =>
    simp only [runCarrying, runUntil]
    rcases exec s x with _ | ⟨s', _ | b⟩
    · rfl
    · exact ih s'
    · rfl

theorem runCarrying_some_cons (s : σ) (b : β) (x : S) (xs : List S) : runCarrying exec s (some b) (x :: xs) =
      (exec s x).map fun r => (r.1, r.2 <|> some b) := by
  simp only [runCarrying]
  rcases exec s x with _ | ⟨s', _ | b'⟩ <;> rfl

end ShortCircuit
