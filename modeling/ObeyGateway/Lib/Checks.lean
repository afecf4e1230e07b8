import Mathlib.Data.List.Forall2

/-!
# Checks in `Except`

A sequence of fallible steps succeeds exactly when each of them does. The lemmas take such a sequence apart without
unfolding the monad.
-/

namespace Checks

universe u v w

variable {ε : Type w} {α β : Type u} {γ : Type v}

variable {f : α → Except ε β}

theorem bind_eq_ok_iff {x : Except ε α} {b : β} : (x >>= f) = .ok b ↔ ∃ a, x = .ok a ∧ f a = .ok b := by
  cases x with
  | error e => exact ⟨nofun, nofun⟩
  | ok a => exact ⟨fun h => ⟨a, rfl, h⟩, fun ⟨_, ha, h⟩ => Except.ok.inj ha ▸ h⟩

theorem seq_eq_ok_iff {x : Except ε PUnit} {y : Except ε β} {b : β} :
    (x >>= fun _ => y) = .ok b ↔ x = .ok ⟨⟩ ∧ y = .ok b := by
  rw [bind_eq_ok_iff]
  exact ⟨fun ⟨⟨⟩, hx, hy⟩ => ⟨hx, hy⟩, fun ⟨hx, hy⟩ => ⟨⟨⟩, hx, hy⟩⟩

theorem pure_eq_ok_iff {a b : α} : (pure a : Except ε α) = .ok b ↔ a = b :=
  ⟨fun h => Except.ok.inj h, fun h => congrArg Except.ok h⟩

theorem guard_eq_ok_iff {c : Prop} [Decidable c] {x : Except ε α} {e : ε} {a : α} :
    (if c then x else .error e) = .ok a ↔ c ∧ x = .ok a := by
  by_cases hc : c <;> simp [hc]

theorem forM_eq_ok_iff {xs : List γ} {f : γ → Except ε PUnit} : xs.forM f = .ok ⟨⟩ ↔ ∀ x ∈ xs, f x = .ok ⟨⟩ := by
  induction xs with
  | nil => exact ⟨fun _ _ h => absurd h List.not_mem_nil, fun _ => rfl⟩
  | cons x xs ih =>
    rw [List.forall_mem_cons, ← ih]
    exact seq_eq_ok_iff

variable {rows : List α} {entries : List β}

theorem mapM_eq_ok_iff : rows.mapM f = .ok entries ↔ List.Forall₂ (fun row entry => f row = .ok entry) rows entries := by
  induction rows generalizing entries with
  | nil =>
    rw [List.mapM_nil, List.forall₂_nil_left_iff]
    exact ⟨fun h => (Except.ok.inj h).symm, fun h => congrArg Except.ok h.symm⟩
  | cons row rows ih =>
    simp only [List.mapM_cons, List.forall₂_cons_left_iff, bind_eq_ok_iff, ih]
    constructor
    · rintro ⟨entry, hentry, more, hmore, hentries⟩
      exact ⟨entry, more, hentry, hmore, (Except.ok.inj hentries).symm⟩
    · rintro ⟨entry, more, hentry, hmore, rfl⟩
      exact ⟨entry, hentry, more, hmore, rfl⟩

theorem exists_of_mem_mapM (h : rows.mapM f = .ok entries) {entry : β} (hentry : entry ∈ entries) :
    ∃ row ∈ rows, f row = .ok entry := by
  have hrows := mapM_eq_ok_iff.1 h
  clear h
  induction hrows with
  | nil => cases hentry
  | cons hread _ ih =>
    rcases List.mem_cons.1 hentry with rfl | hentry
    · exact ⟨_, List.mem_cons_self, hread⟩
    · obtain ⟨row, hrow, hf⟩ := ih hentry
      exact ⟨row, List.mem_cons_of_mem _ hrow, hf⟩

theorem exists_of_mem_mapM_some {f : α → Option β} (h : rows.mapM f = some entries)
    {entry : β} (hentry : entry ∈ entries) : ∃ row ∈ rows, f row = some entry := by
  induction rows generalizing entries with
  | nil =>
    cases h
    cases hentry
  | cons row rows ih =>
    rw [List.mapM_cons] at h
    obtain ⟨first, hfirst, h⟩ := Option.bind_eq_some_iff.1 h
    obtain ⟨more, hmore, h⟩ := Option.bind_eq_some_iff.1 h
    cases h
    rcases List.mem_cons.1 hentry with rfl | hentry
    · exact ⟨row, List.mem_cons_self, hfirst⟩
    · obtain ⟨row', hrow', hf⟩ := ih hmore hentry
      exact ⟨row', List.mem_cons_of_mem row hrow', hf⟩

end Checks
