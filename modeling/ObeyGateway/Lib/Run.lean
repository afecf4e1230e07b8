import Mathlib.Data.List.Induction

/-!
# Runs of a step function

A system is a type `σ` of states and a total `step : σ → α → σ`; a run is `List.foldl step`. An
action that is not enabled leaves the state as it is, so every list of actions is a run. `Along step
P s as` says that every action of the run meets `P` in the state it is taken in.
-/

namespace Run

variable {σ α : Type*} {step : σ → α → σ} {P Q : σ → α → Prop} {s : σ} {a : α} {as bs : List α}

/-- The state after the actions `as` from `s`. -/
def run (step : σ → α → σ) (s : σ) (as : List α) : σ := as.foldl step s

/-- Every action of the run from `s` meets `P` in the state it is taken in. -/
def Along (step : σ → α → σ) (P : σ → α → Prop) : σ → List α → Prop
  | _, [] => True
  | s, a :: as => P s a ∧ Along step P (step s a) as

instance decidableAlong [∀ s a, Decidable (P s a)] : ∀ s as, Decidable (Along step P s as)
  | _, [] => isTrue trivial
  | s, a :: as => @instDecidableAnd _ _ _ (decidableAlong (step s a) as)

@[simp] theorem run_nil : run step s [] = s := rfl

@[simp] theorem run_cons : run step s (a :: as) = run step (step s a) as := rfl

theorem run_append : run step s (as ++ bs) = run step (run step s as) bs := List.foldl_append

theorem run_concat : run step s (as ++ [a]) = step (run step s as) a := by rw [run_append]; rfl

theorem along_cons : Along step P s (a :: as) ↔ P s a ∧ Along step P (step s a) as := Iff.rfl

theorem along_append : Along step P s (as ++ bs) ↔ Along step P s as ∧ Along step P (run step s as) bs := by
  induction as generalizing s with
  | nil => simp [Along]
  | cons a as ih => simp [along_cons, ih, and_assoc]

theorem along_concat : Along step P s (as ++ [a]) ↔ Along step P s as ∧ P (run step s as) a := by
  simp [along_append, Along]

theorem Along.mono (hPQ : ∀ s a, P s a → Q s a) (h : Along step P s as) : Along step Q s as := by
  induction as generalizing s with
  | nil => trivial
  | cons a as ih => exact ⟨hPQ _ _ h.1, ih h.2⟩

theorem Along.initial (h : Along step P s as) (hp : bs <+: as) : Along step P s bs := by
  obtain ⟨cs, rfl⟩ := hp
  exact (along_append.1 h).1

theorem along_of_forall (h : ∀ s, ∀ a ∈ as, P s a) : Along step P s as := by
  induction as generalizing s with
  | nil => trivial
  | cons a as ih => exact ⟨h s a (by simp), ih fun s' b hb => h s' b (by simp [hb])⟩

variable {I : σ → Prop}

theorem invariant (hstep : ∀ s a, I s → P s a → I (step s a)) (h0 : I s) (h : Along step P s as) : I (run step s as) := by
  induction as generalizing s with
  | nil => exact h0
  | cons a as ih => exact ih (hstep s a h0 h.1) h.2

theorem invariant_of_step (hstep : ∀ s a, I s → I (step s a)) (h0 : I s) : I (run step s as) :=
  invariant (P := fun _ _ => True) (fun s a h _ => hstep s a h) h0 (along_of_forall fun _ _ _ => trivial)

theorem Along.law (hstep : ∀ s a, I s → P s a → I (step s a)) (hlaw : ∀ s a, I s → P s a → Q s a)
    (h0 : I s) (h : Along step P s as) : Along step Q s as := by
  induction as generalizing s with
  | nil => trivial
  | cons a as ih => exact ⟨hlaw s a h0 h.1, ih (hstep s a h0 h.1) h.2⟩

theorem along_iff_invariant (hstep : ∀ s a, I s → (I (step s a) ↔ P s a))
    (h0 : I s) : Along step P s as ↔ ∀ bs, bs <+: as → I (run step s bs) := by
  constructor
  · intro h bs hb
    exact invariant (fun s a hI hP => (hstep s a hI).2 hP) h0 (h.initial hb)
  · intro h
    induction as generalizing s with
    | nil => trivial
    | cons a as ih =>
      have hI : I (step s a) := h [a] ⟨as, rfl⟩
      refine ⟨(hstep s a h0).1 hI, ih hI fun bs hb => ?_⟩
      exact h (a :: bs) (List.cons_prefix_cons.2 ⟨rfl, hb⟩)

variable {J : σ → Prop}

theorem along_congr (hiff : ∀ s a, J s → (P s a ↔ Q s a)) (hJ : ∀ s a, J s → Q s a → J (step s a))
    (h0 : J s) : Along step P s as ↔ Along step Q s as := by
  induction as generalizing s with
  | nil => exact Iff.rfl
  | cons a as ih =>
    rw [along_cons, along_cons, hiff s a h0]
    exact and_congr_right fun ha => ih (hJ s a h0 ha)

theorem along_iff_law (hJ : ∀ s a, J s → J (step s a))
    (hstep : ∀ s a, J s → I s → (I (step s a) ↔ P s a)) (hJ0 : J s) (h0 : I s) :
    Along step P s as ↔ ∀ bs, bs <+: as → I (run step s bs) := by
  have hboth : Along step P s as ↔ ∀ bs, bs <+: as → J (run step s bs) ∧ I (run step s bs) := by
    refine along_iff_invariant (I := fun s => J s ∧ I s) (fun s a h => ?_) ⟨hJ0, h0⟩
    rw [← hstep s a h.1 h.2]
    exact ⟨fun h' => h'.2, fun h' => ⟨hJ s a h.1, h'⟩⟩
  rw [hboth]
  constructor
  · intro h bs hb
    exact (h bs hb).2
  · intro h bs hb
    exact ⟨invariant_of_step hJ hJ0, h bs hb⟩

theorem invariant_run_iff_along {D : α → Prop} (hJ : ∀ s a, J s → D a → J (step s a))
    (hstep : ∀ s a, J s → D a → (I (step s a) ↔ I s ∧ P s a)) (hJ0 : J s) (hD : ∀ a ∈ as, D a) :
    I (run step s as) ↔ I s ∧ Along step P s as := by
  induction as generalizing s with
  | nil => exact (and_iff_left trivial).symm
  | cons a as ih =>
    obtain ⟨ha, has⟩ := List.forall_mem_cons.1 hD
    rw [run_cons, ih (hJ s a hJ0 ha) has, hstep s a hJ0 ha, along_cons, and_assoc]

theorem along_proj {τ : Type*} {π : σ → τ} {next : τ → α → τ} {Q : τ → α → Prop} (hπ : ∀ s a, π (step s a) = next (π s) a) :
    Along step (fun s a => Q (π s) a) s as ↔ Along next Q (π s) as := by
  induction as generalizing s with
  | nil => exact Iff.rfl
  | cons a as ih =>
    rw [along_cons, along_cons, ← hπ]
    exact and_congr_right fun _ => ih

theorem invariant_or_broken {B : σ → Prop} {W : σ → α → Prop} (hJ : ∀ s a, J s → W s a → J (step s a))
    (hI : ∀ s a, J s → W s a → I s → P s a → I (step s a)) (hbreak : ∀ s a, J s → W s a → I s → ¬ P s a → B (step s a))
    (hB : ∀ s a, J s → W s a → B s → B (step s a)) (hJ0 : J s) (h0 : I s) (hW : Along step W s as) :
    Along step P s as ∧ I (run step s as) ∨ ¬ Along step P s as ∧ B (run step s as) := by
  have hstay {s : σ} {as : List α} (hs : J s) (hbroken : B s) (hW : Along step W s as) : B (run step s as) :=
    (invariant (I := fun s => J s ∧ B s) (fun s a h ha => ⟨hJ s a h.1 ha, hB s a h.1 ha h.2⟩) ⟨hs, hbroken⟩ hW).2
  induction as generalizing s with
  | nil => exact .inl ⟨trivial, h0⟩
  | cons a as ih =>
    by_cases ha : P s a
    · rcases ih (hJ s a hJ0 hW.1) (hI s a hJ0 hW.1 h0 ha) hW.2 with ⟨halong, hrun⟩ | ⟨hnot, hrun⟩
      · exact .inl ⟨⟨ha, halong⟩, hrun⟩
      · exact .inr ⟨fun h => hnot h.2, hrun⟩
    · refine .inr ⟨fun h => ha h.1, ?_⟩
      rw [run_cons]
      exact hstay (hJ s a hJ0 hW.1) (hbreak s a hJ0 hW.1 h0 ha) hW.2

theorem invariant_hist {I : List α → σ → Prop} (hstep : ∀ as s a, I as s → P s a → I (as ++ [a]) (step s a)) (h0 : I [] s)
    (h : Along step P s as) : I as (run step s as) := by
  induction as using List.reverseRecOn with
  | nil => exact h0
  | append_singleton as a ih =>
    obtain ⟨h, ha⟩ := along_concat.1 h
    rw [run_concat]
    exact hstep as _ a (ih h) ha

/-- Some run under `P` ends in `s'`. -/
def Reaches (step : σ → α → σ) (P : σ → α → Prop) (s s' : σ) : Prop :=
  ∃ as, Along step P s as ∧ run step s as = s'

namespace Reaches
variable {s' s'' : σ}

theorem refl : Reaches step P s s := ⟨[], trivial, rfl⟩

theorem single (h : P s a) : Reaches step P s (step s a) := ⟨[a], ⟨h, trivial⟩, rfl⟩

theorem trans (h : Reaches step P s s') (h' : Reaches step P s' s'') : Reaches step P s s'' := by
  obtain ⟨as, has, rfl⟩ := h
  obtain ⟨bs, hbs, rfl⟩ := h'
  exact ⟨as ++ bs, along_append.2 ⟨has, hbs⟩, run_append⟩

theorem head (h : P s a) (h' : Reaches step P (step s a) s') : Reaches step P s s' := (single h).trans h'

end Reaches

end Run
