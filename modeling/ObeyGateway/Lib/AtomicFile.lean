import ObeyGateway.Lib.Assoc

/-!
# Replacing a file by a temporary

A file is replaced by writing a temporary beside it and renaming it, in steps that may fail one by one; the process may
stop before a step is done or right after it. Only the rename changes the file (`file_run`). So the file has its old
content or the whole of the new one (`run_replace`).
-/

namespace AtomicFile

inductive Step
  | createDir | createTemporary | write | sync | rename | syncDirectory
deriving DecidableEq

structure Disk where
  file : Option (List UInt8)
  temporaries : List (String × List UInt8) := []
deriving DecidableEq

inductive Fault
  /-- The step returns an error. -/
  | error
  /-- The process stops before the step is done. -/
  | stop
  | stopAfter
deriving DecidableEq

/-- What goes wrong, and how many bytes have been written by then when it is the write. -/
structure Trouble where
  step : Step
  fault : Fault
  written : Nat := 0
deriving DecidableEq

inductive Outcome
  | done | failed | stopped
deriving DecidableEq

def Outcome.isDone : Outcome → Bool
  | .done => true
  | .failed | .stopped => false

section
variable (temporary : String) (bytes : List UInt8)

/-- `none` is an error of the step's own. -/
def Step.exec : Step → Disk → Option Disk
  | .createDir, disk | .sync, disk | .syncDirectory, disk => some disk
  | .createTemporary, disk =>
    match Assoc.get disk.temporaries temporary with
    | some _ => none
    | none => some { disk with temporaries := Assoc.put disk.temporaries temporary [] }
  | .write, disk => some { disk with temporaries := Assoc.put disk.temporaries temporary bytes }
  | .rename, disk => (Assoc.get disk.temporaries temporary).map fun content =>
    { file := some content, temporaries := Assoc.erase disk.temporaries temporary }

def Step.cut (written : Nat) : Step → Disk → Disk
  | .write, disk => { disk with temporaries := Assoc.put disk.temporaries temporary (bytes.take written) }
  | _, disk => disk

variable (trouble : Option Trouble)

def attempt (step : Step) (disk : Disk) : Option Outcome × Disk :=
  match trouble.filter (·.step = step) with
  | some ⟨_, .error, written⟩ => (some .failed, step.cut temporary bytes written disk)
  | some ⟨_, .stop, written⟩ => (some .stopped, step.cut temporary bytes written disk)
  | some ⟨_, .stopAfter, _⟩ =>
    match step.exec temporary bytes disk with
    | some disk' => (some .stopped, disk')
    | none => (some .failed, disk)
  | none =>
    match step.exec temporary bytes disk with
    | some disk' => (none, disk')
    | none => (some .failed, disk)

def run : List Step → Disk → Outcome × Disk
  | [], disk => (.done, disk)
  | step :: steps, disk =>
    match attempt temporary bytes trouble step disk with
    | (some outcome, disk') => (outcome, disk')
    | (none, disk') => run steps disk'

end

variable {temporary : String} {bytes : List UInt8} {trouble : Option Trouble} {step : Step} {disk disk' : Disk}
  {steps front back : List Step} {o : Option Outcome}

theorem attempt_ne_done : (attempt temporary bytes trouble step disk).1 ≠ some .done := by
  unfold attempt
  split
  · nofun
  · nofun
  · split <;> nofun
  · split <;> nofun

theorem exec_of_attempt (h : attempt temporary bytes trouble step disk = (none, disk')) :
    step.exec temporary bytes disk = some disk' := by
  unfold attempt at h
  split at h
  · cases h
  · cases h
  · split at h <;> cases h
  · split at h
    · cases h
      assumption
    · cases h

theorem run_append : run temporary bytes trouble (front ++ back) disk = match run temporary bytes trouble front disk with
    | (.done, disk') => run temporary bytes trouble back disk'
    | r => r := by
  induction front generalizing disk with
  | nil => rfl
  | cons step front ih =>
    rw [List.cons_append, run, run]
    split
    · rename_i outcome disk' hattempt
      cases outcome with
      | done => exact absurd (congrArg Prod.fst hattempt) attempt_ne_done
      | failed | stopped => rfl
    · exact ih

theorem exec_of_run_done (h : run temporary bytes trouble (step :: steps) disk = (.done, disk')) :
    ∃ d, step.exec temporary bytes disk = some d ∧ run temporary bytes trouble steps d = (.done, disk') := by
  rw [run] at h
  split at h
  · rename_i outcome d hattempt
    cases h
    exact absurd (congrArg Prod.fst hattempt) attempt_ne_done
  · exact ⟨_, exec_of_attempt ‹_›, h⟩

theorem file_cut (written : Nat) : (step.cut temporary bytes written disk).file = disk.file := by cases step <;> rfl

theorem file_exec (hstep : step ≠ .rename) (h : step.exec temporary bytes disk = some disk') : disk'.file = disk.file := by
  cases step with
  | rename => exact absurd rfl hstep
  | createTemporary =>
    simp only [Step.exec] at h
    split at h
    · cases h
    · cases h
      rfl
  | createDir | write | sync | syncDirectory =>
    cases h
    rfl

theorem file_attempt (hstep : step ≠ .rename) (h : attempt temporary bytes trouble step disk = (o, disk')) :
    disk'.file = disk.file := by
  unfold attempt at h
  split at h
  · cases h
    exact file_cut _
  · cases h
    exact file_cut _
  · split at h
    · cases h
      exact file_exec hstep ‹_›
    · cases h
      rfl
  · split at h
    · cases h
      exact file_exec hstep ‹_›
    · cases h
      rfl

/-- Only the rename changes the file. -/
theorem file_run (temporary : String) (bytes : List UInt8) (trouble : Option Trouble) (disk : Disk)
    (h : .rename ∉ steps) : (run temporary bytes trouble steps disk).2.file = disk.file := by
  induction steps generalizing disk with
  | nil => rfl
  | cons step steps ih =>
    obtain ⟨hstep, hsteps⟩ := not_or.1 fun hmem => h (List.mem_cons.2 hmem)
    rw [run]
    split
    · exact file_attempt (Ne.symm hstep) ‹_›
    · rw [ih _ hsteps]
      exact file_attempt (Ne.symm hstep) ‹_›

theorem run_ne_stopped (temporary : String) (bytes : List UInt8) (steps : List Step) (disk : Disk) :
    (run temporary bytes none steps disk).1 ≠ .stopped := by
  induction steps generalizing disk with
  | nil => nofun
  | cons step steps ih =>
    rw [run, attempt, Option.filter_none]
    dsimp only
    cases step.exec temporary bytes disk with
    | none => nofun
    | some disk' => exact ih disk'

theorem rename_cases (trouble : Option Trouble) (h : Assoc.get disk.temporaries temporary = some bytes) :
    (∃ disk', attempt temporary bytes trouble .rename disk = (none, disk') ∧ disk'.file = some bytes) ∨
      (∃ disk', attempt temporary bytes trouble .rename disk = (some .stopped, disk') ∧ disk'.file = some bytes) ∨
      ∃ outcome, outcome ≠ .done ∧ attempt temporary bytes trouble .rename disk = (some outcome, disk) := by
  have hexec : Step.exec temporary bytes .rename disk =
      some { file := some bytes, temporaries := Assoc.erase disk.temporaries temporary } := by
    rw [Step.exec, h]
    rfl
  unfold attempt
  rw [hexec]
  split
  · exact .inr (.inr ⟨.failed, nofun, rfl⟩)
  · exact .inr (.inr ⟨.stopped, nofun, rfl⟩)
  · exact .inr (.inl ⟨_, rfl, rfl⟩)
  · exact .inl ⟨_, rfl, rfl⟩

theorem run_replace (hfront : .rename ∉ front) (hback : .rename ∉ back)
    (hready : ∀ d, run temporary bytes trouble front disk = (.done, d) → Assoc.get d.temporaries temporary = some bytes) :
    let r := run temporary bytes trouble (front ++ .rename :: back) disk
    (r.1 ≠ .done ∧ r.2.file = disk.file) ∨
      r.2.file = some bytes ∧ (r.1 = .stopped ∨ ∃ d, run temporary bytes trouble back d = r) := by
  have hfile := file_run temporary bytes trouble disk hfront
  dsimp only
  rw [run_append]
  rcases hrun : run temporary bytes trouble front disk with ⟨outcome, d⟩
  rw [hrun] at hfile
  cases outcome with
  | failed | stopped => exact .inl ⟨nofun, hfile⟩
  | done =>
    show _ ∨ _
    simp only [run]
    rcases rename_cases trouble (hready d hrun) with ⟨d', h, hd⟩ | ⟨d', h, hd⟩ | ⟨outcome, houtcome, h⟩
    · rw [h]
      refine .inr ⟨?_, .inr ⟨d', rfl⟩⟩
      rw [← hd]
      exact file_run temporary bytes trouble _ hback
    · rw [h]
      exact .inr ⟨hd, .inl rfl⟩
    · rw [h]
      exact .inl ⟨houtcome, hfile⟩

end AtomicFile
