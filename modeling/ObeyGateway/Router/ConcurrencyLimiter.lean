import ObeyGateway.Lib.Run
import Mathlib.Data.List.Nodup
import Mathlib.Logic.Function.Basic

/-!
# The in-flight slots of a provider

`ProviderConcurrencyLimiter` and its permits. Each critical section, registration with the notifier and
`notify_waiters` is one step, in any order. `acquire` registers before it takes the lock, and whoever makes
room notifies after it gave the lock back. So a task that waits without a notification waits for room, or
somebody is about to notify it (`slots_law`).
-/

namespace ObeyGateway

/-- Where a task stands inside its call. `woken` says that its `Notified` has been notified since it was enabled. -/
inductive SlotPc
  | idle
  /-- `acquire` at the head of its loop, after `notified.await` -/
  | looping
  /-- `acquire` with an enabled `Notified`, before the lock -/
  | checking (woken : Bool)
  /-- `acquire` at `notified.await` -/
  | waiting (woken : Bool)
  /-- after the critical section of a drop, or of an `update_limit` that raised the limit -/
  | notifying
deriving DecidableEq

/-- `notify_waiters` reaches every `Notified` that is enabled. -/
def SlotPc.wake : SlotPc → SlotPc
  | .checking _ => .checking true
  | .waiting _ => .waiting true
  | pc => pc

/-- A permit is a number; `drop` names the one that goes out of scope. -/
inductive SlotCall
  | tryAcquire
  | acquire
  | drop (permit : Nat)
  | updateLimit (limit : Nat)

/-- `live` are the permits that were handed out and not dropped, `issued` how many there were. -/
structure SlotSys where
  limit : Nat
  inFlight : Nat
  live : List Nat
  issued : Nat
  pc : Nat → SlotPc

/-- `task` runs for one step; `call` is what it begins when idle, `cancel` drops the future of a waiting `acquire`. -/
structure SlotStep where
  task : Nat
  call : SlotCall
  cancel : Bool

namespace SlotSys

def new (limit : Nat) : SlotSys := ⟨limit, 0, [], 0, fun _ => .idle⟩

variable (s : SlotSys)

def goto (task : Nat) (pc : SlotPc) : SlotSys := { s with pc := Function.update s.pc task pc }

def grant (task : Nat) : SlotSys :=
  { s with inFlight := s.inFlight + 1, live := s.issued :: s.live, issued := s.issued + 1,
           pc := Function.update s.pc task .idle }

def release (task permit : Nat) : SlotSys :=
  { s with inFlight := s.inFlight - 1, live := s.live.erase permit, pc := Function.update s.pc task .notifying }

def setLimit (task limit : Nat) : SlotSys :=
  { s with limit := limit, pc := if s.limit < limit then Function.update s.pc task .notifying else s.pc }

def notifyWaiters (task : Nat) : SlotSys := { s with pc := fun t => (Function.update s.pc task .idle t).wake }

def step (a : SlotStep) : SlotSys :=
  match s.pc a.task with
  | .idle =>
    match a.call with
    | .tryAcquire => if s.limit ≤ s.inFlight then s else s.grant a.task
    | .acquire => s.goto a.task (.checking false)
    | .drop permit => if permit ∈ s.live then s.release a.task permit else s
    | .updateLimit limit => s.setLimit a.task (max limit 1)
  | .looping => s.goto a.task (.checking false)
  | .checking woken => if s.inFlight < s.limit then s.grant a.task else s.goto a.task (.waiting woken)
  | .waiting woken =>
    if a.cancel then s.goto a.task .idle
    else if woken then s.goto a.task .looping
    else s
  | .notifying => s.notifyWaiters a.task

def after (limit : Nat) (as : List SlotStep) : SlotSys := Run.run step (new limit) as

inductive Effect (s : SlotSys) (task : Nat) : SlotSys → Prop
  | none : Effect s task s
  | goto (pc : SlotPc) (hpc : s.pc task ≠ .notifying) (hwait : pc = .waiting false → s.limit ≤ s.inFlight) :
    Effect s task (s.goto task pc)
  | grant (hpc : s.pc task ≠ .notifying) (hroom : s.inFlight < s.limit) : Effect s task (s.grant task)
  | release (permit : Nat) (hpc : s.pc task ≠ .notifying) (hlive : permit ∈ s.live) :
    Effect s task (s.release task permit)
  | setLimit (limit : Nat) (hpc : s.pc task ≠ .notifying) : Effect s task (s.setLimit task limit)
  | notifyWaiters (hpc : s.pc task = .notifying) : Effect s task (s.notifyWaiters task)

theorem step_effect (a : SlotStep) : Effect s a.task (s.step a) := by
  unfold step
  split
  · rename_i hpc
    have hne : s.pc a.task ≠ .notifying := by rw [hpc]; simp
    split
    · split
      · exact .none
      · rename_i hroom
        exact .grant hne (Nat.lt_of_not_le hroom)
    · exact .goto _ hne (by simp)
    · split
      · rename_i hlive
        exact .release _ hne hlive
      · exact .none
    · exact .setLimit _ hne
  · rename_i hpc
    exact .goto _ (by rw [hpc]; simp) (by simp)
  · rename_i hpc
    have hne : s.pc a.task ≠ .notifying := by rw [hpc]; simp
    split
    · rename_i hroom
      exact .grant hne hroom
    · rename_i hfull
      exact .goto _ hne fun _ => Nat.le_of_not_lt hfull
  · rename_i hpc
    have hne : s.pc a.task ≠ .notifying := by rw [hpc]; simp
    split
    · exact .goto _ hne (by simp)
    · split
      · exact .goto _ hne (by simp)
      · exact .none
  · rename_i hpc
    exact .notifyWaiters hpc

/-! ### The invariant -/

/-- A task that waits without a notification has no room to wait for, or is about to be notified. -/
def Awake : Prop := ∀ t, s.pc t = .waiting false → s.limit ≤ s.inFlight ∨ ∃ u, s.pc u = .notifying

structure Inv : Prop where
  count : s.inFlight = s.live.length
  fresh : ∀ permit ∈ s.live, permit < s.issued
  nodup : s.live.Nodup
  awake : s.Awake

variable {s} {task : Nat}

variable {s' : SlotSys}

/-- A task that does not begin to wait, and leaves no notification undone, keeps the others awake. -/
theorem Awake.update {pc : SlotPc} (h : s.Awake) (hpc' : s'.pc = Function.update s.pc task pc)
    (hpc : s.pc task ≠ .notifying) (hwait : pc = .waiting false → s'.limit ≤ s'.inFlight)
    (hroom : s.limit ≤ s.inFlight → s'.limit ≤ s'.inFlight) : s'.Awake := by
  intro t ht
  rw [hpc'] at ht ⊢
  by_cases htask : t = task
  · subst htask
    rw [Function.update_self] at ht
    exact .inl (hwait ht)
  · rw [Function.update_of_ne htask] at ht
    rcases h t ht with hfull | ⟨u, hu⟩
    · exact .inl (hroom hfull)
    · have hne : u ≠ task := by
        rintro rfl
        exact hpc hu
      exact .inr ⟨u, by rw [Function.update_of_ne hne]; exact hu⟩

theorem awake_of_notifying (h : s'.pc task = .notifying) : s'.Awake := fun _ _ => .inr ⟨task, h⟩

theorem awake_setLimit (h : s.Awake) (limit : Nat) : (s.setLimit task limit).Awake := by
  by_cases hraised : s.limit < limit
  · have hpc : (s.setLimit task limit).pc task = .notifying := by
      rw [setLimit, if_pos hraised]
      exact Function.update_self ..
    exact awake_of_notifying hpc
  · intro t ht
    rw [setLimit, if_neg hraised] at ht ⊢
    exact (h t ht).imp_left fun hfull => Nat.le_trans (Nat.le_of_not_lt hraised) hfull

theorem wake_ne (pc : SlotPc) : pc.wake ≠ .waiting false := by
  cases pc <;> simp [SlotPc.wake]

theorem Effect.awake (h : Effect s task s') (hawake : s.Awake) : s'.Awake := by
  cases h with
  | none => exact hawake
  | goto pc hpc hwait => exact hawake.update rfl hpc hwait id
  | grant hpc hroom => exact hawake.update rfl hpc (by simp) Nat.le_succ_of_le
  | release permit hpc hlive => exact awake_of_notifying (Function.update_self task _ s.pc)
  | setLimit limit hpc => exact awake_setLimit hawake limit
  | notifyWaiters hpc => exact fun t ht => absurd ht (wake_ne _)

theorem Effect.inv (h : Effect s task s') (hinv : s.Inv) : s'.Inv := by
  have hawake := h.awake hinv.awake
  cases h with
  | none => exact hinv
  | goto pc hpc hwait => exact ⟨hinv.count, hinv.fresh, hinv.nodup, hawake⟩
  | grant hpc hroom =>
    have hissued : s.issued ∉ s.live := fun hmem => Nat.lt_irrefl _ (hinv.fresh _ hmem)
    refine ⟨congrArg (· + 1) hinv.count, ?_, List.nodup_cons.2 ⟨hissued, hinv.nodup⟩, hawake⟩
    refine List.forall_mem_cons.2 ⟨Nat.lt_succ_self _, fun permit hpermit => ?_⟩
    exact Nat.lt_succ_of_lt (hinv.fresh permit hpermit)
  | release permit hpc hlive =>
    refine ⟨?_, fun p hp => hinv.fresh p (List.mem_of_mem_erase hp), hinv.nodup.erase permit, hawake⟩
    show s.inFlight - 1 = (s.live.erase permit).length
    rw [List.length_erase_of_mem hlive, hinv.count]
  | setLimit | notifyWaiters => exact ⟨hinv.count, hinv.fresh, hinv.nodup, hawake⟩

theorem inv_after (limit : Nat) (as : List SlotStep) : (after limit as).Inv := by
  refine Run.invariant_of_step (fun s a h => (s.step_effect a).inv h) ⟨rfl, by simp [new], by simp [new], ?_⟩
  exact fun t ht => by simp [new] at ht

theorem Effect.issued (h : Effect s task s') (hissued : s'.issued ≠ s.issued) : s.inFlight < s.limit := by
  cases h with
  | grant hpc hroom => exact hroom
  | _ => exact absurd rfl hissued

theorem step_notifying {a : SlotStep} {t : Nat} {woken : Bool} (ha : s.pc a.task = .notifying)
    (ht : s.pc t = .waiting woken) : (s.step a).pc t = .waiting true := by
  have hne : t ≠ a.task := by
    rintro rfl
    rw [ha] at ht
    cases ht
  unfold step
  rw [ha]
  show (Function.update s.pc a.task .idle t).wake = _
  rw [Function.update_of_ne hne, ht]
  rfl

/-- The counter counts the permits, the next one needs room, and who waits for room that is there is about to be
notified. -/
structure Law (s : SlotSys) : Prop where
  count : s.inFlight = s.live.length
  distinct : s.live.Nodup
  granted : ∀ a, (s.step a).issued ≠ s.issued → s.live.length < s.limit
  notified : ∀ t, s.pc t = .waiting false → s.inFlight < s.limit →
    ∃ u, s.pc u = .notifying ∧ ∀ a, a.task = u → (s.step a).pc t = .waiting true
  settled : (∀ t, s.pc t = .idle ∨ s.pc t = .waiting false) → ∀ t, s.pc t = .waiting false → s.limit ≤ s.inFlight

theorem slots_law (limit : Nat) (as : List SlotStep) : (after limit as).Law := by
  have hinv := inv_after limit as
  generalize after limit as = s at hinv
  have hroom (t : Nat) (ht : s.pc t = .waiting false) (hlt : s.inFlight < s.limit) : ∃ u, s.pc u = .notifying :=
    (hinv.awake t ht).resolve_left (Nat.not_le_of_lt hlt)
  refine ⟨hinv.count, hinv.nodup, fun a ha => ?_, fun t ht hlt => ?_, fun hquiet t ht => ?_⟩
  · rw [← hinv.count]
    exact (s.step_effect a).issued ha
  · obtain ⟨u, hu⟩ := hroom t ht hlt
    refine ⟨u, hu, fun a ha => step_notifying ?_ ht⟩
    rw [ha, hu]
  · by_contra hfull
    obtain ⟨u, hu⟩ := hroom t ht (Nat.lt_of_not_le hfull)
    rcases hquiet u with h | h <;> rw [h] at hu <;> cases hu

/-- Two tasks and one slot: the second waits until the first drops its permit and notifies. -/
example :
    let steps : List SlotStep :=
      [⟨0, .acquire, false⟩, ⟨0, .acquire, false⟩, ⟨1, .acquire, false⟩, ⟨1, .acquire, false⟩,
        ⟨0, .drop 0, false⟩, ⟨0, .acquire, false⟩, ⟨1, .acquire, false⟩, ⟨1, .acquire, false⟩, ⟨1, .acquire, false⟩]
    (after 1 (steps.take 4)).pc 1 = .waiting false ∧ (after 1 steps).live = [1] := by decide

end SlotSys

end ObeyGateway
