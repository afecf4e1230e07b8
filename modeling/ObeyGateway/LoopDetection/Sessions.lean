import Mathlib.Data.List.Perm.Basic
import ObeyGateway.Lib.Assoc
import ObeyGateway.Lib.Run

/-!
# Sessions of the loop detector under concurrent requests (`loop_detection/middleware.rs`)

Requests, evictions and `clear_sessions` in any order; every access to a map is a step. The detector is safe as long as
those that wait for or hold a mutex have the one of the map (`Inv.lock`) and the session is there while a request
relies on it (`Inv.relies`); `session_lock_safe` says which steps keep this.
-/

namespace ObeyGateway.LoopDetection

abbrev SessionId := String

/-- What a request carries: its session id, `max_sessions` of its configuration and its time. -/
structure Request where
  sessionId : SessionId
  maxSessions : Nat
  timestamp : Nat
deriving DecidableEq

/-- Where a task stands. A mutex is known by the number of its allocation. -/
inductive Pc
  /-- `session_locks.entry(id).or_insert_with(..).clone()` -/
  | lockEntry (r : Request)
  /-- `session_lock.lock().await` -/
  | lockWait (r : Request) (lock : Nat)
  /-- `sessions.contains_key` -/
  | checkSession (r : Request) (lock : Nat)
  /-- `insert_bounded`: `sessions.contains_key` -/
  | insertCheck (r : Request) (lock : Nat)
  /-- `ensure_capacity`: `sessions.len()` -/
  | capacityLen (r : Request) (lock : Nat)
  /-- `ensure_capacity`: the least recently used session -/
  | capacityScan (r : Request) (lock : Nat)
  /-- `ensure_capacity`: `sessions.remove` -/
  | capacityRemove (r : Request) (lock : Nat) (victim : SessionId)
  /-- `insert_bounded`: `sessions.insert` -/
  | insert (r : Request) (lock : Nat)
  /-- `prune_orphaned_session_locks`: `session_locks.len()` -/
  | pruneLen (r : Request) (lock : Nat)
  /-- `prune_orphaned_session_locks`: the mutexes without a session -/
  | pruneScan (r : Request) (lock : Nat)
  /-- `prune_orphaned_session_locks`: `session_locks.remove_if` for each of them -/
  | prune (r : Request) (lock : Nat) (orphaned : List SessionId)
  /-- `sessions.get_mut(..).expect("session inserted")` -/
  | getMut (r : Request) (lock : Nat)
  /-- up to `drop(_session_guard)` -/
  | critical (r : Request) (lock : Nat)
  /-- the inner call; the `Arc` lives to the end of the request -/
  | released (r : Request) (lock : Nat)
  /-- `clear_sessions`: `sessions.clear()` -/
  | clearSessions
  /-- `clear_sessions`: `session_locks.clear()` -/
  | clearLocks
  /-- `evict_expired`: the scan -/
  | evictScan (ttl maxPerCycle : Nat)
  /-- `evict_expired`: `sessions.remove` for each expired one -/
  | evictRemove (expired : List SessionId)
  | finished
  | panicked
deriving DecidableEq

inductive Job
  | request (r : Request)
  | clearSessions
  | evictExpired (ttl maxPerCycle : Nat)

def Job.entry : Job → Pc
  | .request r => .lockEntry r
  | .clearSessions => .clearSessions
  | .evictExpired ttl maxPerCycle => .evictScan ttl maxPerCycle

/-- Both maps, the sessions with their `last_active`, and the tasks. -/
structure Detector where
  sessions : List (SessionId × Nat)
  sessionLocks : List (SessionId × Nat)
  nextLock : Nat
  tasks : List Pc

/-- The time, the order in which `sessions` is iterated, and whether the enforcement decided to hard-stop. -/
structure StepEnv where
  now : Nat
  order : List (SessionId × Nat)
  hardStop : Bool

inductive Act
  | spawn (job : Job)
  | step (task : Nat) (env : StepEnv)
  /-- The future of the request is dropped at an `await`. -/
  | cancel (task : Nat)

namespace Pc

/-- The mutex whose `Arc` the task has. -/
def arc : Pc → Option Nat
  | lockWait _ l | checkSession _ l | insertCheck _ l | capacityLen _ l | capacityScan _ l
  | capacityRemove _ l _ | insert _ l | pruneLen _ l | pruneScan _ l | prune _ l _ | getMut _ l
  | critical _ l | released _ l => some l
  | _ => none

def guard : Pc → Option (SessionId × Nat)
  | checkSession r l | insertCheck r l | capacityLen r l | capacityScan r l | capacityRemove r l _
  | insert r l | pruneLen r l | pruneScan r l | prune r l _ | getMut r l
  | critical r l => some (r.sessionId, l)
  | _ => none

/-- The session id and the mutex of a task that waits for the critical section or is in it. -/
def pending : Pc → Option (SessionId × Nat)
  | lockWait r l => some (r.sessionId, l)
  | pc => pc.guard

def relies : Pc → Option SessionId
  | pruneLen r _ | pruneScan r _ | prune r _ _ | getMut r _ => some r.sessionId
  | _ => none

end Pc

namespace Detector

open Assoc

def new : Detector := ⟨[], [], 0, []⟩

def contains (s : Detector) (id : SessionId) : Bool := (get s.sessions id).isSome

/-- `Arc::strong_count` -/
def strongCount (s : Detector) (lock : Nat) : Nat :=
  s.sessionLocks.countP (·.2 = lock) + s.tasks.countP (·.arc = some lock)

def held (s : Detector) (lock : Nat) : Bool := s.tasks.any fun pc => (pc.guard.map (·.2)) = some lock

/-- `min_by_key`: the first entry of the iteration with the least `last_active`. -/
def leastRecent : List (SessionId × Nat) → Option (SessionId × Nat)
  | [] => none
  | e :: es =>
    match leastRecent es with
    | some m => if m.2 < e.2 then some m else some e
    | none => some e

/-- One step of a task that stands at the given place; a task that has to wait stays there. -/
def stepTask (s : Detector) (env : StepEnv) : Pc → Pc × Detector
  | .lockEntry r =>
    match get s.sessionLocks r.sessionId with
    | some l => (.lockWait r l, s)
    | none => (.lockWait r s.nextLock, { s with
        sessionLocks := put s.sessionLocks r.sessionId s.nextLock, nextLock := s.nextLock + 1 })
  | .lockWait r l => if s.held l then (.lockWait r l, s) else (.checkSession r l, s)
  | .checkSession r l =>
    if s.contains r.sessionId then (.pruneLen r l, s) else (.insertCheck r l, s)
  | .insertCheck r l => if s.contains r.sessionId then (.insert r l, s) else (.capacityLen r l, s)
  | .capacityLen r l =>
    if s.sessions.length < max r.maxSessions 1 then (.insert r l, s) else (.capacityScan r l, s)
  | .capacityScan r l =>
    if env.order.Perm s.sessions then
      match leastRecent env.order with
      | some victim => (.capacityRemove r l victim.1, s)
      | none => (.insert r l, s)
    else (.capacityScan r l, s)
  | .capacityRemove r l victim => (.insert r l, { s with sessions := erase s.sessions victim })
  | .insert r l => (.pruneLen r l, { s with sessions := put s.sessions r.sessionId env.now })
  | .pruneLen r l =>
    if s.sessionLocks.length ≤ max r.maxSessions 1 then (.getMut r l, s) else (.pruneScan r l, s)
  | .pruneScan r l =>
    (.prune r l ((s.sessionLocks.map (·.1)).filter fun id => !s.contains id), s)
  | .prune r l [] => (.getMut r l, s)
  | .prune r l (id :: ids) =>
    match get s.sessionLocks id with
    | some lock =>
      if s.strongCount lock = 1 then
        (.prune r l ids, { s with sessionLocks := erase s.sessionLocks id })
      else (.prune r l ids, s)
    | none => (.prune r l ids, s)
  | .getMut r l =>
    if s.contains r.sessionId then
      (.critical r l, { s with sessions := put s.sessions r.sessionId r.timestamp })
    else (.panicked, s)
  | .critical r l => if env.hardStop then (.finished, s) else (.released r l, s)
  | .released _ _ => (.finished, s)
  | .clearSessions => (.clearLocks, { s with sessions := [] })
  | .clearLocks => (.finished, { s with sessionLocks := [] })
  | .evictScan ttl maxPerCycle =>
    if env.order.Perm s.sessions then
      (.evictRemove (((env.order.filter fun e => ttl < env.now - e.2).map (·.1)).take maxPerCycle), s)
    else (.evictScan ttl maxPerCycle, s)
  | .evictRemove [] => (.finished, s)
  | .evictRemove (id :: ids) => (.evictRemove ids, { s with sessions := erase s.sessions id })
  | .finished => (.finished, s)
  | .panicked => (.panicked, s)

/-- The awaits of a request are the wait for the mutex, the throttle delay and the inner call. -/
def cancelled : Pc → Pc
  | .lockWait _ _ => .finished
  | .critical _ _ => .finished
  | .released _ _ => .finished
  | pc => pc

def act (s : Detector) : Act → Detector
  | .spawn job => { s with tasks := s.tasks ++ [job.entry] }
  | .step t env =>
    match s.tasks[t]? with
    | some pc =>
      let (pc', s') := s.stepTask env pc
      { s' with tasks := s.tasks.set t pc' }
    | none => s
  | .cancel t =>
    match s.tasks[t]? with
    | some pc => { s with tasks := s.tasks.set t (cancelled pc) }
    | none => s

def after (acts : List Act) : Detector := Run.run act new acts

/-- No `expect("session inserted")` has failed. -/
def NoPanic (s : Detector) : Prop := .panicked ∉ s.tasks

def Exclusive (s : Detector) : Prop :=
  ∀ (i j : Nat) (p q : Pc) id l l', i ≠ j → s.tasks[i]? = some p → s.tasks[j]? = some q →
    p.guard = some (id, l) → q.guard ≠ some (id, l')

def unused (s : Detector) (id : SessionId) : Bool := s.tasks.all (·.relies ≠ some id)

/-- The step removes no session that a request relies on, and does not clear the mutexes while a
request waits for one or holds one. -/
def harmless (s : Detector) : Act → Bool
  | .step t _ =>
    match s.tasks[t]? with
    | some (.capacityRemove _ _ victim) => s.unused victim
    | some (.evictRemove (id :: _)) => s.unused id
    | some .clearSessions => s.tasks.all (·.relies = none)
    | some .clearLocks => s.tasks.all (·.pending = none)
    | _ => true
  | _ => true

theorem Pc.pending_of_guard {pc : Pc} {g : SessionId × Nat} (h : pc.guard = some g) : pc.pending = some g := by
  cases pc <;> first | exact h | cases h

theorem Pc.arc_of_pending {pc : Pc} {id : SessionId} {l : Nat} (h : pc.pending = some (id, l)) : pc.arc = some l := by
  cases pc <;> cases h <;> rfl

variable {s : Detector}

theorem not_arc_of_strongCount {id : SessionId} {l : Nat}
    (hmap : get s.sessionLocks id = some l) (h : s.strongCount l = 1) :
    ∀ pc ∈ s.tasks, pc.arc ≠ some l := by
  intro pc hpc harc
  have hmem : 0 < s.sessionLocks.countP (·.2 = l) :=
    List.countP_pos_iff.2 ⟨(id, l), mem_of_get hmap, by simp⟩
  have htask : 0 < s.tasks.countP (·.arc = some l) := List.countP_pos_iff.2 ⟨pc, hpc, by simpa using harc⟩
  simp only [strongCount] at h
  omega

structure Inv (s : Detector) : Prop where
  noPanic : s.NoPanic
  /-- Whoever waits for a session or is in it has the mutex that the map has. -/
  lock : ∀ pc ∈ s.tasks, ∀ id l, pc.pending = some (id, l) → get s.sessionLocks id = some l
  relies : ∀ pc ∈ s.tasks, ∀ id, pc.relies = some id → s.contains id = true
  /-- A mutex is held once. -/
  held : ∀ (i j : Nat) (p q : Pc) g g', i ≠ j → s.tasks[i]? = some p → s.tasks[j]? = some q →
    p.guard = some g → q.guard = some g' → g.2 ≠ g'.2

/-- What one step of a task at `pc` is allowed to do to the others and to come to itself. -/
structure StepOk (s : Detector) (pc pc' : Pc) (s' : Detector) : Prop where
  ne_panicked : pc' ≠ .panicked
  keepsLocks : ∀ q ∈ s.tasks, ∀ id l, q.pending = some (id, l) →
    get s.sessionLocks id = some l → get s'.sessionLocks id = some l
  keepsSessions : ∀ q ∈ s.tasks, ∀ id, q.relies = some id → s.contains id = true →
    s'.contains id = true
  lock : ∀ id l, pc'.pending = some (id, l) → get s'.sessionLocks id = some l
  relies : ∀ id, pc'.relies = some id → s'.contains id = true
  guard : ∀ g, pc'.guard = some g → pc.guard = some g ∨ s.held g.2 = false

theorem Inv.exclusive (h : s.Inv) : s.Exclusive := by
  intro i j p q id l l' hij hp hq hpg hqg
  have hl := h.lock p (List.mem_of_getElem? hp) id l (Pc.pending_of_guard hpg)
  have hl' := h.lock q (List.mem_of_getElem? hq) id l' (Pc.pending_of_guard hqg)
  have heq : l = l' := Option.some.inj (hl.symm.trans hl')
  exact h.held i j p q _ _ hij hp hq hpg hqg heq

theorem guard_of_held {l : Nat} (h : s.held l = false) : ∀ pc ∈ s.tasks, ∀ g, pc.guard = some g → g.2 ≠ l := by
  intro pc hpc g hg hgl
  have htrue : s.held l = true := List.any_eq_true.2 ⟨pc, hpc, by simp [hg, hgl]⟩
  rw [htrue] at h
  cases h

theorem Inv.of_stepOk {s' : Detector} {t : Nat} {pc pc' : Pc} (h : s.Inv)
    (hpc : s.tasks[t]? = some pc) (hok : StepOk s pc pc' s') :
    Inv { s' with tasks := s.tasks.set t pc' } := by
  have hmem : ∀ q ∈ s.tasks.set t pc', q = pc' ∨ q ∈ s.tasks := fun q hq =>
    (List.mem_or_eq_of_mem_set hq).symm
  have hat : ∀ (i : Nat) q, (s.tasks.set t pc')[i]? = some q → i = t ∧ q = pc' ∨ i ≠ t ∧ s.tasks[i]? = some q := by
    intro i q hq
    by_cases hi : i = t
    · subst hi
      have hlt : i < s.tasks.length := (List.getElem?_eq_some_iff.1 hpc).1
      rw [List.getElem?_set_self hlt] at hq
      exact .inl ⟨rfl, (Option.some.inj hq).symm⟩
    · rw [List.getElem?_set_ne (Ne.symm hi)] at hq
      exact .inr ⟨hi, hq⟩
  -- the new guard is either the old one or of a mutex that was free
  have hnew : ∀ (j : Nat) q g g', j ≠ t → s.tasks[j]? = some q → q.guard = some g' →
      pc'.guard = some g → g'.2 ≠ g.2 := by
    intro j q g g' hj hq hqg hg
    rcases hok.guard g hg with hold | hfree
    · exact h.held j t q pc g' g hj hq hpc hqg hold
    · exact guard_of_held hfree q (List.mem_of_getElem? hq) g' hqg
  refine ⟨?_, ?_, ?_, ?_⟩
  · intro hp
    rcases hmem _ hp with hp | hp
    · exact hok.ne_panicked hp.symm
    · exact h.noPanic hp
  · intro q hq id l hpend
    rcases hmem q hq with rfl | hq
    · exact hok.lock id l hpend
    · exact hok.keepsLocks q hq id l hpend (h.lock q hq id l hpend)
  · intro q hq id hrel
    rcases hmem q hq with rfl | hq
    · exact hok.relies id hrel
    · exact hok.keepsSessions q hq id hrel (h.relies q hq id hrel)
  · intro i j p q g g' hij hp hq hpg hqg
    rcases hat i p hp with ⟨hi, rfl⟩ | ⟨hi, hpi⟩
    · rcases hat j q hq with ⟨hj, -⟩ | ⟨hj, hqj⟩
      · exact absurd (hi.trans hj.symm) hij
      · exact (hnew j q g g' hj hqj hqg hpg).symm
    · rcases hat j q hq with ⟨-, rfl⟩ | ⟨-, hqj⟩
      · exact hnew i p g' g hi hpi hpg hqg
      · exact h.held i j p q g g' hij hpi hqj hpg hqg

/-! ### Every step -/

section
variable {s : Detector} {pc pc' : Pc}

theorem StepOk.quiet (hpanic : pc' ≠ .panicked)
    (hlock : ∀ id l, pc'.pending = some (id, l) → get s.sessionLocks id = some l)
    (hrelies : ∀ id, pc'.relies = some id → s.contains id = true)
    (hguard : ∀ g, pc'.guard = some g → pc.guard = some g ∨ s.held g.2 = false) :
    StepOk s pc pc' s :=
  ⟨hpanic, fun _ _ _ _ _ h => h, fun _ _ _ _ h => h, hlock, hrelies, hguard⟩

theorem StepOk.leave (hpanic : pc' ≠ .panicked) (hlock : pc'.pending = none) (hrelies : pc'.relies = none)
    (hguard : pc'.guard = none) : StepOk s pc pc' s :=
  .quiet hpanic (by simp [hlock]) (by simp [hrelies]) (by simp [hguard])

theorem StepOk.inside (h : s.Inv) (hmem : pc ∈ s.tasks) (hpanic : pc' ≠ .panicked)
    (hpend : pc'.pending = pc.pending) (hguard : pc'.guard = pc.guard)
    (hrelies : ∀ id, pc'.relies = some id → s.contains id = true) : StepOk s pc pc' s :=
  .quiet hpanic (fun id l hp => h.lock pc hmem id l (hpend ▸ hp)) hrelies
    fun _ hg => .inl (hguard ▸ hg)

theorem StepOk.withSessions {sessions : List (SessionId × Nat)} (hok : StepOk s pc pc' s)
    (hkeep : ∀ q ∈ s.tasks, ∀ id, q.relies = some id → s.contains id = true →
      (get sessions id).isSome = true)
    (hrelies : ∀ id, pc'.relies = some id → (get sessions id).isSome = true) :
    StepOk s pc pc' { s with sessions := sessions } :=
  ⟨hok.ne_panicked, hok.keepsLocks, hkeep, hok.lock, hrelies, hok.guard⟩

theorem isSome_erase {v : SessionId} (hunused : s.unused v = true) {q : Pc} (hq : q ∈ s.tasks) {id : SessionId}
    (hrel : q.relies = some id) (hcon : s.contains id = true) :
    (get (erase s.sessions v) id).isSome = true := by
  have hne : id ≠ v := by
    rintro rfl
    exact of_decide_eq_true (List.all_eq_true.1 hunused q hq) hrel
  rw [get_erase_of_ne hne]
  exact hcon

theorem stepOk_lockEntry (r : Request) (env : StepEnv) :
    StepOk s (.lockEntry r) (s.stepTask env (.lockEntry r)).1 (s.stepTask env (.lockEntry r)).2 := by
  simp only [stepTask]
  split
  · rename_i l hl
    refine .quiet (by simp) ?_ (by simp [Pc.relies]) (by simp [Pc.guard])
    intro id l' hp
    obtain ⟨rfl, rfl⟩ := Prod.mk.inj (Option.some.inj hp)
    exact hl
  · rename_i hnone
    refine ⟨by simp, ?_, fun _ _ _ _ h => h, ?_, by simp [Pc.relies], by simp [Pc.guard]⟩
    · intro q hq id l _ hlook
      have hne : id ≠ r.sessionId := by
        rintro rfl
        rw [hnone] at hlook
        cases hlook
      rwa [get_put_of_ne hne]
    · intro id l' hp
      obtain ⟨rfl, rfl⟩ := Prod.mk.inj (Option.some.inj hp)
      exact get_put_self

/-- `remove_if` takes away only a mutex that no task has. -/
theorem stepOk_prune (h : s.Inv) {r : Request} {l : Nat} {ids : List SessionId}
    (hmem : .prune r l ids ∈ s.tasks) (env : StepEnv) :
    StepOk s (.prune r l ids) (s.stepTask env (.prune r l ids)).1
      (s.stepTask env (.prune r l ids)).2 := by
  have hrel : ∀ id, some r.sessionId = some id → s.contains id = true := fun id hid =>
    h.relies _ hmem id hid
  rcases ids with _ | ⟨id, ids⟩
  · exact .inside h hmem (by simp [stepTask]) rfl rfl hrel
  have hquiet : StepOk s (.prune r l (id :: ids)) (.prune r l ids) s :=
    .inside h hmem (by simp) rfl rfl hrel
  simp only [stepTask]
  split
  · rename_i lock hlock
    split
    · rename_i hcount
      have harc := not_arc_of_strongCount hlock hcount
      have hkeep : ∀ q ∈ s.tasks, ∀ id' l', q.pending = some (id', l') →
          get s.sessionLocks id' = some l' →
          get (erase s.sessionLocks id) id' = some l' := by
        intro q hq id' l' hp hlook
        have hne : id' ≠ id := by
          rintro rfl
          rw [hlock] at hlook
          cases hlook
          exact harc q hq (Pc.arc_of_pending hp)
        rwa [get_erase_of_ne hne]
      exact ⟨hquiet.ne_panicked, hkeep, hquiet.keepsSessions,
        fun id' l' hp => hkeep _ hmem id' l' hp (h.lock _ hmem id' l' hp), hquiet.relies, hquiet.guard⟩
    · exact hquiet
  · exact hquiet

theorem stepOk {t : Nat} (h : s.Inv) (hpc : s.tasks[t]? = some pc) (env : StepEnv)
    (hsafe : s.harmless (.step t env) = true) : StepOk s pc (s.stepTask env pc).1 (s.stepTask env pc).2 := by
  have hmem : pc ∈ s.tasks := List.mem_of_getElem? hpc
  simp only [harmless, hpc] at hsafe
  cases pc with
  | lockEntry r => exact stepOk_lockEntry r env
  | lockWait r l =>
    simp only [stepTask]
    split
    · exact .inside h hmem (by simp) rfl rfl (by simp [Pc.relies])
    · rename_i hfree
      refine .quiet (by simp) (fun id l' hp => h.lock _ hmem id l' hp) (by simp [Pc.relies]) ?_
      intro g hg
      cases hg
      exact .inr (by simpa using hfree)
  | checkSession r l =>
    simp only [stepTask]
    split
    · rename_i hcon
      refine .inside h hmem (by simp) rfl rfl fun id hid => ?_
      cases hid
      exact hcon
    · exact .inside h hmem (by simp) rfl rfl (by simp [Pc.relies])
  | insertCheck | capacityLen =>
    simp only [stepTask]
    split <;> exact .inside h hmem (by simp) rfl rfl (by simp [Pc.relies])
  | capacityScan r l =>
    simp only [stepTask]
    split
    · split <;> exact .inside h hmem (by simp) rfl rfl (by simp [Pc.relies])
    · exact .inside h hmem (by simp) rfl rfl (by simp [Pc.relies])
  | capacityRemove r l victim =>
    have hok : StepOk s (.capacityRemove r l victim) (.insert r l) s :=
      .inside h hmem (by simp) rfl rfl (by simp [Pc.relies])
    exact hok.withSessions (fun q hq id hrel hcon => isSome_erase hsafe hq hrel hcon) (by simp [Pc.relies])
  | insert r l =>
    refine ⟨by simp [stepTask], fun _ _ _ _ _ h => h, ?_, fun id l' hp => h.lock _ hmem id l' hp, ?_,
      fun g hg => .inl hg⟩
    · intro q hq id _ hcon
      exact get_put_isSome hcon
    · intro id hid
      cases hid
      show (get (put s.sessions r.sessionId env.now) r.sessionId).isSome = true
      rw [get_put_self]
      rfl
  | pruneLen r l =>
    have hrel : ∀ id, some r.sessionId = some id → s.contains id = true := fun id hid =>
      h.relies _ hmem id hid
    simp only [stepTask]
    split <;> exact .inside h hmem (by simp) rfl rfl hrel
  | pruneScan r l =>
    exact .inside h hmem (by simp [stepTask]) rfl rfl fun id hid => h.relies _ hmem id hid
  | prune r l ids => exact stepOk_prune h hmem env
  | getMut r l =>
    have hcon : s.contains r.sessionId = true := h.relies _ hmem r.sessionId rfl
    simp only [stepTask, hcon, if_true]
    have hok : StepOk s (.getMut r l) (.critical r l) s :=
      .inside h hmem (by simp) rfl rfl (by simp [Pc.relies])
    exact hok.withSessions (fun q hq id _ hcon => get_put_isSome hcon) (by simp [Pc.relies])
  | critical r l =>
    simp only [stepTask]
    split <;> exact .leave (by simp) rfl rfl rfl
  | released r l => exact .leave (by simp [stepTask]) rfl rfl rfl
  | clearSessions =>
    have hok : StepOk s .clearSessions .clearLocks s := .leave (by simp) rfl rfl rfl
    refine hok.withSessions (fun q hq id hrel _ => ?_) (by simp [Pc.relies])
    rw [of_decide_eq_true (List.all_eq_true.1 hsafe q hq)] at hrel
    cases hrel
  | clearLocks =>
    have hok : StepOk s .clearLocks .finished s := .leave (by simp) rfl rfl rfl
    refine ⟨hok.ne_panicked, ?_, hok.keepsSessions, by simp [stepTask, Pc.pending, Pc.guard], hok.relies,
      hok.guard⟩
    intro q hq id l hp _
    rw [of_decide_eq_true (List.all_eq_true.1 hsafe q hq)] at hp
    cases hp
  | evictScan ttl maxPerCycle =>
    simp only [stepTask]
    split <;> exact .leave (by simp) rfl rfl rfl
  | evictRemove ids =>
    rcases ids with _ | ⟨id, ids⟩
    · exact .leave (by simp [stepTask]) rfl rfl rfl
    have hok : StepOk s (.evictRemove (id :: ids)) (.evictRemove ids) s :=
      .leave (by simp) rfl rfl rfl
    exact hok.withSessions (fun q hq id' hrel hcon => isSome_erase hsafe hq hrel hcon)
      (by simp [Pc.relies])
  | finished => exact .leave (by simp [stepTask]) rfl rfl rfl
  | panicked => exact absurd hmem h.noPanic

theorem stepOk_cancelled {t : Nat} (h : s.Inv) (hpc : s.tasks[t]? = some pc) : StepOk s pc (cancelled pc) s := by
  have hmem : pc ∈ s.tasks := List.mem_of_getElem? hpc
  have hne : pc ≠ .panicked := fun he => h.noPanic (he ▸ hmem)
  have hstay : StepOk s pc pc s := .inside h hmem hne rfl rfl fun id hid => h.relies pc hmem id hid
  cases pc <;> first | exact hstay | exact .leave (by simp [cancelled]) rfl rfl rfl

end

theorem Inv.spawn (h : s.Inv) (job : Job) : Inv { s with tasks := s.tasks ++ [job.entry] } := by
  have hentry : job.entry.pending = none ∧ job.entry.guard = none ∧ job.entry.relies = none ∧
      job.entry ≠ .panicked := by
    cases job <;> exact ⟨rfl, rfl, rfl, by simp [Job.entry]⟩
  obtain ⟨hpend, hguard, hrel, hne⟩ := hentry
  have hold : ∀ (i : Nat) p g, (s.tasks ++ [job.entry])[i]? = some p → p.guard = some g →
      s.tasks[i]? = some p := by
    intro i p g hp hg
    rcases Nat.lt_or_ge i s.tasks.length with hlt | hge
    · rwa [List.getElem?_append_left hlt] at hp
    · rw [List.getElem?_append_right hge] at hp
      rw [List.mem_singleton.1 (List.mem_of_getElem? hp), hguard] at hg
      cases hg
  refine ⟨?_, ?_, ?_, ?_⟩
  · intro hp
    rcases List.mem_append.1 hp with hp | hp
    · exact h.noPanic hp
    · exact hne (List.mem_singleton.1 hp).symm
  · intro q hq id l hp
    rcases List.mem_append.1 hq with hq | hq
    · exact h.lock q hq id l hp
    · rw [List.mem_singleton.1 hq, hpend] at hp
      cases hp
  · intro q hq id hr
    rcases List.mem_append.1 hq with hq | hq
    · exact h.relies q hq id hr
    · rw [List.mem_singleton.1 hq, hrel] at hr
      cases hr
  · intro i j p q g g' hij hp hq hpg hqg
    exact h.held i j p q g g' hij (hold i p g hp hpg) (hold j q g' hq hqg) hpg hqg

theorem Inv.act (h : s.Inv) (a : Act) (hsafe : s.harmless a = true) : (s.act a).Inv := by
  cases a with
  | spawn job => exact h.spawn job
  | step t env =>
    rcases hpc : s.tasks[t]? with _ | pc
    · simpa [Detector.act, hpc] using h
    simp only [Detector.act, hpc]
    exact h.of_stepOk hpc (stepOk h hpc env hsafe)
  | cancel t =>
    rcases hpc : s.tasks[t]? with _ | pc
    · simpa [Detector.act, hpc] using h
    simp only [Detector.act, hpc]
    exact h.of_stepOk hpc (stepOk_cancelled h hpc)

theorem inv_new : new.Inv :=
  ⟨by simp [NoPanic, new], by simp [new], by simp [new], by simp [new]⟩

/-- In every run, with any number of requests, evictions and `clear_sessions` calls in any order, whose
steps are all harmless, no `expect` has failed and no two requests are in the critical section of one
session, in any state passed. -/
theorem session_lock_safe (acts : List Act) (h : Run.Along act (fun s a => s.harmless a = true) new acts) :
    ∀ passed, passed <+: acts → (after passed).NoPanic ∧ (after passed).Exclusive := by
  intro passed hp
  have hinv : (after passed).Inv :=
    Run.invariant (fun s a hs ha => Inv.act hs a ha) inv_new (h.initial hp)
  exact ⟨hinv.noPanic, hinv.exclusive⟩

/-- `n` steps of a task at the given time. -/
def steps (task n now : Nat) : List Act := List.replicate n (.step task ⟨now, [], false⟩)

/-- A request goes through, one of its session waits and one of another does not; then everything is cleared. -/
def quietRun : List Act :=
  [.spawn (.request ⟨"a", 100, 1⟩), .spawn (.request ⟨"a", 100, 2⟩), .spawn (.request ⟨"b", 100, 3⟩)] ++
    steps 0 3 1 ++ steps 1 3 2 ++ steps 2 10 3 ++ steps 0 7 4 ++ steps 1 6 5 ++
    [.spawn .clearSessions] ++ steps 3 2 6

theorem quietRun_safe : Run.Along act (fun s a => s.harmless a = true) new quietRun ∧
      (after quietRun).tasks = List.replicate 4 .finished ∧
      ∀ passed, passed <+: quietRun → (after passed).NoPanic ∧ (after passed).Exclusive :=
  have h : Run.Along act (fun s a => s.harmless a = true) new quietRun := by decide +kernel
  ⟨h, by decide +kernel, session_lock_safe quietRun h⟩

/-- `clear_sessions` between the insertion of a session and the `get_mut` of its request. -/
def clearedRun : List Act :=
  [.spawn (.request ⟨"a", 100, 1⟩), .spawn .clearSessions] ++ steps 0 6 1 ++ steps 1 2 2 ++ steps 0 2 3

/-- `clear_sessions` while a request is in the critical section, and another request of its session. -/
def relockedRun : List Act :=
  [.spawn (.request ⟨"a", 100, 1⟩), .spawn .clearSessions, .spawn (.request ⟨"a", 100, 2⟩)] ++
    steps 0 8 1 ++ steps 1 2 2 ++ steps 2 2 3

/-- The `expect` can fail, and two requests can be in the critical section of one session. -/
theorem clear_sessions_breaks_both : ¬ (∀ acts, (after acts).NoPanic) ∧ ¬ (∀ acts, (after acts).Exclusive) := by
  have hpanic : .panicked ∈ (after clearedRun).tasks := by decide +kernel
  have hfirst : (after relockedRun).tasks[0]? = some (.critical ⟨"a", 100, 1⟩ 0) := by decide +kernel
  have hsecond : (after relockedRun).tasks[2]? = some (.checkSession ⟨"a", 100, 2⟩ 1) := by decide +kernel
  refine ⟨fun h => h clearedRun hpanic, fun h => ?_⟩
  exact h relockedRun 0 2 _ _ "a" 0 1 (by simp) hfirst hsecond rfl rfl

end Detector

end ObeyGateway.LoopDetection
