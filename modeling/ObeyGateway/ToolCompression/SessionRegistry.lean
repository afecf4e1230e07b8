import Mathlib.Logic.Function.Basic
import Mathlib.Data.List.FinRange
import ObeyGateway.Lib.Run
import ObeyGateway.ToolCompression.State

/-!
# The session registry under concurrent requests

`tool_compression/state.rs` and the session part of `tool_compression/middleware.rs`. Every access to a map, or to a
shard of it, is a step. The registry comes back under its cap (`Tracked`: whoever inserted last still has its pass to
make). The maps follow it as long as no request writes for a session that has been evicted since it was touched
(`Covered`), which nothing in the source keeps it from.
-/

namespace ObeyGateway.ToolCompression
open Assoc ToolCompressionState

/-- Where the request of a task stands; `n` is the number of shards of `session_lru`. -/
inductive SessionPc (n : Nat)
  | idle
  /-- `touch_session`: `session_tick.fetch_add` -/
  | fetchTick (id : String)
  /-- `touch_session`: `session_lru.insert` -/
  | insert (id : String) (tick : Nat)
  /-- `touch_session`: `session_lru.len()`, with the shards that are still to be counted -/
  | len (id : String) (tracked : Nat) (shards : List (Fin n))
  /-- `evict_least_recently_used_sessions`: `session_lru.len()` -/
  | excess (id : String) (tracked : Nat) (shards : List (Fin n))
  /-- `evict_least_recently_used_sessions`: `session_lru.iter()`, and the sort at its end -/
  | collect (id : String) (count : Nat) (collected : List (String × Nat)) (shards : List (Fin n))
  /-- `forget_session` of the first victim, with the maps it is still in -/
  | forget (id : String) (maps : List SessionMap) (victims : List String)
  /-- after the touch, up to the end of the request -/
  | serving (id : String)
  /-- with the guard of the session's entry in `disclosure_state` -/
  | disclosing (id : String)
deriving DecidableEq

/-- The pass of the task is still to remove the session from the map. -/
def SessionPc.Ahead {n : Nat} (m : SessionMap) (k : String) : SessionPc n → Prop
  | .forget _ maps (victim :: victims) => k = victim ∧ m ∈ maps ∨ k ∈ victims
  | _ => False

/-- The pass has removed the session from the map, and not yet from the registry. -/
def SessionPc.Past {n : Nat} (m : SessionMap) (k : String) : SessionPc n → Prop
  | .forget _ maps (victim :: _) => k = victim ∧ m ∉ maps
  | _ => False

/-- What a step finds: how the sort comes out, and what the drill-down has disclosed. -/
structure SessionEnv where
  byTick : List (String × Nat)
  names : List String
  targets : List String

inductive SessionAct
  /-- A request of the session comes in. -/
  | arrive (task : Nat) (id : String)
  | step (task : Nat) (env : SessionEnv)
  /-- The request ends, or its future is dropped at an `await`. -/
  | finish (task : Nat)

/-- `held` has the sessions whose entry of `disclosure_state` somebody has the guard of. -/
structure SessionSys (n : Nat) where
  state : ToolCompressionState
  held : List String
  pc : Nat → SessionPc n

namespace SessionSys
variable {n : Nat} (shard : String → Fin n)

def init : SessionSys n := ⟨.new, [], fun _ => .idle⟩

def goto (s : SessionSys n) (t : Nat) (pc : SessionPc n) : SessionSys n :=
  { s with pc := Function.update s.pc t pc }

def inShard (s : SessionSys n) (i : Fin n) : List (String × Nat) :=
  s.state.sessionLru.filter (shard ·.1 = i)

def stepTask (s : SessionSys n) (t : Nat) (env : SessionEnv) : SessionSys n :=
  match s.pc t with
  | .idle => s
  | .fetchTick id => { s with state := s.state.fetchTick }.goto t (.insert id s.state.sessionTick)
  | .insert id tick => { s with state := s.state.register id tick }.goto t (.len id 0 (List.finRange n))
  | .len id tracked (i :: shards) => s.goto t (.len id (tracked + (s.inShard shard i).length) shards)
  | .len id tracked [] =>
    s.goto t (if MAX_TRACKED_SESSIONS < tracked then .excess id 0 (List.finRange n) else .serving id)
  | .excess id tracked (i :: shards) =>
    s.goto t (.excess id (tracked + (s.inShard shard i).length) shards)
  | .excess id tracked [] =>
    s.goto t (if tracked - MAX_TRACKED_SESSIONS = 0 then .serving id
      else .collect id (removeCount tracked) [] (List.finRange n))
  | .collect id count collected (i :: shards) =>
    s.goto t (.collect id count (collected ++ s.inShard shard i) shards)
  | .collect id count collected [] =>
    if ByTick env.byTick collected then
      s.goto t (.forget id SessionMap.all (keys (env.byTick.take count)))
    else s
  | .forget id _ [] => s.goto t (.serving id)
  | .forget id (m :: maps) (victim :: victims) =>
    if m = .disclosureState ∧ victim ∈ s.held then s
    else { s with state := s.state.remove victim m }.goto t (.forget id maps (victim :: victims))
  | .forget id [] (victim :: victims) =>
    { s with state := s.state.unregister victim }.goto t (.forget id SessionMap.all victims)
  | .serving id =>
    if id ∈ s.held then s
    else { s with state := s.state.discloseState id env.names, held := id :: s.held }.goto t (.disclosing id)
  | .disclosing id =>
    { s with state := s.state.discloseTargets id env.targets, held := s.held.erase id }.goto t (.serving id)

def step (s : SessionSys n) : SessionAct → SessionSys n
  | .arrive t id =>
    match s.pc t with
    | .idle => s.goto t (.fetchTick id)
    | _ => s
  | .step t env => s.stepTask shard t env
  | .finish t =>
    match s.pc t with
    | .serving _ => s.goto t .idle
    | _ => s

def after (acts : List SessionAct) : SessionSys n := Run.run (step shard) init acts

def Quiescent (s : SessionSys n) : Prop := ∀ t, s.pc t = .idle

def Covered (s : SessionSys n) (m : SessionMap) (k : String) : Prop :=
  (∃ t, (s.pc t).Ahead m k) ∨ k ∈ keys s.state.sessionLru ∧ ∀ t, ¬ (s.pc t).Past m k

/-- The step writes for no session that is out of the registry or on its way out. -/
def WritesCovered (s : SessionSys n) : SessionAct → Prop
  | .step t _ =>
    match s.pc t with
    | .serving id => id ∉ s.held → s.Covered .disclosureState id
    | .disclosing id => s.Covered .disclosureTargets id
    | _ => True
  | _ => True

def TickLeft (s : SessionSys n) : SessionAct → Prop
  | .step t _ =>
    match s.pc t with
    | .fetchTick _ => s.state.sessionTick + 1 < 2 ^ 64
    | _ => True
  | _ => True

/-! ### Who still has to make room -/

end SessionSys

/-- The task will find out if the registry has too many sessions. An insert takes this away and takes it over. -/
def SessionPc.Watches {n : Nat} (shard : String → Fin n) (lru : List (String × Nat)) : SessionPc n → Prop
  | .len _ tracked shards | .excess _ tracked shards =>
    (lru.filter (shard ·.1 ∉ shards)).length ≤ tracked
  | .collect _ count collected shards =>
    shards.Nodup ∧ (∀ e ∈ lru, shard e.1 ∉ shards → e.1 ∈ keys collected) ∧
      collected.length + (lru.filter (shard ·.1 ∈ shards)).length ≤ MAX_TRACKED_SESSIONS + count
  | .forget _ _ victims => (lru.filter (·.1 ∉ victims)).length ≤ MAX_TRACKED_SESSIONS
  | _ => False

def SessionPc.tick {n : Nat} : SessionPc n → Option Nat
  | .insert _ tick => some tick
  | _ => none

namespace SessionPc
variable {n : Nat} {shard : String → Fin n} {lru lru' : List (String × Nat)} {pc : SessionPc n}

theorem Watches.mono (hsub : lru'.Sublist lru) (h : pc.Watches shard lru) : pc.Watches shard lru' := by
  cases pc with
  | len | excess => exact le_trans (hsub.filter _).length_le h
  | collect id count collected shards =>
    obtain ⟨hnodup, hkeys, hlen⟩ := h
    have hle := (hsub.filter (shard ·.1 ∈ shards)).length_le
    exact ⟨hnodup, fun e he => hkeys e (hsub.subset he), by omega⟩
  | forget id maps victims => exact le_trans (hsub.filter _).length_le h
  | _ => exact h

theorem length_filter_shard (i : Fin n) (shards : List (Fin n)) : (lru.filter (shard ·.1 ∉ shards)).length ≤
      (lru.filter (shard ·.1 ∉ i :: shards)).length + (lru.filter (shard ·.1 = i)).length := by
  induction lru with
  | nil => simp
  | cons e lru ih =>
    by_cases hi : shard e.1 = i <;> by_cases hs : shard e.1 ∈ shards <;> simp_all <;> omega

theorem filter_shards_perm {i : Fin n} {shards : List (Fin n)} (h : i ∉ shards) :
    (lru.filter (shard ·.1 = i) ++ lru.filter (shard ·.1 ∈ shards)).Perm
      (lru.filter (shard ·.1 ∈ i :: shards)) := by
  refine List.Perm.trans (.of_eq ?_) (List.filter_append_perm (shard ·.1 = i) _)
  rw [List.filter_filter, List.filter_filter]
  congr 1 <;> refine List.filter_congr fun e _ => ?_ <;> by_cases hi : shard e.1 = i <;> simp [hi, h]

end SessionPc

namespace SessionSys
variable {n : Nat} {shard : String → Fin n} {s : SessionSys n}

structure Quiet (shard : String → Fin n) (s : SessionSys n) (pc pc' : SessionPc n) : Prop where
  ahead : ∀ m k, pc.Ahead m k → pc'.Ahead m k
  past : ∀ m k, pc'.Past m k → pc.Past m k
  tick : pc'.tick = none
  watches : (keys s.state.sessionLru).Nodup → pc.Watches shard s.state.sessionLru →
    s.state.sessionLru.length ≤ MAX_TRACKED_SESSIONS ∨ pc'.Watches shard s.state.sessionLru

inductive Effect (shard : String → Fin n) (s : SessionSys n) : SessionAct → SessionSys n → Prop
  | stay (act) : Effect shard s act s
  | quiet (act t pc') (h : Quiet shard s (s.pc t) pc') : Effect shard s act (s.goto t pc')
  | fetchTick (t env id) (h : s.pc t = .fetchTick id) : Effect shard s (.step t env)
      ({ s with state := s.state.fetchTick }.goto t (.insert id s.state.sessionTick))
  | register (t env id tick) (h : s.pc t = .insert id tick) : Effect shard s (.step t env)
      ({ s with state := s.state.register id tick }.goto t (.len id 0 (List.finRange n)))
  | remove (t env id m maps victim victims) (h : s.pc t = .forget id (m :: maps) (victim :: victims)) :
      Effect shard s (.step t env)
        ({ s with state := s.state.remove victim m }.goto t (.forget id maps (victim :: victims)))
  | unregister (t env id victim victims) (h : s.pc t = .forget id [] (victim :: victims)) :
      Effect shard s (.step t env)
        ({ s with state := s.state.unregister victim }.goto t (.forget id SessionMap.all victims))
  | discloseState (t env id) (h : s.pc t = .serving id) (hheld : id ∉ s.held) :
      Effect shard s (.step t env)
        ({ s with state := s.state.discloseState id env.names, held := id :: s.held }.goto t
          (.disclosing id))
  | discloseTargets (t env id) (h : s.pc t = .disclosing id) : Effect shard s (.step t env)
      ({ s with state := s.state.discloseTargets id env.targets, held := s.held.erase id }.goto t
        (.serving id))

variable {pc' : SessionPc n}

theorem Quiet.idle {pc : SessionPc n} (hahead : ∀ m k, ¬ pc.Ahead m k)
    (hwatches : ¬ pc.Watches shard s.state.sessionLru) (hpast : ∀ m k, ¬ pc'.Past m k)
    (htick : pc'.tick = none) : Quiet shard s pc pc' :=
  ⟨fun m k h => absurd h (hahead m k), fun m k h => absurd h (hpast m k), htick,
    fun _ h => absurd h hwatches⟩

variable (id : String)

theorem quiet_len (tracked : Nat) (i : Fin n) (shards : List (Fin n)) :
    Quiet shard s (.len id tracked (i :: shards))
      (.len id (tracked + (s.inShard shard i).length) shards) := by
  refine ⟨fun _ _ h => h, fun _ _ h => h, rfl, fun _ h => .inr ?_⟩
  exact (SessionPc.length_filter_shard i shards).trans (Nat.add_le_add_right h _)

theorem quiet_len_nil (tracked : Nat) :
    Quiet shard s (.len id tracked []) (if MAX_TRACKED_SESSIONS < tracked then
      .excess id 0 (List.finRange n) else .serving id) := by
  have hall : (SessionPc.len id tracked []).Watches shard s.state.sessionLru →
      s.state.sessionLru.length ≤ tracked := by simp [SessionPc.Watches]
  split
  · refine ⟨fun _ _ h => h, fun _ _ h => h, rfl, fun _ _ => .inr ?_⟩
    simp [SessionPc.Watches]
  · refine ⟨fun _ _ h => h, fun _ _ h => h, rfl, fun _ h => .inl ?_⟩
    have hle := hall h
    omega

theorem quiet_excess (tracked : Nat) (i : Fin n) (shards : List (Fin n)) :
    Quiet shard s (.excess id tracked (i :: shards))
      (.excess id (tracked + (s.inShard shard i).length) shards) := by
  refine ⟨fun _ _ h => h, fun _ _ h => h, rfl, fun _ h => .inr ?_⟩
  exact (SessionPc.length_filter_shard i shards).trans (Nat.add_le_add_right h _)

theorem quiet_excess_nil (tracked : Nat) :
    Quiet shard s (.excess id tracked []) (if tracked - MAX_TRACKED_SESSIONS = 0 then .serving id
      else .collect id (removeCount tracked) [] (List.finRange n)) := by
  have hall : (SessionPc.excess id tracked []).Watches shard s.state.sessionLru →
      s.state.sessionLru.length ≤ tracked := by simp [SessionPc.Watches]
  split
  · refine ⟨fun _ _ h => h, fun _ _ h => h, rfl, fun _ h => .inl ?_⟩
    have hle := hall h
    omega
  · refine ⟨fun _ _ h => h, fun _ _ h => h, rfl, fun _ h => .inr ?_⟩
    have hle := hall h
    have hcount : tracked - MAX_TRACKED_SESSIONS ≤ removeCount tracked := Nat.le_max_left _ _
    refine ⟨List.nodup_finRange n, by simp, ?_⟩
    simp only [List.length_nil, List.mem_finRange, decide_true, List.filter_true]
    omega

theorem quiet_collect (count : Nat) (collected : List (String × Nat)) (i : Fin n)
    (shards : List (Fin n)) : Quiet shard s (.collect id count collected (i :: shards))
      (.collect id count (collected ++ s.inShard shard i) shards) := by
  refine ⟨fun _ _ h => h, fun _ _ h => h, rfl, fun _ h => .inr ?_⟩
  obtain ⟨hnodup, hkeys, hlen⟩ := h
  obtain ⟨hi, hnodup⟩ := List.nodup_cons.1 hnodup
  refine ⟨hnodup, fun e he hshard => ?_, ?_⟩
  · rw [keys, List.map_append]
    by_cases hei : shard e.1 = i
    · exact List.mem_append.2 (.inr (List.mem_map_of_mem (List.mem_filter.2 ⟨he, by simpa using hei⟩)))
    · exact List.mem_append.2 (.inl (hkeys e he (by simp [hei, hshard])))
  · have hperm : (s.inShard shard i ++ s.state.sessionLru.filter (shard ·.1 ∈ shards)).length =
        (s.state.sessionLru.filter (shard ·.1 ∈ i :: shards)).length :=
      (SessionPc.filter_shards_perm hi).length_eq
    rw [List.length_append] at hperm ⊢
    omega

theorem quiet_collect_nil {count : Nat} {collected byTick : List (String × Nat)}
    (hsort : ByTick byTick collected) : Quiet shard s (.collect id count collected [])
      (.forget id SessionMap.all (keys (byTick.take count))) := by
  refine ⟨fun _ _ h => h.elim, fun m k h => ?_, rfl, fun hnodup h => .inr ?_⟩
  · generalize keys (byTick.take count) = victims at h
    cases victims with
    | nil => exact h
    | cons victim victims => exact absurd m.mem_all h.2
  · obtain ⟨-, hkeys, hlen⟩ := h
    have hle : (s.state.sessionLru.filter (·.1 ∉ keys (byTick.take count))).length ≤
        byTick.length - count :=
      length_kept_le hnodup (fun e he => (keys_perm hsort.1).mem_iff.2 (hkeys e he (by simp))) count
    have heq := hsort.1.length_eq
    simp only [List.not_mem_nil, decide_false, List.filter_false, List.length_nil] at hlen
    show (s.state.sessionLru.filter (·.1 ∉ keys (byTick.take count))).length ≤ MAX_TRACKED_SESSIONS
    omega

theorem quiet_forget_nil (maps : List SessionMap) : Quiet shard s (.forget id maps []) (.serving id) := by
  refine ⟨fun _ _ h => h, fun _ _ h => h.elim, rfl, fun _ h => .inl ?_⟩
  simpa [SessionPc.Watches] using h

theorem step_effect (act : SessionAct) : Effect shard s act (s.step shard act) := by
  cases act with
  | arrive t id =>
    simp only [step]
    split
    · rename_i hpc
      refine .quiet _ t _ ?_
      rw [hpc]
      exact .idle (fun _ _ h => h) (fun h => h) (fun _ _ h => h) rfl
    · exact .stay _
  | finish t =>
    simp only [step]
    split
    · rename_i id hpc
      refine .quiet _ t _ ?_
      rw [hpc]
      exact .idle (fun _ _ h => h) (fun h => h) (fun _ _ h => h) rfl
    · exact .stay _
  | step t env =>
    simp only [step, stepTask]
    cases hpc : s.pc t with
    | idle => exact .stay _
    | fetchTick id => exact .fetchTick t env id hpc
    | insert id tick => exact .register t env id tick hpc
    | len id tracked shards =>
      cases shards with
      | nil => exact .quiet _ t _ (hpc ▸ quiet_len_nil id tracked)
      | cons i shards => exact .quiet _ t _ (hpc ▸ quiet_len id tracked i shards)
    | excess id tracked shards =>
      cases shards with
      | nil => exact .quiet _ t _ (hpc ▸ quiet_excess_nil id tracked)
      | cons i shards => exact .quiet _ t _ (hpc ▸ quiet_excess id tracked i shards)
    | collect id count collected shards =>
      cases shards with
      | nil =>
        simp only
        split
        · exact .quiet _ t _ (hpc ▸ quiet_collect_nil id ‹_›)
        · exact .stay _
      | cons i shards => exact .quiet _ t _ (hpc ▸ quiet_collect id count collected i shards)
    | forget id maps victims =>
      rcases victims with _ | ⟨victim, victims⟩
      · exact .quiet _ t _ (hpc ▸ quiet_forget_nil id maps)
      rcases maps with _ | ⟨m, maps⟩
      · exact .unregister t env id victim victims hpc
      simp only
      split
      · exact .stay _
      · exact .remove t env id m maps victim victims hpc
    | serving id =>
      simp only
      split
      · exact .stay _
      · exact .discloseState t env id hpc ‹_›
    | disclosing id => exact .discloseTargets t env id hpc

variable {s' : SessionSys n} {act : SessionAct}

theorem Effect.distinct (he : Effect shard s act s') (h : s.state.Distinct) : s'.state.Distinct := by
  cases he with
  | stay | quiet => exact h
  | fetchTick => exact h.fetchTick
  | register => exact h.register
  | remove t env id m => exact h.remove m
  | unregister => exact h.unregister
  | discloseState => exact h.discloseState
  | discloseTargets => exact h.discloseTargets

def Tracked (shard : String → Fin n) (s : SessionSys n) : Prop :=
  s.state.sessionLru.length ≤ MAX_TRACKED_SESSIONS ∨ ∃ t, (s.pc t).Watches shard s.state.sessionLru

variable {t : Nat} {state : ToolCompressionState} {held : List String}

theorem Tracked.goto (h : s.Tracked shard) (hsub : state.sessionLru.Sublist s.state.sessionLru)
    (hpc : (s.pc t).Watches shard s.state.sessionLru →
      state.sessionLru.length ≤ MAX_TRACKED_SESSIONS ∨ pc'.Watches shard state.sessionLru) :
    Tracked shard (goto { s with state := state, held := held } t pc') := by
  rcases h with hle | ⟨u, hu⟩
  · exact .inl (hsub.length_le.trans hle)
  by_cases hut : u = t
  · subst hut
    refine (hpc hu).imp_right fun hw => ⟨u, ?_⟩
    show (Function.update s.pc u pc' u).Watches shard state.sessionLru
    rwa [Function.update_self]
  · refine .inr ⟨u, ?_⟩
    show (Function.update s.pc t pc' u).Watches shard state.sessionLru
    rw [Function.update_of_ne hut]
    exact hu.mono hsub

theorem Tracked.goto_idle (h : s.Tracked shard) (hlru : state.sessionLru = s.state.sessionLru)
    (hpc : ¬ (s.pc t).Watches shard s.state.sessionLru) :
    Tracked shard (SessionSys.goto { s with state := state, held := held } t pc') :=
  h.goto (hlru ▸ List.Sublist.refl _) fun hw => absurd hw hpc

theorem Effect.tracked (he : Effect shard s act s') (hd : s.state.Distinct) (h : s.Tracked shard) : s'.Tracked shard := by
  cases he with
  | stay => exact h
  | quiet _ t pc' hq => exact h.goto (List.Sublist.refl _) (hq.watches hd.lru)
  | fetchTick t env id hpc => exact h.goto_idle rfl (by rw [hpc]; exact not_false)
  | register t env id tick hpc =>
    refine .inr ⟨t, ?_⟩
    show (Function.update s.pc t (.len id 0 (List.finRange n)) t).Watches shard _
    rw [Function.update_self]
    simp [SessionPc.Watches]
  | remove t env id m maps victim victims hpc =>
    refine h.goto (by simp) fun hw => .inr ?_
    rw [hpc] at hw
    simpa [SessionPc.Watches] using hw
  | unregister t env id victim victims hpc =>
    refine h.goto List.filter_sublist fun hw => .inr ?_
    rw [hpc] at hw
    refine le_trans (le_of_eq (congrArg List.length ?_)) hw
    show (s.state.sessionLru.filter (·.1 ≠ victim)).filter (·.1 ∉ victims) = _
    rw [List.filter_filter]
    refine List.filter_congr fun e _ => ?_
    simp [Bool.and_comm]
  | discloseState t env id hpc => exact h.goto_idle rfl (by rw [hpc]; exact not_false)
  | discloseTargets t env id hpc => exact h.goto_idle rfl (by rw [hpc]; exact not_false)

def Covers (s : SessionSys n) : Prop := ∀ m, ∀ k ∈ s.state.sessions m, s.Covered m k

theorem Covers.goto (h : s.Covers) (hahead : ∀ m, ∀ k ∈ state.sessions m, (s.pc t).Ahead m k → pc'.Ahead m k)
    (hpast : ∀ m, ∀ k ∈ state.sessions m, pc'.Past m k → (s.pc t).Past m k)
    (hlru : ∀ m, ∀ k ∈ state.sessions m, k ∈ keys s.state.sessionLru → ¬ (s.pc t).Past m k →
      k ∈ keys state.sessionLru)
    (hnew : ∀ m, ∀ k ∈ state.sessions m, k ∈ s.state.sessions m ∨ s.Covered m k) :
    Covers (goto { s with state := state, held := held } t pc') := by
  intro m k hk
  have hcov : s.Covered m k := (hnew m k hk).elim (h m k) id
  rcases hcov with ⟨u, hu⟩ | ⟨hmem, hno⟩
  · refine .inl ⟨u, ?_⟩
    show (Function.update s.pc t pc' u).Ahead m k
    by_cases hut : u = t
    · subst hut
      rw [Function.update_self]
      exact hahead m k hk hu
    · rwa [Function.update_of_ne hut]
  · refine .inr ⟨hlru m k hk hmem (hno t), fun u => ?_⟩
    show ¬ (Function.update s.pc t pc' u).Past m k
    by_cases hut : u = t
    · subst hut
      rw [Function.update_self]
      exact fun hp => hno u (hpast m k hk hp)
    · rw [Function.update_of_ne hut]
      exact hno u

theorem Effect.covers (he : Effect shard s act s') (h : s.Covers) (hw : s.WritesCovered act) : s'.Covers := by
  cases he with
  | stay => exact h
  | quiet _ t pc' hq =>
    exact h.goto (fun m k _ => hq.ahead m k) (fun m k _ => hq.past m k) (fun _ _ _ hk _ => hk)
      fun _ _ hk => .inl hk
  | fetchTick t env id hpc =>
    refine h.goto (fun m k _ ha => ?_) (fun m k _ hp => hp.elim) (fun _ _ _ hk _ => hk)
      fun m k hk => .inl (by simpa using hk)
    rw [hpc] at ha
    exact ha
  | register t env id tick hpc =>
    refine h.goto (fun m k _ ha => ?_) (fun m k _ hp => hp.elim)
      (fun m k _ hk _ => mem_keys_put.2 (.inr hk)) fun m k hk => .inl (by simpa using hk)
    rw [hpc] at ha
    exact ha
  | remove t env id m maps victim victims hpc =>
    refine h.goto (fun m' k hk ha => ?_) (fun m' k hk hp => ?_) (fun m' k _ hk _ => by simpa using hk)
      fun m' k hk => .inl (mem_sessions_remove.1 hk).1
    · rw [hpc] at ha
      refine ha.imp_left fun ⟨hkv, hm⟩ => ⟨hkv, ?_⟩
      exact (List.mem_cons.1 hm).resolve_left fun hmm => (mem_sessions_remove.1 hk).2 ⟨hmm, hkv⟩
    · rw [hpc]
      refine ⟨hp.1, fun hm => ?_⟩
      rcases List.mem_cons.1 hm with hmm | hm
      · exact (mem_sessions_remove.1 hk).2 ⟨hmm, hp.1⟩
      · exact hp.2 hm
  | unregister t env id victim victims hpc =>
    refine h.goto (fun m k _ ha => ?_) (fun m k _ hp => ?_) (fun m k _ hk hno => ?_)
      fun m k hk => .inl (by simpa using hk)
    · rw [hpc] at ha
      have hmem : k ∈ victims := ha.resolve_left fun hv => absurd hv.2 List.not_mem_nil
      cases victims with
      | nil => exact absurd hmem List.not_mem_nil
      | cons victim' victims => exact (List.mem_cons.1 hmem).imp_left fun hv => ⟨hv, m.mem_all⟩
    · cases victims with
      | nil => exact hp.elim
      | cons victim' victims => exact absurd m.mem_all hp.2
    · rw [hpc] at hno
      exact mem_keys_erase.2 ⟨fun hv => hno ⟨hv, List.not_mem_nil⟩, hk⟩
  | discloseState t env id hpc hheld =>
    simp only [WritesCovered, hpc] at hw
    refine h.goto (fun m k _ ha => ?_) (fun m k _ hp => hp.elim) (fun _ _ _ hk _ => hk) fun m k hk => ?_
    · rw [hpc] at ha
      exact ha
    · rcases mem_sessions_discloseState.1 hk with hk | ⟨rfl, rfl⟩
      · exact .inl hk
      · exact .inr (hw hheld)
  | discloseTargets t env id hpc =>
    simp only [WritesCovered, hpc] at hw
    refine h.goto (fun m k _ ha => ?_) (fun m k _ hp => hp.elim) (fun _ _ _ hk _ => hk) fun m k hk => ?_
    · rw [hpc] at ha
      exact ha
    · rcases mem_sessions_discloseTargets.1 hk with hk | ⟨rfl, rfl⟩
      · exact .inl hk
      · exact .inr hw

structure Ticks (s : SessionSys n) : Prop where
  distinct : (s.state.sessionLru.map (·.2)).Nodup
  below : ∀ e ∈ s.state.sessionLru, e.2 < s.state.sessionTick
  pending : ∀ t tick, (s.pc t).tick = some tick →
    tick < s.state.sessionTick ∧ ∀ e ∈ s.state.sessionLru, e.2 ≠ tick
  apart : ∀ t u tick, t ≠ u → (s.pc t).tick = some tick → (s.pc u).tick ≠ some tick

theorem tick_update {u tick : Nat} (h : (Function.update s.pc t pc' u).tick = some tick) :
    u = t ∧ pc'.tick = some tick ∨ u ≠ t ∧ (s.pc u).tick = some tick := by
  by_cases hut : u = t
  · rw [hut, Function.update_self] at h
    exact .inl ⟨hut, h⟩
  · rw [Function.update_of_ne hut] at h
    exact .inr ⟨hut, h⟩

theorem Ticks.goto (h : s.Ticks) (hsub : state.sessionLru.Sublist s.state.sessionLru)
    (htick : state.sessionTick = s.state.sessionTick) (hpc : pc'.tick = none) :
    Ticks (goto { s with state := state, held := held } t pc') := by
  have hold : ∀ u tick, (Function.update s.pc t pc' u).tick = some tick → (s.pc u).tick = some tick := by
    intro u tick hu
    rcases tick_update hu with ⟨-, htick⟩ | ⟨-, hu⟩
    · rw [hpc] at htick
      cases htick
    · exact hu
  refine ⟨h.distinct.sublist (hsub.map _), fun e he => ?_, fun u tick hu => ?_, fun u v tick huv hu hv => ?_⟩
  · show e.2 < state.sessionTick
    rw [htick]
    exact h.below e (hsub.subset he)
  · obtain ⟨hlt, hne⟩ := h.pending u tick (hold u tick hu)
    exact ⟨lt_of_lt_of_eq hlt htick.symm, fun e he => hne e (hsub.subset he)⟩
  · exact h.apart u v tick huv (hold u tick hu) (hold v tick hv)

theorem ticks_fetchTick (h : s.Ticks) {id : String} (hleft : s.state.sessionTick + 1 < 2 ^ 64) :
    Ticks ({ s with state := s.state.fetchTick }.goto t (.insert id s.state.sessionTick)) := by
  have hnext : s.state.fetchTick.sessionTick = s.state.sessionTick + 1 := Nat.mod_eq_of_lt hleft
  refine ⟨h.distinct, fun e he => ?_, fun u tick hu => ?_, fun u v tick huv hu hv => ?_⟩
  · have hlt := h.below e he
    show e.2 < s.state.fetchTick.sessionTick
    omega
  · show tick < s.state.fetchTick.sessionTick ∧ _
    rcases tick_update hu with ⟨-, hu⟩ | ⟨-, hu⟩
    · cases hu
      exact ⟨by omega, fun e he => (h.below e he).ne⟩
    · obtain ⟨hlt, hne⟩ := h.pending u tick hu
      exact ⟨by omega, hne⟩
  · rcases tick_update hu with ⟨hut, hu⟩ | ⟨-, hu⟩
    · cases hu
      rcases tick_update hv with ⟨hvt, -⟩ | ⟨-, hv⟩
      · exact huv (hut.trans hvt.symm)
      · exact absurd (h.pending v _ hv).1 (lt_irrefl _)
    · rcases tick_update hv with ⟨-, hv⟩ | ⟨-, hv⟩
      · cases hv
        exact absurd (h.pending u _ hu).1 (lt_irrefl _)
      · exact h.apart u v tick huv hu hv

theorem ticks_register (h : s.Ticks) {tick : Nat} {id : String} (hpc : s.pc t = .insert id tick) (hpc' : pc'.tick = none) :
    Ticks ({ s with state := s.state.register id tick }.goto t pc') := by
  obtain ⟨hlt, hne⟩ := h.pending t tick (by rw [hpc]; rfl)
  have hold : ∀ u tick', (Function.update s.pc t pc' u).tick = some tick' →
      u ≠ t ∧ (s.pc u).tick = some tick' := by
    intro u tick' hu
    rcases tick_update hu with ⟨-, htick⟩ | hu
    · rw [hpc'] at htick
      cases htick
    · exact hu
  have hmem : ∀ e ∈ put s.state.sessionLru id tick, e = (id, tick) ∨ e ∈ s.state.sessionLru :=
    fun e he => (List.mem_cons.1 he).imp_right fun he => (List.mem_filter.1 he).1
  refine ⟨?_, fun e he => ?_, fun u tick' hu => ?_, fun u v tick' huv hu hv => ?_⟩
  · refine List.nodup_cons.2 ⟨fun hin => ?_, h.distinct.sublist (List.filter_sublist.map _)⟩
    obtain ⟨e, he, heq⟩ := List.mem_map.1 hin
    exact hne e (List.mem_filter.1 he).1 heq
  · rcases hmem e he with rfl | he
    · exact hlt
    · exact h.below e he
  · obtain ⟨hut, hu⟩ := hold u tick' hu
    refine ⟨(h.pending u tick' hu).1, fun e he heq => ?_⟩
    rcases hmem e he with rfl | he
    · exact h.apart u t tick' hut hu (by rw [hpc, ← heq]; rfl)
    · exact (h.pending u tick' hu).2 e he heq
  · exact h.apart u v tick' huv (hold u tick' hu).2 (hold v tick' hv).2

theorem Effect.ticks (he : Effect shard s act s') (h : s.Ticks) (hleft : s.TickLeft act) : s'.Ticks := by
  cases he with
  | stay => exact h
  | quiet _ t pc' hq => exact h.goto (List.Sublist.refl _) rfl hq.tick
  | fetchTick t env id hpc =>
    simp only [TickLeft, hpc] at hleft
    exact ticks_fetchTick h hleft
  | register t env id tick hpc => exact ticks_register h hpc rfl
  | remove => exact h.goto (by simp) (by simp) rfl
  | unregister => exact h.goto List.filter_sublist rfl rfl
  | discloseState | discloseTargets => exact h.goto (List.Sublist.refl _) rfl rfl

end SessionSys

end ObeyGateway.ToolCompression
