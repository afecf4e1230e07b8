import Mathlib.Algebra.Group.Nat.Defs
import Mathlib.Data.List.Perm.Subperm
import ObeyGateway.Lib.Assoc

/-!
# Per-session state of the tool compression (`tool_compression/state.rs`)

Five maps are keyed by a session id that the client chooses; `session_lru` registers the sessions with the
tick of their last request and is to bound the maps. This module has the calls as they are when nothing
comes between their accesses; `SessionRegistry` takes them apart.
-/

namespace ObeyGateway.ToolCompression
open Assoc

def MAX_TRACKED_SESSIONS : Nat := 10000

def SESSION_EVICTION_BATCH : Nat := 128

/-- The fields that are keyed by session id, and the counter of `session_lru`. -/
structure ToolCompressionState where
  disclosureState : List (String × List String)
  disclosureTargets : List (String × List String)
  sessionUsage : List (String × List (String × Nat))
  sessionRequestCount : List (String × Nat)
  placementState : List (String × List Nat)
  sessionLru : List (String × Nat)
  sessionTick : Nat
deriving DecidableEq

inductive SessionMap
  | disclosureState
  | disclosureTargets
  | sessionUsage
  | sessionRequestCount
  | placementState
deriving DecidableEq

/-- In the order in which `forget_session` removes a session from them. -/
def SessionMap.all : List SessionMap :=
  [.disclosureState, .disclosureTargets, .sessionUsage, .sessionRequestCount, .placementState]

/-- What `sort_unstable_by_key(|(_, tick)| *tick)` can come to. -/
def ByTick (byTick entries : List (String × Nat)) : Prop :=
  byTick.Perm entries ∧ byTick.Pairwise (·.2 ≤ ·.2)

instance (byTick entries : List (String × Nat)) : Decidable (ByTick byTick entries) :=
  inferInstanceAs (Decidable (_ ∧ _))

/-- How many sessions a pass removes when the registry has `tracked` of them. -/
def removeCount (tracked : Nat) : Nat := max (tracked - MAX_TRACKED_SESSIONS) SESSION_EVICTION_BATCH

theorem SessionMap.mem_all (m : SessionMap) : m ∈ SessionMap.all := by cases m <;> decide

namespace ToolCompressionState

def new : ToolCompressionState := ⟨[], [], [], [], [], [], 0⟩

def sessions (s : ToolCompressionState) : SessionMap → List String
  | .disclosureState => keys s.disclosureState
  | .disclosureTargets => keys s.disclosureTargets
  | .sessionUsage => keys s.sessionUsage
  | .sessionRequestCount => keys s.sessionRequestCount
  | .placementState => keys s.placementState

def remove (s : ToolCompressionState) (id : String) : SessionMap → ToolCompressionState
  | .disclosureState => { s with disclosureState := erase s.disclosureState id }
  | .disclosureTargets => { s with disclosureTargets := erase s.disclosureTargets id }
  | .sessionUsage => { s with sessionUsage := erase s.sessionUsage id }
  | .sessionRequestCount => { s with sessionRequestCount := erase s.sessionRequestCount id }
  | .placementState => { s with placementState := erase s.placementState id }

def unregister (s : ToolCompressionState) (id : String) : ToolCompressionState :=
  { s with sessionLru := erase s.sessionLru id }

def forgetSession (s : ToolCompressionState) (id : String) : ToolCompressionState :=
  (SessionMap.all.foldl (fun s m => s.remove id m) s).unregister id

/-- `byTick` is the sorted copy of the registry. -/
def evictLeastRecentlyUsedSessions (s : ToolCompressionState) (byTick : List (String × Nat)) :
    ToolCompressionState :=
  if s.sessionLru.length - MAX_TRACKED_SESSIONS = 0 then s
  else (keys (byTick.take (removeCount s.sessionLru.length))).foldl forgetSession s

/-- `fetch_add`, which wraps around -/
def fetchTick (s : ToolCompressionState) : ToolCompressionState :=
  { s with sessionTick := (s.sessionTick + 1) % 2 ^ 64 }

def register (s : ToolCompressionState) (id : String) (tick : Nat) : ToolCompressionState :=
  { s with sessionLru := put s.sessionLru id tick }

def touchSession (s : ToolCompressionState) (id : String) (byTick : List (String × Nat)) :
    ToolCompressionState :=
  let s := s.fetchTick.register id s.sessionTick
  if MAX_TRACKED_SESSIONS < s.sessionLru.length then s.evictLeastRecentlyUsedSessions byTick else s

/-- `disclosure_state.entry(id).or_default()` and the inserts that follow -/
def discloseState (s : ToolCompressionState) (id : String) (names : List String) : ToolCompressionState :=
  { s with disclosureState := put s.disclosureState id (names ∪ (get s.disclosureState id).getD []) }

def discloseTargets (s : ToolCompressionState) (id : String) (targets : List String) :
    ToolCompressionState :=
  { s with disclosureTargets := put s.disclosureTargets id (targets ∪ (get s.disclosureTargets id).getD []) }

section
variable {s : ToolCompressionState} {id k : String} {m m' : SessionMap}

@[simp] theorem remove_sessionLru : (s.remove id m).sessionLru = s.sessionLru := by cases m <;> rfl

@[simp] theorem remove_sessionTick : (s.remove id m).sessionTick = s.sessionTick := by cases m <;> rfl

@[simp] theorem unregister_sessions : (s.unregister id).sessions m = s.sessions m := by cases m <;> rfl

@[simp] theorem fetchTick_sessions : s.fetchTick.sessions m = s.sessions m := by cases m <;> rfl

@[simp] theorem register_sessions {tick : Nat} : (s.register id tick).sessions m = s.sessions m := by
  cases m <;> rfl

theorem mem_sessions_remove : k ∈ (s.remove id m).sessions m' ↔ k ∈ s.sessions m' ∧ ¬ (m' = m ∧ k = id) := by
  cases m <;> cases m' <;> simp [remove, sessions, mem_keys_erase, and_comm]

theorem mem_sessions_discloseState {names : List String} : k ∈ (s.discloseState id names).sessions m ↔
    k ∈ s.sessions m ∨ m = .disclosureState ∧ k = id := by
  cases m <;> simp [discloseState, sessions, mem_keys_put, or_comm]

theorem mem_sessions_discloseTargets {targets : List String} : k ∈ (s.discloseTargets id targets).sessions m ↔
      k ∈ s.sessions m ∨ m = .disclosureTargets ∧ k = id := by
  cases m <;> simp [discloseTargets, sessions, mem_keys_put, or_comm]

end

structure Distinct (s : ToolCompressionState) : Prop where
  sessions : ∀ m, (s.sessions m).Nodup
  lru : (keys s.sessionLru).Nodup

section
variable {s : ToolCompressionState} {id : String}

theorem Distinct.new : Distinct .new := ⟨fun m => by cases m <;> exact List.nodup_nil, List.nodup_nil⟩

theorem Distinct.remove (h : s.Distinct) (m : SessionMap) : (s.remove id m).Distinct := by
  refine ⟨fun m' => ?_, by simpa using h.lru⟩
  have hm := h.sessions m'
  cases m <;> cases m' <;> first | exact hm | exact nodup_erase hm

theorem Distinct.unregister (h : s.Distinct) : (s.unregister id).Distinct :=
  ⟨fun m => by simpa using h.sessions m, nodup_erase h.lru⟩

theorem Distinct.fetchTick (h : s.Distinct) : s.fetchTick.Distinct :=
  ⟨fun m => by simpa using h.sessions m, h.lru⟩

theorem Distinct.register (h : s.Distinct) {tick : Nat} : (s.register id tick).Distinct :=
  ⟨fun m => by simpa using h.sessions m, nodup_put h.lru⟩

theorem Distinct.discloseState (h : s.Distinct) {names : List String} : (s.discloseState id names).Distinct := by
  refine ⟨fun m => ?_, h.lru⟩
  have hm := h.sessions m
  cases m <;> first | exact hm | exact nodup_put hm

theorem Distinct.discloseTargets (h : s.Distinct) {targets : List String} : (s.discloseTargets id targets).Distinct := by
  refine ⟨fun m => ?_, h.lru⟩
  have hm := h.sessions m
  cases m <;> first | exact hm | exact nodup_put hm

end

section
variable {s : ToolCompressionState} {ids : List String} {byTick : List (String × Nat)}

theorem forgetSession_sessionLru {id : String} : (s.forgetSession id).sessionLru = s.sessionLru.filter (·.1 ≠ id) := rfl

theorem forgetAll_sessionLru : (ids.foldl forgetSession s).sessionLru = s.sessionLru.filter (·.1 ∉ ids) := by
  induction ids generalizing s with
  | nil => simp
  | cons id ids ih =>
    rw [List.foldl_cons, ih, forgetSession_sessionLru, List.filter_filter]
    refine List.filter_congr fun e _ => ?_
    simp [Bool.and_comm]

theorem evict_sessionLru (h : MAX_TRACKED_SESSIONS < s.sessionLru.length) :
    (s.evictLeastRecentlyUsedSessions byTick).sessionLru =
      s.sessionLru.filter (·.1 ∉ keys (byTick.take (removeCount s.sessionLru.length))) := by
  rw [evictLeastRecentlyUsedSessions, if_neg (by omega), forgetAll_sessionLru]

theorem evict_of_le (h : s.sessionLru.length ≤ MAX_TRACKED_SESSIONS) : s.evictLeastRecentlyUsedSessions byTick = s := by
  rw [evictLeastRecentlyUsedSessions, if_pos (by omega)]

theorem length_kept_le {lru : List (String × Nat)} (hnodup : (keys lru).Nodup)
    (hsub : ∀ e ∈ lru, e.1 ∈ keys byTick) (count : Nat) :
    (lru.filter (·.1 ∉ keys (byTick.take count))).length ≤ byTick.length - count := by
  have hkept : (keys (lru.filter (·.1 ∉ keys (byTick.take count)))).Nodup :=
    hnodup.sublist (List.filter_sublist.map _)
  have hdrop : keys (lru.filter (·.1 ∉ keys (byTick.take count))) ⊆ keys (byTick.drop count) := by
    intro k hk
    obtain ⟨e, he, rfl⟩ := List.mem_map.1 hk
    obtain ⟨he, hnot⟩ := List.mem_filter.1 he
    have hnot : e.1 ∉ keys (byTick.take count) := by simpa using hnot
    obtain ⟨e', he', heq⟩ := List.mem_map.1 (hsub e he)
    rw [← List.take_append_drop count byTick] at he'
    rcases List.mem_append.1 he' with he' | he'
    · exact absurd (heq ▸ List.mem_map_of_mem he') hnot
    · exact heq ▸ List.mem_map_of_mem he'
  have hle := (hkept.subperm hdrop).length_le
  simpa [keys] using hle

theorem exists_evicted (h : MAX_TRACKED_SESSIONS < s.sessionLru.length) (hsort : ByTick byTick s.sessionLru) :
    ∃ gone ∈ s.sessionLru, gone ∉ (s.evictLeastRecentlyUsedSessions byTick).sessionLru := by
  rw [evict_sessionLru h]
  have hcount : SESSION_EVICTION_BATCH ≤ removeCount s.sessionLru.length := Nat.le_max_right _ _
  rcases byTick with _ | ⟨e, byTick⟩
  · rw [← hsort.1.length_eq] at h
    exact absurd h (Nat.not_lt_zero _)
  refine ⟨e, hsort.1.mem_iff.1 List.mem_cons_self, fun hmem => ?_⟩
  obtain ⟨count, hsucc⟩ := Nat.exists_eq_succ_of_ne_zero (Nat.ne_of_gt (Nat.lt_of_lt_of_le (by decide) hcount))
  rw [hsucc, List.take_succ_cons] at hmem
  exact absurd (List.mem_map_of_mem List.mem_cons_self) (of_decide_eq_true (List.mem_filter.1 hmem).2)

theorem evict_older (hkeys : (keys s.sessionLru).Nodup) (hticks : (s.sessionLru.map (·.2)).Nodup)
    (hsort : ByTick byTick s.sessionLru) {gone kept : String × Nat} (hgone : gone ∈ s.sessionLru)
    (hgone' : gone ∉ (s.evictLeastRecentlyUsedSessions byTick).sessionLru)
    (hkept : kept ∈ (s.evictLeastRecentlyUsedSessions byTick).sessionLru) : gone.2 < kept.2 := by
  by_cases hlen : s.sessionLru.length ≤ MAX_TRACKED_SESSIONS
  · rw [evict_of_le hlen] at hgone'
    exact absurd hgone hgone'
  rw [evict_sessionLru (by omega)] at hgone' hkept
  obtain ⟨hkept, hnot⟩ := List.mem_filter.1 hkept
  have hnot : kept.1 ∉ keys (byTick.take (removeCount s.sessionLru.length)) := by simpa using hnot
  have hvictim : gone.1 ∈ keys (byTick.take (removeCount s.sessionLru.length)) := by
    by_contra h
    exact hgone' (List.mem_filter.2 ⟨hgone, by simpa using h⟩)
  obtain ⟨e, he, heq⟩ := List.mem_map.1 hvictim
  have hsame : e = gone :=
    List.inj_on_of_nodup_map hkeys (hsort.1.mem_iff.1 (List.mem_of_mem_take he)) hgone heq
  subst hsame
  have hdrop : kept ∈ byTick.drop (removeCount s.sessionLru.length) := by
    have hmem := hsort.1.mem_iff.2 hkept
    rw [← List.take_append_drop (removeCount s.sessionLru.length) byTick] at hmem
    exact (List.mem_append.1 hmem).resolve_left fun h => hnot (List.mem_map_of_mem h)
  have hle : e.2 ≤ kept.2 := by
    have hpair := hsort.2
    rw [← List.take_append_drop (removeCount s.sessionLru.length) byTick] at hpair
    exact (List.pairwise_append.1 hpair).2.2 e he kept hdrop
  refine lt_of_le_of_ne hle fun htick => hnot ?_
  rw [← List.inj_on_of_nodup_map hticks hgone hkept htick]
  exact List.mem_map_of_mem he

theorem first_evicted (hkeys : (keys s.sessionLru).Nodup) (hticks : (s.sessionLru.map (·.2)).Nodup)
    (hsort : ByTick byTick s.sessionLru) (h : MAX_TRACKED_SESSIONS < s.sessionLru.length) {first : String}
    (hfirst : (first, 0) ∈ s.sessionLru) :
    first ∉ keys (s.evictLeastRecentlyUsedSessions byTick).sessionLru := by
  obtain ⟨gone, hgone, hgone'⟩ := exists_evicted h hsort
  intro hmem
  obtain ⟨kept, hkept, heq⟩ := List.mem_map.1 hmem
  have hlt := evict_older hkeys hticks hsort hgone hgone' hkept
  have hkept' : kept ∈ s.sessionLru := by
    rw [evict_sessionLru h] at hkept
    exact (List.mem_filter.1 hkept).1
  rw [List.inj_on_of_nodup_map hkeys hkept' hfirst heq] at hlt
  exact absurd hlt (Nat.not_lt_zero _)

end

/-- Every session of a map is registered, and no map has more of them than the registry may have. -/
structure Bounded (s : ToolCompressionState) : Prop where
  registered : ∀ m, ∀ k ∈ s.sessions m, k ∈ keys s.sessionLru
  tracked : s.sessionLru.length ≤ MAX_TRACKED_SESSIONS
  sessions : ∀ m, (s.sessions m).length ≤ MAX_TRACKED_SESSIONS

/-- An eviction pass, however the sort comes out, removes only sessions that are older than any it keeps. -/
def EvictsOldest (s : ToolCompressionState) : Prop :=
  ∀ byTick, ByTick byTick s.sessionLru → ∀ gone ∈ s.sessionLru,
    gone ∉ (s.evictLeastRecentlyUsedSessions byTick).sessionLru →
      ∀ kept ∈ (s.evictLeastRecentlyUsedSessions byTick).sessionLru, gone.2 < kept.2

theorem Distinct.bounded {s : ToolCompressionState} (h : s.Distinct) (hreg : ∀ m, ∀ k ∈ s.sessions m, k ∈ keys s.sessionLru)
    (hlen : s.sessionLru.length ≤ MAX_TRACKED_SESSIONS) : s.Bounded := by
  refine ⟨hreg, hlen, fun m => ?_⟩
  have hle := ((h.sessions m).subperm (hreg m)).length_le
  simp only [keys, List.length_map] at hle
  exact hle.trans hlen

end ToolCompressionState

end ObeyGateway.ToolCompression
