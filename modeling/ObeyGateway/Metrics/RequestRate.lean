import Mathlib.Algebra.Group.Nat.Defs
import Mathlib.Data.List.Count
import Mathlib.Logic.Function.Basic
import Mathlib.Order.Lattice
import Mathlib.Tactic.Set

/-!
# The ring of request counts

`RequestRateRing` of `metrics/mod.rs`: one count for each of the last sixty seconds and their sum, which is kept in step
by subtraction. Aging is a tick for each second that passes, and keeps what the ring `Counts`. So no subtraction
underflows and each total is the number of requests of the last sixty seconds, where a clock that steps back stands
still (`rolling_rate_law`).
-/

namespace ObeyGateway.RequestRate

abbrev requestRateWindowSeconds : Nat := 60

structure RequestRateRing where
  baseSecond : Nat
  slots : Fin requestRateWindowSeconds → Nat
  total : Nat

/-- `u64::saturating_add` of one -/
def saturatingSucc (n : Nat) : Nat := min (n + 1) (2 ^ 64 - 1)

def slotOf (second : Nat) : Fin requestRateWindowSeconds :=
  ⟨second % requestRateWindowSeconds, Nat.mod_lt _ (by decide)⟩

namespace RequestRateRing

def new : RequestRateRing := ⟨0, fun _ => 0, 0⟩

/-- One round of the loop of `advance`. The subtraction is the checked one: `none` is its underflow. -/
def dropSlot (ring : RequestRateRing) (pos : Fin requestRateWindowSeconds) : Option RequestRateRing :=
  if ring.slots pos ≤ ring.total then
    some { ring with total := ring.total - ring.slots pos, slots := Function.update ring.slots pos 0 }
  else none

/-- `for i in 1..=elapsed` -/
def dropSlots (ring : RequestRateRing) (basePos : Nat) : Nat → Option RequestRateRing
  | 0 => some ring
  | i + 1 => (dropSlots ring basePos i).bind fun ring => ring.dropSlot (slotOf (basePos + (i + 1)))

def advance (ring : RequestRateRing) (now : Nat) : Option RequestRateRing :=
  if now ≤ ring.baseSecond then some ring
  else
    let elapsed := now - ring.baseSecond
    if requestRateWindowSeconds ≤ elapsed then some ⟨now, fun _ => 0, 0⟩
    else
      let basePos := ring.baseSecond % requestRateWindowSeconds
      (ring.dropSlots basePos elapsed).map fun ring => { ring with baseSecond := now }

def recordAt (ring : RequestRateRing) (now : Nat) : Option RequestRateRing :=
  let now := max now ring.baseSecond
  (ring.advance now).map fun ring =>
    let pos := slotOf now
    { ring with slots := Function.update ring.slots pos (saturatingSucc (ring.slots pos)), total := saturatingSucc ring.total }

def rollingTotalAt (ring : RequestRateRing) (now : Nat) : Option (RequestRateRing × Nat) :=
  (ring.advance now).map fun ring => (ring, ring.total)

end RequestRateRing

inductive Call
  | recordAt (now : Nat)
  | rollingTotalAt (now : Nat)

namespace Call

def second : Call → Nat
  | recordAt now => now
  | rollingTotalAt now => now

def withSecond (s : Nat) : Call → Call
  | recordAt _ => recordAt s
  | rollingTotalAt _ => rollingTotalAt s

def isRecord : Call → Bool
  | recordAt _ => true
  | rollingTotalAt _ => false

end Call

def run (ring : RequestRateRing) : List Call → Option (RequestRateRing × List Nat)
  | [] => some (ring, [])
  | .recordAt now :: calls => (ring.recordAt now).bind fun ring => run ring calls
  | .rollingTotalAt now :: calls =>
    (ring.rollingTotalAt now).bind fun p => (run p.1 calls).map fun q => (q.1, p.2 :: q.2)

/-! ### The reference -/

/-- The requests of the window that ends with `now`: second `s > now - 60`. -/
def recent (recorded : List Nat) (now : Nat) : Nat := recorded.countP fun s => now < s + requestRateWindowSeconds

def expected (recorded : List Nat) : List Call → List Nat
  | [] => []
  | .recordAt now :: calls => expected (now :: recorded) calls
  | .rollingTotalAt now :: calls => recent recorded now :: expected recorded calls

def runningMax (largest : Nat) : List Call → List Call
  | [] => []
  | call :: calls => call.withSecond (max call.second largest) :: runningMax (max call.second largest) calls

theorem runningMax_of_sorted {calls : List Call} {m : Nat} (hm : ∀ c ∈ calls, m ≤ c.second)
    (h : calls.Pairwise fun c d => c.second ≤ d.second) : runningMax m calls = calls := by
  induction calls generalizing m with
  | nil => rfl
  | cons c calls ih =>
    obtain ⟨hc, hcalls⟩ := List.pairwise_cons.1 h
    have hmax : max c.second m = c.second := max_eq_left (hm c List.mem_cons_self)
    rw [runningMax, hmax, ih hc hcalls]
    cases c <;> rfl

/-! ### What the ring holds -/

/-- The ring at second `t`: slot `p` counts the recent requests whose second falls on `p`, and the total counts all of
them. -/
structure Counts (recorded : List Nat) (t : Nat) (ring : RequestRateRing) : Prop where
  le : ∀ s ∈ recorded, s ≤ t
  slots : ∀ p, ring.slots p = recorded.countP fun s => slotOf s = p ∧ t < s + requestRateWindowSeconds
  total : ring.total = recent recorded t

section
variable {recorded : List Nat} {t : Nat} {ring : RequestRateRing}

theorem slotOf_eq {s t : Nat} : slotOf s = slotOf t ↔ s % 60 = t % 60 := by
  simp [slotOf, requestRateWindowSeconds, Fin.ext_iff]

theorem leaves_iff {s : Nat} (hs : s ≤ t) :
    (slotOf s = slotOf (t + 1) ∧ t < s + requestRateWindowSeconds) ↔ s + requestRateWindowSeconds = t + 1 := by
  rw [slotOf_eq]
  simp only [requestRateWindowSeconds]
  omega

theorem recent_succ (h : ∀ s ∈ recorded, s ≤ t) : recent recorded t = recent recorded (t + 1) +
      recorded.countP fun s => slotOf s = slotOf (t + 1) ∧ t < s + requestRateWindowSeconds := by
  induction recorded with
  | nil => rfl
  | cons s recorded ih =>
    have ih := ih fun r hr => h r (List.mem_cons_of_mem s hr)
    have hs := leaves_iff (h s List.mem_cons_self)
    simp only [recent, requestRateWindowSeconds, List.countP_cons] at hs ih ⊢
    simp only [hs]
    rw [ih]
    rcases lt_trichotomy (t + 1) (s + 60) with hlt | heq | hgt
    · simp [hlt, show t < s + 60 by omega, show ¬ s + 60 = t + 1 by omega]
      omega
    · simp [← heq]
      omega
    · simp [show ¬ t < s + 60 by omega, show ¬ t + 1 < s + 60 by omega, show ¬ s + 60 = t + 1 by omega]

theorem Counts.tick (h : Counts recorded t ring) :
    ∃ ring', ring.dropSlot (slotOf (t + 1)) = some ring' ∧ Counts recorded (t + 1) ring' := by
  have hsum := recent_succ h.le
  rw [← h.slots, ← h.total] at hsum
  refine ⟨_, by rw [RequestRateRing.dropSlot, if_pos (by omega)], fun s hs => Nat.le_succ_of_le (h.le s hs), fun p => ?_,
    by simp only; omega⟩
  by_cases hp : p = slotOf (t + 1)
  · subst hp
    simp only [Function.update_self]
    symm
    rw [List.countP_eq_zero]
    intro s hs hleft
    have hs := h.le s hs
    simp only [decide_eq_true_eq, slotOf_eq, requestRateWindowSeconds] at hleft
    omega
  · simp only [Function.update_of_ne hp, h.slots]
    refine List.countP_congr fun s hs => ?_
    have hs := h.le s hs
    simp only [decide_eq_true_eq]
    constructor
    · rintro ⟨rfl, hlt⟩
      rw [slotOf_eq] at hp
      refine ⟨rfl, ?_⟩
      simp only [requestRateWindowSeconds] at hlt ⊢
      omega
    · rintro ⟨hslot, hlt⟩
      exact ⟨hslot, by omega⟩

theorem slotOf_base (base i : Nat) : slotOf (base % requestRateWindowSeconds + i) = slotOf (base + i) := by
  rw [slotOf_eq]
  simp only [requestRateWindowSeconds]
  omega

theorem Counts.dropSlots (h : Counts recorded t ring) (n : Nat) :
    ∃ ring', ring.dropSlots (t % requestRateWindowSeconds) n = some ring' ∧ Counts recorded (t + n) ring' := by
  induction n with
  | zero => exact ⟨ring, rfl, h⟩
  | succ n ih =>
    obtain ⟨ring', hdrop, hcounts⟩ := ih
    obtain ⟨ring'', hslot, hcounts⟩ := hcounts.tick
    refine ⟨ring'', ?_, hcounts⟩
    rw [RequestRateRing.dropSlots, hdrop, slotOf_base]
    exact hslot

theorem Counts.clear {now : Nat} (h : ∀ s ∈ recorded, s + requestRateWindowSeconds ≤ now) :
    Counts recorded now ⟨now, fun _ => 0, 0⟩ := by
  refine ⟨fun s hs => by have := h s hs; omega, fun p => ?_, ?_⟩ <;>
  · symm
    refine List.countP_eq_zero.2 fun s hs => ?_
    have := h s hs
    simp only [decide_eq_true_eq]
    omega

/-- The ring is up to date: `Counts` at its own base. -/
def Current (recorded : List Nat) (ring : RequestRateRing) : Prop := Counts recorded ring.baseSecond ring

theorem Current.advance (h : Current recorded ring) (now : Nat) :
    ∃ ring', ring.advance now = some ring' ∧ ring'.baseSecond = max now ring.baseSecond ∧ Current recorded ring' := by
  by_cases hle : now ≤ ring.baseSecond
  · exact ⟨ring, by rw [RequestRateRing.advance, if_pos hle], by omega, h⟩
  · by_cases hlong : requestRateWindowSeconds ≤ now - ring.baseSecond
    · refine ⟨⟨now, fun _ => 0, 0⟩, by simp [RequestRateRing.advance, hle, hlong],
        (max_eq_left (show ring.baseSecond ≤ now by omega)).symm, ?_⟩
      have hclear : Counts recorded now ⟨now, fun _ => 0, 0⟩ := Counts.clear fun s hs => by
        have := h.le s hs
        omega
      exact hclear
    · obtain ⟨ring', hdrop, hcounts⟩ := h.dropSlots (now - ring.baseSecond)
      rw [show ring.baseSecond + (now - ring.baseSecond) = now by omega] at hcounts
      refine ⟨{ ring' with baseSecond := now }, by simp [RequestRateRing.advance, hle, hlong, hdrop],
        (max_eq_left (show ring.baseSecond ≤ now by omega)).symm, ?_⟩
      exact ⟨hcounts.le, hcounts.slots, hcounts.total⟩

theorem saturatingSucc_of_lt {n : Nat} (h : n + 1 < 2 ^ 64) : saturatingSucc n = n + 1 := by
  simp only [saturatingSucc]
  omega

theorem Current.recordAt (h : Current recorded ring) (now : Nat) (hroom : recorded.length + 1 < 2 ^ 64) :
    ∃ ring', ring.recordAt now = some ring' ∧ ring'.baseSecond = max now ring.baseSecond ∧
      Current (max now ring.baseSecond :: recorded) ring' := by
  obtain ⟨ring', hadvance, hbase, hcounts⟩ := h.advance (max now ring.baseSecond)
  rw [max_assoc, max_self] at hbase
  set s := max now ring.baseSecond with hs
  refine ⟨{ ring' with
    slots := Function.update ring'.slots (slotOf s) (saturatingSucc (ring'.slots (slotOf s)))
    total := saturatingSucc ring'.total }, by rw [RequestRateRing.recordAt, ← hs, hadvance]; rfl, hbase, ?_, fun p => ?_, ?_⟩
  · intro r hr
    rcases List.mem_cons.1 hr with rfl | hr
    · exact hbase.ge
    · exact hcounts.le r hr
  · have hlen := List.countP_le_length (p := fun r => slotOf r = p ∧ ring'.baseSecond < r + requestRateWindowSeconds)
      (l := recorded)
    simp only [List.countP_cons, hbase, decide_eq_true_eq] at hlen ⊢
    by_cases hp : p = slotOf s
    · subst hp
      rw [Function.update_self, hcounts.slots, hbase, saturatingSucc_of_lt (by omega), if_pos ⟨rfl, by simp [requestRateWindowSeconds]⟩]
    · rw [Function.update_of_ne hp, hcounts.slots, hbase, if_neg fun hslot => hp hslot.1.symm, Nat.add_zero]
  · have hlen := List.countP_le_length (p := fun r => ring'.baseSecond < r + requestRateWindowSeconds) (l := recorded)
    have htotal := hcounts.total
    simp only [recent, List.countP_cons, hbase, decide_eq_true_eq] at hlen htotal ⊢
    rw [htotal, saturatingSucc_of_lt (by omega), if_pos (by simp [requestRateWindowSeconds])]

end

theorem Current.new : Current [] .new := ⟨fun _ h => (nomatch h), fun _ => rfl, rfl⟩

theorem Current.run {calls : List Call} {recorded : List Nat} {ring : RequestRateRing} (h : Current recorded ring)
    (hroom : recorded.length + calls.countP Call.isRecord < 2 ^ 64) :
    ∃ ring', run ring calls = some (ring', expected recorded (runningMax ring.baseSecond calls)) := by
  induction calls generalizing recorded ring with
  | nil => exact ⟨ring, rfl⟩
  | cons call calls ih =>
    cases call with
    | recordAt now =>
      rw [List.countP_cons_of_pos rfl] at hroom
      obtain ⟨ring', hstep, hbase, hcurrent⟩ := h.recordAt now (by omega)
      obtain ⟨ring'', hrun⟩ := ih hcurrent (by rw [List.length_cons]; omega)
      refine ⟨ring'', ?_⟩
      rw [RequestRate.run, hstep, Option.bind_some, hrun, hbase]
      rfl
    | rollingTotalAt now =>
      rw [List.countP_cons_of_neg (by simp [Call.isRecord])] at hroom
      obtain ⟨ring', hstep, hbase, hcurrent⟩ := h.advance now
      obtain ⟨ring'', hrun⟩ := ih hcurrent hroom
      refine ⟨ring'', ?_⟩
      rw [RequestRate.run, RequestRateRing.rollingTotalAt, hstep, Option.map_some, Option.bind_some, hrun, hcurrent.total, hbase]
      rfl

/-- No subtraction underflows, and every total is that of the reference for the largest second so far; where the seconds
never decrease, these are the seconds themselves. -/
theorem rolling_rate_law (calls : List Call) (h : calls.countP Call.isRecord < 2 ^ 64) :
    (∃ ring, run .new calls = some (ring, expected [] (runningMax 0 calls))) ∧
      (calls.Pairwise (fun c d => c.second ≤ d.second) → ∃ ring, run .new calls = some (ring, expected [] calls)) := by
  obtain ⟨ring, hrun⟩ := Current.new.run (by simpa using h)
  refine ⟨⟨ring, hrun⟩, fun hsorted => ⟨ring, ?_⟩⟩
  rw [hrun, show RequestRateRing.new.baseSecond = 0 from rfl, runningMax_of_sorted (fun _ _ => Nat.zero_le _) hsorted]

theorem rolling_rate_law_at : (∃ ring, run .new [.recordAt 5, .recordAt 64, .rollingTotalAt 65, .rollingTotalAt 3] =
    some (ring, [1, 1])) := by
  obtain ⟨ring, h⟩ := (rolling_rate_law [.recordAt 5, .recordAt 64, .rollingTotalAt 65, .rollingTotalAt 3] (by decide)).1
  exact ⟨ring, h⟩

end ObeyGateway.RequestRate
