import Mathlib.Logic.Function.Basic
import ObeyGateway.Lib.AtomicFile
import ObeyGateway.Lib.JsonPrint
import ObeyGateway.Lib.Utf8
import ObeyGateway.SmartRouting.BudgetController

/-!
# The persisted group budgets

The state is written as JSON through `atomic_replace` and read back by `BudgetController::load`. A call leaves memory
and file in agreement whatever goes wrong with the file system, but for one step: the directory is synced after the
rename, and an error there leaves the new file under the old state in memory (`atomic_iff`); so it is over runs with
restarts (`budget_runs_durable`).
-/

namespace ObeyGateway.SmartRouting
open AtomicFile

/-- `serde_json` and the time format of `chrono`; numbers are printed exactly. -/
structure StateText {F : Type} (A : Dollars F) where
  /-- An amount that is not finite has no number. -/
  number : F → Option Number
  float : Number → Option F
  float_number : ∀ a, A.isFinite a = true → (number a).bind float = some a
  time : Int → String
  instant : String → Option Int
  instant_time : ∀ t, instant (time t) = some t
  print : Json → List UInt8
  parse : List UInt8 → Option Json
  parse_print : ∀ v, v.nodupKeys = true → parse (print v) = some v

def structFields (names : List String) : Json → Option (List Json)
  | .object fields =>
    if ((Assoc.keys fields).filter (· ∈ names)).Nodup then names.mapM (Assoc.get fields) else none
  | .array items => if items.length = names.length then some items else none
  | _ => none

section
variable {F : Type} {A : Dollars F} (T : StateText A)

def amountJson (a : F) : Json :=
  match T.number a with
  | some n => .number n
  | none => .null

def amountOf : Json → Option F
  | .number n => T.float n
  | _ => none

def SpendBreakdown.toJson (s : SpendBreakdown F) : Json :=
  .object [("exact_usd", amountJson T s.exactUsd), ("estimated_usd", amountJson T s.estimatedUsd)]

def SpendBreakdown.ofJson (v : Json) : Option (SpendBreakdown F) :=
  match structFields ["exact_usd", "estimated_usd"] v with
  | some [exact, estimated] => do return ⟨← amountOf T exact, ← amountOf T estimated⟩
  | _ => none

def WindowSpend.toJson (w : WindowSpend F) : Json :=
  .object [("starts_at", .string (T.time w.startsAt)), ("spend", w.spend.toJson T)]

def WindowSpend.ofJson (v : Json) : Option (WindowSpend F) :=
  match structFields ["starts_at", "spend"] v with
  | some [.string startsAt, spend] => do return ⟨← T.instant startsAt, ← SpendBreakdown.ofJson T spend⟩
  | _ => none

def GroupSpend.toJson (g : GroupSpend F) : Json :=
  .object [("hourly", g.hourly.toJson T), ("daily", g.daily.toJson T), ("monthly", g.monthly.toJson T)]

def GroupSpend.ofJson (v : Json) : Option (GroupSpend F) :=
  match structFields ["hourly", "daily", "monthly"] v with
  | some [hourly, daily, monthly] => do
    return ⟨← WindowSpend.ofJson T hourly, ← WindowSpend.ofJson T daily, ← WindowSpend.ofJson T monthly⟩
  | _ => none

/-- A `u32` -/
def versionOf : Json → Option Nat
  | .number (.posInt n) => if n.toNat < 2 ^ 32 then some n.toNat else none
  | _ => none

namespace PersistedBudgetState

def toJson (state : PersistedBudgetState F) : Json :=
  .object [("version", .number (.posInt (UInt64.ofNat state.version))),
    ("groups", .object (state.groups.map fun e => (e.1, e.2.toJson T)))]

/-- The entries of the map are inserted one by one. -/
def groupsOf (state : PersistedBudgetState F) (fields : Json.Map) : Option (PersistedBudgetState F) :=
  fields.foldlM (fun state f => (GroupSpend.ofJson T f.2).map (state.put f.1)) state

def ofJson (v : Json) : Option (PersistedBudgetState F) :=
  match structFields ["version", "groups"] v with
  | some [version, .object fields] => do groupsOf T { default with version := ← versionOf version } fields
  | _ => none

def encode (state : PersistedBudgetState F) : List UInt8 := T.print (state.toJson T)

end PersistedBudgetState

/-- `BudgetController::load` -/
def load (disk : Disk) : Except BudgetLoadError (PersistedBudgetState F) :=
  match disk.file with
  | none => .ok .default
  | some bytes =>
    match (T.parse bytes).bind (PersistedBudgetState.ofJson T) with
    | none => .error .corruptJson
    | some state => do
      state.validate A
      pure state

/-- `sync_parent_directory` -/
def syncParentDirectory (isUnix : Bool) : List Step := if isUnix then [.syncDirectory] else []

/-- `atomic_replace`: `temporary` is the name made of the process id and a sequence number. -/
def atomicReplace (isUnix : Bool) (trouble : Option Trouble) (temporary : String) (bytes : List UInt8) (disk : Disk) :
    Outcome × Disk :=
  match run temporary bytes trouble [.createDir] disk with
  | (.done, disk) =>
    match run temporary bytes trouble
        ([.createTemporary, .write, .sync] ++ .rename :: syncParentDirectory isUnix) disk with
    | (.failed, disk) => (.failed, { disk with temporaries := Assoc.erase disk.temporaries temporary })
    | r => r
  | r => r

structure Conditions where
  isUnix : Bool
  trouble : Option Trouble
  temporary : String
  now : Int

/-- What a call has returned, unless the process has stopped, and what it leaves. -/
structure Performed (F : Type) where
  result : Option (Except (BudgetControllerError F) (BudgetAnswer F))
  memory : PersistedBudgetState F
  disk : Disk

def BudgetCall.perform (c : Conditions) (memory : PersistedBudgetState F) (disk : Disk) (call : BudgetCall F) :
    Performed F :=
  match call.run A memory c.now with
  | .error e => ⟨some (.error (.pricing e)), memory, disk⟩
  | .ok ⟨answer, none⟩ => ⟨some (.ok answer), memory, disk⟩
  | .ok ⟨answer, some next⟩ =>
    match atomicReplace c.isUnix c.trouble c.temporary (next.encode T) disk with
    | (.done, disk') => ⟨some (.ok answer), next, disk'⟩
    | (.failed, disk') => ⟨some (.error .persist), memory, disk'⟩
    | (.stopped, disk') => ⟨none, memory, disk'⟩

end

/-! ### Reading back what is written -/

theorem structFields_object {names : List String} {fields : Json.Map} (hnames : Assoc.keys fields = names)
    (h : names.Nodup) : structFields names (.object fields) = some (fields.map (·.2)) := by
  subst hnames
  have hfilter : (Assoc.keys fields).filter (· ∈ Assoc.keys fields) = Assoc.keys fields :=
    List.filter_eq_self.2 fun _ hk => decide_eq_true hk
  have hget : ∀ sub : Json.Map, (∀ f ∈ sub, f ∈ fields) →
      (Assoc.keys sub).mapM (Assoc.get fields) = some (sub.map (·.2)) := by
    intro sub hsub
    induction sub with
    | nil => rfl
    | cons f sub ih =>
      have hf : Assoc.get fields f.1 = some f.2 := (Assoc.mem_iff_get h).1 (hsub f List.mem_cons_self)
      have hrest := ih fun f' hf' => hsub f' (List.mem_cons_of_mem _ hf')
      show (f.1 :: Assoc.keys sub).mapM (Assoc.get fields) = _
      rw [List.mapM_cons, hf, hrest]
      rfl
  rw [structFields, hfilter, if_pos h]
  exact hget fields fun _ hf => hf

section
variable {F : Type} {A : Dollars F} {T : StateText A}

theorem amountOf_amountJson {a : F} (h : A.isFinite a = true) : amountOf T (amountJson T a) = some a := by
  have hnumber := T.float_number a h
  rcases hn : T.number a with _ | n
  · rw [hn] at hnumber
    cases hnumber
  rw [hn] at hnumber
  rw [amountJson, hn]
  exact hnumber

theorem nodupKeys_amountJson (a : F) : (amountJson T a).nodupKeys = true := by
  unfold amountJson
  split <;> rfl

theorem isFinite_of_validAmount {a : F} (h : validAmount A a = true) : A.isFinite a = true :=
  (Bool.and_eq_true_iff.1 h).1

namespace SpendBreakdown

theorem ofJson_toJson {s : SpendBreakdown F} (h : ∀ accuracy, validAmount A (s.usd accuracy) = true) :
    SpendBreakdown.ofJson T (s.toJson T) = some s := by
  have hfields : structFields ["exact_usd", "estimated_usd"] (s.toJson T) =
      some [amountJson T s.exactUsd, amountJson T s.estimatedUsd] := structFields_object rfl (by decide)
  have hexact : A.isFinite s.exactUsd = true := isFinite_of_validAmount (h .exact)
  have hestimated : A.isFinite s.estimatedUsd = true := isFinite_of_validAmount (h .estimated)
  rw [SpendBreakdown.ofJson, hfields]
  simp only [amountOf_amountJson hexact, amountOf_amountJson hestimated]
  rfl

theorem nodupKeys_toJson (s : SpendBreakdown F) : (s.toJson T).nodupKeys = true := by
  rw [toJson, Json.nodupKeys_object]
  exact ⟨by simp [Assoc.keys], by simp [nodupKeys_amountJson]⟩

end SpendBreakdown

namespace WindowSpend

theorem ofJson_toJson {w : WindowSpend F} (h : ∀ accuracy, validAmount A (w.spend.usd accuracy) = true) :
    WindowSpend.ofJson T (w.toJson T) = some w := by
  have hfields : structFields ["starts_at", "spend"] (w.toJson T) =
      some [.string (T.time w.startsAt), w.spend.toJson T] := structFields_object rfl (by decide)
  rw [WindowSpend.ofJson, hfields]
  simp only [T.instant_time, SpendBreakdown.ofJson_toJson h]
  rfl

theorem nodupKeys_toJson (w : WindowSpend F) : (w.toJson T).nodupKeys = true := by
  rw [toJson, Json.nodupKeys_object]
  refine ⟨by simp [Assoc.keys], List.forall_mem_cons.2 ⟨rfl, ?_⟩⟩
  exact List.forall_mem_singleton.2 w.spend.nodupKeys_toJson

end WindowSpend

namespace GroupSpend

theorem ofJson_toJson {g : GroupSpend F} (h : g.Valid A) : GroupSpend.ofJson T (g.toJson T) = some g := by
  have hfields : structFields ["hourly", "daily", "monthly"] (g.toJson T) =
      some [g.hourly.toJson T, g.daily.toJson T, g.monthly.toJson T] := structFields_object rfl (by decide)
  have hhourly : WindowSpend.ofJson T (g.hourly.toJson T) = some g.hourly := WindowSpend.ofJson_toJson (h.spend .hourly)
  have hdaily : WindowSpend.ofJson T (g.daily.toJson T) = some g.daily := WindowSpend.ofJson_toJson (h.spend .daily)
  have hmonthly : WindowSpend.ofJson T (g.monthly.toJson T) = some g.monthly := WindowSpend.ofJson_toJson (h.spend .monthly)
  rw [GroupSpend.ofJson, hfields]
  simp only [hhourly, hdaily, hmonthly]
  rfl

theorem nodupKeys_toJson (g : GroupSpend F) : (g.toJson T).nodupKeys = true := by
  rw [toJson, Json.nodupKeys_object]
  refine ⟨by simp [Assoc.keys], List.forall_mem_cons.2 ⟨g.hourly.nodupKeys_toJson, List.forall_mem_cons.2 ⟨?_, ?_⟩⟩⟩
  · exact g.daily.nodupKeys_toJson
  · exact List.forall_mem_singleton.2 g.monthly.nodupKeys_toJson

end GroupSpend

namespace PersistedBudgetState
variable {state : PersistedBudgetState F}

theorem ext_groups {state' : PersistedBudgetState F} (hversion : state.version = state'.version)
    (hgroups : state.groups = state'.groups) : state = state' := by
  obtain ⟨version, groups, hsorted⟩ := state
  obtain ⟨version', groups', hsorted'⟩ := state'
  cases hversion
  cases hgroups
  rfl

theorem groupsOf_map (state : PersistedBudgetState F) {rest : List (String × GroupSpend F)} (hvalid : ∀ e ∈ rest, e.2.Valid A)
    (hsorted : (Assoc.keys (state.groups ++ rest)).Pairwise (· < ·)) :
    groupsOf T state (rest.map fun e => (e.1, e.2.toJson T)) = some ⟨state.version, state.groups ++ rest, hsorted⟩ := by
  induction rest generalizing state with
  | nil => exact congrArg some (ext_groups rfl (List.append_nil _).symm)
  | cons e rest ih =>
    obtain ⟨name, g⟩ := e
    have hlt : ∀ k ∈ Assoc.keys state.groups, k < name := by
      intro k hk
      rw [Assoc.keys, List.map_append, List.pairwise_append] at hsorted
      exact hsorted.2.2 k hk name List.mem_cons_self
    have hput : (state.put name g).groups ++ rest = state.groups ++ (name, g) :: rest := by
      show Assoc.insert state.groups name g ++ rest = _
      rw [Assoc.insert_of_forall_lt hlt, List.append_assoc, List.singleton_append]
    have hsorted' : (Assoc.keys ((state.put name g).groups ++ rest)).Pairwise (· < ·) := hput ▸ hsorted
    have hrest := ih (state.put name g) (fun e he => hvalid e (List.mem_cons_of_mem _ he)) hsorted'
    have hg : GroupSpend.ofJson T (g.toJson T) = some g := GroupSpend.ofJson_toJson (hvalid (name, g) List.mem_cons_self)
    rw [groupsOf] at hrest ⊢
    rw [List.map_cons, List.foldlM_cons, hg]
    refine Eq.trans hrest (congrArg some (ext_groups rfl hput))

theorem Valid.of_mem (h : state.Valid A) {e : String × GroupSpend F} (he : e ∈ state.groups) : e.2.Valid A :=
  h.groups e.1 e.2 ((Assoc.mem_iff_get state.nodup).1 he)

theorem ofJson_toJson (h : state.Valid A) : PersistedBudgetState.ofJson T (state.toJson T) = some state := by
  have hfields : structFields ["version", "groups"] (state.toJson T) =
      some [.number (.posInt (UInt64.ofNat state.version)),
        .object (state.groups.map fun e => (e.1, e.2.toJson T))] := structFields_object rfl (by decide)
  have hversion : versionOf (.number (.posInt (UInt64.ofNat state.version))) = some state.version := by
    rw [h.version]
    rfl
  rw [PersistedBudgetState.ofJson, hfields]
  simp only [hversion]
  let empty : PersistedBudgetState F := { default with version := state.version }
  have hgroups : groupsOf T empty (state.groups.map fun e => (e.1, e.2.toJson T)) = some state :=
    groupsOf_map empty (fun e => h.of_mem) state.sorted
  exact hgroups

theorem nodupKeys_toJson (state : PersistedBudgetState F) : (state.toJson T).nodupKeys = true := by
  have hgroups : (Json.object (state.groups.map fun e => (e.1, e.2.toJson T))).nodupKeys = true := by
    rw [Json.nodupKeys_object, Assoc.keys_map]
    refine ⟨state.nodup, fun f hf => ?_⟩
    obtain ⟨e, -, rfl⟩ := List.mem_map.1 hf
    exact GroupSpend.nodupKeys_toJson e.2
  rw [toJson, Json.nodupKeys_object]
  exact ⟨by simp [Assoc.keys], List.forall_mem_cons.2 ⟨rfl, List.forall_mem_singleton.2 hgroups⟩⟩

end PersistedBudgetState

theorem load_persisted {state : PersistedBudgetState F} {disk : Disk} (h : state.Valid A)
    (hfile : disk.file = some (state.encode T)) : load T disk = .ok state := by
  have hparse : (T.parse (state.encode T)).bind (PersistedBudgetState.ofJson T) = some state := by
    rw [PersistedBudgetState.encode, T.parse_print _ state.nodupKeys_toJson]
    exact PersistedBudgetState.ofJson_toJson h
  simp only [load, hfile, hparse, PersistedBudgetState.validate_eq_ok_iff.2 h]
  rfl

theorem valid_of_load {state : PersistedBudgetState F} {disk : Disk} (h : load T disk = .ok state) : state.Valid A := by
  unfold load at h
  split at h
  · cases h
    exact .default
  · split at h
    · cases h
    · obtain ⟨⟨⟩, hvalid, hstate⟩ := Checks.bind_eq_ok_iff.1 h
      cases hstate
      exact PersistedBudgetState.validate_eq_ok_iff.1 hvalid

theorem load_congr {disk disk' : Disk} (h : disk'.file = disk.file) : load T disk' = load T disk := by
  rw [load, h]
  rfl

variable {isUnix : Bool} {trouble : Option Trouble} {temporary : String} {bytes : List UInt8} {disk : Disk}

/-- The trouble is an error of the last step. -/
def SyncFails (trouble : Option Trouble) : Prop := ∃ written, trouble = some ⟨.syncDirectory, .error, written⟩

theorem temporary_of_prepared {d : Disk}
    (h : run temporary bytes trouble [.createTemporary, .write, .sync] disk = (.done, d)) :
    Assoc.get d.temporaries temporary = some bytes := by
  obtain ⟨d₁, -, h⟩ := exec_of_run_done h
  obtain ⟨d₂, hwrite, h⟩ := exec_of_run_done h
  obtain ⟨d₃, hsync, h⟩ := exec_of_run_done h
  cases hwrite
  cases hsync
  cases h
  exact Assoc.get_put_self

theorem syncFails_of_failed {d : Disk} (h : (run temporary bytes trouble (syncParentDirectory isUnix) d).1 = .failed) :
    isUnix = true ∧ SyncFails trouble := by
  rcases isUnix with _ | _
  · cases h
  refine ⟨rfl, ?_⟩
  rw [syncParentDirectory, if_pos rfl, run] at h
  split at h
  · rename_i outcome disk' hattempt
    unfold attempt at hattempt
    split at hattempt
    · rename_i step written hfilter
      obtain ⟨htrouble, hstep⟩ := Option.filter_eq_some_iff.1 hfilter
      obtain rfl : step = .syncDirectory := of_decide_eq_true hstep
      exact ⟨written, htrouble⟩
    · cases hattempt
      cases h
    · cases hattempt
      cases h
    · cases hattempt
  · cases h

/-- The file is left as it is, or has the new bytes; then an error comes from the directory sync. -/
theorem atomicReplace_cases (isUnix : Bool) (trouble : Option Trouble) (temporary : String) (bytes : List UInt8)
    (disk : Disk) :
    let r := atomicReplace isUnix trouble temporary bytes disk
    (r.1 ≠ .done ∧ r.2.file = disk.file) ∨
      r.2.file = some bytes ∧ (r.1 = .failed → isUnix = true ∧ SyncFails trouble) := by
  dsimp only
  have hdir : (run temporary bytes trouble [.createDir] disk).2.file = disk.file :=
    file_run temporary bytes trouble disk (by decide)
  unfold atomicReplace
  rcases hfirst : run temporary bytes trouble [.createDir] disk with ⟨outcome, d⟩
  rw [hfirst] at hdir
  cases outcome with
  | failed | stopped => exact .inl ⟨nofun, hdir⟩
  | done =>
    have hback : .rename ∉ syncParentDirectory isUnix := by cases isUnix <;> decide
    have hfront : .rename ∉ [Step.createTemporary, .write, .sync] := by decide
    have hreplace := run_replace hfront hback fun d' (h : run temporary bytes trouble _ d = _) =>
      temporary_of_prepared h
    dsimp only at hdir hreplace ⊢
    rcases hrun : run temporary bytes trouble
        ([.createTemporary, .write, .sync] ++ .rename :: syncParentDirectory isUnix) d with ⟨outcome, d'⟩
    rw [hrun, hdir] at hreplace
    simp only [hrun]
    rcases hreplace with ⟨hne, hfile⟩ | ⟨hfile, hstopped | ⟨d₂, hlast⟩⟩
    · cases outcome with
      | done => exact absurd rfl hne
      | failed | stopped => exact .inl ⟨nofun, hfile⟩
    · cases hstopped
      exact .inr ⟨hfile, nofun⟩
    · cases outcome with
      | done | stopped => exact .inr ⟨hfile, nofun⟩
      | failed => exact .inr ⟨hfile, fun _ => syncFails_of_failed (congrArg Prod.fst hlast)⟩

theorem atomicReplace_of_syncFails (bytes : List UInt8) (h : SyncFails trouble) (hfree : Assoc.get disk.temporaries temporary = none) :
    (atomicReplace true trouble temporary bytes disk).1 = .failed ∧
      (atomicReplace true trouble temporary bytes disk).2.file = some bytes := by
  obtain ⟨written, rfl⟩ := h
  simp [atomicReplace, syncParentDirectory, run, attempt, Step.exec, Step.cut, Option.filter, hfree]

/-! ### The law -/

/-- A state that a controller can hold: one that was loaded, or that a call has left. -/
def LiveState (A : Dollars F) : Type := { state : PersistedBudgetState F // state.Valid A }

structure AtomicLaw (T : StateText A) (call : BudgetCall F) (c : Conditions) (memory : PersistedBudgetState F)
    (disk : Disk) : Prop where
  err : ∀ e, (call.perform T c memory disk).result = some (.error e) →
    (call.perform T c memory disk).memory = memory ∧ load T (call.perform T c memory disk).disk = load T disk
  ok : ∀ answer, (call.perform T c memory disk).result = some (.ok answer) →
    (call.perform T c memory disk).memory ≠ memory →
      load T (call.perform T c memory disk).disk = .ok (call.perform T c memory disk).memory
  /-- Where the process has stopped, the file has the old state or the new one. -/
  stopped : (call.perform T c memory disk).result = none →
    load T (call.perform T c memory disk).disk = load T disk ∨
      ∃ answer next, call.run A memory c.now = .ok ⟨answer, some next⟩ ∧
        load T (call.perform T c memory disk).disk = .ok next
  persisted : ∀ answer next, call.run A memory c.now = .ok ⟨answer, some next⟩ →
    next.validate A = .ok ⟨⟩ ∧ ∀ d : Disk, d.file = some (next.encode T) → load T d = .ok next

variable {call : BudgetCall F} {c : Conditions} {memory : PersistedBudgetState F}

theorem BudgetCall.valid_next (h : memory.Valid A) {answer : BudgetAnswer F} {next : PersistedBudgetState F} {now : Int}
    (hrun : call.run A memory now = .ok ⟨answer, some next⟩) : next.Valid A := by
  by_cases hwrites : call.Writes A memory now
  · obtain ⟨answer', g, hrun', hg⟩ := run_of_writes hwrites
    rw [hrun] at hrun'
    cases hrun'
    exact h.put ((h.entry _ now).update hg)
  · rcases run_of_not_writes hwrites with ⟨e, he⟩ | ⟨-, answer', he⟩
    · rw [hrun] at he
      cases he
    · rw [hrun] at he
      cases he

theorem BudgetCall.valid_enter (h : memory.Valid A) (persist : PersistedBudgetState F → Bool) (now : Int) :
    (call.enter A persist memory now).2.Valid A := by
  unfold BudgetCall.enter
  split
  · exact h
  · exact h
  · rename_i answer next hrun
    split
    · exact valid_next h hrun
    · exact h

theorem BudgetCall.perform_eq_enter {result : Except (BudgetControllerError F) (BudgetAnswer F)}
    (h : (call.perform T c memory disk).result = some result) :
    call.enter A (fun next => (atomicReplace c.isUnix c.trouble c.temporary (next.encode T) disk).1.isDone) memory
      c.now = (result, (call.perform T c memory disk).memory) := by
  cases hrun : call.run A memory c.now with
  | error e =>
    simp only [perform, hrun] at h ⊢
    cases h
    simp only [enter, hrun]
  | ok u =>
    obtain ⟨answer, _ | next⟩ := u
    · simp only [perform, hrun] at h ⊢
      cases h
      simp only [enter, hrun]
    · rcases hreplace : atomicReplace c.isUnix c.trouble c.temporary (next.encode T) disk with ⟨outcome, d⟩
      simp only [perform, hrun, hreplace] at h ⊢
      simp only [enter, hrun, hreplace]
      cases outcome with
      | done | failed =>
        cases h
        rfl
      | stopped => cases h

theorem BudgetCall.perform_of_not_writes (T : StateText A) (disk : Disk) (h : ¬ call.Writes A memory c.now) :
    (call.perform T c memory disk).memory = memory ∧ (call.perform T c memory disk).disk = disk ∧
      (call.perform T c memory disk).result ≠ none := by
  rcases run_of_not_writes h with ⟨e, hrun⟩ | ⟨-, answer, hrun⟩ <;>
  · simp only [perform, hrun]
    exact ⟨trivial, trivial, nofun⟩

/-- The law holds for a call unless the directory sync fails behind its rename. -/
theorem atomicLaw_of_synced (h : memory.Valid A)
    (hsync : ¬ (c.isUnix = true ∧ SyncFails c.trouble ∧ call.Writes A memory c.now)) :
    AtomicLaw T call c memory disk := by
  have hpersisted : ∀ answer next, call.run A memory c.now = .ok ⟨answer, some next⟩ →
      next.validate A = .ok ⟨⟩ ∧ ∀ d : Disk, d.file = some (next.encode T) → load T d = .ok next := by
    intro answer next hrun
    have hvalid := BudgetCall.valid_next h hrun
    exact ⟨PersistedBudgetState.validate_eq_ok_iff.2 hvalid, fun d => load_persisted hvalid⟩
  by_cases hwrites : call.Writes A memory c.now
  · obtain ⟨answer, g, hrun, -⟩ := BudgetCall.run_of_writes hwrites
    have hload := (hpersisted _ _ hrun).2
    have hcases := atomicReplace_cases c.isUnix c.trouble c.temporary
      ((memory.put call.modelGroup g).encode T) disk
    dsimp only at hcases
    rcases hreplace : atomicReplace c.isUnix c.trouble c.temporary ((memory.put call.modelGroup g).encode T) disk with
      ⟨outcome, d⟩
    rw [hreplace] at hcases
    cases outcome with
    | done =>
      have hperform : call.perform T c memory disk = ⟨some (.ok answer), memory.put call.modelGroup g, d⟩ := by
        simp only [BudgetCall.perform, hrun, hreplace]
      have hfile : d.file = some ((memory.put call.modelGroup g).encode T) := by
        rcases hcases with ⟨hne, -⟩ | ⟨hfile, -⟩
        · exact absurd rfl hne
        · exact hfile
      refine ⟨?_, ?_, ?_, hpersisted⟩ <;> rw [hperform]
      · nofun
      · exact fun _ _ _ => hload d hfile
      · nofun
    | failed =>
      have hperform : call.perform T c memory disk = ⟨some (.error .persist), memory, d⟩ := by
        simp only [BudgetCall.perform, hrun, hreplace]
      have hfile : d.file = disk.file := by
        rcases hcases with ⟨-, hfile⟩ | ⟨-, hfails⟩
        · exact hfile
        · obtain ⟨hunix, hfails⟩ := hfails rfl
          exact absurd ⟨hunix, hfails, hwrites⟩ hsync
      refine ⟨?_, ?_, ?_, hpersisted⟩ <;> rw [hperform]
      · exact fun _ _ => ⟨rfl, load_congr hfile⟩
      · rintro _ ⟨⟩
      · rintro ⟨⟩
    | stopped =>
      have hperform : call.perform T c memory disk = ⟨none, memory, d⟩ := by
        simp only [BudgetCall.perform, hrun, hreplace]
      refine ⟨?_, ?_, ?_, hpersisted⟩ <;> rw [hperform]
      · rintro _ ⟨⟩
      · rintro _ ⟨⟩
      · rintro -
        rcases hcases with ⟨-, hfile⟩ | ⟨hfile, -⟩
        · exact .inl (load_congr hfile)
        · exact .inr ⟨answer, _, hrun, hload d hfile⟩
  · obtain ⟨hmemory, hdisk, hresult⟩ := BudgetCall.perform_of_not_writes T disk hwrites
    refine ⟨fun _ _ => ⟨hmemory, by rw [hdisk]⟩, fun _ _ hne => absurd hmemory hne, fun hnone => absurd hnone hresult,
      hpersisted⟩

theorem not_atomicLaw (hunix : c.isUnix = true) (hfails : SyncFails c.trouble)
    (hwrites : call.Writes A memory c.now) : ¬ AtomicLaw T call c memory ⟨none, []⟩ := by
  intro hlaw
  obtain ⟨answer, g, hrun, -⟩ := BudgetCall.run_of_writes hwrites
  have hfree : Assoc.get (⟨none, []⟩ : Disk).temporaries c.temporary = none := rfl
  obtain ⟨houtcome, hfile⟩ :=
    atomicReplace_of_syncFails ((memory.put call.modelGroup g).encode T) hfails hfree
  rcases hreplace : atomicReplace true c.trouble c.temporary ((memory.put call.modelGroup g).encode T) ⟨none, []⟩ with
    ⟨outcome, d⟩
  rw [hreplace] at houtcome hfile
  cases houtcome
  have hperform : call.perform T c memory ⟨none, []⟩ = ⟨some (.error .persist), memory, d⟩ := by
    simp only [BudgetCall.perform, hrun, hunix, hreplace]
  have hload := (hlaw.err .persist (by rw [hperform])).2
  rw [hperform, (hlaw.persisted _ _ hrun).2 _ hfile] at hload
  have hdefault : load T ⟨none, []⟩ = .ok PersistedBudgetState.default := rfl
  rw [hdefault, Except.ok.injEq] at hload
  have hget : (memory.put call.modelGroup g).get call.modelGroup = some g := by
    rw [PersistedBudgetState.get_put, if_pos rfl]
  rw [hload] at hget
  cases hget

/-- Whatever the file has, a call leaves memory and file as the law says exactly unless it writes on Unix and the
directory cannot be synced. -/
theorem atomic_iff (T : StateText A) (memory : LiveState A) (call : BudgetCall F) (c : Conditions) :
    (∀ disk, AtomicLaw T call c memory.1 disk) ↔
      ¬ (c.isUnix = true ∧ SyncFails c.trouble ∧ call.Writes A memory.1 c.now) := by
  constructor
  · rintro hlaw ⟨hunix, hfails, hwrites⟩
    exact not_atomicLaw hunix hfails hwrites (hlaw _)
  · exact fun hsync disk => atomicLaw_of_synced memory.2 hsync

end

def nanBits : UInt64 := 0x7ff8000000000000

def infinityBits : UInt64 := 0x7ff0000000000000

def finiteBits (a : UInt64) : Bool := a.toNat / 2 ^ 52 % 2 ^ 11 ≠ 2 ^ 11 - 1

def signBits : UInt64 := 0x8000000000000000

/-- The order of an amount with one that is not negative. -/
def bitsLt (a b : UInt64) : Bool :=
  if a ≤ infinityBits then b ≤ infinityBits && a < b
  else signBits < a && a ≤ signBits + infinityBits && b ≤ infinityBits

theorem finiteBits_zero : finiteBits 0 = true := by decide

theorem bitsLt_zero : bitsLt 0 0 = false := by decide

/-- Arithmetic with a zero; a run from the empty state with one charge needs no other. -/
def bitsDollars : Dollars UInt64 where
  ofNat n := if n = 0 then 0 else nanBits
  add a b := if a = 0 then b else if b = 0 then a else nanBits
  sub a b := if b = 0 then a else nanBits
  mul a b := if a = 0 ∨ b = 0 then 0 else nanBits
  div a b := if a = 0 then (if b = 0 then nanBits else 0) else nanBits
  max a b := if bitsLt a b then b else a
  lt := bitsLt
  le a b := bitsLt a b || a == b
  isFinite := finiteBits
  isFinite_zero := finiteBits_zero
  lt_zero_zero := bitsLt_zero

/-- The epoch as `chrono` prints it, other instants by their nanoseconds. -/
def timeText (t : Int) : List Char :=
  if t = 0 then "1970-01-01T00:00:00Z".toList
  else if 0 ≤ t then '+' :: Json.digits t.toNat else '-' :: Json.digits t.natAbs

theorem timeText_cases (t : Int) : t = 0 ∧ timeText t = "1970-01-01T00:00:00Z".toList ∨
    0 < t ∧ timeText t = '+' :: Json.digits t.toNat ∨ t < 0 ∧ timeText t = '-' :: Json.digits t.natAbs := by
  unfold timeText
  rcases lt_trichotomy t 0 with h | h | h
  · exact .inr (.inr ⟨h, by rw [if_neg (by omega), if_neg (by omega)]⟩)
  · exact .inl ⟨h, by rw [if_pos h]⟩
  · exact .inr (.inl ⟨h, by rw [if_neg (by omega), if_pos (by omega)]⟩)

theorem timeText_injective : Function.Injective fun t => String.ofList (timeText t) := by
  intro t t' h
  have htext : timeText t = timeText t' := String.ofList_injective h
  have hhead {c : Char} {n : Nat} (hc : c ≠ '1') : "1970-01-01T00:00:00Z".toList ≠ c :: Json.digits n :=
    fun heq => hc (List.cons.inj heq).1.symm
  have hsign {m n : Nat} : '+' :: Json.digits m ≠ '-' :: Json.digits n :=
    fun heq => absurd (List.cons.inj heq).1 (by decide)
  rcases timeText_cases t with ⟨ht, h₁⟩ | ⟨ht, h₁⟩ | ⟨ht, h₁⟩ <;>
    rcases timeText_cases t' with ⟨ht', h₂⟩ | ⟨ht', h₂⟩ | ⟨ht', h₂⟩ <;>
    rw [h₁, h₂] at htext
  · rw [ht, ht']
  · exact absurd htext (hhead (by decide))
  · exact absurd htext (hhead (by decide))
  · exact absurd htext.symm (hhead (by decide))
  · have hdigits := Json.digits_injective (List.cons.inj htext).2
    omega
  · exact absurd htext hsign
  · exact absurd htext.symm (hhead (by decide))
  · exact absurd htext.symm hsign
  · have hdigits := Json.digits_injective (List.cons.inj htext).2
    omega

def floatBits : Number → Option UInt64
  | .float bits => some bits.1
  | .posInt _ | .negInt _ => none

theorem floatBits_fromF64 (a : UInt64) (h : bitsDollars.isFinite a = true) :
    (Number.fromF64 a).bind floatBits = some a := by
  rw [Number.fromF64, dif_pos (of_decide_eq_true h)]
  rfl

def stateBytes (v : Json) : List UInt8 := Utf8.encode (Json.print Json.wireNumbers v)

theorem stateBytes_injective : Function.Injective stateBytes := by
  intro v w h
  have htext := congrArg Utf8.lossy h
  rw [stateBytes, stateBytes, Utf8.lossy_encode, Utf8.lossy_encode] at htext
  exact Json.print_injective htext

noncomputable def bitsText : StateText bitsDollars where
  number := Number.fromF64
  float := floatBits
  float_number := floatBits_fromF64
  time t := String.ofList (timeText t)
  instant := Function.partialInv fun t => String.ofList (timeText t)
  instant_time := Function.partialInv_left timeText_injective
  print := stateBytes
  parse := Function.partialInv stateBytes
  parse_print v _ := Function.partialInv_left stateBytes_injective v

def halfDollar : BudgetCall UInt64 := .recordSpend "chat" ⟨0x3fe0000000000000, .exact⟩ none

def unsynced : Conditions where
  isUnix := true
  trouble := some { step := .syncDirectory, fault := .error }
  temporary := ".budget-state.json.1.0.tmp"
  now := 0

/-- The call returns an error and the state in memory is empty, but half a dollar is in the file. -/
theorem sync_error_keeps_new_file : ¬ AtomicLaw bitsText halfDollar unsynced .default ⟨none, []⟩ := by
  refine not_atomicLaw rfl ⟨0, rfl⟩ ⟨by decide, ⟨⟨0, ⟨0x3fe0000000000000, 0⟩⟩, ⟨0, ⟨0x3fe0000000000000, 0⟩⟩,
    ⟨0, ⟨0x3fe0000000000000, 0⟩⟩⟩, ?_⟩
  rfl

/-! ### Runs with restarts -/

section
variable {F : Type} {A : Dollars F} {T : StateText A} {disk : Disk} {memory : PersistedBudgetState F}

/-- What a process holds after loading the file. -/
structure BudgetProcess (F : Type) where
  memory : Except BudgetLoadError (PersistedBudgetState F)
  disk : Disk

def BudgetProcess.start (T : StateText A) (disk : Disk) : BudgetProcess F := ⟨load T disk, disk⟩

/-- A call; where the process stops in it, the next one loads the file. -/
def BudgetProcess.step (T : StateText A) (s : BudgetProcess F) (a : BudgetCall F × Conditions) : BudgetProcess F :=
  match s.memory with
  | .error _ => s
  | .ok memory =>
    let p := a.1.perform T a.2 memory s.disk
    if p.result.isSome then ⟨.ok p.memory, p.disk⟩ else .start T p.disk

/-- A call leaves memory and file as they were, or a valid state is in the file; only a failed sync leaves another in memory. -/
theorem BudgetCall.perform_cases (T : StateText A) (call : BudgetCall F) (c : Conditions) (disk : Disk) (h : memory.Valid A) :
    let p := call.perform T c memory disk
    (p.memory = memory ∧ load T p.disk = load T disk) ∨ ∃ next, next.Valid A ∧ load T p.disk = .ok next ∧
      (p.memory = next ∨ p.memory = memory ∧ (p.result = none ∨ SyncFails c.trouble)) := by
  cases hrun : call.run A memory c.now with
  | error e => simp [perform, hrun]
  | ok u =>
    obtain ⟨answer, _ | next⟩ := u
    · simp [perform, hrun]
    · have hvalid := valid_next h hrun
      have hcases := atomicReplace_cases c.isUnix c.trouble c.temporary (next.encode T) disk
      dsimp only at hcases
      rcases hreplace : atomicReplace c.isUnix c.trouble c.temporary (next.encode T) disk with ⟨outcome, d⟩
      rw [hreplace] at hcases
      rcases hcases with ⟨hne, hfile⟩ | ⟨hfile, hsync⟩
      · left
        cases outcome with
        | done => exact absurd rfl hne
        | failed | stopped => simp only [perform, hrun, hreplace, load_congr hfile, and_self]
      · refine .inr ⟨next, hvalid, ?_⟩
        cases outcome with
        | done | stopped => simp [perform, hrun, hreplace, load_persisted hvalid hfile]
        | failed => simp [perform, hrun, hreplace, load_persisted hvalid hfile, (hsync rfl).2]

/-- A valid state is in memory and one can be loaded; where nothing has gone wrong with a sync, it is the same. -/
def BudgetProcess.Durable (T : StateText A) (synced : Prop) (s : BudgetProcess F) : Prop :=
  ∃ memory state, s.memory = .ok memory ∧ memory.Valid A ∧ load T s.disk = .ok state ∧ (synced → state = memory)

theorem BudgetProcess.durable_start {state : PersistedBudgetState F} (h : load T disk = .ok state) (synced : Prop) :
    Durable T synced (start T disk) := ⟨state, state, h, valid_of_load h, h, fun _ => rfl⟩

theorem BudgetProcess.durable_step {synced : Prop} {s : BudgetProcess F} {a : BudgetCall F × Conditions}
    (hs : s.Durable T synced) (ha : synced → ¬ SyncFails a.2.trouble) : (s.step T a).Durable T synced := by
  obtain ⟨memory, state, hmemory, hvalid, hload, hsame⟩ := hs
  simp only [step, hmemory]
  rcases BudgetCall.perform_cases T a.1 a.2 s.disk hvalid with ⟨hkept, hfile⟩ | ⟨next, hnext, hfile, hheld⟩
  · split
    · exact ⟨_, state, rfl, by rwa [hkept], hfile.trans hload, fun h => (hsame h).trans hkept.symm⟩
    · exact durable_start (hfile.trans hload) synced
  · split
    · rename_i hanswer
      rcases hheld with hheld | ⟨hkept, hnone | hfails⟩
      · exact ⟨_, next, rfl, hheld ▸ hnext, hfile, fun _ => hheld.symm⟩
      · simp [hnone] at hanswer
      · exact ⟨_, next, rfl, by rwa [hkept], hfile, fun h => absurd hfails (ha h)⟩
    · exact durable_start hfile synced

/-- Wherever processes stop, the next one can load the file; unless a sync fails, what it loads is the state in
memory. -/
theorem budget_runs_durable (T : StateText A) (as : List (BudgetCall F × Conditions)) {state : PersistedBudgetState F}
    (h : load T disk = .ok state) :
    let s := Run.run (BudgetProcess.step T) (.start T disk) as
    ∃ memory loaded, s.memory = .ok memory ∧ memory.Valid A ∧ load T s.disk = .ok loaded ∧ loaded.Valid A ∧
      ((∀ a ∈ as, ¬ SyncFails a.2.trouble) → loaded = memory) := by
  have hstep (synced : Prop) (hall : synced → ∀ a ∈ as, ¬ SyncFails a.2.trouble) :
      (Run.run (BudgetProcess.step T) (.start T disk) as).Durable T synced :=
    Run.invariant (P := fun _ a => synced → ¬ SyncFails a.2.trouble) (fun _ _ => BudgetProcess.durable_step)
      (BudgetProcess.durable_start h synced) (Run.along_of_forall fun _ a ha hs => hall hs a ha)
  obtain ⟨memory, loaded, hmemory, hvalid, hload, hsame⟩ := hstep _ id
  exact ⟨memory, loaded, hmemory, hvalid, hload, valid_of_load hload, hsame⟩

end

theorem crashes_durable : load bitsText ⟨none, []⟩ = .ok .default ∧
    (Run.run (BudgetProcess.step bitsText) (.start bitsText ⟨none, []⟩)
      [(halfDollar, { unsynced with trouble := some ⟨.rename, .stop, 0⟩ }), (halfDollar, unsynced)]).memory.isOk = true := by
  obtain ⟨memory, -, h, -⟩ := budget_runs_durable bitsText
    [(halfDollar, { unsynced with trouble := some ⟨.rename, .stop, 0⟩ }), (halfDollar, unsynced)]
    (show load _ ⟨none, []⟩ = .ok .default from rfl)
  exact ⟨rfl, by rw [h]; rfl⟩

end ObeyGateway.SmartRouting
