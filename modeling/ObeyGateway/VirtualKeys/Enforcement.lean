import ObeyGateway.VirtualKeys.Anchor
import Mathlib.Tactic.Linarith

/-!
# Budget enforcement against the durable counters

`authenticate` hands out the counters of the cache entry when there is one, and `record` advances those of the row
without dropping it. As long as usage is recorded only for keys without a cache entry (`RecordsUncached`), every entry
carries the counters of its row, or the row has been reset since (`Snapshot`); a row over its limit is then rejected.
-/

namespace ObeyGateway.VirtualKeys

variable {L : Type} {D : Deps L} {m : Manager L}

/-- The key carries the counters and the window start of its row, or anything when the row stands at its reset. -/
def NotOlder (key : AuthenticatedKey L) (r : KeyRow L) : Prop :=
  (key.currentSpendUsd = r.currentSpendUsd ∧ key.currentTokensUsed = asU64 r.currentTokensUsed ∧
    key.windowStart = r.windowStartTimestamp.map fromEpochSecs) ∨
  (r.currentSpendUsd = 0 ∧ r.currentTokensUsed = 0)

structure Snapshot (key : AuthenticatedKey L) (r : KeyRow L) : Prop where
  id : key.id = r.id
  budgetLimitUsd : key.budgetLimitUsd = r.budgetLimitUsd
  tokenBudget : key.tokenBudget = r.tokenBudget
  budgetWindow : key.budgetWindow = r.budgetWindow
  counters : NotOlder key r

structure Coherent (m : Manager L) : Prop where
  usd : ∀ r ∈ m.store.rows, ∀ limit, r.budgetLimitUsd = some limit → 0 < limit
  tokens : ∀ r ∈ m.store.rows, ∀ limit, r.tokenBudget = some limit → 0 < limit
  cache : CacheRel Snapshot m

def RecordsUncached (m : Manager L) : Env × KeyOp L → Prop
  | (_, .record rec) =>
    (rec.costUsd = 0 ∧ tokensDelta rec = 0) ∨
      ∀ r ∈ m.store.rows, r.id = rec.keyId → m.cache r.keyHash = none
  | _ => True

def OverBudget (r : KeyRow L) : Prop :=
  (∃ limit, r.budgetLimitUsd = some limit ∧ limit ≤ r.currentSpendUsd) ∨
    ∃ limit, r.tokenBudget = some limit ∧ limit ≤ asU64 r.currentTokensUsed

/-- The budget window of the row has run out at `now`. -/
def RowExpired (r : KeyRow L) (now : Int) : Prop :=
  ∃ w t, r.budgetWindow = some w ∧ r.windowStartTimestamp = some t ∧
    windowExpired w (fromEpochSecs t) now = true

theorem fieldError_nil {α : Type} {value : Option α} {valid : α → Bool} {field message : String}
    (h : fieldError value valid field message = []) {v : α} (hv : value = some v) :
    valid v = true := by
  subst hv
  simp only [fieldError] at h
  split at h
  · assumption
  · cases h

theorem constraintErrors_nil {tpmMax : Nat} {tpmMessage : String} {name : Option String}
    {usd : Option ℚ} {tokenBudget rpm tpm : Option Nat} {access : Option (List String)}
    {loop : Option L}
    (h : constraintErrors D tpmMax tpmMessage name usd tokenBudget rpm tpm access loop = []) :
    (∀ limit, usd = some limit → 0 < limit) ∧ (∀ limit, tokenBudget = some limit → 0 < limit) := by
  simp only [constraintErrors, List.append_eq_nil_iff] at h
  obtain ⟨⟨⟨⟨⟨⟨-, husd⟩, htok⟩, -⟩, -⟩, -⟩, -⟩ := h
  constructor
  · intro limit hl
    have := fieldError_nil husd hl
    simp only [Bool.and_eq_true, decide_eq_true_eq] at this
    linarith [this.1]
  · intro limit hl
    have := fieldError_nil htok hl
    simp only [Bool.and_eq_true, decide_eq_true_eq] at this
    omega

theorem getD_pos {α : Type} [LT α] [Zero α] {u : Option (Option α)} {old : Option α} {limit : α}
    (hu : ∀ limit, u.join = some limit → 0 < limit) (hold : ∀ limit, old = some limit → 0 < limit)
    (h : u.getD old = some limit) : 0 < limit := by
  cases u with
  | none => exact hold limit h
  | some v => exact hu limit h

variable {r : KeyRow L}

theorem snapshot_of_read {k : StoredVirtualKey L} (h : rowToStoredKey r = .ok k) :
    Snapshot (storedToAuthenticated k) r := by
  obtain ⟨hf, htok, hstart, -⟩ := rowToStoredKey_fields h
  exact
    { id := congrArg KeyFields.id hf
      budgetLimitUsd := congrArg KeyFields.budgetLimitUsd hf
      tokenBudget := congrArg KeyFields.tokenBudget hf
      budgetWindow := congrArg KeyFields.budgetWindow hf
      counters := .inl ⟨congrArg KeyFields.currentSpendUsd hf, htok, hstart⟩ }

theorem Snapshot.zeroCounters {e : AuthenticatedKey L} (h : Snapshot e r) (t : Int) : Snapshot e (KeyDb.zeroCounters t r) :=
  ⟨h.id, h.budgetLimitUsd, h.tokenBudget, h.budgetWindow, .inr ⟨rfl, rfl⟩⟩

theorem Snapshot.addZero {e : AuthenticatedKey L} (h : Snapshot e r) (t : Int) : Snapshot e (KeyDb.addUsage 0 0 t r) := by
  refine ⟨h.id, h.budgetLimitUsd, h.tokenBudget, h.budgetWindow, ?_⟩
  simpa [NotOlder, KeyDb.addUsage] using h.counters

namespace Coherent

theorem new : Coherent (Manager.new (KeyDb.empty : KeyDb L)) where
  usd := by simp [Manager.new, KeyDb.empty]
  tokens := by simp [Manager.new, KeyDb.empty]
  cache := CacheRel.new _

variable {m' : Manager L} {op : Env × KeyOp L}

theorem usd_change (h : Coherent m) (hc : Change D m op m') :
    ∀ r ∈ m'.store.rows, ∀ limit, r.budgetLimitUsd = some limit → 0 < limit := by
  refine hc.forall_rows h.usd ?_ (fun _ _ hr => hr) (fun _ _ _ _ hr => hr) ?_ (fun _ hr => hr)
  · intro env fullKey uuid p encryptedKey hv
    exact (constraintErrors_nil hv).1
  · intro env id p _ hv _ _ r _ k _ _ _ hr limit
    exact getD_pos (constraintErrors_nil hv).1 hr

theorem tokens_change (h : Coherent m) (hc : Change D m op m') :
    ∀ r ∈ m'.store.rows, ∀ limit, r.tokenBudget = some limit → 0 < limit := by
  refine hc.forall_rows h.tokens ?_ (fun _ _ hr => hr) (fun _ _ _ _ hr => hr) ?_ (fun _ hr => hr)
  · intro env fullKey uuid p encryptedKey hv
    exact (constraintErrors_nil hv).2
  · intro env id p _ hv _ _ r _ k _ _ _ hr limit
    exact getD_pos (constraintErrors_nil hv).2 hr

theorem change (h : Coherent m) (hrec : RecordsUncached m op) (hc : Change D m op m') : Coherent m' := by
  refine ⟨h.usd_change hc, h.tokens_change hc,
    h.cache.change hc (fun r k => snapshot_of_read) (fun e r t hs => hs.zeroCounters t) ?_⟩
  rintro env rec rfl e r hr hid hit hs
  rcases hrec with ⟨hcost, htokens⟩ | huncached
  · rw [hcost, htokens]
    exact hs.addZero _
  · have hmiss := huncached r hr hid
    rw [hit] at hmiss
    cases hmiss

theorem snapshot_of_authenticate {env : Env} {rawKey : String} {key : AuthenticatedKey L} {r : KeyRow L} (h : Coherent m) (hr : r ∈ m.store.rows)
    (hh : r.keyHash = D.sha256Hex rawKey) (ha : m.authenticate D env rawKey = (.ok key, m')) :
    Snapshot key r := by
  rcases Manager.authenticate_ok ha with ⟨hit, -⟩ | ⟨-, r', hr', k, hh', hread, rfl, -⟩
  · obtain ⟨r', hr', hh', hs⟩ := h.cache _ _ hit
    rwa [m.store.eq_of_hash_eq hr hr' (hh.trans hh'.symm)]
  · rw [m.store.eq_of_hash_eq hr hr' (hh.trans hh'.symm)]
    exact snapshot_of_read hread

end Coherent

/-! ### The decision -/

theorem evaluateLimits_ok {key : AuthenticatedKey L} {spend : ℚ} {tokens : Nat}
    (h : evaluateLimits key spend tokens = .ok ()) :
    (∀ limit, key.budgetLimitUsd = some limit → spend < limit) ∧
      ∀ limit, key.tokenBudget = some limit → tokens < limit := by
  unfold evaluateLimits at h
  split at h
  · cases h
  · rename_i husd
    split at h
    · cases h
    · rename_i htok
      refine ⟨fun limit hl => ?_, fun limit hl => ?_⟩
      · simpa [hl] using husd
      · simpa [hl] using htok

/-- A snapshot of a row over its limit, in its running window, does not pass. -/
theorem Snapshot.not_ok {key : AuthenticatedKey L} {now : Int} (h : Snapshot key r)
    (m : Manager L) (env : Env) (husd : ∀ limit, r.budgetLimitUsd = some limit → 0 < limit)
    (htok : ∀ limit, r.tokenBudget = some limit → 0 < limit) (hover : OverBudget r)
    (hopen : ¬ RowExpired r now) : (m.checkBudgetAt env key now).1 ≠ .ok () := by
  intro hok
  rcases h.counters with ⟨hspend, htokens, hstart⟩ | ⟨hspend, htokens⟩
  · have hreset : needsReset key now = false := by
      rw [Bool.eq_false_iff]
      intro hdue
      unfold needsReset at hdue
      split at hdue
      · rename_i w t hw ht
        rw [hstart, Option.map_eq_some_iff] at ht
        obtain ⟨t, ht, rfl⟩ := ht
        exact hopen ⟨w, t, by rw [← h.budgetWindow]; exact hw, ht, hdue⟩
      · cases hdue
    simp only [Manager.checkBudgetAt, hreset] at hok
    obtain ⟨hlu, hlt⟩ := evaluateLimits_ok hok
    rcases hover with ⟨limit, hl, hle⟩ | ⟨limit, hl, hle⟩
    · have := hlu limit (by rw [h.budgetLimitUsd, hl])
      rw [hspend] at this
      linarith
    · have := hlt limit (by rw [h.tokenBudget, hl])
      omega
  · -- a row at its reset is under its positive limits
    rcases hover with ⟨limit, hl, hle⟩ | ⟨limit, hl, hle⟩
    · have := husd limit hl
      rw [hspend] at hle
      linarith
    · have := htok limit hl
      rw [htokens] at hle
      have : asU64 0 = 0 := by decide
      omega

/-- Whether the next request with `rawKey` passes both checks at `now`. -/
def Manager.admits (D : Deps L) (env : Env) (m : Manager L) (rawKey : String) (now : Int) : Bool :=
  match m.authenticate D env rawKey with
  | (.ok key, m') => (m'.checkBudgetAt env key now).1.isOk
  | (.error _, _) => false

/-- In every run that records usage only for uncached keys, what `authenticate` hands out is never
older than the durable usage, and a key over its budget within its window is rejected. -/
theorem over_budget_rejected (D : Deps L) (ops : List (Env × KeyOp L))
    (h : Run.Along (Manager.step D) RecordsUncached (Manager.new KeyDb.empty) ops)
    (rawKey : String) (r : KeyRow L) (hr : r ∈ (Manager.after D ops).store.rows)
    (hh : r.keyHash = D.sha256Hex rawKey) (env : Env) :
    (∀ key m', (Manager.after D ops).authenticate D env rawKey = (.ok key, m') → NotOlder key r) ∧
      ∀ now, OverBudget r → ¬ RowExpired r now →
        (Manager.after D ops).admits D env rawKey now = false := by
  have hI : Coherent (Manager.after D ops) :=
    Run.invariant (fun m op hI hrec => hI.change hrec (Manager.step_change op)) Coherent.new h
  refine ⟨fun key m' ha => (hI.snapshot_of_authenticate hr hh ha).counters,
    fun now hover hopen => ?_⟩
  unfold Manager.admits
  split
  · rename_i key m' ha
    have hno := (hI.snapshot_of_authenticate hr hh ha).not_ok m' env
      (hI.usd r hr) (hI.tokens r hr) hover hopen
    cases hd : (m'.checkBudgetAt env key now).1 with
    | error e => rfl
    | ok u => exact absurd hd hno
  · rfl

def cachedRun : List (Env × KeyOp Unit) :=
  [(sampleEnv 0, .createKey "vk" "id" { budgetLimitUsd := some 1 }),
   (sampleEnv 0, .authenticate "vk"),
   (sampleEnv 0, .record ⟨"id", "g", "m", 0, 0, 1, 0⟩)]

theorem cachedRun_admits : ∃ r ∈ (Manager.after sampleDeps cachedRun).store.rows,
      (r.keyHash = sampleDeps.sha256Hex "vk" ∧ r.status = .active) ∧ OverBudget r ∧
        ¬ RowExpired r 0 ∧
        (Manager.after sampleDeps cachedRun).admits sampleDeps (sampleEnv 0) "vk" 0 = true := by
  have hrow : ∃ r ∈ (Manager.after sampleDeps cachedRun).store.rows,
      r.keyHash = sampleDeps.sha256Hex "vk" ∧ r.status = .active ∧
        r.budgetLimitUsd = some 1 ∧ r.currentSpendUsd = 1 ∧ r.budgetWindow = none := by
    decide +kernel
  obtain ⟨r, hr, hh, hact, hlimit, hspend, hwin⟩ := hrow
  refine ⟨r, hr, ⟨hh, hact⟩, .inl ⟨1, hlimit, by rw [hspend]⟩, ?_, by decide +kernel⟩
  rintro ⟨w, t, hw, -⟩
  rw [hwin] at hw
  cases hw

def uncachedRun : List (Env × KeyOp Unit) :=
  [(sampleEnv 0, .createKey "vk" "id" { budgetLimitUsd := some 1 }),
   (sampleEnv 0, .record ⟨"id", "g", "m", 0, 0, 1, 0⟩),
   (sampleEnv 0, .authenticate "vk")]

theorem uncachedRun_rejects : (Manager.after sampleDeps uncachedRun).admits sampleDeps (sampleEnv 0) "vk" 0 = false := by
  have hrow : ∃ r ∈ (Manager.after sampleDeps uncachedRun).store.rows,
      r.keyHash = sampleDeps.sha256Hex "vk" ∧ r.budgetLimitUsd = some 1 ∧
        r.currentSpendUsd = 1 ∧ r.budgetWindow = none := by
    decide +kernel
  have hmiss : ((Run.run (Manager.step sampleDeps) (Manager.new KeyDb.empty)
      (uncachedRun.take 1)).cache "vk").isNone = true ∧
      ∀ r ∈ (Run.run (Manager.step sampleDeps) (Manager.new KeyDb.empty)
        (uncachedRun.take 1)).store.rows, r.keyHash = "vk" := by
    decide +kernel
  obtain ⟨r, hr, hh, hlimit, hspend, hwin⟩ := hrow
  have halong : Run.Along (Manager.step sampleDeps) RecordsUncached (Manager.new KeyDb.empty)
      uncachedRun := by
    refine ⟨trivial, .inr fun r hr _ => ?_, trivial, trivial⟩
    rw [hmiss.2 r hr]
    exact Option.isNone_iff_eq_none.1 hmiss.1
  refine (over_budget_rejected sampleDeps uncachedRun halong "vk" r hr hh (sampleEnv 0)).2 0
    (.inl ⟨1, hlimit, by rw [hspend]⟩) ?_
  rintro ⟨w, t, hw, -⟩
  rw [hwin] at hw
  cases hw

end ObeyGateway.VirtualKeys
