import ObeyGateway.VirtualKeys.Anchor
import Mathlib.Algebra.Field.Rat

/-!
# Usage rows and counters

`UsageTracker::record` is two statements: the row is inserted, then the counters of the key are
advanced. When the second fails the row stays (`recordOutcome`). The counters of a key are the sums
over its counted entries (`Balanced`), and with a ledger in which everything is counted the sums over
its usage rows.
-/

namespace ObeyGateway.VirtualKeys

variable {L : Type}

/-- The row that `insert_usage_record` writes. -/
def usageRow (record : UsageRecord) : UsageRow where
  keyId := record.keyId
  modelGroup := record.modelGroup
  model := record.model
  inputTokens := asI64 record.inputTokens.toNat
  outputTokens := asI64 record.outputTokens.toNat
  costUsd := record.costUsd
  timestamp := toEpochSecs record.timestamp

theorem asI64_of_lt {n : Nat} (h : n < 2 ^ 63) : asI64 n = n := by
  unfold asI64
  exact Int.bmod_eq_of_le (by omega) (by omega)

/-- What one `record` does to the tables: nothing, the row alone, or row and counters. -/
inductive RecordOutcome (env : Env) (m : Manager L) (r : UsageRecord) : Except KeyStoreError Unit → Manager L → Prop
  | refused (why : env.io 0 = false ∨ r.keyId ∉ m.store.rows.map (·.id)) :
      RecordOutcome env m r (.error .database) m
  | rowOnly {db} (known : r.keyId ∈ m.store.rows.map (·.id)) (inserts : env.io 0 = true) (fails : env.io 1 = false)
      (rows : db.rows = m.store.rows) (usage : db.usage = m.store.usage ++ [usageRow r]) :
      RecordOutcome env m r (.error .database) { m with store := db }
  | both {db} (known : r.keyId ∈ m.store.rows.map (·.id)) (inserts : env.io 0 = true) (counts : env.io 1 = true)
      (rows : db.rows = modifyRows r.keyId (KeyDb.addUsage r.costUsd (tokensDelta r) env.now) m.store.rows)
      (usage : db.usage = m.store.usage ++ [usageRow r]) :
      RecordOutcome env m r (.ok ()) { m with store := db }

theorem recordOutcome (env : Env) (m : Manager L) (r : UsageRecord) :
    RecordOutcome env m r (m.record env r).1 (m.record env r).2 := by
  by_cases hin : env.io 0 = true ∧ r.keyId ∈ m.store.rows.map (·.id)
  · rcases hup : env.io 1 with _ | _
    · simp only [Manager.record, KeyDb.insertUsageRecord, dif_pos hin, KeyDb.updateUsageCounters, hup]
      exact .rowOnly hin.2 hin.1 hup rfl rfl
    simp only [Manager.record, KeyDb.insertUsageRecord, dif_pos hin, KeyDb.updateUsageCounters, hup]
    exact .both hin.2 hin.1 hup rfl rfl
  · simp only [Manager.record, KeyDb.insertUsageRecord, dif_neg hin]
    refine .refused ?_
    by_cases hio : env.io 0 = true
    · exact .inr fun hmem => hin ⟨hio, hmem⟩
    · exact .inl (by simpa using hio)

theorem insertUsageRecord_isOk (db : KeyDb L) (ok : Bool) (r : UsageRecord) :
    (db.insertUsageRecord ok r).isOk = true ↔ ok = true ∧ r.keyId ∈ db.rows.map (·.id) := by
  by_cases hin : ok = true ∧ r.keyId ∈ db.rows.map (·.id)
  · simp only [KeyDb.insertUsageRecord, dif_pos hin]
    exact iff_of_true rfl hin
  · simp only [KeyDb.insertUsageRecord, dif_neg hin]
    exact iff_of_false Bool.false_ne_true hin

theorem deleteKey_cases (env : Env) (m : Manager L) (id : String) :
    ((m.deleteKey env id).1.isOk = false ∧ (m.deleteKey env id).2 = m) ∨
      ((m.deleteKey env id).1.isOk = true ∧
        (m.deleteKey env id).2.store.rows = m.store.rows.filter (·.id ≠ id) ∧
        (m.deleteKey env id).2.store.usage = m.store.usage.filter (·.keyId ≠ id)) := by
  unfold Manager.deleteKey
  split
  · exact .inl ⟨rfl, rfl⟩
  · exact .inl ⟨rfl, rfl⟩
  · cases hio : env.io 1 with
    | false => exact .inl ⟨rfl, rfl⟩
    | true => exact .inr ⟨rfl, rfl, rfl⟩

/-- The usage rows are the business of `record` and `delete_key`. -/
theorem step_usage (D : Deps L) (env : Env) {op : KeyOp L} (m : Manager L) (hrecord : ∀ r, op ≠ .record r)
    (hdelete : ∀ id, op ≠ .deleteKey id) : (m.step D (env, op)).store.usage = m.store.usage := by
  have hupdate {db' : KeyDb L} {ok : Bool} {id : String} {u : KeyUpdates L}
      (h : m.store.updateKey ok id u = .ok db') : db'.usage = m.store.usage := by
    unfold KeyDb.updateKey at h
    split at h
    · cases h; rfl
    · split at h
      · cases h; rfl
      · cases h
  have hprevious {db' : KeyDb L} {ok : Bool} {now : Int} {id : String} {previous : ℚ × Nat}
      (h : m.store.resetWindowCountersWithPrevious ok now id = .ok (previous, db')) : db'.usage = m.store.usage := by
    unfold KeyDb.resetWindowCountersWithPrevious at h
    dsimp only at h
    split at h
    · split at h
      · split at h
        · cases h; rfl
        · cases h
      · cases h; rfl
    · cases h
  have hreset {db' : KeyDb L} {ok : Bool} {now : Int} {id : String}
      (h : m.store.resetWindowCounters ok now id = .ok db') : db'.usage = m.store.usage := by
    unfold KeyDb.resetWindowCounters at h
    cases hp : m.store.resetWindowCountersWithPrevious ok now id with
    | error e => rw [hp] at h; cases h
    | ok p => rw [hp] at h; cases h; exact hprevious hp
  cases op with
  | record r => exact absurd rfl (hrecord r)
  | deleteKey id => exact absurd rfl (hdelete id)
  | restart => rfl
  | authenticate rawKey =>
    simp only [Manager.step, Manager.authenticate]
    split
    · rfl
    · split <;> rfl
  | createKey fullKey uuid p =>
    simp only [Manager.step, Manager.createKey]
    split
    · rfl
    · split
      · rfl
      · split
        · rfl
        · rename_i hdb
          unfold KeyDb.createKey at hdb
          split at hdb
          · cases hdb; rfl
          · cases hdb
  | checkBudgetAt key now =>
    simp only [Manager.step, Manager.checkBudgetAt]
    split
    · split
      · exact hreset ‹_›
      · rfl
    · rfl
  | updateKey id p =>
    simp only [Manager.step, Manager.updateKey]
    split
    · rfl
    · rfl
    · split
      · rfl
      · split
        · rfl
        · split
          · rfl
          · exact hupdate ‹_›
  | revokeKey id =>
    simp only [Manager.step, Manager.revokeKey]
    split
    · rfl
    · rfl
    · split
      · rfl
      · split
        · rfl
        · exact hupdate ‹_›
  | resetWindowCounters id =>
    simp only [Manager.step]
    split
    · exact hreset ‹_›
    · rfl
  | resetKeyWindow id =>
    simp only [Manager.step, Manager.resetKeyWindow]
    split
    · rfl
    · rfl
    · split
      · rfl
      · exact hprevious ‹_›

/-- A usage row, by the record it was made from, and whether the counters were advanced for it. -/
structure LedgerEntry where
  record : UsageRecord
  counted : Bool

abbrev Ledger := List LedgerEntry

namespace Ledger

def of (ledger : Ledger) (id : String) : Ledger := ledger.filter (·.record.keyId = id)

def counted (ledger : Ledger) : Ledger := ledger.filter (·.counted)

def spend (ledger : Ledger) : ℚ := (ledger.map (·.record.costUsd)).sum

def tokens (ledger : Ledger) : Int := (ledger.map fun e => tokensDelta e.record).sum

end Ledger

structure Booked (L : Type) where
  manager : Manager L
  ledger : Ledger

namespace Booked

def step (D : Deps L) (s : Booked L) (op : Env × KeyOp L) : Booked L where
  manager := s.manager.step D op
  ledger := match op with
    | (env, .record r) =>
      if (s.manager.store.insertUsageRecord (env.io 0) r).isOk then
        s.ledger ++ [⟨r, (s.manager.record env r).1.isOk⟩]
      else s.ledger
    -- the usage rows of a key go with it
    | (env, .deleteKey id) =>
      if (s.manager.deleteKey env id).1.isOk then s.ledger.filter (·.record.keyId ≠ id) else s.ledger
    | _ => s.ledger

def after (D : Deps L) (ops : List (Env × KeyOp L)) : Booked L :=
  Run.run (step D) ⟨Manager.new KeyDb.empty, []⟩ ops

end Booked

def ResetsWindow : Env × KeyOp L → Prop
  | (_, .checkBudgetAt key now) => needsReset key now = true
  | (_, .resetWindowCounters _) | (_, .resetKeyWindow _) => True
  | _ => False

structure CountersOf (r : KeyRow L) (entries : Ledger) : Prop where
  spend : r.currentSpendUsd = entries.spend
  tokens : r.currentTokensUsed = entries.tokens
  requests : r.requestCount = entries.length

structure Balanced (s : Booked L) : Prop where
  usage : s.manager.store.usage = s.ledger.map (usageRow ·.record)
  counters : ∀ r ∈ s.manager.store.rows, CountersOf r (s.ledger.of r.id).counted

namespace Ledger

variable {ledger ledger' : Ledger} {e : LedgerEntry} {id : String}

theorem of_append (ledger ledger' : Ledger) (id : String) :
    Ledger.of (ledger ++ ledger') id = ledger.of id ++ ledger'.of id := List.filter_append _ _

theorem of_singleton (e : LedgerEntry) : Ledger.of [e] e.record.keyId = [e] :=
  List.filter_cons_of_pos (by simp)

theorem of_singleton_of_ne (h : e.record.keyId ≠ id) : Ledger.of [e] id = [] :=
  List.filter_cons_of_neg (by simpa using h)

theorem counted_append (ledger ledger' : Ledger) :
    Ledger.counted (ledger ++ ledger') = ledger.counted ++ ledger'.counted := List.filter_append _ _

theorem of_filter_ne {gone : String} (h : id ≠ gone) (ledger : Ledger) :
    Ledger.of (ledger.filter (·.record.keyId ≠ gone)) id = ledger.of id := by
  unfold Ledger.of
  rw [List.filter_filter]
  refine List.filter_congr fun e _ => ?_
  by_cases he : e.record.keyId = id
  · simp [he, h]
  · simp [he]

theorem of_eq_nil (h : ∀ e ∈ ledger, e.record.keyId ≠ id) : ledger.of id = [] :=
  List.filter_eq_nil_iff.2 fun e he => by simpa using h e he

end Ledger

variable {r : KeyRow L} {entries : Ledger}

theorem CountersOf.addUsage (h : CountersOf r entries) (rec : UsageRecord) (now : Int) :
    CountersOf (KeyDb.addUsage rec.costUsd (tokensDelta rec) now r) (entries ++ [⟨rec, true⟩]) where
  spend := by
    show r.currentSpendUsd + rec.costUsd = _
    rw [h.spend]
    simp only [Ledger.spend, List.map_append, List.map_cons, List.map_nil, List.sum_append, List.sum_singleton]
  tokens := by
    show r.currentTokensUsed + tokensDelta rec = _
    rw [h.tokens]
    simp only [Ledger.tokens, List.map_append, List.map_cons, List.map_nil, List.sum_append, List.sum_singleton]
  requests := by
    show r.requestCount + 1 = _
    rw [h.requests, List.length_append, Nat.cast_add]
    rfl

theorem CountersOf.congr {r' : KeyRow L} (h : CountersOf r entries)
    (hspend : r'.currentSpendUsd = r.currentSpendUsd) (htokens : r'.currentTokensUsed = r.currentTokensUsed)
    (hrequests : r'.requestCount = r.requestCount) : CountersOf r' entries :=
  ⟨hspend.trans h.spend, htokens.trans h.tokens, hrequests.trans h.requests⟩

/-! ### The ledger balances -/

namespace Balanced

variable {D : Deps L} {env : Env} {s : Booked L} {id : String}

theorem new : Balanced (⟨Manager.new KeyDb.empty, []⟩ : Booked L) :=
  ⟨rfl, fun r hr => absurd hr (by simp [Manager.new, KeyDb.empty])⟩

theorem of_rows {m' : Manager L} (h : Balanced s) (husage : m'.store.usage = s.manager.store.usage)
    (hrows : ∀ r' ∈ m'.store.rows, ∃ r ∈ s.manager.store.rows, r'.id = r.id ∧
      r'.currentSpendUsd = r.currentSpendUsd ∧ r'.currentTokensUsed = r.currentTokensUsed ∧
      r'.requestCount = r.requestCount) :
    Balanced ⟨m', s.ledger⟩ := by
  refine ⟨husage.trans h.usage, fun r' hr' => ?_⟩
  obtain ⟨r, hr, hid, hspend, htokens, hrequests⟩ := hrows r' hr'
  show CountersOf r' (s.ledger.of r'.id).counted
  rw [hid]
  exact (h.counters r hr).congr hspend htokens hrequests

theorem of_modifyRows {m' : Manager L} {f : KeyRow L → KeyRow L} (h : Balanced s)
    (husage : m'.store.usage = s.manager.store.usage) (hrows : m'.store.rows = modifyRows id f s.manager.store.rows)
    (hf : ∀ r, (f r).id = r.id ∧ (f r).currentSpendUsd = r.currentSpendUsd ∧
      (f r).currentTokensUsed = r.currentTokensUsed ∧ (f r).requestCount = r.requestCount) :
    Balanced ⟨m', s.ledger⟩ := by
  refine h.of_rows husage fun r' hr' => ?_
  rw [hrows] at hr'
  obtain ⟨r, hr, rfl⟩ := mem_modifyRows.1 hr'
  refine ⟨r, hr, ?_⟩
  split
  · exact hf r
  · exact ⟨rfl, rfl, rfl, rfl⟩

theorem record (h : Balanced s) (rec : UsageRecord) : Balanced (s.step D (env, .record rec)) := by
  have hok := insertUsageRecord_isOk s.manager.store (env.io 0) rec
  have hcases := recordOutcome env s.manager rec
  show Balanced ⟨(s.manager.record env rec).2, if (s.manager.store.insertUsageRecord (env.io 0) rec).isOk then
    s.ledger ++ [⟨rec, (s.manager.record env rec).1.isOk⟩] else s.ledger⟩
  generalize (s.manager.record env rec).1 = answer at hcases ⊢
  generalize (s.manager.record env rec).2 = m' at hcases ⊢
  cases hcases with
  | refused why =>
    have hno : ¬ (s.manager.store.insertUsageRecord (env.io 0) rec).isOk = true := by
      rw [hok]
      rintro ⟨hio, hmem⟩
      rcases why with hf | hf
      · rw [hio] at hf
        cases hf
      · exact hf hmem
    rw [if_neg hno]
    exact h
  | rowOnly known inserts fails rows usage =>
    rw [if_pos (hok.2 ⟨inserts, known⟩)]
    refine ⟨by rw [usage, h.usage, List.map_append]; rfl, fun r hr => ?_⟩
    show CountersOf r (Ledger.of (s.ledger ++ [⟨rec, false⟩]) r.id).counted
    have hnone : (Ledger.of [⟨rec, false⟩] r.id).counted = [] := by
      by_cases hid : rec.keyId = r.id
      · rw [← hid]
        exact congrArg Ledger.counted (Ledger.of_singleton ⟨rec, false⟩)
      · rw [Ledger.of_singleton_of_ne hid]
        rfl
    rw [Ledger.of_append, Ledger.counted_append, hnone, List.append_nil]
    exact h.counters r (rows ▸ hr)
  | both known inserts counts rows usage =>
    rw [if_pos (hok.2 ⟨inserts, known⟩)]
    refine ⟨by rw [usage, h.usage, List.map_append]; rfl, fun r' hr' => ?_⟩
    rw [rows] at hr'
    obtain ⟨r, hr, rfl⟩ := mem_modifyRows.1 hr'
    show CountersOf _ (Ledger.of (s.ledger ++ [⟨rec, true⟩]) _).counted
    have hr := h.counters r hr
    by_cases hid : r.id = rec.keyId
    · have hone : (Ledger.of [⟨rec, true⟩] rec.keyId).counted = [⟨rec, true⟩] :=
        congrArg Ledger.counted (Ledger.of_singleton ⟨rec, true⟩)
      rw [if_pos hid]
      show CountersOf _ (Ledger.of (s.ledger ++ [⟨rec, true⟩]) r.id).counted
      rw [Ledger.of_append, Ledger.counted_append, hid, hone, ← hid]
      exact hr.addUsage rec env.now
    · rw [if_neg hid, Ledger.of_append, Ledger.of_singleton_of_ne (fun he => hid he.symm), List.append_nil]
      exact hr

theorem deleteKey (h : Balanced s) (id : String) : Balanced (s.step D (env, .deleteKey id)) := by
  show Balanced ⟨(s.manager.deleteKey env id).2, if (s.manager.deleteKey env id).1.isOk then
    s.ledger.filter (·.record.keyId ≠ id) else s.ledger⟩
  rcases deleteKey_cases env s.manager id with ⟨hno, hsame⟩ | ⟨hok, hrows, husage⟩
  · rw [hno, hsame]
    exact h
  · rw [hok, if_pos rfl]
    refine ⟨?_, fun r hr => ?_⟩
    · rw [husage, h.usage, List.filter_map]
      rfl
    · rw [hrows] at hr
      obtain ⟨hr, hne⟩ := List.mem_filter.1 hr
      show CountersOf r (Ledger.of (s.ledger.filter (·.record.keyId ≠ id)) r.id).counted
      rw [Ledger.of_filter_ne (by simpa using hne)]
      exact h.counters r hr

/-- Any other operation that resets no window leaves the counters of the keys there are; a new key has counters at
zero. -/
theorem other {op : KeyOp L} (h : Balanced s) (hrecord : ∀ r, op ≠ .record r) (hdelete : ∀ id, op ≠ .deleteKey id)
    (hreset : ¬ ResetsWindow (env, op)) : Balanced (s.step D (env, op)) := by
  have hledger : (s.step D (env, op)).ledger = s.ledger := by
    cases op with
    | record r => exact absurd rfl (hrecord r)
    | deleteKey id => exact absurd rfl (hdelete id)
    | _ => rfl
  have husage := step_usage D env s.manager hrecord hdelete
  have hchange := Manager.step_change (D := D) (m := s.manager) (env, op)
  show Balanced ⟨s.manager.step D (env, op), (s.step D (env, op)).ledger⟩
  rw [hledger]
  generalize s.manager.step D (env, op) = m' at husage hchange ⊢
  cases hchange with
  | same => exact h
  | load | restart => exact h.of_rows husage fun r hr => ⟨r, hr, rfl, rfl, rfl, rfl⟩
  | expire due rows => exact absurd due hreset
  | reset | adminReset => exact absurd trivial hreset
  | logged | used => exact absurd rfl (hrecord _)
  | delete mem hid rows => exact absurd rfl (hdelete _)
  | update mem hid read live valid found wrote rows =>
    exact h.of_modifyRows husage rows fun r => ⟨rfl, rfl, rfl, rfl⟩
  | revoke mem hid rows => exact h.of_modifyRows husage rows fun r => ⟨rfl, rfl, rfl, rfl⟩
  | @create _ fullKey uuid p encryptedKey db valid fresh rows =>
    refine ⟨husage.trans h.usage, fun r hr => ?_⟩
    have hnodup := db.ids_nodup
    rw [rows, List.map_append] at hnodup
    rw [show db.rows = _ from rows] at hr
    rcases List.mem_append.1 hr with hr | hr
    · exact h.counters r hr
    · rw [List.mem_singleton.1 hr]
      have hnone : s.ledger.of uuid = [] := by
        refine Ledger.of_eq_nil fun e he heq => ?_
        have hrow : usageRow e.record ∈ s.manager.store.usage := by
          rw [h.usage]
          exact List.mem_map_of_mem he
        have hold : uuid ∈ s.manager.store.rows.map (·.id) := heq ▸ s.manager.store.usage_keys _ hrow
        exact (List.nodup_append.1 hnodup).2.2 _ hold _ (List.mem_singleton_self _) rfl
      show CountersOf _ (s.ledger.of uuid).counted
      have hzero : asI64 0 = 0 := asI64_of_lt (by omega)
      rw [hnone]
      refine ⟨rfl, ?_, ?_⟩
      · simp only [storedKeyToRow, newKey, hzero]
        rfl
      · simp only [storedKeyToRow, newKey, hzero]
        rfl

theorem step (h : Balanced s) (op : Env × KeyOp L) (hreset : ¬ ResetsWindow op) : Balanced (s.step D op) := by
  obtain ⟨env, op⟩ := op
  cases op with
  | record rec => exact h.record rec
  | deleteKey id => exact h.deleteKey id
  | _ => exact h.other (by simp) (by simp) hreset

theorem run {ops : List (Env × KeyOp L)} (hreset : ∀ op ∈ ops, ¬ ResetsWindow op) : Balanced (Booked.after D ops) := by
  refine Run.invariant (P := fun _ op => ¬ ResetsWindow op) (fun s op h hop => h.step op hop) Balanced.new ?_
  exact Run.along_of_forall fun _ op hop => hreset op hop

end Balanced

structure SumsOf (r : KeyRow L) (rows : List UsageRow) : Prop where
  spend : r.currentSpendUsd = (rows.map (·.costUsd)).sum
  tokens : r.currentTokensUsed = (rows.map fun u => u.inputTokens + u.outputTokens).sum
  requests : r.requestCount = rows.length

/-- The token count of the record is an `i64`. -/
def FitsI64 (r : UsageRecord) : Prop := r.inputTokens.toNat + r.outputTokens.toNat < 2 ^ 63

theorem tokensDelta_of_fits {r : UsageRecord} (h : FitsI64 r) : tokensDelta r = r.inputTokens.toNat + r.outputTokens.toNat ∧
      (usageRow r).inputTokens + (usageRow r).outputTokens = tokensDelta r := by
  unfold FitsI64 at h
  have hmin : min (r.inputTokens.toNat + r.outputTokens.toNat) (2 ^ 64 - 1) =
      r.inputTokens.toNat + r.outputTokens.toNat := Nat.min_eq_left (by omega)
  have hdelta : tokensDelta r = r.inputTokens.toNat + r.outputTokens.toNat := by
    rw [tokensDelta, hmin, asI64_of_lt h, Nat.cast_add]
  refine ⟨hdelta, ?_⟩
  rw [hdelta, usageRow, asI64_of_lt (by omega), asI64_of_lt (by omega)]

/-- With every entry counted the counters are the sums over the usage rows. -/
theorem CountersOf.sums (h : CountersOf r entries.counted)
    (hall : ∀ e ∈ entries, e.counted = true ∧ FitsI64 e.record) : SumsOf r (entries.map (usageRow ·.record)) := by
  have hcounted : entries.counted = entries := List.filter_eq_self.2 fun e he => (hall e he).1
  rw [hcounted] at h
  have htokens : entries.map (fun e => tokensDelta e.record) =
      (entries.map (usageRow ·.record)).map fun u => u.inputTokens + u.outputTokens := by
    rw [List.map_map]
    refine List.map_congr_left fun e he => ?_
    rw [Function.comp_apply, (tokensDelta_of_fits (hall e he).2).2]
  refine ⟨?_, ?_, ?_⟩
  · rw [h.spend, Ledger.spend, List.map_map]
    rfl
  · rw [h.tokens, Ledger.tokens, htokens]
  · rw [h.requests, List.length_map]

theorem usage_of_key {s : Booked L} (h : Balanced s) (id : String) :
    s.manager.store.usage.filter (·.keyId = id) = (s.ledger.of id).map (usageRow ·.record) := by
  rw [h.usage, List.filter_map]
  rfl

theorem booked_manager (D : Deps L) (ops : List (Env × KeyOp L)) : (Booked.after D ops).manager = Manager.after D ops := by
  induction ops using List.reverseRecOn with
  | nil => rfl
  | append_singleton ops op ih =>
    rw [Booked.after, Manager.after, Run.run_concat, Run.run_concat]
    exact congrArg (Manager.step D · op) ih

/-- The law of usage recording: what one `record` can do, and what the counters of a key are after any
run without a reset. -/
theorem usage_recording_law (D : Deps L) :
    (∀ env (m : Manager L) r, RecordOutcome env m r (m.record env r).1 (m.record env r).2) ∧
    ∀ ops : List (Env × KeyOp L), (∀ op ∈ ops, ¬ ResetsWindow op) →
      Balanced (Booked.after D ops) ∧
      -- where no record of the key stopped half-way
      ∀ r ∈ (Manager.after D ops).store.rows,
        (∀ e ∈ (Booked.after D ops).ledger.of r.id, e.counted = true ∧ FitsI64 e.record) →
        SumsOf r ((Manager.after D ops).store.usage.filter (·.keyId = r.id)) := by
  refine ⟨recordOutcome, fun ops hreset => ?_⟩
  have hbal := Balanced.run (D := D) hreset
  refine ⟨hbal, fun r hr hall => ?_⟩
  rw [← booked_manager] at hr ⊢
  rw [usage_of_key hbal]
  exact (hbal.counters r hr).sums hall

def halfRecorded : List (Env × KeyOp Unit) :=
  [(sampleEnv 0, .createKey "vk" "id" {}),
   (sampleEnv 0, .record ⟨"id", "g", "m", 3, 4, 1, 0⟩),
   (⟨0, fun k => k = 0⟩, .record ⟨"id", "g", "m", 5, 6, 2, 0⟩)]

/-- The failed record leaves its row: the counters stand at one request, the usage rows at two. -/
theorem half_recorded : (∀ op ∈ halfRecorded, ¬ ResetsWindow op) ∧
    ((Manager.after sampleDeps (halfRecorded.take 2)).record ⟨0, fun k => k = 0⟩ ⟨"id", "g", "m", 5, 6, 2, 0⟩).1.isOk = false ∧
    (Manager.after sampleDeps halfRecorded).store.usage.length =
      (Manager.after sampleDeps (halfRecorded.take 2)).store.usage.length + 1 ∧
    (Manager.after sampleDeps halfRecorded).store.rows.map (fun r => (r.currentTokensUsed, r.requestCount)) = [(7, 1)] ∧
    (Manager.after sampleDeps halfRecorded).store.usage.map (fun u => (u.inputTokens, u.outputTokens)) = [(3, 4), (5, 6)] := by
  refine ⟨by simp [halfRecorded, ResetsWindow], ?_⟩
  decide +kernel

/-- Up to the failure the counters are the sums over the usage rows. -/
theorem usage_recording_law_counted : ∀ r ∈ (Manager.after sampleDeps (halfRecorded.take 2)).store.rows,
      SumsOf r ((Manager.after sampleDeps (halfRecorded.take 2)).store.usage.filter (·.keyId = r.id)) := by
  intro r hr
  refine ((usage_recording_law sampleDeps).2 _ (by simp [halfRecorded, ResetsWindow])).2 r hr fun e he => ?_
  have hall : ∀ e ∈ (Booked.after sampleDeps (halfRecorded.take 2)).ledger, e.counted = true ∧
      e.record.inputTokens.toNat + e.record.outputTokens.toNat < 2 ^ 63 := by decide +kernel
  exact hall e (List.mem_of_mem_filter he)

end ObeyGateway.VirtualKeys
