import ObeyGateway.VirtualKeys.Enforcement

/-!
# One reset per window

The check of a request decides about a reset on the window start carried by the authenticated key, while the reset
moves that of the row: a cache entry loaded before asks for it again. When every later request finds no cache entry, or
one whose window has not expired (`InWindow`), the window is reset once and the row holds the sum.
-/

namespace ObeyGateway.VirtualKeys

variable {L : Type} {D : Deps L} {m : Manager L}

/-- A request: the environments of its two checks, the time of the budget check and the usage it
records when it completes. -/
structure Request where
  auth : Env
  now : Int
  reset : Env
  usage : Option (Env × UsageRecord)

structure WindowRun (L : Type) where
  manager : Manager L
  spend : ℚ
  tokens : Int
  resets : Nat

def complete (s : WindowRun L) (keyId : String) : Option (Env × UsageRecord) → WindowRun L
  | none => s
  | some (env, u) =>
    match s.manager.record env { u with keyId := keyId } with
    | (.error _, m) => { s with manager := m }
    | (.ok _, m) =>
      { s with manager := m, spend := s.spend + u.costUsd, tokens := s.tokens + tokensDelta u }

def serve (D : Deps L) (rawKey : String) (s : WindowRun L) (q : Request) : WindowRun L :=
  match s.manager.authenticate D q.auth rawKey with
  | (.error _, m) => { s with manager := m }
  | (.ok key, m) =>
    let resets := if needsReset key q.now then s.resets + 1 else s.resets
    match m.checkBudgetAt q.reset key q.now with
    | (.error _, m) => { s with manager := m, resets := resets }
    | (.ok _, m) => complete { s with manager := m, resets := resets } key.id q.usage

inductive WindowEvent (L : Type)
  | request (q : Request)
  | other (op : Env × KeyOp L)

def windowStep (D : Deps L) (rawKey : String) (s : WindowRun L) : WindowEvent L → WindowRun L
  | .request q => serve D rawKey s q
  | .other op => { s with manager := s.manager.step D op }

def Quiet (id : String) : KeyOp L → Prop
  | .checkBudgetAt key _ => key.id ≠ id
  | .record rec => rec.keyId ≠ id
  | .updateKey id' p => id' = id → p.budgetWindow = none
  | .deleteKey id' => id' ≠ id
  | .resetWindowCounters id' => id' ≠ id
  | .resetKeyWindow id' => id' ≠ id
  | _ => True

/-- A request in the period of `start` without a cache entry of an expired window, or an operation on something else. -/
def InWindow (D : Deps L) (rawKey id : String) (w : BudgetWindow) (start : Int)
    (s : WindowRun L) : WindowEvent L → Prop
  | .request q =>
    period w q.now = period w start ∧
      ∀ e, s.manager.cache (D.sha256Hex rawKey) = some e → needsReset e q.now = false
  | .other op => Quiet id op.2

/-- The request is let through, the window of the row and of the cache entry has expired, and the reset is written in
its period. -/
structure OpensWindow (D : Deps L) (m : Manager L) (rawKey : String) (r : KeyRow L)
    (w : BudgetWindow) (q : Request) : Prop where
  mem : r ∈ m.store.rows
  hash : r.keyHash = D.sha256Hex rawKey
  window : r.budgetWindow = some w
  read : ∃ k, rowToStoredKey r = .ok k ∧
    validateStatus (storedToAuthenticated k) q.auth.now = .ok (storedToAuthenticated k) ∧
    needsReset (storedToAuthenticated k) q.now = true
  cached : ∀ e, m.cache (D.sha256Hex rawKey) = some e →
    validateStatus e q.auth.now = .ok e ∧ needsReset e q.now = true
  stored : q.auth.io 0 = true ∧ q.reset.io 0 = true
  clock : period w q.reset.now = period w q.now

theorem cacheNamesRow_change {m' : Manager L} {op : Env × KeyOp L}
    (h : CacheRel (fun e r => e.id = r.id) m) (hc : Change D m op m') :
    CacheRel (fun e r => e.id = r.id) m' :=
  h.change hc (fun _ _ hread => (snapshot_of_read hread).id) (fun _ _ _ hid => hid)
    (fun _ _ _ _ _ _ _ _ hid => hid)

theorem cacheNamesRow_after (ops : List (Env × KeyOp L)) : CacheRel (fun e r => e.id = r.id) (Manager.after D ops) :=
  Run.invariant_of_step (fun _ op hI => cacheNamesRow_change hI (Manager.step_change op)) (CacheRel.new _)

def SameBudget (r r' : KeyRow L) : Prop :=
  r'.id = r.id ∧ r'.keyHash = r.keyHash ∧ r'.budgetWindow = r.budgetWindow ∧
    r'.windowStartTimestamp = r.windowStartTimestamp ∧ r'.currentSpendUsd = r.currentSpendUsd ∧
    r'.currentTokensUsed = r.currentTokensUsed

theorem SameBudget.refl (r : KeyRow L) : SameBudget r r := ⟨rfl, rfl, rfl, rfl, rfl, rfl⟩

variable {r : KeyRow L}

theorem mem_modifyRows_self {id : String} {f : KeyRow L → KeyRow L} {rows : List (KeyRow L)} (hr : r ∈ rows) (hf : r.id = id → SameBudget r (f r)) :
    ∃ r' ∈ modifyRows id f rows, SameBudget r r' := by
  refine ⟨_, mem_modifyRows.2 ⟨r, hr, rfl⟩, ?_⟩
  split
  · exact hf ‹_›
  · exact SameBudget.refl r

/-- An operation on something else leaves the row's budget as it is. -/
theorem Change.sameBudget {m' : Manager L} {op : Env × KeyOp L} (hc : Change D m op m') (hr : r ∈ m.store.rows) (hq : Quiet r.id op.2) :
    ∃ r' ∈ m'.store.rows, SameBudget r r' := by
  cases hc with
  | same => exact ⟨r, hr, SameBudget.refl r⟩
  | create hv hfresh hrows =>
    exact ⟨r, by rw [hrows]; exact List.mem_append_left _ hr, SameBudget.refl r⟩
  | load => exact ⟨r, hr, SameBudget.refl r⟩
  | expire hdue hrows =>
    rw [hrows]
    exact mem_modifyRows_self hr fun hid => absurd hid.symm hq
  | logged hrows => exact ⟨r, by rw [hrows]; exact hr, SameBudget.refl r⟩
  | used hrows =>
    rw [hrows]
    exact mem_modifyRows_self hr fun hid => absurd hid.symm hq
  | @update env id p r₀ k db hr₀ hid₀ hk hlive hv hfound hwrote hrows =>
    simp only [Manager.invalidateCache_store, hrows]
    refine mem_modifyRows_self hr fun hid => ?_
    have hp : p.budgetWindow = none := hq hid.symm
    exact ⟨rfl, rfl, by simp [KeyUpdates.apply, keyUpdates, hp], rfl, rfl, rfl⟩
  | revoke hr₀ hid₀ hrows =>
    simp only [Manager.invalidateCache_store, hrows]
    exact mem_modifyRows_self hr fun _ => ⟨rfl, rfl, rfl, rfl, rfl, rfl⟩
  | delete hr₀ hid₀ hrows =>
    simp only [Manager.invalidateCache_store, hrows]
    have hne : ¬ r.id = _ := fun hid => hq hid.symm
    exact ⟨r, List.mem_filter.2 ⟨hr, by simpa using hne⟩, SameBudget.refl r⟩
  | reset hrows =>
    rw [hrows]
    exact mem_modifyRows_self hr fun hid => absurd hid.symm hq
  | adminReset hr₀ hid₀ hrows =>
    simp only [Manager.invalidateCache_store, hrows]
    exact mem_modifyRows_self hr fun hid => absurd hid.symm hq
  | restart => exact ⟨r, hr, SameBudget.refl r⟩

/-! ### One request -/

theorem authenticate_store (env : Env) (rawKey : String) : (m.authenticate D env rawKey).2.store = m.store := by
  unfold Manager.authenticate
  dsimp only
  split
  · rfl
  · split <;> rfl

theorem record_cases (env : Env) (u : UsageRecord) : (∃ db, m.record env u = (.ok (), { m with store := db }) ∧
      db.rows = modifyRows u.keyId (KeyDb.addUsage u.costUsd (tokensDelta u) env.now)
        m.store.rows) ∨
    ∃ e db, m.record env u = (.error e, { m with store := db }) ∧ db.rows = m.store.rows := by
  unfold Manager.record
  split
  · rename_i e _
    exact .inr ⟨e, m.store, rfl, rfl⟩
  · rename_i db hins
    have hrows := KeyDb.insertUsageRecord_rows hins
    split
    · rename_i e _
      exact .inr ⟨e, db, rfl, hrows⟩
    · rename_i db' hup
      exact .inl ⟨db', rfl, by rw [← hrows]; exact KeyDb.updateUsageCounters_rows hup⟩

/-- The account of a window: one reset so far, and the row holds the usage recorded since. -/
structure InAccount (D : Deps L) (rawKey id : String) (w : BudgetWindow) (start : Int)
    (s : WindowRun L) : Prop where
  row : ∃ r ∈ s.manager.store.rows, (r.id = id ∧ r.keyHash = D.sha256Hex rawKey) ∧
    (r.budgetWindow = some w ∧ r.windowStartTimestamp = some (toEpochSecs start)) ∧
    r.currentSpendUsd = s.spend ∧ r.currentTokensUsed = s.tokens
  resets : s.resets = 1
  names : CacheRel (fun e r => e.id = r.id) s.manager

section
variable {rawKey id : String} {w : BudgetWindow} {start : Int} {s : WindowRun L}

theorem InAccount.other (h : InAccount D rawKey id w start s) {op : Env × KeyOp L}
    (hq : Quiet id op.2) : InAccount D rawKey id w start (windowStep D rawKey s (.other op)) := by
  have hc : Change D s.manager op (s.manager.step D op) := Manager.step_change op
  refine ⟨?_, h.resets, cacheNamesRow_change h.names hc⟩
  obtain ⟨r, hr, ⟨hid, hhash⟩, ⟨hw, hstart⟩, hspend, htokens⟩ := h.row
  obtain ⟨r', hr', h1, h2, h3, h4, h5, h6⟩ := hc.sameBudget hr (by rw [hid]; exact hq)
  exact ⟨r', hr', ⟨h1.trans hid, h2.trans hhash⟩, ⟨h3.trans hw, h4.trans hstart⟩,
    h5.trans hspend, h6.trans htokens⟩

theorem InAccount.authenticate_ok (h : InAccount D rawKey id w start s) {q : Request}
    (hq : InWindow D rawKey id w start s (.request q)) {key : AuthenticatedKey L}
    {m' : Manager L} (ha : s.manager.authenticate D q.auth rawKey = (.ok key, m')) :
    key.id = id ∧ needsReset key q.now = false := by
  obtain ⟨hperiod, hfresh⟩ := hq
  obtain ⟨r, hr, ⟨hid, hhash⟩, ⟨hw, hstart⟩, -, -⟩ := h.row
  rcases Manager.authenticate_ok ha with ⟨hit, -⟩ | ⟨-, r', hr', k, hhash', hread, rfl, -⟩
  · obtain ⟨r', hr', hhash', hid'⟩ := h.names _ _ hit
    rw [s.manager.store.eq_of_hash_eq hr' hr (hhash'.trans hhash.symm), hid] at hid'
    exact ⟨hid', hfresh key hit⟩
  · obtain rfl := s.manager.store.eq_of_hash_eq hr' hr (hhash'.trans hhash.symm)
    have hs := snapshot_of_read hread
    refine ⟨hs.id.trans hid, ?_⟩
    have hws : (storedToAuthenticated k).windowStart = some (fromEpochSecs (toEpochSecs start)) := by
      rw [show (storedToAuthenticated k).windowStart = k.windowStart from rfl,
        (rowToStoredKey_fields hread).2.2.1, hstart]
      rfl
    simp only [needsReset, hs.budgetWindow, hw, hws]
    refine windowExpired_of_period_eq ?_
    rw [period_fromEpochSecs, hperiod]

theorem InAccount.complete (h : InAccount D rawKey id w start s) (usage : Option (Env × UsageRecord)) :
    InAccount D rawKey id w start (complete s id usage) := by
  cases usage with
  | none => exact h
  | some eu =>
    obtain ⟨env, u⟩ := eu
    have hc : Change D s.manager (env, .record { u with keyId := id }) _ := Manager.record_change _
    have hnames := cacheNamesRow_change h.names hc
    obtain ⟨r, hr, ⟨hid, hhash⟩, hwin, hspend, htokens⟩ := h.row
    unfold VirtualKeys.complete
    rcases record_cases (m := s.manager) env { u with keyId := id } with
      ⟨db, heq, hrows⟩ | ⟨e, db, heq, hrows⟩
    · simp only [heq] at hnames ⊢
      refine ⟨⟨KeyDb.addUsage u.costUsd (tokensDelta u) env.now r, ?_, ⟨hid, hhash⟩, hwin, ?_, ?_⟩,
        h.resets, hnames⟩
      · show _ ∈ db.rows
        rw [hrows, mem_modifyRows]
        exact ⟨r, hr, by rw [if_pos hid]; rfl⟩
      · simp [KeyDb.addUsage, hspend]
      · simp [KeyDb.addUsage, htokens]
    · simp only [heq] at hnames ⊢
      exact ⟨⟨r, by rw [hrows]; exact hr, ⟨hid, hhash⟩, hwin, hspend, htokens⟩, h.resets, hnames⟩

theorem InAccount.of_store_eq (h : InAccount D rawKey id w start s) {m' : Manager L}
    {op : Env × KeyOp L} (hc : Change D s.manager op m') (hstore : m'.store = s.manager.store) :
    InAccount D rawKey id w start { s with manager := m' } :=
  ⟨by simpa only [hstore] using h.row, h.resets, cacheNamesRow_change h.names hc⟩

theorem InAccount.request (h : InAccount D rawKey id w start s) {q : Request}
    (hq : InWindow D rawKey id w start s (.request q)) :
    InAccount D rawKey id w start (windowStep D rawKey s (.request q)) := by
  have hc : Change D s.manager (q.auth, .authenticate rawKey) _ := Manager.authenticate_change rawKey
  have hstore : (s.manager.authenticate D q.auth rawKey).2.store = _ := authenticate_store q.auth rawKey
  simp only [windowStep, serve]
  cases ha : s.manager.authenticate D q.auth rawKey with
  | mk res m1 =>
    rw [ha] at hc hstore
    have h1 := h.of_store_eq hc hstore
    cases res with
    | error e => exact h1
    | ok key =>
      obtain ⟨hid, hreset⟩ := h.authenticate_ok hq ha
      simp only [hreset, Manager.checkBudgetAt, Bool.false_eq_true, if_false]
      cases evaluateLimits key key.currentSpendUsd key.currentTokensUsed with
      | error e => exact h1
      | ok u => rw [hid]; exact h1.complete q.usage

theorem InAccount.event (h : InAccount D rawKey id w start s) (ev : WindowEvent L)
    (hev : InWindow D rawKey id w start s ev) :
    InAccount D rawKey id w start (windowStep D rawKey s ev) := by
  cases ev with
  | request q => exact h.request hev
  | other op => exact h.other hev

end

theorem resetWindowCounters_ok {k : StoredVirtualKey L} (hr : r ∈ m.store.rows)
    (hread : rowToStoredKey r = .ok k) (now : Int) :
    ∃ db, m.store.resetWindowCounters true now r.id = .ok db := by
  have hi64 : isI64 r.currentTokensUsed = true := by
    unfold rowToStoredKey at hread
    split at hread
    · rename_i h
      exact (Bool.and_eq_true _ _ ▸ h).1
    · cases hread
  simp only [KeyDb.resetWindowCounters, KeyDb.resetWindowCountersWithPrevious,
    KeyDb.find_id m.store hr, hi64, if_true, Except.map]
  exact ⟨_, rfl⟩

section
variable {rawKey : String} {w : BudgetWindow} {r : KeyRow L} {q : Request}

theorem OpensWindow.authenticate (h : OpensWindow D m rawKey r w q) (hnames : CacheRel (fun e r => e.id = r.id) m) :
    ∃ key m', m.authenticate D q.auth rawKey = (.ok key, m') ∧ key.id = r.id ∧
      needsReset key q.now = true := by
  unfold Manager.authenticate
  dsimp only
  cases hc : m.cache (D.sha256Hex rawKey) with
  | some e =>
    obtain ⟨hok, hreset⟩ := h.cached e hc
    obtain ⟨r', hr', hhash', hid'⟩ := hnames _ _ hc
    rw [m.store.eq_of_hash_eq hr' h.mem (hhash'.trans h.hash.symm)] at hid'
    exact ⟨e, m, by simp only [hok], hid', hreset⟩
  | none =>
    obtain ⟨k, hread, hok, hreset⟩ := h.read
    have hget : m.store.getKeyByHash (q.auth.io 0) (D.sha256Hex rawKey) = .ok (some k) := by
      rw [← h.hash]
      simp only [KeyDb.getKeyByHash, KeyDb.getKey, h.stored.1, if_true,
        KeyDb.find_hash m.store h.mem, hread]
      rfl
    exact ⟨storedToAuthenticated k, _, by simp only [hget, hok]; rfl, (snapshot_of_read hread).id,
      hreset⟩

theorem OpensWindow.inAccount (h : OpensWindow D m rawKey r w q) (hnames : CacheRel (fun e r => e.id = r.id) m) :
    InAccount D rawKey r.id w q.reset.now
      (windowStep D rawKey ⟨m, 0, 0, 0⟩ (.request q)) := by
  obtain ⟨key, m1, ha, hid, hreset⟩ := h.authenticate hnames
  obtain ⟨k, hread, -⟩ := h.read
  have hc1 : Change D m (q.auth, .authenticate rawKey) _ := Manager.authenticate_change rawKey
  have hstore : (m.authenticate D q.auth rawKey).2.store = m.store := authenticate_store q.auth rawKey
  rw [ha] at hc1 hstore
  have hr1 : r ∈ m1.store.rows := by rw [hstore]; exact h.mem
  obtain ⟨db, hdb⟩ := resetWindowCounters_ok hr1 hread q.reset.now
  have hrows := KeyDb.resetWindowCounters_rows hdb
  have hc2 : Change D m1 (q.reset, .checkBudgetAt key q.now) _ :=
    Manager.checkBudgetAt_change key q.now
  have hcheck : m1.checkBudgetAt q.reset key q.now =
      (evaluateLimits key 0 0, { m1 with store := db }) := by
    simp [Manager.checkBudgetAt, hreset, h.stored.2, hid, hdb]
  rw [hcheck] at hc2
  have hacc : InAccount D rawKey r.id w q.reset.now ⟨{ m1 with store := db }, 0, 0, 1⟩ := by
    refine ⟨⟨KeyDb.zeroCounters q.reset.now r, ?_, ⟨rfl, h.hash⟩, ⟨h.window, rfl⟩, rfl, rfl⟩,
      rfl, cacheNamesRow_change (cacheNamesRow_change hnames hc1) hc2⟩
    show _ ∈ db.rows
    rw [hrows, mem_modifyRows]
    exact ⟨r, hr1, by rw [if_pos rfl]⟩
  simp only [windowStep, serve, ha, hcheck, hreset, if_true]
  cases evaluateLimits key 0 0 with
  | error e => exact hacc
  | ok u => rw [hid]; exact hacc.complete q.usage

end

/-- From the first request of a window on, as long as no later request of it finds a cache entry
from an expired window, the window is reset once and the row's counters are the usage recorded. -/
theorem one_reset_per_window (D : Deps L) (ops : List (Env × KeyOp L)) (rawKey : String)
    (r : KeyRow L) (w : BudgetWindow) (q : Request) (events : List (WindowEvent L))
    (hopen : OpensWindow D (Manager.after D ops) rawKey r w q)
    (h : Run.Along (windowStep D rawKey) (InWindow D rawKey r.id w q.now)
      (windowStep D rawKey ⟨Manager.after D ops, 0, 0, 0⟩ (.request q)) events) :
    let s := Run.run (windowStep D rawKey) ⟨Manager.after D ops, 0, 0, 0⟩ (.request q :: events)
    s.resets = 1 ∧ ∃ r' ∈ s.manager.store.rows, r'.id = r.id ∧
      r'.currentSpendUsd = s.spend ∧ r'.currentTokensUsed = s.tokens := by
  have hwin : Run.Along (windowStep D rawKey) (InWindow D rawKey r.id w q.reset.now)
      (windowStep D rawKey ⟨Manager.after D ops, 0, 0, 0⟩ (.request q)) events := by
    refine h.mono fun s ev hev => ?_
    cases ev with
    | request q' => exact ⟨hev.1.trans hopen.clock.symm, hev.2⟩
    | other op => exact hev
  have hacc := Run.invariant (fun s ev (hI : InAccount D rawKey r.id w q.reset.now s) hev =>
    hI.event ev hev) (hopen.inAccount (cacheNamesRow_after ops)) hwin
  obtain ⟨r', hr', ⟨hid, -⟩, -, hspend, htokens⟩ := hacc.row
  exact ⟨hacc.resets, r', hr', hid, hspend, htokens⟩

theorem validateStatus_of_isOk {k : AuthenticatedKey L} {now : Int}
    (h : (validateStatus k now).isOk = true) : validateStatus k now = .ok k := by
  cases hv : validateStatus k now with
  | error e => rw [hv] at h; cases h
  | ok key => rw [Manager.validateStatus_ok hv]

theorem OpensWindow.of_miss {rawKey : String} {w : BudgetWindow} {q : Request}
    (hr : r ∈ m.store.rows) (hhash : r.keyHash = D.sha256Hex rawKey) (hw : r.budgetWindow = some w)
    (hk : (rowToStoredKey r).toOption.any (fun k =>
      (validateStatus (storedToAuthenticated k) q.auth.now).isOk &&
        needsReset (storedToAuthenticated k) q.now) = true)
    (hmiss : (m.cache (D.sha256Hex rawKey)).isNone = true)
    (hio : q.auth.io 0 = true ∧ q.reset.io 0 = true)
    (hclock : period w q.reset.now = period w q.now) : OpensWindow D m rawKey r w q where
  mem := hr
  hash := hhash
  window := hw
  read := by
    cases hread : rowToStoredKey r with
    | error e => rw [hread] at hk; cases hk
    | ok k =>
      rw [hread] at hk
      obtain ⟨hok, hreset⟩ := (Bool.and_eq_true _ _).mp hk
      exact ⟨k, rfl, validateStatus_of_isOk hok, hreset⟩
  cached := by
    intro e he
    rw [he] at hmiss
    cases hmiss
  stored := hio
  clock := hclock

def dailyKey : List (Env × KeyOp Unit) :=
  [(sampleEnv 0, .createKey "vk" "id" { budgetLimitUsd := some 1, budgetWindow := some .daily })]

def sampleRequest (now : Int) : Request :=
  ⟨sampleEnv now, now, sampleEnv now, some (sampleEnv now, ⟨"", "g", "m", 0, 0, 3 / 5, now⟩)⟩

theorem dailyKey_opens : ∃ r ∈ (Manager.after sampleDeps dailyKey).store.rows, r.id = "id" ∧
      OpensWindow sampleDeps (Manager.after sampleDeps dailyKey) "vk" r .daily
        (sampleRequest dayNanos) := by
  have hrow : ∃ r ∈ (Manager.after sampleDeps dailyKey).store.rows, r.id = "id" ∧
      r.keyHash = sampleDeps.sha256Hex "vk" ∧ r.budgetWindow = some .daily ∧
      (rowToStoredKey r).toOption.any (fun k =>
        (validateStatus (storedToAuthenticated k) dayNanos).isOk &&
          needsReset (storedToAuthenticated k) dayNanos) = true := by
    decide +kernel
  have hmiss : ((Manager.after sampleDeps dailyKey).cache (sampleDeps.sha256Hex "vk")).isNone =
      true := by decide +kernel
  obtain ⟨r, hr, hid, hhash, hw, hk⟩ := hrow
  exact ⟨r, hr, hid, .of_miss hr hhash hw hk hmiss ⟨rfl, rfl⟩ rfl⟩

/-- The second request of the day finds the entry loaded by the first one, resets again and erases
its usage. -/
theorem second_request_erases : (∃ r ∈ (Manager.after sampleDeps dailyKey).store.rows,
      OpensWindow sampleDeps (Manager.after sampleDeps dailyKey) "vk" r .daily
        (sampleRequest dayNanos)) ∧
    period .daily (sampleRequest (dayNanos + 1)).now = period .daily (sampleRequest dayNanos).now ∧
    let s := Run.run (windowStep sampleDeps "vk") ⟨Manager.after sampleDeps dailyKey, 0, 0, 0⟩
      [.request (sampleRequest dayNanos), .request (sampleRequest (dayNanos + 1))]
    s.resets = 2 ∧ s.spend = 6 / 5 ∧ ∃ r ∈ s.manager.store.rows,
      r.id = "id" ∧ r.currentSpendUsd = 3 / 5 := by
  obtain ⟨r, hr, -, hopen⟩ := dailyKey_opens
  exact ⟨⟨r, hr, hopen⟩, by decide, by decide +kernel⟩

/-- An update between the two requests drops the entry, and the window holds. -/
theorem updated_key_keeps_usage :
    let s := Run.run (windowStep sampleDeps "vk") ⟨Manager.after sampleDeps dailyKey, 0, 0, 0⟩
      [.request (sampleRequest dayNanos),
       .other (sampleEnv dayNanos, .updateKey "id" { name := some (some "n") }),
       .request (sampleRequest (dayNanos + 1))]
    s.resets = 1 ∧ ∃ r ∈ s.manager.store.rows, r.id = "id" ∧
      r.currentSpendUsd = s.spend ∧ r.currentTokensUsed = s.tokens := by
  obtain ⟨r, hr, hid, hopen⟩ := dailyKey_opens
  have hmiss : ((Run.run (windowStep sampleDeps "vk") ⟨Manager.after sampleDeps dailyKey, 0, 0, 0⟩
      [.request (sampleRequest dayNanos),
       .other (sampleEnv dayNanos, .updateKey "id" { name := some (some "n") })]).manager.cache
      "vk").isNone = true := by decide +kernel
  have hone := one_reset_per_window sampleDeps dailyKey "vk" r .daily (sampleRequest dayNanos)
    [.other (sampleEnv dayNanos, .updateKey "id" { name := some (some "n") }),
     .request (sampleRequest (dayNanos + 1))] hopen
    ⟨fun _ => rfl, ⟨by decide, fun e he => by
      rw [Option.isNone_iff_eq_none] at hmiss
      cases hmiss.symm.trans he⟩, trivial⟩
  rwa [hid] at hone

end ObeyGateway.VirtualKeys
