import ObeyGateway.VirtualKeys.Manager

/-!
# Runs of the key manager

`step` is one operation of the manager, `Change` says once what it can do to the tables and to the
cache. Every invariant of a run is derived from `step_change`. A restart of the process keeps the
database and loses the cache.
-/

namespace ObeyGateway.VirtualKeys

variable {L : Type}

inductive KeyOp (L : Type)
  | createKey (fullKey uuid : String) (p : CreateKeyParams L)
  | authenticate (rawKey : String)
  | checkBudgetAt (key : AuthenticatedKey L) (now : Int)
  | record (r : UsageRecord)
  | updateKey (id : String) (p : UpdateKeyParams L)
  | revokeKey (id : String)
  | deleteKey (id : String)
  | resetWindowCounters (id : String)
  | resetKeyWindow (id : String)
  | restart

namespace Manager

def step (D : Deps L) (m : Manager L) (op : Env × KeyOp L) : Manager L :=
  match op with
  | (env, .createKey fullKey uuid p) => (m.createKey D env fullKey uuid p).2
  | (env, .authenticate rawKey) => (m.authenticate D env rawKey).2
  | (env, .checkBudgetAt key now) => (m.checkBudgetAt env key now).2
  | (env, .record r) => (m.record env r).2
  | (env, .updateKey id p) => (m.updateKey D env id p).2
  | (env, .revokeKey id) => (m.revokeKey env id).2
  | (env, .deleteKey id) => (m.deleteKey env id).2
  | (env, .resetWindowCounters id) =>
    match m.store.resetWindowCounters (env.io 0) env.now id with
    | .ok db => { m with store := db }
    | .error _ => m
  | (env, .resetKeyWindow id) => (m.resetKeyWindow env id).2
  | (_, .restart) => new m.store

/-- The manager after the operations `ops` on an empty database. -/
def after (D : Deps L) (ops : List (Env × KeyOp L)) : Manager L :=
  Run.run (step D) (new KeyDb.empty) ops

end Manager

inductive Change (D : Deps L) (m : Manager L) : Env × KeyOp L → Manager L → Prop
  | same {op} : Change D m op m
  | create {env fullKey uuid p encryptedKey db} (valid : validateCreateParams D p = [])
      (fresh : ∀ r ∈ m.store.rows, r.keyHash ≠ D.sha256Hex fullKey)
      (rows : db.rows =
        m.store.rows ++ [storedKeyToRow (newKey D env fullKey uuid encryptedKey p)]) :
      Change D m (env, .createKey fullKey uuid p) { m with store := db }
  | load {env rawKey r k} (mem : r ∈ m.store.rows) (hash : r.keyHash = D.sha256Hex rawKey)
      (read : rowToStoredKey r = .ok k) (miss : m.cache (D.sha256Hex rawKey) = none) :
      Change D m (env, .authenticate rawKey)
        { m with cache :=
            Function.update m.cache (D.sha256Hex rawKey) (some (storedToAuthenticated k)) }
  | expire {env key now db} (due : needsReset key now = true)
      (rows : db.rows = modifyRows key.id (KeyDb.zeroCounters env.now) m.store.rows) :
      Change D m (env, .checkBudgetAt key now) { m with store := db }
  | logged {env rec db} (rows : db.rows = m.store.rows) :
      Change D m (env, .record rec) { m with store := db }
  | used {env rec db}
      (rows : db.rows =
        modifyRows rec.keyId (KeyDb.addUsage rec.costUsd (tokensDelta rec) env.now)
          m.store.rows) :
      Change D m (env, .record rec) { m with store := db }
  | update {env id p r k db} (mem : r ∈ m.store.rows) (hid : r.id = id)
      (read : rowToStoredKey r = .ok k) (live : r.status ≠ .revoked)
      (valid : validateUpdateParams D p = []) (found : env.io 0 = true)
      (wrote : (keyUpdates env p).isEmpty = true ∨ env.io 1 = true)
      (rows : db.rows = modifyRows id (keyUpdates env p).apply m.store.rows) :
      Change D m (env, .updateKey id p) ({ m with store := db }.invalidateCache r.keyHash)
  | revoke {env id r db} (mem : r ∈ m.store.rows) (hid : r.id = id)
      (rows : db.rows =
        modifyRows id (KeyUpdates.apply { status := some .revoked }) m.store.rows) :
      Change D m (env, .revokeKey id) ({ m with store := db }.invalidateCache r.keyHash)
  | delete {env id r db} (mem : r ∈ m.store.rows) (hid : r.id = id)
      (rows : db.rows = m.store.rows.filter (·.id ≠ id)) :
      Change D m (env, .deleteKey id) ({ m with store := db }.invalidateCache r.keyHash)
  | reset {env id db}
      (rows : db.rows = modifyRows id (KeyDb.zeroCounters env.now) m.store.rows) :
      Change D m (env, .resetWindowCounters id) { m with store := db }
  | adminReset {env id r db} (mem : r ∈ m.store.rows) (hid : r.id = id)
      (rows : db.rows = modifyRows id (KeyDb.zeroCounters env.now) m.store.rows) :
      Change D m (env, .resetKeyWindow id) ({ m with store := db }.invalidateCache r.keyHash)
  | restart {env} : Change D m (env, .restart) (Manager.new m.store)

theorem KeyUpdates.apply_of_isEmpty {u : KeyUpdates L} (h : u.isEmpty = true) (r : KeyRow L) : u.apply r = r := by
  simp only [KeyUpdates.isEmpty, Bool.and_eq_true, Option.isNone_iff_eq_none] at h
  obtain ⟨⟨⟨⟨⟨⟨⟨⟨⟨⟨⟨⟨⟨⟨h1, h2⟩, h3⟩, h4⟩, h5⟩, h6⟩, h7⟩, h8⟩, h9⟩, h10⟩, h11⟩, h12⟩, h13⟩, h14⟩, h15⟩ := h
  simp [KeyUpdates.apply, h1, h2, h3, h4, h5, h6, h7, h8, h9, h10, h11, h12, h13, h14, h15]

namespace KeyDb

variable {db db' : KeyDb L} {ok : Bool} {id : String}

theorem updateKey_rows {u : KeyUpdates L} (h : db.updateKey ok id u = .ok db') :
    db'.rows = modifyRows id u.apply db.rows := by
  unfold updateKey at h
  split at h
  · rename_i he
    cases h
    refine (List.map_id'' (fun r => ?_) _).symm
    split
    · exact KeyUpdates.apply_of_isEmpty he r
    · rfl
  · split at h
    · cases h; rfl
    · cases h

theorem createKey_rows {key : StoredVirtualKey L} (h : db.createKey ok key = .ok db') :
    db'.rows = db.rows ++ [storedKeyToRow key] ∧ ∀ r ∈ db.rows, r.keyHash ≠ key.keyHash := by
  unfold createKey at h
  split at h
  · rename_i hc
    cases h
    refine ⟨rfl, fun r hr he => hc.2.2 ?_⟩
    exact List.mem_map.2 ⟨r, hr, he⟩
  · cases h

theorem deleteKey_rows (h : db.deleteKey ok id = .ok db') : db'.rows = db.rows.filter (·.id ≠ id) := by
  unfold deleteKey at h
  split at h
  · cases h; rfl
  · cases h

theorem updateUsageCounters_rows {now : Int} {spend : ℚ} {tokens : Int}
    (h : db.updateUsageCounters ok now id spend tokens = .ok db') :
    db'.rows = modifyRows id (addUsage spend tokens now) db.rows := by
  unfold updateUsageCounters at h
  split at h
  · cases h; rfl
  · cases h

theorem insertUsageRecord_rows {record : UsageRecord}
    (h : db.insertUsageRecord ok record = .ok db') : db'.rows = db.rows := by
  unfold insertUsageRecord at h
  split at h
  · cases h; rfl
  · cases h

theorem resetWithPrevious_rows {now : Int} {previous : ℚ × Nat}
    (h : db.resetWindowCountersWithPrevious ok now id = .ok (previous, db')) :
    db'.rows = modifyRows id (zeroCounters now) db.rows := by
  unfold resetWindowCountersWithPrevious at h
  dsimp only at h
  split at h
  · split at h
    · split at h
      · cases h; rfl
      · cases h
    · cases h; rfl
  · cases h

theorem resetWindowCounters_rows {now : Int} (h : db.resetWindowCounters ok now id = .ok db') :
    db'.rows = modifyRows id (zeroCounters now) db.rows := by
  unfold resetWindowCounters at h
  cases hp : db.resetWindowCountersWithPrevious ok now id with
  | error e => rw [hp] at h; cases h
  | ok p => rw [hp] at h; cases h; exact resetWithPrevious_rows hp

variable {k : StoredVirtualKey L}

theorem getKeyById_some (h : db.getKeyById ok id = .ok (some k)) : ∃ r ∈ db.rows, r.id = id ∧ rowToStoredKey r = .ok k := by
  obtain ⟨r, hr, hp, hk⟩ := getKey_some h
  exact ⟨r, hr, by simpa using hp, hk⟩

theorem getKeyById_ok (h : db.getKeyById ok id = .ok (some k)) : ok = true := by
  cases ok with
  | true => rfl
  | false => simp [getKeyById, getKey] at h

theorem updateKey_ok {u : KeyUpdates L} (h : db.updateKey ok id u = .ok db') : u.isEmpty = true ∨ ok = true := by
  unfold updateKey at h
  split at h
  · exact .inl ‹_›
  · split at h
    · exact .inr ‹_›
    · cases h

theorem getKeyByHash_some {keyHash : String} (h : db.getKeyByHash ok keyHash = .ok (some k)) :
    ∃ r ∈ db.rows, r.keyHash = keyHash ∧ rowToStoredKey r = .ok k := by
  obtain ⟨r, hr, hp, hk⟩ := getKey_some h
  exact ⟨r, hr, by simpa using hp, hk⟩

end KeyDb

theorem rowToStoredKey_hash {r : KeyRow L} {k : StoredVirtualKey L}
    (h : rowToStoredKey r = .ok k) : k.keyHash = r.keyHash :=
  congrArg KeyFields.keyHash (rowToStoredKey_fields h).1

theorem rowToStoredKey_status {r : KeyRow L} {k : StoredVirtualKey L}
    (h : rowToStoredKey r = .ok k) : k.status = r.status :=
  congrArg KeyFields.status (rowToStoredKey_fields h).1

/-! ### What the operations do -/

namespace Manager

variable {D : Deps L} {env : Env} {m : Manager L}

theorem authenticate_change (rawKey : String) : Change D m (env, .authenticate rawKey) (m.authenticate D env rawKey).2 := by
  unfold authenticate
  dsimp only
  split
  · exact .same
  · rename_i hmiss
    split
    · rename_i k hk
      obtain ⟨r, hr, hh, hread⟩ := KeyDb.getKeyByHash_some hk
      exact .load hr hh hread hmiss
    · exact .same
    · exact .same

theorem validateStatus_ok {k key : AuthenticatedKey L} {now : Int} (h : validateStatus k now = .ok key) : key = k := by
  unfold validateStatus at h
  split at h
  · cases h
  · split at h
    · cases h
    · split at h
      · split at h
        · cases h
        · cases h; rfl
      · cases h; rfl

theorem authenticate_ok {rawKey : String} {key : AuthenticatedKey L} {m' : Manager L}
    (h : m.authenticate D env rawKey = (.ok key, m')) :
    (m.cache (D.sha256Hex rawKey) = some key ∧ m' = m) ∨
      (m.cache (D.sha256Hex rawKey) = none ∧ ∃ r ∈ m.store.rows, ∃ k,
        r.keyHash = D.sha256Hex rawKey ∧ rowToStoredKey r = .ok k ∧
        key = storedToAuthenticated k ∧
        m' = { m with cache := Function.update m.cache (D.sha256Hex rawKey) (some key) }) := by
  unfold authenticate at h
  dsimp only at h
  split at h
  · rename_i hit
    simp only [Prod.mk.injEq] at h
    exact .inl ⟨by rw [validateStatus_ok h.1]; exact hit, h.2.symm⟩
  · rename_i hmiss
    split at h
    · rename_i k hk
      simp only [Prod.mk.injEq] at h
      obtain ⟨r, hr, hh, hread⟩ := KeyDb.getKeyByHash_some hk
      obtain rfl := validateStatus_ok h.1
      exact .inr ⟨hmiss, r, hr, k, hh, hread, rfl, h.2.symm⟩
    · cases h
    · cases h

theorem createKey_change (fullKey uuid : String) (p : CreateKeyParams L) :
    Change D m (env, .createKey fullKey uuid p) (m.createKey D env fullKey uuid p).2 := by
  unfold createKey
  split
  · exact .same
  · rename_i hv
    split
    · exact .same
    · dsimp only
      split
      · exact .same
      · rename_i hdb
        obtain ⟨hrows, hfresh⟩ := KeyDb.createKey_rows hdb
        exact .create hv hfresh hrows

theorem checkBudgetAt_change (key : AuthenticatedKey L) (now : Int) :
    Change D m (env, .checkBudgetAt key now) (m.checkBudgetAt env key now).2 := by
  unfold checkBudgetAt
  split
  · rename_i hdue
    dsimp only
    split
    · rename_i hdb
      exact .expire hdue (KeyDb.resetWindowCounters_rows hdb)
    · exact .same
  · exact .same

theorem record_change (r : UsageRecord) : Change D m (env, .record r) (m.record env r).2 := by
  unfold record
  split
  · exact .same
  · rename_i hins
    have hrows := KeyDb.insertUsageRecord_rows hins
    split
    · exact .logged hrows
    · rename_i hup
      exact .used (by rw [← hrows]; exact KeyDb.updateUsageCounters_rows hup)

theorem updateKey_change (id : String) (p : UpdateKeyParams L) :
    Change D m (env, .updateKey id p) (m.updateKey D env id p).2 := by
  unfold updateKey
  split
  · exact .same
  · exact .same
  · rename_i k hk
    obtain ⟨r, hr, hid, hread⟩ := KeyDb.getKeyById_some hk
    split
    · exact .same
    · rename_i hlive
      split
      · exact .same
      · rename_i hv
        split
        · exact .same
        · rename_i hdb
          rw [rowToStoredKey_status hread] at hlive
          rw [rowToStoredKey_hash hread]
          exact .update hr hid hread hlive hv (KeyDb.getKeyById_ok hk) (KeyDb.updateKey_ok hdb)
            (KeyDb.updateKey_rows hdb)

theorem revokeKey_change (id : String) : Change D m (env, .revokeKey id) (m.revokeKey env id).2 := by
  unfold revokeKey
  split
  · exact .same
  · exact .same
  · rename_i k hk
    obtain ⟨r, hr, hid, hread⟩ := KeyDb.getKeyById_some hk
    split
    · exact .same
    · split
      · exact .same
      · rename_i hdb
        rw [rowToStoredKey_hash hread]
        exact .revoke hr hid (KeyDb.updateKey_rows hdb)

theorem deleteKey_change (id : String) : Change D m (env, .deleteKey id) (m.deleteKey env id).2 := by
  unfold deleteKey
  split
  · exact .same
  · exact .same
  · rename_i k hk
    obtain ⟨r, hr, hid, hread⟩ := KeyDb.getKeyById_some hk
    split
    · exact .same
    · rename_i hdb
      rw [rowToStoredKey_hash hread]
      exact .delete hr hid (KeyDb.deleteKey_rows hdb)

theorem resetKeyWindow_change (id : String) : Change D m (env, .resetKeyWindow id) (m.resetKeyWindow env id).2 := by
  unfold resetKeyWindow
  split
  · exact .same
  · exact .same
  · rename_i k hk
    obtain ⟨r, hr, hid, hread⟩ := KeyDb.getKeyById_some hk
    split
    · exact .same
    · rename_i hdb
      rw [rowToStoredKey_hash hread]
      exact .adminReset hr hid (KeyDb.resetWithPrevious_rows hdb)

theorem step_change (op : Env × KeyOp L) : Change D m op (m.step D op) := by
  obtain ⟨env, op⟩ := op
  cases op with
  | createKey fullKey uuid p => exact createKey_change fullKey uuid p
  | authenticate rawKey => exact authenticate_change rawKey
  | checkBudgetAt key now => exact checkBudgetAt_change key now
  | record r => exact record_change r
  | updateKey id p => exact updateKey_change id p
  | revokeKey id => exact revokeKey_change id
  | deleteKey id => exact deleteKey_change id
  | resetWindowCounters id =>
    unfold step
    dsimp only
    split
    · rename_i hdb
      exact .reset (KeyDb.resetWindowCounters_rows hdb)
    · exact .same
  | resetKeyWindow id => exact resetKeyWindow_change id
  | restart => exact .restart

end Manager

section
variable {D : Deps L} {m m' : Manager L} {op : Env × KeyOp L}

theorem forall_modifyRows {P : KeyRow L → Prop} {id : String} {f : KeyRow L → KeyRow L}
    {rows : List (KeyRow L)} (h : ∀ r ∈ rows, P r) (hf : ∀ r ∈ rows, r.id = id → P r → P (f r)) :
    ∀ r ∈ modifyRows id f rows, P r := by
  intro r hr
  obtain ⟨r₀, hr₀, rfl⟩ := mem_modifyRows.1 hr
  split
  · rename_i hid
    exact hf r₀ hr₀ hid (h r₀ hr₀)
  · exact h r₀ hr₀

/-- A property of single rows that new rows have and that each kind of assignment keeps. -/
theorem Change.forall_rows {P : KeyRow L → Prop} (hc : Change D m op m') (h : ∀ r ∈ m.store.rows, P r)
    (hnew : ∀ env fullKey uuid p encryptedKey, validateCreateParams D p = [] →
      P (storedKeyToRow (newKey D env fullKey uuid encryptedKey p)))
    (hzero : ∀ r t, P r → P (KeyDb.zeroCounters t r))
    (hused : ∀ r spend tokens t, P r → P (KeyDb.addUsage spend tokens t r))
    (hupdate : ∀ env id p, op = (env, .updateKey id p) → validateUpdateParams D p = [] →
      env.io 0 = true → ((keyUpdates env p).isEmpty = true ∨ env.io 1 = true) →
      ∀ r ∈ m.store.rows, ∀ k, r.id = id → rowToStoredKey r = .ok k → r.status ≠ .revoked →
        P r → P ((keyUpdates env p).apply r))
    (hrevoke : ∀ r, P r → P (KeyUpdates.apply { status := some .revoked } r)) :
    ∀ r ∈ m'.store.rows, P r := by
  cases hc with
  | same => exact h
  | create hv hfresh hrows =>
    intro r hr
    rw [hrows, List.mem_append, List.mem_singleton] at hr
    rcases hr with hr | rfl
    · exact h r hr
    · exact hnew _ _ _ _ _ hv
  | load => exact h
  | expire hdue hrows => rw [hrows]; exact forall_modifyRows h fun r _ _ => hzero r _
  | logged hrows => rw [hrows]; exact h
  | used hrows => rw [hrows]; exact forall_modifyRows h fun r _ _ => hused r _ _ _
  | update hr hid hk hlive hv hfound hwrote hrows =>
    simp only [Manager.invalidateCache_store, hrows]
    refine forall_modifyRows h fun r' hr' hid' => ?_
    obtain rfl := m.store.eq_of_id_eq hr' hr (hid'.trans hid.symm)
    exact hupdate _ _ _ rfl hv hfound hwrote r' hr' _ hid hk hlive
  | revoke hr hid hrows =>
    simp only [Manager.invalidateCache_store, hrows]
    exact forall_modifyRows h fun r _ _ => hrevoke r
  | delete hr hid hrows =>
    simp only [Manager.invalidateCache_store, hrows]
    exact fun r hr => h r (List.mem_of_mem_filter hr)
  | reset hrows => rw [hrows]; exact forall_modifyRows h fun r _ _ => hzero r _
  | adminReset hr hid hrows =>
    simp only [Manager.invalidateCache_store, hrows]
    exact forall_modifyRows h fun r _ _ => hzero r _
  | restart => exact h

theorem cache_of_invalidate {keyHash h : String} {db : KeyDb L} {e : AuthenticatedKey L}
    (he : ({ m with store := db }.invalidateCache keyHash).cache h = some e) :
    h ≠ keyHash ∧ m.cache h = some e := by
  simp only [Manager.invalidateCache, Function.update_apply] at he
  split at he
  · cases he
  · rename_i hne
    exact ⟨hne, he⟩

/-- Every cache entry belongs to a row, with which it is in the relation `R`. -/
def CacheRel (R : AuthenticatedKey L → KeyRow L → Prop) (m : Manager L) : Prop :=
  ∀ h e, m.cache h = some e → ∃ r ∈ m.store.rows, r.keyHash = h ∧ R e r

namespace CacheRel

variable {R : AuthenticatedKey L → KeyRow L → Prop}

theorem new (db : KeyDb L) : CacheRel R (Manager.new db) := by
  intro h e he
  simp [Manager.new] at he

theorem modify {id : String} {f : KeyRow L → KeyRow L} (h : CacheRel R m)
    (hrows : m'.store.rows = modifyRows id f m.store.rows)
    (hhash : ∀ r, (f r).keyHash = r.keyHash)
    (hcache : ∀ h' e, m'.cache h' = some e → m.cache h' = some e ∧
      ∀ r ∈ m.store.rows, r.id = id → r.keyHash = h' → R e r → R e (f r)) : CacheRel R m' := by
  intro h' e he
  obtain ⟨he, hf⟩ := hcache h' e he
  obtain ⟨r, hr, hh, hR⟩ := h h' e he
  refine ⟨_, by rw [hrows, mem_modifyRows]; exact ⟨r, hr, rfl⟩, ?_⟩
  split
  · rename_i hid
    exact ⟨(hhash r).trans hh, hf r hr hid hh hR⟩
  · exact ⟨hh, hR⟩

theorem modify_invalidate {id : String} {f : KeyRow L → KeyRow L} {db : KeyDb L} {r : KeyRow L}
    (h : CacheRel R m) (hr : r ∈ m.store.rows) (hid : r.id = id)
    (hrows : db.rows = modifyRows id f m.store.rows) (hhash : ∀ r, (f r).keyHash = r.keyHash) :
    CacheRel R ({ m with store := db }.invalidateCache r.keyHash) := by
  refine h.modify hrows hhash fun h' e he => ?_
  obtain ⟨hne, he⟩ := cache_of_invalidate he
  refine ⟨he, fun r' hr' hid' hh' => ?_⟩
  obtain rfl : r' = r := m.store.eq_of_id_eq hr' hr (hid'.trans hid.symm)
  exact absurd hh'.symm hne

theorem delete {id : String} {db : KeyDb L} {r : KeyRow L} (h : CacheRel R m) (hr : r ∈ m.store.rows) (hid : r.id = id)
    (hrows : db.rows = m.store.rows.filter (·.id ≠ id)) :
    CacheRel R ({ m with store := db }.invalidateCache r.keyHash) := by
  intro h' e he
  obtain ⟨hne, he⟩ := cache_of_invalidate he
  obtain ⟨r', hr', hh', hR⟩ := h h' e he
  refine ⟨r', ?_, hh', hR⟩
  show r' ∈ db.rows
  rw [hrows]
  refine List.mem_filter.2 ⟨hr', ?_⟩
  have : r'.id ≠ id := fun hid' => by
    obtain rfl : r' = r := m.store.eq_of_id_eq hr' hr (hid'.trans hid.symm)
    exact hne hh'.symm
  simpa using this

/-- What is left to check is that `R` holds of a key just read, and survives the two statements that leave the cache
alone. -/
theorem change (h : CacheRel R m) (hc : Change D m op m')
    (hread : ∀ r k, rowToStoredKey r = .ok k → R (storedToAuthenticated k) r)
    (hzero : ∀ e r t, R e r → R e (KeyDb.zeroCounters t r))
    (hused : ∀ env rec, op = (env, .record rec) → ∀ e, ∀ r ∈ m.store.rows, r.id = rec.keyId →
      m.cache r.keyHash = some e → R e r →
        R e (KeyDb.addUsage rec.costUsd (tokensDelta rec) env.now r)) : CacheRel R m' := by
  cases hc with
  | same => exact h
  | create hv hfresh hrows =>
    intro h' e he
    obtain ⟨r, hr, hR⟩ := h h' e he
    exact ⟨r, by rw [hrows]; exact List.mem_append_left _ hr, hR⟩
  | load hr hh hk hmiss =>
    intro h' e he
    simp only [Function.update_apply] at he
    split at he
    · rename_i heq
      cases he
      exact ⟨_, hr, hh.trans heq.symm, hread _ _ hk⟩
    · exact h h' e he
  | expire hdue hrows =>
    exact h.modify hrows (fun _ => rfl) fun h' e he => ⟨he, fun r _ _ _ => hzero e r _⟩
  | logged hrows => intro h' e he; rw [hrows]; exact h h' e he
  | used hrows =>
    refine h.modify hrows (fun _ => rfl) fun h' e he => ⟨he, fun r hr hid hh => ?_⟩
    exact hused _ _ rfl e r hr hid (by rw [hh]; exact he)
  | update hr hid hk hlive hv hfound hwrote hrows =>
    exact h.modify_invalidate hr hid hrows fun _ => rfl
  | revoke hr hid hrows => exact h.modify_invalidate hr hid hrows fun _ => rfl
  | delete hr hid hrows => exact h.delete hr hid hrows
  | reset hrows =>
    exact h.modify hrows (fun _ => rfl) fun h' e he => ⟨he, fun r _ _ _ => hzero e r _⟩
  | adminReset hr hid hrows => exact h.modify_invalidate hr hid hrows fun _ => rfl
  | restart => exact new m.store

end CacheRel

end

end ObeyGateway.VirtualKeys
