import ObeyGateway.VirtualKeys.Anchor

/-!
# Revocation and deletion under interleaving

The calls of `authenticate`, `revoke_key` and `delete_key` cut at their accesses to the store and the cache, any number
at once. A key read before its revocation may be put into the cache after it; `Quiesced` is what is needed for that not
to happen. Then what is left behind a call that has returned is `Confined`, and this lasts.
-/

namespace ObeyGateway.VirtualKeys

variable {L : Type}

inductive Pc (L : Type)
  | idle
  | authLookup (rawKey : String)
  | authStore (rawKey : String)
  | authInsert (rawKey : String) (key : AuthenticatedKey L)
  | authValidate (rawKey : String) (key : AuthenticatedKey L)
  | authDone (rawKey : String) (result : Except AuthError (AuthenticatedKey L))
  | revokeRead (id : String)
  | revokeUpdate (id keyHash : String)
  | revokeRemove (id keyHash : String)
  | revokeReload (id keyHash : String)
  | revokeDone (id keyHash : String)
  | deleteRead (id : String)
  | deleteDelete (id keyHash : String)
  | deleteRemove (id keyHash : String)
  | deleteDone (id keyHash : String)
  | failed

inductive KeyCall
  | authenticate (rawKey : String)
  | revokeKey (id : String)
  | deleteKey (id : String)

def KeyCall.entry : KeyCall → Pc L
  | .authenticate rawKey => .authLookup rawKey
  | .revokeKey id => .revokeRead id
  | .deleteKey id => .deleteRead id

/-- One atomic step of a call. `revokeDone` and `deleteDone` are calls that returned `Ok`, `failed`
one that returned an error. -/
def stepCall (D : Deps L) (env : Env) (m : Manager L) : Pc L → Pc L × Manager L
  | .authLookup rawKey =>
    match m.cache (D.sha256Hex rawKey) with
    | some cached => (.authValidate rawKey cached, m)
    | none => (.authStore rawKey, m)
  | .authStore rawKey =>
    match m.store.getKeyByHash (env.io 0) (D.sha256Hex rawKey) with
    | .ok (some stored) => (.authInsert rawKey (storedToAuthenticated stored), m)
    | .ok none => (.authDone rawKey (.error .invalidKey), m)
    | .error _ => (.authDone rawKey (.error .invalidKey), m)
  | .authInsert rawKey key =>
    (.authValidate rawKey key,
      { m with cache := Function.update m.cache (D.sha256Hex rawKey) (some key) })
  | .authValidate rawKey key => (.authDone rawKey (validateStatus key env.now), m)
  | .revokeRead id =>
    match m.store.getKeyById (env.io 0) id with
    | .ok (some stored) =>
      if stored.status = .revoked ∨ stored.status = .expired then
        (.revokeDone id stored.keyHash, m)
      else (.revokeUpdate id stored.keyHash, m)
    | .ok none => (.failed, m)
    | .error _ => (.failed, m)
  | .revokeUpdate id keyHash =>
    match m.store.updateKey (env.io 0) id { status := some .revoked } with
    | .ok db => (.revokeRemove id keyHash, { m with store := db })
    | .error _ => (.failed, m)
  | .revokeRemove id keyHash => (.revokeReload id keyHash, m.invalidateCache keyHash)
  | .revokeReload id keyHash =>
    match m.reload (env.io 0) id with
    | .ok _ => (.revokeDone id keyHash, m)
    | .error _ => (.failed, m)
  | .deleteRead id =>
    match m.store.getKeyById (env.io 0) id with
    | .ok (some stored) => (.deleteDelete id stored.keyHash, m)
    | .ok none => (.failed, m)
    | .error _ => (.failed, m)
  | .deleteDelete id keyHash =>
    match m.store.deleteKey (env.io 0) id with
    | .ok db => (.deleteRemove id keyHash, { m with store := db })
    | .error _ => (.failed, m)
  | .deleteRemove id keyHash => (.deleteDone id keyHash, m.invalidateCache keyHash)
  | pc => (pc, m)

def runCall (D : Deps L) (m : Manager L) (pc : Pc L) (envs : List Env) : Pc L × Manager L :=
  envs.foldl (fun c env => stepCall D env c.2 c.1) (pc, m)

/-- The answer of a finished `revoke_key` or `delete_key` call. -/
@[simp] def Pc.returnedOk : Pc L → Bool
  | .revokeDone _ _ => true
  | .deleteDone _ _ => true
  | _ => false

structure KeySystem (L : Type) where
  manager : Manager L
  calls : Nat → Pc L

inductive KeyAct
  | start (t : Nat) (call : KeyCall)
  | step (t : Nat) (env : Env)

namespace KeySystem

def init (m : Manager L) : KeySystem L := ⟨m, fun _ => .idle⟩

def act (D : Deps L) (s : KeySystem L) : KeyAct → KeySystem L
  | .start t call =>
    match s.calls t with
    | .idle => { s with calls := Function.update s.calls t call.entry }
    | _ => s
  | .step t env =>
    { manager := (stepCall D env s.manager (s.calls t)).2
      calls := Function.update s.calls t (stepCall D env s.manager (s.calls t)).1 }

/-- Every copy of the key with this hash, in the table, in the cache or read and not yet inserted,
has a status that satisfies `P`. -/
structure Confined (D : Deps L) (P : KeyStatus → Prop) (keyHash : String) (s : KeySystem L) :
    Prop where
  rows : ∀ r ∈ s.manager.store.rows, r.keyHash = keyHash → P r.status
  cache : ∀ e, s.manager.cache keyHash = some e → P e.status
  pending : ∀ t rawKey e, s.calls t = .authInsert rawKey e → D.sha256Hex rawKey = keyHash →
    P e.status

/-- No older copy of the key waits to be inserted when its cache entry is removed, and a key found revoked has none
left. -/
def Quiesced (D : Deps L) (s : KeySystem L) : KeyAct → Prop
  | .start _ _ => True
  | .step t _ =>
    match s.calls t with
    | .revokeRemove _ keyHash => ∀ t' rawKey e, s.calls t' = .authInsert rawKey e →
        D.sha256Hex rawKey = keyHash → e.status = .revoked
    | .deleteRemove _ keyHash => ∀ t' rawKey e, s.calls t' = .authInsert rawKey e →
        D.sha256Hex rawKey ≠ keyHash
    | .revokeRead id => ∀ r ∈ s.manager.store.rows, r.id = id → r.status = .revoked →
        Confined D (· = .revoked) r.keyHash s
    | _ => True

/-! ### What a step does -/

/-- The rows of `rows'` come from those of `rows`, some of them revoked. -/
def RowsFrom (rows rows' : List (KeyRow L)) : Prop :=
  ∀ r' ∈ rows', ∃ r ∈ rows, r'.id = r.id ∧ r'.keyHash = r.keyHash ∧
    (r'.status = r.status ∨ r'.status = .revoked)

theorem RowsFrom.refl (rows : List (KeyRow L)) : RowsFrom rows rows :=
  fun r hr => ⟨r, hr, rfl, rfl, .inl rfl⟩

section
variable {D : Deps L} {env : Env} {m : Manager L} {s : KeySystem L}

theorem stepCall_rows (pc : Pc L) : RowsFrom m.store.rows (stepCall D env m pc).2.store.rows := by
  cases pc with
  | revokeUpdate id keyHash =>
    simp only [stepCall]
    split
    · rename_i db hdb
      intro r' hr'
      rw [KeyDb.updateKey_rows hdb, mem_modifyRows] at hr'
      obtain ⟨r, hr, rfl⟩ := hr'
      refine ⟨r, hr, ?_⟩
      split
      · exact ⟨rfl, rfl, .inr rfl⟩
      · exact ⟨rfl, rfl, .inl rfl⟩
    · exact .refl _
  | deleteDelete id keyHash =>
    simp only [stepCall]
    split
    · rename_i db hdb
      intro r' hr'
      rw [KeyDb.deleteKey_rows hdb] at hr'
      exact ⟨r', List.mem_of_mem_filter hr', rfl, rfl, .inl rfl⟩
    · exact .refl _
  | _ =>
    simp only [stepCall]
    repeat' split
    all_goals exact .refl _

variable {t : Nat}

theorem calls_step_self : (s.act D (.step t env)).calls t = (stepCall D env s.manager (s.calls t)).1 := by
  simp [act]

theorem calls_step_of_ne {t' : Nat} (h : t' ≠ t) : (s.act D (.step t env)).calls t' = s.calls t' := by
  simp [act, Function.update_of_ne h]

variable {pc : Pc L}

theorem stepCall_cache {h : String} {e : AuthenticatedKey L} (he : (stepCall D env m pc).2.cache h = some e) :
    m.cache h = some e ∨ ∃ rawKey, pc = .authInsert rawKey e ∧ D.sha256Hex rawKey = h := by
  cases pc with
  | authInsert rawKey key =>
    simp only [stepCall, Function.update_apply] at he
    split at he
    · rename_i heq
      cases he
      exact .inr ⟨rawKey, rfl, heq.symm⟩
    · exact .inl he
  | revokeRemove | deleteRemove => exact .inl (cache_of_invalidate he).2
  | _ =>
    refine .inl ?_
    simp only [stepCall] at he
    repeat' split at he
    all_goals exact he

theorem stepCall_pending {rawKey : String} {e : AuthenticatedKey L} (he : (stepCall D env m pc).1 = .authInsert rawKey e) :
    pc = .authStore rawKey ∧ ∃ r ∈ m.store.rows, ∃ k, r.keyHash = D.sha256Hex rawKey ∧
      rowToStoredKey r = .ok k ∧ e = storedToAuthenticated k := by
  cases pc with
  | authStore raw =>
    simp only [stepCall] at he
    split at he
    · rename_i k hk
      cases he
      obtain ⟨r, hr, hh, hread⟩ := KeyDb.getKeyByHash_some hk
      exact ⟨rfl, r, hr, k, hh, hread, rfl⟩
    · cases he
    · cases he
  | _ =>
    simp only [stepCall] at he
    repeat' split at he
    all_goals cases he

variable {P : KeyStatus → Prop} {keyHash : String}

/-- Copies of the key stay confined: new ones are read from the table. -/
theorem Confined.act (h : Confined D P keyHash s)
    (hP : ∀ st, P st → P .revoked) (a : KeyAct) : Confined D P keyHash (s.act D a) := by
  cases a with
  | start t call =>
    simp only [KeySystem.act]
    split
    · refine ⟨h.rows, h.cache, fun t' rawKey e he => ?_⟩
      simp only [Function.update_apply] at he
      split at he
      · cases call <;> cases he
      · exact h.pending t' rawKey e he
    · exact h
  | step t env =>
    refine ⟨fun r' hr' hh => ?_, fun e he => ?_, fun t' rawKey e he hh => ?_⟩
    · obtain ⟨r, hr, -, hhash, hst⟩ := stepCall_rows (s.calls t) r' hr'
      have hPr : P r.status := h.rows r hr (hhash.symm.trans hh)
      rcases hst with hst | hst
      · rw [hst]; exact hPr
      · rw [hst]; exact hP _ hPr
    · rcases stepCall_cache he with he | ⟨rawKey, hpc, hh⟩
      · exact h.cache e he
      · exact h.pending t rawKey e hpc hh
    · simp only [KeySystem.act, Function.update_apply] at he
      split at he
      · obtain ⟨-, r, hr, k, hhash, hread, rfl⟩ := stepCall_pending he
        show P k.status
        rw [rowToStoredKey_status hread]
        exact h.rows r hr (hhash.trans hh)
      · exact h.pending t' rawKey e he hh

theorem Confined.run (h : Confined D P keyHash s) (hP : ∀ st, P st → P .revoked) (as : List KeyAct) :
    Confined D P keyHash (Run.run (KeySystem.act D) s as) :=
  Run.invariant_of_step (fun _ a hI => hI.act hP a) h

/-! ### The calls under way -/

def Achieved (D : Deps L) (s : KeySystem L) : Pc L → Prop
  | .revokeUpdate id keyHash => ∀ r ∈ s.manager.store.rows, r.keyHash = keyHash → r.id = id
  | .revokeRemove _ keyHash => ∀ r ∈ s.manager.store.rows, r.keyHash = keyHash → r.status = .revoked
  | .revokeReload _ keyHash => Confined D (· = .revoked) keyHash s
  | .revokeDone _ keyHash => Confined D (· = .revoked) keyHash s
  | .deleteDelete id keyHash => ∀ r ∈ s.manager.store.rows, r.keyHash = keyHash → r.id = id
  | .deleteRemove _ keyHash => ∀ r ∈ s.manager.store.rows, r.keyHash ≠ keyHash
  | .deleteDone _ keyHash => Confined D (fun _ => False) keyHash s
  | _ => True

structure CallsInv (D : Deps L) (s : KeySystem L) : Prop where
  achieved : ∀ t, Achieved D s (s.calls t)
  status : ∀ r ∈ s.manager.store.rows, r.status ≠ .expired

theorem Achieved.act (h : Achieved D s pc) (a : KeyAct)
    (hrows : RowsFrom s.manager.store.rows (s.act D a).manager.store.rows) :
    Achieved D (s.act D a) pc := by
  cases pc with
  | revokeUpdate id keyHash =>
    intro r' hr' hh
    obtain ⟨r, hr, hid, hhash, -⟩ := hrows r' hr'
    exact hid.trans (h r hr (hhash.symm.trans hh))
  | revokeRemove id keyHash =>
    intro r' hr' hh
    obtain ⟨r, hr, -, hhash, hst⟩ := hrows r' hr'
    rcases hst with hst | hst
    · exact hst.trans (h r hr (hhash.symm.trans hh))
    · exact hst
  | revokeReload | revokeDone => exact Confined.act h (fun _ _ => rfl) a
  | deleteDelete id keyHash =>
    intro r' hr' hh
    obtain ⟨r, hr, hid, hhash, -⟩ := hrows r' hr'
    exact hid.trans (h r hr (hhash.symm.trans hh))
  | deleteRemove id keyHash =>
    intro r' hr' hh
    obtain ⟨r, hr, -, hhash, -⟩ := hrows r' hr'
    exact h r hr (hhash.symm.trans hh)
  | deleteDone id keyHash => exact Confined.act h (fun _ hf => hf) a
  | _ => trivial

theorem id_of_read {ok : Bool} {id : String} {k : StoredVirtualKey L} (hk : m.store.getKeyById ok id = .ok (some k)) :
    ∀ r ∈ m.store.rows, r.keyHash = k.keyHash → r.id = id := by
  obtain ⟨r₀, hr₀, hid, hread⟩ := KeyDb.getKeyById_some hk
  intro r hr hh
  rw [rowToStoredKey_hash hread] at hh
  rw [m.store.eq_of_hash_eq hr hr₀ hh, hid]

theorem Confined.of_removed (hrows : ∀ r ∈ s.manager.store.rows, r.keyHash = keyHash → P r.status)
    (hpending : ∀ t' rawKey e, s.calls t' = .authInsert rawKey e →
      D.sha256Hex rawKey = keyHash → P e.status)
    (hpc : ∀ rawKey e, pc ≠ .authInsert rawKey e) :
    Confined D P keyHash
      ⟨s.manager.invalidateCache keyHash, Function.update s.calls t pc⟩ := by
  refine ⟨hrows, fun e he => ?_, fun t' rawKey e he => ?_⟩
  · simp [Manager.invalidateCache] at he
  · simp only [Function.update_apply] at he
    split at he
    · exact absurd he (hpc rawKey e)
    · exact hpending t' rawKey e he

theorem revoked_of_updateKey {db db' : KeyDb L} {ok : Bool} {id : String}
    (hid : ∀ r ∈ db.rows, r.keyHash = keyHash → r.id = id)
    (hdb : db.updateKey ok id { status := some .revoked } = .ok db') :
    ∀ r ∈ db'.rows, r.keyHash = keyHash → r.status = .revoked := by
  intro r' hr' hh
  rw [KeyDb.updateKey_rows hdb, mem_modifyRows] at hr'
  obtain ⟨r, hr, rfl⟩ := hr'
  split at hh
  · rename_i hr_id
    rw [if_pos hr_id]
    rfl
  · rename_i hne
    exact absurd (hid r hr hh) hne

theorem absent_of_deleteKey {db db' : KeyDb L} {ok : Bool} {id : String}
    (hid : ∀ r ∈ db.rows, r.keyHash = keyHash → r.id = id) (hdb : db.deleteKey ok id = .ok db') :
    ∀ r ∈ db'.rows, r.keyHash ≠ keyHash := by
  intro r hr hh
  rw [KeyDb.deleteKey_rows hdb, List.mem_filter] at hr
  exact absurd (hid r hr.1 hh) (by simpa using hr.2)

theorem achieved_step (h : CallsInv D s) (hq : Quiesced D s (.step t env)) :
    Achieved D (s.act D (.step t env)) (stepCall D env s.manager (s.calls t)).1 := by
  have hrows : RowsFrom s.manager.store.rows (s.act D (.step t env)).manager.store.rows :=
    stepCall_rows (s.calls t)
  have hold := h.achieved t
  cases hpc : s.calls t with
  | revokeRead id =>
    simp only [Quiesced, hpc] at hq
    simp only [stepCall]
    split
    · rename_i k hk
      split
      · rename_i hst
        obtain ⟨r, hr, hid, hread⟩ := KeyDb.getKeyById_some hk
        rw [rowToStoredKey_status hread] at hst
        rw [rowToStoredKey_hash hread]
        exact (hq r hr hid (hst.resolve_right (h.status r hr))).act (fun _ _ => rfl) _
      · have hread : Achieved D s (.revokeUpdate id k.keyHash) := id_of_read hk
        exact hread.act _ hrows
    · trivial
    · trivial
  | revokeUpdate id keyHash =>
    rw [hpc] at hold
    simp only [stepCall]
    split
    · rename_i db hdb
      simp only [act, hpc, stepCall, hdb]
      exact revoked_of_updateKey hold hdb
    · trivial
  | revokeRemove id keyHash =>
    rw [hpc] at hold
    simp only [Quiesced, hpc] at hq
    simp only [stepCall, act, hpc]
    exact Confined.of_removed hold hq (by simp)
  | revokeReload id keyHash =>
    rw [hpc] at hold
    simp only [stepCall]
    split
    · exact Confined.act hold (fun _ _ => rfl) _
    · trivial
  | deleteRead id =>
    simp only [stepCall]
    split
    · rename_i k hk
      have hread : Achieved D s (.deleteDelete id k.keyHash) := id_of_read hk
      exact hread.act _ hrows
    · trivial
    · trivial
  | deleteDelete id keyHash =>
    rw [hpc] at hold
    simp only [stepCall]
    split
    · rename_i db hdb
      simp only [act, hpc, stepCall, hdb]
      exact absent_of_deleteKey hold hdb
    · trivial
  | deleteRemove id keyHash =>
    rw [hpc] at hold
    simp only [Quiesced, hpc] at hq
    simp only [stepCall, act, hpc]
    exact Confined.of_removed (fun r hr hh => hold r hr hh)
      (fun t' rawKey e he hh => hq t' rawKey e he hh) (by simp)
  | revokeDone id keyHash =>
    rw [hpc] at hold
    exact Confined.act hold (fun _ _ => rfl) _
  | deleteDone id keyHash =>
    rw [hpc] at hold
    exact Confined.act hold (fun _ hf => hf) _
  | _ =>
    simp only [stepCall]
    repeat' split
    all_goals trivial

theorem RowsFrom.status {rows rows' : List (KeyRow L)} (h : RowsFrom rows rows')
    (hst : ∀ r ∈ rows, r.status ≠ .expired) : ∀ r ∈ rows', r.status ≠ .expired := by
  intro r' hr'
  obtain ⟨r, hr, -, -, heq⟩ := h r' hr'
  rcases heq with heq | heq
  · rw [heq]; exact hst r hr
  · rw [heq]; decide

theorem CallsInv.act (h : CallsInv D s) {a : KeyAct} (hq : Quiesced D s a) : CallsInv D (s.act D a) := by
  cases a with
  | start t call =>
    have hrows : RowsFrom s.manager.store.rows (s.act D (.start t call)).manager.store.rows := by
      simp only [KeySystem.act]
      split <;> exact .refl _
    refine ⟨fun t' => ?_, hrows.status h.status⟩
    · have hkeep := (h.achieved t').act (.start t call) hrows
      simp only [KeySystem.act] at hkeep ⊢
      split
      · simp only [Function.update_apply]
        split
        · cases call <;> trivial
        · simpa [*] using hkeep
      · simpa [*] using hkeep
  | step t env =>
    have hrows : RowsFrom s.manager.store.rows (s.act D (.step t env)).manager.store.rows :=
      stepCall_rows (s.calls t)
    refine ⟨fun t' => ?_, hrows.status h.status⟩
    by_cases ht : t' = t
    · subst ht
      rw [calls_step_self]
      exact achieved_step h hq
    · rw [calls_step_of_ne ht]
      exact (h.achieved t').act _ hrows

theorem callsInv_init (ops : List (Env × KeyOp L)) : CallsInv D (init (Manager.after D ops)) := by
  refine ⟨fun _ => trivial, ?_⟩
  refine Run.invariant_of_step
    (I := fun m : Manager L => ∀ r ∈ m.store.rows, r.status ≠ .expired) (fun m op hI => ?_)
    (by simp [Manager.new, KeyDb.empty])
  refine (Manager.step_change op).forall_rows hI ?_ (fun _ _ hr => hr) (fun _ _ _ _ hr => hr)
    (fun _ _ _ _ _ _ _ _ _ _ _ _ _ hr => hr) ?_
  · intro env fullKey uuid p encryptedKey _
    simp [storedKeyToRow, newKey]
  · intro r _
    simp [KeyUpdates.apply]

/-! ### Calls that start afterwards -/

/-- The call `t` had its store lookup after the steps `ds` and did not find the key. -/
def LookupMissed (D : Deps L) (s : KeySystem L) (t : Nat) (rawKey : String) (ds : List KeyAct)
    (env : Env) : Prop :=
  (Run.run (act D) s ds).calls t = .authStore rawKey ∧
    ∀ k, (Run.run (act D) s ds).manager.store.getKeyByHash (env.io 0) (D.sha256Hex rawKey) ≠
      .ok (some k)

/-- A call for the key, `as` steps after the key was confined, holds nothing but confined copies and
answers from them, unless its lookup missed. -/
def Answers (D : Deps L) (P : KeyStatus → Prop) (keyHash : String) (s : KeySystem L) (t : Nat)
    (as : List KeyAct) : Pc L → Prop
  | .authInsert rawKey e => D.sha256Hex rawKey = keyHash → P e.status
  | .authValidate rawKey e => D.sha256Hex rawKey = keyHash → P e.status
  | .authDone rawKey result => D.sha256Hex rawKey = keyHash →
    (∃ e now, P e.status ∧ result = validateStatus e now) ∨
      (result = .error .invalidKey ∧
        ∃ ds env, ds ++ [.step t env] <+: as ∧ LookupMissed D s t rawKey ds env)
  | _ => True

theorem Answers.mono {as bs : List KeyAct} (h : Answers D P keyHash s t as pc) (hp : as <+: bs) :
    Answers D P keyHash s t bs pc := by
  cases pc with
  | authDone rawKey result =>
    intro hh
    rcases h hh with hv | ⟨hr, ds, env, hds, hmiss⟩
    · exact .inl hv
    · exact .inr ⟨hr, ds, env, hds.trans hp, hmiss⟩
  | authInsert | authValidate => exact h
  | _ => trivial

theorem Answers.step {as : List KeyAct} (hc : Confined D P keyHash (Run.run (act D) s as))
    (h : Answers D P keyHash s t as ((Run.run (act D) s as).calls t)) :
    Answers D P keyHash s t (as ++ [.step t env])
      (stepCall D env (Run.run (act D) s as).manager ((Run.run (act D) s as).calls t)).1 := by
  cases hpc : (Run.run (act D) s as).calls t with
  | authLookup rawKey =>
    simp only [stepCall]
    split
    · rename_i e he
      intro hh
      exact hc.cache e (by rw [← hh]; exact he)
    · trivial
  | authStore rawKey =>
    have hmissed : (∀ k, (Run.run (act D) s as).manager.store.getKeyByHash (env.io 0)
        (D.sha256Hex rawKey) ≠ .ok (some k)) →
        Answers D P keyHash s t (as ++ [.step t env]) (.authDone rawKey (.error .invalidKey)) :=
      fun hno _ => .inr ⟨rfl, as, env, List.prefix_refl _, hpc, hno⟩
    simp only [stepCall]
    split
    · rename_i k hk
      intro hh
      obtain ⟨r, hr, hhash, hread⟩ := KeyDb.getKeyByHash_some hk
      show P k.status
      rw [rowToStoredKey_status hread]
      exact hc.rows r hr (hhash.trans hh)
    · rename_i hk
      exact hmissed fun k => by rw [hk]; simp
    · rename_i hk
      exact hmissed fun k => by rw [hk]; simp
  | authInsert rawKey e => rw [hpc] at h; exact h
  | authValidate rawKey e =>
    rw [hpc] at h
    exact fun hh => .inl ⟨e, env.now, h hh, rfl⟩
  | authDone rawKey result =>
    rw [hpc] at h
    exact h.mono (List.prefix_append _ _)
  | _ =>
    simp only [stepCall]
    repeat' split
    all_goals trivial

theorem answers_run (hc : Confined D P keyHash s) (hP : ∀ st, P st → P .revoked) (hidle : s.calls t = .idle)
    (as : List KeyAct) :
    Answers D P keyHash s t as ((Run.run (act D) s as).calls t) := by
  induction as using List.reverseRecOn with
  | nil => rw [Run.run_nil, hidle]; trivial
  | append_singleton as a ih =>
    rw [Run.run_concat]
    cases a with
    | start t' call =>
      simp only [act]
      split
      · simp only [Function.update_apply]
        split
        · cases call <;> trivial
        · exact ih.mono (List.prefix_append _ _)
      · exact ih.mono (List.prefix_append _ _)
    | step t' env =>
      by_cases ht : t = t'
      · subst ht
        rw [calls_step_self]
        exact Answers.step (hc.run hP as) ih
      · rw [calls_step_of_ne ht]
        exact ih.mono (List.prefix_append _ _)

end

/-- Once a revocation has returned, every call for the key that starts afterwards is answered
`Revoked`, or `InvalidKey` when its store lookup finds no key; once a deletion has returned, it is
answered `InvalidKey`. -/
theorem revocation_final (D : Deps L) (ops : List (Env × KeyOp L)) (as bs : List KeyAct)
    (h : Run.Along (act D) (Quiesced D) (init (Manager.after D ops)) as) (t : Nat)
    (hidle : (Run.run (act D) (init (Manager.after D ops)) as).calls t = .idle) (rawKey : String)
    (result : Except AuthError (AuthenticatedKey L))
    (hdone : (Run.run (act D) (init (Manager.after D ops)) (as ++ bs)).calls t =
      .authDone rawKey result) :
    (∀ u id, (Run.run (act D) (init (Manager.after D ops)) as).calls u =
        .revokeDone id (D.sha256Hex rawKey) →
      result = .error .revoked ∨ (result = .error .invalidKey ∧
        ∃ ds env, ds ++ [.step t env] <+: bs ∧
          LookupMissed D (Run.run (act D) (init (Manager.after D ops)) as) t rawKey ds env)) ∧
    (∀ u id, (Run.run (act D) (init (Manager.after D ops)) as).calls u =
        .deleteDone id (D.sha256Hex rawKey) → result = .error .invalidKey) := by
  have hinv : CallsInv D (Run.run (act D) (init (Manager.after D ops)) as) :=
    Run.invariant (fun s a hI hq => hI.act hq) (callsInv_init ops) h
  rw [Run.run_append] at hdone
  refine ⟨fun u id hu => ?_, fun u id hu => ?_⟩
  · have hc := hinv.achieved u
    rw [hu] at hc
    have hans := answers_run hc (fun _ _ => rfl) hidle bs
    rw [hdone] at hans
    rcases hans rfl with ⟨e, now, hst, rfl⟩ | hmiss
    · exact .inl (by simp [validateStatus, hst])
    · exact .inr hmiss
  · have hc := hinv.achieved u
    rw [hu] at hc
    have hans := answers_run hc (fun _ hf => hf) hidle bs
    rw [hdone] at hans
    rcases hans rfl with ⟨e, now, hst, -⟩ | hmiss
    · exact hst.elim
    · exact hmiss.1

def Revoking (m : Manager L) : Pc L → Prop
  | .revokeRead id => ∀ r ∈ m.store.rows, r.id = id → r.status ≠ .revoked
  | .revokeUpdate _ _ => True
  | .revokeRemove _ _ => True
  | .revokeReload _ _ => True
  | .revokeDone _ _ => True
  | .failed => True
  | _ => False

variable {pc : Pc L}

theorem Revoking.stepCall {D : Deps L} {m : Manager L} {env : Env} (h : Revoking m pc) :
    Revoking (stepCall D env m pc).2 (stepCall D env m pc).1 := by
  cases pc with
  | revokeRead id =>
    simp only [VirtualKeys.stepCall]
    repeat' split
    all_goals trivial
  | revokeUpdate id keyHash =>
    simp only [VirtualKeys.stepCall]
    split <;> trivial
  | revokeRemove id keyHash => trivial
  | revokeReload id keyHash =>
    simp only [VirtualKeys.stepCall]
    split <;> trivial
  | revokeDone | failed => trivial
  | _ => exact h.elim

theorem quiesced_of_alone {D : Deps L} {t : Nat} (envs : List Env) (s : KeySystem L)
    (hothers : ∀ t', t' ≠ t → s.calls t' = .idle) (hpc : Revoking s.manager (s.calls t)) :
    Run.Along (act D) (Quiesced D) s (envs.map (.step t)) := by
  induction envs generalizing s with
  | nil => trivial
  | cons env envs ih =>
    have hno : ∀ t' rawKey e, s.calls t' ≠ .authInsert rawKey e := by
      intro t' rawKey e he
      by_cases ht : t' = t
      · rw [← ht, he] at hpc; exact hpc
      · rw [hothers t' ht] at he; cases he
    refine ⟨?_, ih _ (fun t' ht => ?_) ?_⟩
    · simp only [Quiesced]
      split
      · exact fun t' rawKey e he => absurd he (hno t' rawKey e)
      · exact fun t' rawKey e he => absurd he (hno t' rawKey e)
      · rename_i hread
        rw [hread] at hpc
        exact fun r hr hid hst => absurd hst (hpc r hr hid)
      · trivial
    · rw [calls_step_of_ne ht, hothers t' ht]
    · rw [calls_step_self]
      exact hpc.stepCall

def sampleKey : List (Env × KeyOp Unit) := [(sampleEnv 0, .createKey "vk" "id" {})]

def sampleSystem : KeySystem Unit := init (Manager.after sampleDeps sampleKey)

def lateRead : List KeyAct :=
  [.start 0 (.authenticate "vk"), .step 0 (sampleEnv 0), .step 0 (sampleEnv 0),
   .start 1 (.revokeKey "id"), .step 1 (sampleEnv 0), .step 1 (sampleEnv 0), .step 1 (sampleEnv 0),
   .step 1 (sampleEnv 0)]

def lateInsert : List KeyAct :=
  [.step 0 (sampleEnv 0), .start 2 (.authenticate "vk"), .step 2 (sampleEnv 0),
   .step 2 (sampleEnv 0)]

def isRevokeDone (keyHash : String) : Pc L → Bool
  | .revokeDone _ h => h = keyHash
  | _ => false

def isIdle : Pc L → Bool
  | .idle => true
  | _ => false

/-- Whether a finished `authenticate` call for `rawKey` was let in. -/
def letIn (rawKey : String) : Pc L → Option Bool
  | .authDone raw result => if raw = rawKey then some result.isOk else none
  | _ => none

/-- The revocation has returned, call 2 starts after it and is let in. -/
theorem late_insert_lets_in : isRevokeDone "vk" ((Run.run (act sampleDeps) sampleSystem lateRead).calls 1) = true ∧
    isIdle ((Run.run (act sampleDeps) sampleSystem lateRead).calls 2) = true ∧
    letIn "vk" ((Run.run (act sampleDeps) sampleSystem (lateRead ++ lateInsert)).calls 2) =
      some true := by
  decide +kernel

/-- Call 1 revokes the key before anyone reads it, call 2 authenticates. -/
def soloRevoke : List KeyAct :=
  .start 1 (.revokeKey "id") ::
    [sampleEnv 0, sampleEnv 0, sampleEnv 0, sampleEnv 0].map (.step 1)

def nextCall : List KeyAct :=
  .start 2 (.authenticate "vk") :: [sampleEnv 0, sampleEnv 0, sampleEnv 0, sampleEnv 0].map (.step 2)

theorem eq_idle (h : isIdle pc = true) : pc = .idle := by
  cases pc <;> first | rfl | cases h

theorem eq_revokeDone {keyHash : String} (h : isRevokeDone keyHash pc = true) : ∃ id, pc = .revokeDone id keyHash := by
  cases pc with
  | revokeDone id h' =>
    simp only [isRevokeDone, decide_eq_true_eq] at h
    exact ⟨id, by rw [h]⟩
  | _ => cases h

theorem eq_authDone {rawKey : String} {b : Bool} (h : letIn rawKey pc = some b) :
    ∃ result, pc = .authDone rawKey result := by
  cases pc with
  | authDone raw result =>
    simp only [letIn] at h
    split at h
    · rename_i heq
      exact ⟨result, by rw [heq]⟩
    · cases h
  | _ => cases h

theorem solo_revoke_locks_out : ∃ result, (Run.run (act sampleDeps) sampleSystem (soloRevoke ++ nextCall)).calls 2 =
        .authDone "vk" result ∧
      (result = .error .revoked ∨ (result = .error .invalidKey ∧
        ∃ ds env, ds ++ [.step 2 env] <+: nextCall ∧
          LookupMissed sampleDeps (Run.run (act sampleDeps) sampleSystem soloRevoke) 2 "vk" ds
            env)) := by
  have hdone : isRevokeDone "vk" ((Run.run (act sampleDeps) sampleSystem soloRevoke).calls 1) =
      true := by decide +kernel
  have hidle : isIdle ((Run.run (act sampleDeps) sampleSystem soloRevoke).calls 2) = true := by
    decide +kernel
  have hans : letIn "vk" ((Run.run (act sampleDeps) sampleSystem
      (soloRevoke ++ nextCall)).calls 2) = some false := by decide +kernel
  have hactive : ∀ r ∈ sampleSystem.manager.store.rows, r.status ≠ .revoked := by decide +kernel
  obtain ⟨id, hid⟩ := eq_revokeDone hdone
  obtain ⟨result, hresult⟩ := eq_authDone hans
  have halong : Run.Along (act sampleDeps) (Quiesced sampleDeps) sampleSystem soloRevoke := by
    refine ⟨trivial, quiesced_of_alone _ _ (fun t' ht => ?_) fun r hr _ => hactive r hr⟩
    simp [act, sampleSystem, init, Function.update_of_ne ht]
  exact ⟨result, hresult, (revocation_final sampleDeps sampleKey soloRevoke nextCall halong 2
    (eq_idle hidle) "vk" result hresult).1 1 id hid⟩

end KeySystem

/-! ### One call after another -/

variable (D : Deps L) (m : Manager L) (env : Env)

/-- What each step of a call finds; its store statements are taken by their position. -/
def KeyCall.envs : KeyCall → List Env
  | .authenticate _ => [env, env, env, env]
  | .revokeKey _ => [env, { env with io := fun _ => env.io 1 }, env, { env with io := fun _ => env.io 2 }]
  | .deleteKey _ => [env, { env with io := fun _ => env.io 1 }, env]

/-- The call as one operation of the manager. -/
def KeyCall.serve : KeyCall → Manager L
  | .authenticate rawKey => (m.authenticate D env rawKey).2
  | .revokeKey id => (m.revokeKey env id).2
  | .deleteKey id => (m.deleteKey env id).2

/-- The call has ended with the answer of the operation. -/
def KeyCall.Answered (pc : Pc L) : KeyCall → Prop
  | .authenticate rawKey => pc = .authDone rawKey (m.authenticate D env rawKey).1
  | .revokeKey id => pc.returnedOk = (m.revokeKey env id).1.isOk ∧ ((m.revokeKey env id).1.isOk = false → pc = .failed)
  | .deleteKey id => pc.returnedOk = (m.deleteKey env id).1.isOk ∧ ((m.deleteKey env id).1.isOk = false → pc = .failed)

@[simp] theorem runCall_nil (pc : Pc L) : runCall D m pc [] = (pc, m) := rfl

@[simp] theorem runCall_cons (pc : Pc L) (envs : List Env) :
    runCall D m pc (env :: envs) = runCall D (stepCall D env m pc).2 (stepCall D env m pc).1 envs := rfl

/-- A call that runs alone is the operation. -/
theorem runCall_entry (call : KeyCall) :
    (runCall D m call.entry (call.envs env)).2 = call.serve D m env ∧
      call.Answered D m env (runCall D m call.entry (call.envs env)).1 := by
  -- what the call reads is fixed first, so that each step is a single case
  cases call <;> simp only [KeyCall.envs, KeyCall.entry, KeyCall.serve, KeyCall.Answered, Except.isOk, Except.toBool]
  case authenticate rawKey =>
    cases hcache : m.cache (D.sha256Hex rawKey) with
    | some cached => simp [stepCall, Manager.authenticate, hcache]
    | none =>
      rcases hread : m.store.getKeyByHash (env.io 0) (D.sha256Hex rawKey) with _ | _ | stored <;>
        simp [stepCall, Manager.authenticate, hcache, hread]
  case revokeKey id =>
    rcases hread : m.store.getKeyById (env.io 0) id with _ | _ | stored
    case ok.some =>
      by_cases hdone : stored.status = .revoked ∨ stored.status = .expired
      · simp [stepCall, Manager.revokeKey, hread, hdone]
      · cases hupdate : m.store.updateKey (env.io 1) id { status := some .revoked } with
        | error => simp [stepCall, Manager.revokeKey, hread, hdone, hupdate]
        | ok db =>
          cases hreload : ({ m with store := db }.invalidateCache stored.keyHash).reload (env.io 2) id <;>
            simp [stepCall, Manager.revokeKey, hread, hdone, hupdate, hreload]
    all_goals simp [stepCall, Manager.revokeKey, hread]
  case deleteKey id =>
    rcases hread : m.store.getKeyById (env.io 0) id with _ | _ | stored
    case ok.some =>
      cases hdelete : m.store.deleteKey (env.io 1) id <;> simp [stepCall, Manager.deleteKey, hread, hdelete]
    all_goals simp [stepCall, Manager.deleteKey, hread]

namespace KeySystem

theorem run_steps (D : Deps L) (s : KeySystem L) (t : Nat) (envs : List Env) :
    Run.run (act D) s (envs.map (.step t)) = ⟨(runCall D s.manager (s.calls t) envs).2,
      Function.update s.calls t (runCall D s.manager (s.calls t) envs).1⟩ := by
  induction envs generalizing s with
  | nil => simp [runCall]
  | cons env envs ih =>
    rw [List.map_cons, Run.run_cons, ih]
    simp [act, runCall]

/-- The calls `cs`, each by a task of its own and ended before the next one starts. -/
def serialActs (cs : List (KeyCall × Env)) : List KeyAct :=
  cs.zipIdx.flatMap fun c => .start c.2 c.1.1 :: (c.1.1.envs c.1.2).map (.step c.2)

def serialManager (D : Deps L) (m : Manager L) (cs : List (KeyCall × Env)) : Manager L :=
  cs.foldl (fun m c => c.1.serve D m c.2) m

/-- Calls that do not overlap are the operations of the manager, one after the other. -/
theorem serial_run (D : Deps L) (m : Manager L) (cs : List (KeyCall × Env)) :
    let s := Run.run (act D) (init m) (serialActs cs)
    s.manager = serialManager D m cs ∧ (∀ t, cs.length ≤ t → s.calls t = .idle) ∧
      ∀ t (c : KeyCall × Env), cs[t]? = some c → c.1.Answered D (serialManager D m (cs.take t)) c.2 (s.calls t) := by
  induction cs using List.reverseRecOn with
  | nil => exact ⟨rfl, fun _ _ => rfl, fun t c h => by cases h⟩
  | append_singleton cs c ih =>
    obtain ⟨hmanager, hidle, hanswered⟩ := ih
    set s := Run.run (act D) (init m) (serialActs cs)
    obtain ⟨hserve, hanswer⟩ := runCall_entry D s.manager c.2 c.1
    have hstart : act D s (.start cs.length c.1) = { s with calls := Function.update s.calls cs.length c.1.entry } := by
      simp [act, hidle cs.length le_rfl]
    have hrun : Run.run (act D) (init m) (serialActs (cs ++ [c])) = ⟨(runCall D s.manager c.1.entry (c.1.envs c.2)).2,
        Function.update s.calls cs.length (runCall D s.manager c.1.entry (c.1.envs c.2)).1⟩ := by
      have hacts : serialActs (cs ++ [c]) = serialActs cs ++ .start cs.length c.1 :: (c.1.envs c.2).map (.step cs.length) := by
        simp [serialActs, List.zipIdx_append]
      rw [hacts, Run.run_append, Run.run_cons, hstart, run_steps]
      simp
    rw [hrun]
    refine ⟨?_, fun t ht => ?_, fun t c' hc' => ?_⟩
    · show _ = serialManager D m (cs ++ [c])
      rw [serialManager, List.foldl_concat, hserve, hmanager, serialManager]
    · have hlt : cs.length < t := Nat.lt_of_succ_le (by simpa using ht)
      exact (Function.update_of_ne hlt.ne' ..).trans (hidle t hlt.le)
    · rcases lt_or_ge t cs.length with hlt | hge
      · rw [List.getElem?_append_left hlt] at hc'
        rw [List.take_append_of_le_length hlt.le]
        dsimp only
        rw [Function.update_of_ne hlt.ne]
        exact hanswered t c' hc'
      · obtain ⟨hlt, rfl⟩ := List.getElem?_eq_some_iff.1 hc'
        obtain rfl : t = cs.length := by
          simp at hlt
          omega
        simpa [hmanager] using hanswer

end KeySystem

end ObeyGateway.VirtualKeys
