import ObeyGateway.VirtualKeys.Runs

/-!
# Windowed budgets and their anchor

A budget window takes effect through the key's `window_start`: `check_budget_at` treats a window
without one as a lifetime budget. `create_key` sets the anchor, `update_key` gives a key a window and
leaves the anchor alone. So the keys stay anchored (`Anchored`) exactly as long as no update gives a
window to a key that has no window start.
-/

namespace ObeyGateway.VirtualKeys

variable {L : Type}

/-- The UTC day, the Monday or the month a time falls into. -/
def period (w : BudgetWindow) (t : Int) : Int :=
  match w with
  | .daily => dateNaive t
  | .weekly => mondayOfWeek (dateNaive t)
  | .monthly => Calendar.monthIndex (dateNaive t)

/-- The first instant after the period of `t`. -/
def periodEnd (w : BudgetWindow) (t : Int) : Int :=
  match w with
  | .daily => (dateNaive t + 1) * dayNanos
  | .weekly => (mondayOfWeek (dateNaive t) + 7) * dayNanos
  | .monthly => Calendar.monthStart (Calendar.monthIndex (dateNaive t) + 1) * dayNanos

theorem le_dateNaive_iff {d t : Int} : d ≤ dateNaive t ↔ d * dayNanos ≤ t :=
  Int.le_ediv_iff_mul_le (by decide)

theorem windowExpired_of_periodEnd_le {w : BudgetWindow} {t now : Int}
    (h : periodEnd w t ≤ now) : windowExpired w t now = true := by
  cases w with
  | daily =>
    have : dateNaive t + 1 ≤ dateNaive now := le_dateNaive_iff.2 h
    simp only [windowExpired, decide_eq_true_eq]
    omega
  | weekly => exact decide_eq_true h
  | monthly =>
    have hlt := Calendar.monthIndex_lt_of_le (le_dateNaive_iff.2 h)
    simp only [windowExpired, decide_eq_true_eq, ne_eq, Prod.mk.injEq]
    rw [Calendar.year_month_eq_iff]
    omega

theorem windowExpired_of_period_eq {w : BudgetWindow} {t now : Int}
    (h : period w t = period w now) : windowExpired w t now = false := by
  cases w with
  | daily => simpa [windowExpired, period] using h.symm
  | weekly =>
    have h7 : ¬ mondayOfWeek (dateNaive t) + 7 ≤ dateNaive now := by
      have h : mondayOfWeek (dateNaive t) = mondayOfWeek (dateNaive now) := h
      rw [h]
      unfold mondayOfWeek Calendar.numDaysFromMonday
      omega
    simpa [windowExpired, le_dateNaive_iff] using h7
  | monthly =>
    simp only [windowExpired, ne_eq, Prod.mk.injEq, decide_not, Bool.not_eq_false',
      decide_eq_true_eq]
    exact Calendar.year_month_eq_iff.2 h.symm

theorem period_fromEpochSecs (w : BudgetWindow) (t : Int) : period w (fromEpochSecs (toEpochSecs t)) = period w t := by
  have h : dateNaive (fromEpochSecs (toEpochSecs t)) = dateNaive t := by
    unfold dateNaive fromEpochSecs toEpochSecs dayNanos
    omega
  cases w <;> simp only [period, h]

/-! ### The anchor -/

structure Anchored (m : Manager L) : Prop where
  rows : ∀ r ∈ m.store.rows, r.budgetWindow.isSome → r.windowStartTimestamp.isSome
  cache : ∀ h e, m.cache h = some e → e.budgetWindow.isSome → e.windowStart.isSome

/-- The operation is an update that goes through and gives a window to a key with no window
start. -/
def SetsUnanchoredWindow (D : Deps L) (m : Manager L) : Env × KeyOp L → Prop
  | (env, .updateKey id p) =>
    env.io 0 = true ∧ env.io 1 = true ∧ validateUpdateParams D p = [] ∧
      (∃ w, p.budgetWindow = some (some w)) ∧
      ∃ r ∈ m.store.rows, ∃ k, r.id = id ∧ rowToStoredKey r = .ok k ∧ r.status ≠ .revoked ∧
        r.windowStartTimestamp = none
  | _ => False

section
variable {D : Deps L} {m : Manager L}

theorem Anchored.new : Anchored (Manager.new (KeyDb.empty : KeyDb L)) where
  rows := by simp [Manager.new, KeyDb.empty]
  cache := by simp [Manager.new]

theorem Manager.updateKey_rows {env : Env} {id : String} {p : UpdateKeyParams L} {r : KeyRow L}
    {k : StoredVirtualKey L} (hr : r ∈ m.store.rows) (hid : r.id = id)
    (hread : rowToStoredKey r = .ok k) (hlive : r.status ≠ .revoked) (hio0 : env.io 0 = true)
    (hio1 : env.io 1 = true) (hv : validateUpdateParams D p = []) :
    (m.updateKey D env id p).2.store.rows =
      modifyRows id (keyUpdates env p).apply m.store.rows := by
  subst hid
  have hget : m.store.getKeyById (env.io 0) r.id = .ok (some k) := by
    simp only [KeyDb.getKeyById, KeyDb.getKey, hio0, if_true, KeyDb.find_id m.store hr, hread]
    rfl
  have hup : ∃ db, m.store.updateKey (env.io 1) r.id (keyUpdates env p) = .ok db := by
    simp only [KeyDb.updateKey, hio1, if_true]
    split
    · exact ⟨_, rfl⟩
    · exact ⟨_, rfl⟩
  obtain ⟨db, hdb⟩ := hup
  have hst : k.status ≠ .revoked := by rwa [rowToStoredKey_status hread]
  simp only [Manager.updateKey, hget, if_neg hst, hv, hdb]
  exact KeyDb.updateKey_rows hdb

variable {m' : Manager L} {op : Env × KeyOp L}

theorem Anchored.rows_change (h : Anchored m) (hset : ¬ SetsUnanchoredWindow D m op) (hc : Change D m op m') :
    ∀ r ∈ m'.store.rows, r.budgetWindow.isSome → r.windowStartTimestamp.isSome := by
  refine hc.forall_rows h.rows ?_ (fun _ _ _ _ => rfl) (fun _ _ _ _ hr => hr) ?_ (fun _ hr => hr)
  · intro env fullKey uuid p encryptedKey _ hw
    simpa [storedKeyToRow, newKey] using hw
  · rintro env id p rfl hv hfound hwrote r hr k hid hread hlive hold hw
    show r.windowStartTimestamp.isSome
    rcases hp : p.budgetWindow with _ | v
    · refine hold ?_
      simpa [KeyUpdates.apply, keyUpdates, hp] using hw
    rcases v with _ | w
    · simp [KeyUpdates.apply, keyUpdates, hp] at hw
    rw [Option.isSome_iff_ne_none]
    intro hnone
    have hio : env.io 1 = true :=
      hwrote.resolve_left (by simp [KeyUpdates.isEmpty, keyUpdates, hp])
    exact hset ⟨hfound, hio, hv, ⟨w, hp⟩, r, hr, k, hid, hread, hlive, hnone⟩

theorem Anchored.cache_change (h : Anchored m) (hc : Change D m op m') :
    ∀ h' e, m'.cache h' = some e → e.budgetWindow.isSome → e.windowStart.isSome := by
  intro h' e he
  cases hc with
  | @load env rawKey r k hr hh hread hmiss =>
    simp only [Function.update_apply] at he
    split at he
    · cases he
      obtain ⟨hf, -, hstart, -⟩ := rowToStoredKey_fields hread
      have hwin : k.budgetWindow = r.budgetWindow := congrArg KeyFields.budgetWindow hf
      simp only [storedToAuthenticated, hstart, hwin, Option.isSome_map]
      exact h.rows r hr
    · exact h.cache h' e he
  | restart => simp [Manager.new] at he
  | update | revoke | delete | adminReset => exact h.cache h' e (cache_of_invalidate he).2
  | _ => exact h.cache h' e he

theorem Anchored.change (h : Anchored m) (hset : ¬ SetsUnanchoredWindow D m op) (hc : Change D m op m') : Anchored m' :=
  ⟨h.rows_change hset hc, h.cache_change hc⟩

theorem SetsUnanchoredWindow.not_anchored (hset : SetsUnanchoredWindow D m op) : ¬ Anchored (m.step D op) := by
  intro h
  obtain ⟨env, op⟩ := op
  cases op with
  | updateKey id p =>
    obtain ⟨hio0, hio1, hv, ⟨w, hw⟩, r, hr, k, hid, hread, hlive, hnone⟩ := hset
    have hmem : (keyUpdates env p).apply r ∈ (m.updateKey D env id p).2.store.rows := by
      rw [Manager.updateKey_rows hr hid hread hlive hio0 hio1 hv, mem_modifyRows]
      exact ⟨r, hr, by rw [if_pos hid]⟩
    have hwin : ((keyUpdates env p).apply r).budgetWindow = some w := by
      simp [KeyUpdates.apply, keyUpdates, hw]
    have hstart : ((keyUpdates env p).apply r).windowStartTimestamp = none := hnone
    have := h.rows _ hmem (by rw [hwin]; rfl)
    rw [hstart] at this
    cases this
  | _ => exact hset

theorem checkBudgetAt_of_periodEnd_le {key : AuthenticatedKey L} {w : BudgetWindow} {t now : Int}
    (hw : key.budgetWindow = some w) (ht : key.windowStart = some t) (h : periodEnd w t ≤ now)
    (env : Env) (m : Manager L) : (m.checkBudgetAt env key now).1 = evaluateLimits key 0 0 := by
  have hreset : needsReset key now = true := by
    simp only [needsReset, hw, ht]
    exact windowExpired_of_periodEnd_le h
  simp [Manager.checkBudgetAt, hreset]

end

/-- The keys stay anchored through a run exactly when none of its updates gives a window to a key
without a window start; then every windowed key has an anchor, and from the end of the period of its
anchor on its limits are judged on zero counters. -/
theorem windowed_budgets_reset (D : Deps L) (ops : List (Env × KeyOp L)) :
    (Run.Along (Manager.step D) (fun m op => ¬ SetsUnanchoredWindow D m op)
        (Manager.new KeyDb.empty) ops ↔
      ∀ initial, initial <+: ops → Anchored (Manager.after D initial)) ∧
    (Run.Along (Manager.step D) (fun m op => ¬ SetsUnanchoredWindow D m op)
        (Manager.new KeyDb.empty) ops →
      ∀ r ∈ (Manager.after D ops).store.rows, ∀ w, r.budgetWindow = some w →
        ∃ t, r.windowStartTimestamp = some t ∧
          ∀ k, rowToStoredKey r = .ok k → ∀ env m now, periodEnd w (fromEpochSecs t) ≤ now →
            (Manager.checkBudgetAt env m (storedToAuthenticated k) now).1 =
              evaluateLimits (storedToAuthenticated k) 0 0) := by
  have hstep : ∀ (m : Manager L) op, Anchored m →
      (Anchored (m.step D op) ↔ ¬ SetsUnanchoredWindow D m op) := fun m op h =>
    ⟨fun h' hset => hset.not_anchored h', fun hset => h.change hset (Manager.step_change op)⟩
  refine ⟨Run.along_iff_invariant hstep Anchored.new, fun halong r hr w hw => ?_⟩
  have h : Anchored (Manager.after D ops) :=
    Run.invariant (fun m op hI hset => (hstep m op hI).2 hset) Anchored.new halong
  obtain ⟨t, ht⟩ := Option.isSome_iff_exists.1 (h.rows r hr (by rw [hw]; rfl))
  refine ⟨t, ht, fun k hk env m now hnow => ?_⟩
  obtain ⟨hf, -, hstart, -⟩ := rowToStoredKey_fields hk
  have hwin : k.budgetWindow = some w := by rw [← hw]; exact congrArg KeyFields.budgetWindow hf
  refine checkBudgetAt_of_periodEnd_le hwin ?_ hnow env m
  show k.windowStart = _
  rw [hstart, ht]
  rfl

def sampleDeps : Deps Unit where
  sha256Hex s := s
  encryptProviderSecret s := .ok s
  loopErrors _ := []

def sampleEnv (now : Int) : Env := ⟨now, fun _ => true⟩

/-- A lifetime key with a spend limit of 1 USD becomes a daily one and spends its limit. -/
def lateWindow : List (Env × KeyOp Unit) :=
  [(sampleEnv 0, .createKey "vk" "id" { budgetLimitUsd := some 1 }),
   (sampleEnv 0, .updateKey "id" { budgetWindow := some (some .daily) }),
   (sampleEnv 0, .record ⟨"id", "g", "m", 0, 0, 1, 0⟩)]

/-- The daily key has no anchor: ten days later it is rejected for the spend of day 0, where zero
counters would let it pass. -/
theorem lateWindow_never_resets : ∃ r ∈ (Manager.after sampleDeps lateWindow).store.rows,
      r.budgetWindow = some .daily ∧ r.windowStartTimestamp = none ∧
      (rowToStoredKey r).toOption.any (fun k =>
        !((Manager.after sampleDeps lateWindow).checkBudgetAt (sampleEnv (10 * dayNanos))
            (storedToAuthenticated k) (10 * dayNanos)).1.isOk &&
          (evaluateLimits (storedToAuthenticated k) 0 0).isOk) = true := by
  decide +kernel

def earlyWindow : List (Env × KeyOp Unit) :=
  [(sampleEnv 0, .createKey "vk" "id" { budgetLimitUsd := some 1, budgetWindow := some .daily }),
   (sampleEnv 0, .updateKey "id" { budgetWindow := some (some .weekly) }),
   (sampleEnv 0, .record ⟨"id", "g", "m", 0, 0, 1, 0⟩)]

theorem earlyWindow_anchors : Run.Along (Manager.step sampleDeps) (fun m op => ¬ SetsUnanchoredWindow sampleDeps m op)
      (Manager.new KeyDb.empty) earlyWindow := by
  refine ⟨fun h => h, ?_, fun h => h, trivial⟩
  rintro ⟨-, -, -, -, r, hr, k, -, -, -, hnone⟩
  have hall : ∀ r ∈ ((Manager.new KeyDb.empty).step sampleDeps
      (sampleEnv 0, .createKey "vk" "id"
        { budgetLimitUsd := some 1, budgetWindow := some .daily })).store.rows,
      r.windowStartTimestamp ≠ none := by decide +kernel
  exact hall r hr hnone

theorem earlyWindow_resets : ∀ r ∈ (Manager.after sampleDeps earlyWindow).store.rows, ∀ w, r.budgetWindow = some w →
      ∃ t, r.windowStartTimestamp = some t ∧
        ∀ k, rowToStoredKey r = .ok k → ∀ env m now, periodEnd w (fromEpochSecs t) ≤ now →
          (Manager.checkBudgetAt env m (storedToAuthenticated k) now).1 =
            evaluateLimits (storedToAuthenticated k) 0 0 :=
  (windowed_budgets_reset sampleDeps earlyWindow).2 earlyWindow_anchors

end ObeyGateway.VirtualKeys
