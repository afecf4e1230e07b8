import ObeyGateway.Metrics.ProviderSpend

/-!
# Budget windows under interleaving

`add_cost`, `persist_provider_spend` and `maybe_roll_budget_window` of one provider, step by step. The durable spend
and the counter keep what they should when two things do not happen (`Timely`): a `reset_provider_spend` that comes
when costs of the new window are counted already, and an accrual that found no row and meets one with another window
start (`law_of_timely`).
-/

namespace ObeyGateway.Budgets
open VirtualKeys

inductive BudgetTask
  /-- `persist_provider_spend` found no row; the clock is read next. -/
  | stamp (usd : ℚ≥0)
  /-- The spawned write; `first` when its anchor is not that of a row. -/
  | write (usd : ℚ≥0) (first : Bool) (anchor : Int)
  /-- `budget_window_expired_cached`, which has read the clock. -/
  | lookup (now : Int)
  | seed (now : Int)
  | insert (now boundary : Int)
  | readAnchor
  | expiry (anchor : Int)
  | swap (anchor : Int)
  /-- `reset_provider_spend`: the counter, then the cached boundary. -/
  | zero
  | uncache
  | done
deriving DecidableEq

structure Accrual where
  first : Bool
  anchor : Int
  usd : ℚ

structure BudgetShared where
  clock : Int
  row : Option ProviderBudgetRow
  cents : Nat
  boundary : Option Int := none
  accrued : List Accrual := []
  /-- The windows that were reset, one entry for each winner. -/
  resets : List Int := []
  /-- The windows for which a swap has run. -/
  swapped : List Int := []
  /-- What the counter was given since the last winner. -/
  sinceReset : Nat := 0

structure BudgetState where
  shared : BudgetShared
  tasks : List BudgetTask := []

inductive BudgetAction
  | tick (secs : Nat)
  | addCost (usd : ℚ≥0)
  | persist (usd : ℚ≥0)
  | roll
  /-- The next step of a task. -/
  | advance (i : Nat)
  /-- The next step of a task, with a store error. -/
  | fail (i : Nat)

namespace BudgetShared
variable (policy : BudgetResetPolicy) (s : BudgetShared)

/-- The window that starts at `anchor` has expired. -/
def expired (anchor : Int) : Bool :=
  policy.window.any fun window => windowExpired window (fromEpochSecs anchor) (fromEpochSecs s.clock)

def write (usd : ℚ≥0) (first : Bool) (anchor : Int) : BudgetShared :=
  { s with
    row := ProviderBudgetRow.addSpend s.row usd anchor
    accrued := s.accrued ++ [⟨first, anchor, usd⟩] }

def swap (anchor : Int) : BudgetShared :=
  let reset := ProviderBudgetRow.resetWindow s.row anchor s.clock
  let won := reset.1.any (·.didReset)
  { s with
    row := reset.2
    resets := if won then s.resets ++ [anchor] else s.resets
    swapped := s.swapped ++ [anchor]
    sinceReset := if won then 0 else s.sinceReset }

def addCost (usd : ℚ≥0) : BudgetShared :=
  { s with
    cents := (s.cents + costCents usd) % 2 ^ 64
    sinceReset := (s.sinceReset + costCents usd) % 2 ^ 64 }

def exec : BudgetTask → BudgetShared × BudgetTask
  | .stamp usd => (s, .write usd true (currentWindowStartForPolicy policy s.clock))
  | .write usd first anchor => (s.write usd first anchor, .done)
  | .lookup now =>
    match s.boundary with
    | some boundary => (s, if boundary ≤ now then .readAnchor else .done)
    | none => (s, .seed now)
  | .seed now =>
    match s.row.bind fun row => nextResetEpoch policy row.windowStart with
    | some boundary => (s, .insert now boundary)
    | none => (s, .done)
  | .insert now boundary => ({ s with boundary := some boundary }, if boundary ≤ now then .readAnchor else .done)
  | .readAnchor =>
    match s.row with
    | some row => (s, .expiry row.windowStart)
    | none => (s, .done)
  | .expiry anchor => (s, if s.expired policy anchor then .swap anchor else .done)
  | .swap anchor => (s.swap anchor, .zero)
  | .zero => ({ s with cents := 0 }, .uncache)
  | .uncache => ({ s with boundary := none }, .done)
  | .done => (s, .done)

/-- The first step of `persist_provider_spend`. -/
def persist (usd : ℚ≥0) : BudgetTask :=
  match s.row with
  | some row => if 0 < row.windowStart then .write usd false row.windowStart else .stamp usd
  | none => .stamp usd

end BudgetShared

/-- A step that reads or writes the store ends with its error; a lost write is logged. -/
def BudgetTask.failed : BudgetTask → BudgetTask
  | .write _ _ _ | .seed _ | .readAnchor | .swap _ => .done
  | t => t

namespace BudgetState
variable (policy : BudgetResetPolicy) (s : BudgetState)

def step : BudgetAction → BudgetState
  | .tick secs => { s with shared := { s.shared with clock := s.shared.clock + secs } }
  | .addCost usd => { s with shared := s.shared.addCost usd }
  | .persist usd => { s with tasks := s.tasks ++ [s.shared.persist usd] }
  | .roll => if policy.window.isSome then { s with tasks := s.tasks ++ [.lookup s.shared.clock] } else s
  | .advance i =>
    match s.tasks[i]? with
    | some t => ⟨(s.shared.exec policy t).1, s.tasks.set i (s.shared.exec policy t).2⟩
    | none => s
  | .fail i =>
    match s.tasks[i]? with
    | some t => { s with tasks := s.tasks.set i t.failed }
    | none => s

end BudgetState

/-- Where a run begins: with a row whose window has begun, or none. -/
structure BudgetStart where
  clock : Int
  row : Option ProviderBudgetRow
  cents : Nat
  row_le : ∀ r ∈ row, r.windowStart ≤ clock

def BudgetStart.state (start : BudgetStart) : BudgetState where
  shared :=
    { clock := start.clock
      row := start.row
      cents := start.cents
      accrued := start.row.toList.map fun r => ⟨false, r.windowStart, r.currentSpendUsd⟩
      sinceReset := start.cents }

def windowOf (policy : BudgetResetPolicy) (epoch : Int) : Int :=
  (policy.window.map fun window => period window (fromEpochSecs epoch)).getD 0

/-- It read the start of the row's window, or none and was made in the same day, week or month. -/
def Accrual.belongs (policy : BudgetResetPolicy) (row : ProviderBudgetRow) (e : Accrual) : Bool :=
  if e.first then windowOf policy e.anchor = windowOf policy row.windowStart else e.anchor = row.windowStart

def BudgetShared.currentSpend (policy : BudgetResetPolicy) (s : BudgetShared) (row : ProviderBudgetRow) : ℚ :=
  ((s.accrued.filter fun e => e.belongs policy row).map (·.usd)).sum

structure BudgetLaw (policy : BudgetResetPolicy) (s : BudgetState) : Prop where
  /-- A window for which a roller has swapped has one winner. -/
  oneWinner : s.shared.resets.Nodup ∧ ∀ anchor ∈ s.shared.swapped, s.shared.resets.count anchor = 1
  onlyExpired : ∀ anchor ∈ s.shared.resets, s.shared.expired policy anchor
  /-- The cache does not hide that the window of the row has expired. -/
  noticed : ∀ row ∈ s.shared.row, ∀ boundary ∈ s.shared.boundary, s.shared.expired policy row.windowStart →
    boundary ≤ s.shared.clock
  durable : ∀ row ∈ s.shared.row, row.currentSpendUsd = s.shared.currentSpend policy row
  absent : s.shared.row = none → s.shared.accrued = []
  memory : (∀ t ∈ s.tasks, t = .done) → s.shared.cents = s.shared.sinceReset

/-- A counter is reset before costs of the new window count, and an accrual that found no row meets none of an earlier
one. -/
def BudgetTask.Timely (policy : BudgetResetPolicy) (s : BudgetShared) : BudgetTask → Prop
  | .zero => s.sinceReset = 0
  | .write _ true anchor => ∀ row ∈ s.row,
    row.windowStart = anchor ∨ windowOf policy anchor < windowOf policy row.windowStart
  | _ => True

def Timely (policy : BudgetResetPolicy) (s : BudgetState) : BudgetAction → Prop
  | .advance i => ∀ t ∈ s.tasks[i]?, t.Timely policy s.shared
  | _ => True

instance (policy : BudgetResetPolicy) (s : BudgetShared) : ∀ t : BudgetTask, Decidable (t.Timely policy s)
  | .zero => inferInstanceAs (Decidable (_ = _))
  | .write _ true anchor => inferInstanceAs (Decidable (∀ row ∈ s.row,
      row.windowStart = anchor ∨ windowOf policy anchor < windowOf policy row.windowStart))
  | .write _ false _ | .stamp _ | .lookup _ | .seed _ | .insert _ _ | .readAnchor | .expiry _ | .swap _ | .uncache
  | .done => isTrue trivial

instance (policy : BudgetResetPolicy) (s : BudgetState) : ∀ a, Decidable (Timely policy s a)
  | .advance i => inferInstanceAs (Decidable (∀ t ∈ s.tasks[i]?, t.Timely policy s.shared))
  | .tick _ | .addCost _ | .persist _ | .roll | .fail _ => isTrue trivial

section
variable {policy : BudgetResetPolicy} {a b clock : Int}

theorem windowOf_mono (policy : BudgetResetPolicy) (h : a ≤ b) : windowOf policy a ≤ windowOf policy b := by
  unfold windowOf
  cases policy.window with
  | none => exact le_refl _
  | some window => exact period_mono window (mul_le_mul_of_nonneg_right h (by norm_num))

theorem le_of_windowOf_lt (h : windowOf policy a < windowOf policy b) : a < b :=
  not_le.1 fun hle => absurd (windowOf_mono policy hle) (not_le.2 h)

theorem Accrual.belongs_of_eq {e : Accrual} {row : ProviderBudgetRow} (h : e.anchor = row.windowStart) :
    e.belongs policy row = true := by
  unfold Accrual.belongs
  split <;> simp [h]

theorem Accrual.belongs_congr {e : Accrual} {row row' : ProviderBudgetRow} (h : row'.windowStart = row.windowStart) :
    e.belongs policy row' = e.belongs policy row := by
  unfold Accrual.belongs
  rw [h]

theorem expired_iff {s : BudgetShared} (h : a ≤ s.clock) :
    s.expired policy a = true ↔ windowOf policy a < windowOf policy s.clock := by
  unfold BudgetShared.expired windowOf
  rcases policy.window with _ | window
  · simp
  have hle : fromEpochSecs a ≤ fromEpochSecs s.clock := mul_le_mul_of_nonneg_right h (by norm_num)
  have hmono := period_mono window hle
  simp only [Option.any_some, Option.map_some, Option.getD_some]
  constructor
  · intro hexp
    refine lt_of_le_of_ne hmono fun heq => ?_
    rw [windowExpired_of_period_eq heq] at hexp
    cases hexp
  · intro hlt
    rw [windowExpired_iff hle]
    by_contra hend
    rw [period_eq_of_lt window hle (not_le.1 hend)] at hlt
    exact lt_irrefl _ hlt

theorem boundary_le {s : BudgetShared} {boundary : Int} (hab : a ≤ b) (hb : b ≤ s.clock)
    (h : nextResetEpoch policy a = some boundary) (hexp : s.expired policy b = true) : boundary ≤ s.clock := by
  unfold BudgetShared.expired at hexp
  unfold nextResetEpoch at h
  rcases hwindow : policy.window with _ | window
  · simp [hwindow] at h
  rw [hwindow] at h hexp
  simp only [Option.map_some, Option.some.injEq] at h
  have hle : fromEpochSecs b ≤ fromEpochSecs s.clock := mul_le_mul_of_nonneg_right hb (by norm_num)
  have hend := (windowExpired_iff hle).1 hexp
  have hearlier : periodEnd window (fromEpochSecs a) ≤ periodEnd window (fromEpochSecs b) :=
    periodEnd_mono window (mul_le_mul_of_nonneg_right hab (by norm_num))
  unfold fromEpochSecs at hend hearlier
  unfold toEpochSecs fromEpochSecs at h
  omega

end

namespace BudgetShared
variable {policy : BudgetResetPolicy} {s s' : BudgetShared} {a : Int}

def Known (s : BudgetShared) (anchor : Int) : Prop :=
  ∃ row ∈ s.row, anchor ≤ row.windowStart ∧ (anchor = row.windowStart ∨ anchor ∈ s.resets)

structure Inv (policy : BudgetResetPolicy) (s : BudgetShared) : Prop where
  start_le : ∀ row ∈ s.row, row.windowStart ≤ s.clock
  reset_lt : ∀ anchor ∈ s.resets, ∃ row ∈ s.row, anchor < row.windowStart
  nodup : s.resets.Nodup
  swapped : ∀ anchor ∈ s.swapped, anchor ∈ s.resets
  onlyExpired : ∀ anchor ∈ s.resets, s.expired policy anchor
  cached : ∀ boundary ∈ s.boundary, ∃ anchor, s.Known anchor ∧ nextResetEpoch policy anchor = some boundary
  accruals : ∀ row ∈ s.row, ∀ e ∈ s.accrued,
    e.anchor ≤ row.windowStart ∧ (e.belongs policy row = true ↔ e.anchor = row.windowStart)
  durable : ∀ row ∈ s.row, row.currentSpendUsd = s.currentSpend policy row
  absent : s.row = none → s.accrued = []

structure Le (s s' : BudgetShared) : Prop where
  clock : s.clock ≤ s'.clock
  known : ∀ anchor, s.Known anchor → s'.Known anchor

theorem Known.le (h : s.Known a) (hs : s.Inv policy) : a ≤ s.clock := by
  obtain ⟨row, hrow, hle, -⟩ := h
  exact le_trans hle (hs.start_le row hrow)

theorem expired_mono (h : s.clock ≤ s'.clock) (ha : a ≤ s.clock) (hexp : s.expired policy a = true) :
    s'.expired policy a = true := by
  rw [expired_iff ha] at hexp
  rw [expired_iff (le_trans ha h)]
  exact lt_of_lt_of_le hexp (windowOf_mono policy h)

variable {row : ProviderBudgetRow}

theorem known_row (h : s.row = some row) : s.Known row.windowStart :=
  ⟨row, h, le_refl _, .inl rfl⟩

theorem Le.refl (s : BudgetShared) : s.Le s := ⟨le_refl _, fun _ h => h⟩

theorem Inv.reset_le (h : s.Inv policy) (ha : a ∈ s.resets) : a ≤ s.clock := by
  obtain ⟨row, hrow, hlt⟩ := h.reset_lt a ha
  exact le_trans (le_of_lt hlt) (h.start_le row hrow)

theorem Inv.tick (h : s.Inv policy) (secs : Nat) : Inv policy { s with clock := s.clock + secs } where
  start_le row hrow := le_trans (h.start_le row hrow) (by simp)
  reset_lt := h.reset_lt
  nodup := h.nodup
  swapped := h.swapped
  onlyExpired anchor hanchor := expired_mono (s := s) (by simp) (h.reset_le hanchor) (h.onlyExpired anchor hanchor)
  cached := h.cached
  accruals := h.accruals
  durable := h.durable
  absent := h.absent

theorem Inv.cache (h : s.Inv policy) {boundary : Option Int}
    (hb : ∀ b ∈ boundary, ∃ anchor, s.Known anchor ∧ nextResetEpoch policy anchor = some b) :
    Inv policy { s with boundary := boundary } :=
  { h with cached := hb }

theorem Inv.counters (h : s.Inv policy) (cents sinceReset : Nat) :
    Inv policy { s with cents := cents, sinceReset := sinceReset } :=
  { h with }

/-! ### The write and the swap -/

theorem currentSpend_append (e : Accrual) (row : ProviderBudgetRow) :
    currentSpend policy { s with accrued := s.accrued ++ [e] } row =
      s.currentSpend policy row + if e.belongs policy row then e.usd else 0 := by
  unfold currentSpend
  by_cases he : e.belongs policy row = true <;> simp [List.filter_append, he]

theorem addSpend_some (row : ProviderBudgetRow) (usd : ℚ≥0) (anchor : Int) :
    ProviderBudgetRow.addSpend (some row) usd anchor =
      some { row with currentSpendUsd := row.currentSpendUsd + if row.windowStart = anchor then (usd : ℚ) else 0 } := by
  have husd : ¬ (usd : ℚ) < 0 := not_lt.2 usd.2
  unfold ProviderBudgetRow.addSpend
  by_cases hanchor : row.windowStart = anchor <;> simp [husd, hanchor]

theorem addSpend_none (usd : ℚ≥0) (anchor : Int) : ProviderBudgetRow.addSpend none usd anchor = some ⟨anchor, usd⟩ := by
  have husd : ¬ (usd : ℚ) < 0 := not_lt.2 usd.2
  simp [ProviderBudgetRow.addSpend, husd]

theorem write_row (s : BudgetShared) (hrow : s.row = some row) (usd : ℚ≥0) (first : Bool) (anchor : Int) :
    ∃ row', (s.write usd first anchor).row = some row' ∧ row'.windowStart = row.windowStart ∧
      row'.currentSpendUsd = row.currentSpendUsd + if row.windowStart = anchor then (usd : ℚ) else 0 := by
  rw [write, hrow, addSpend_some]
  exact ⟨_, rfl, rfl, rfl⟩

theorem Le.write (s : BudgetShared) (usd : ℚ≥0) (first : Bool) (anchor : Int) : s.Le (s.write usd first anchor) where
  clock := le_refl _
  known a h := by
    obtain ⟨row, hrow, h⟩ := h
    obtain ⟨row', hrow', hstart, -⟩ := s.write_row hrow usd first anchor
    refine ⟨row', hrow', ?_⟩
    rwa [hstart]

/-- What a write may find: the anchor it has read, or the one it has worked out where the row is in the same or a
later window. -/
structure Writes (policy : BudgetResetPolicy) (s : BudgetShared) (e : Accrual) : Prop where
  le : e.anchor ≤ s.clock
  known : e.first = false → s.Known e.anchor
  settled : ∀ row ∈ s.row, e.anchor ≤ row.windowStart ∧ (e.belongs policy row = true ↔ e.anchor = row.windowStart)

theorem currentSpend_congr {row' : ProviderBudgetRow} (h : row'.windowStart = row.windowStart) :
    s.currentSpend policy row' = s.currentSpend policy row := by
  unfold currentSpend
  simp only [Accrual.belongs_congr h]

theorem Inv.write (h : s.Inv policy) {usd : ℚ≥0} {first : Bool} {anchor : Int}
    (hw : s.Writes policy ⟨first, anchor, usd⟩) : (s.write usd first anchor).Inv policy := by
  have hle := Le.write s usd first anchor
  have hcached : ∀ boundary ∈ s.boundary,
      ∃ a, (s.write usd first anchor).Known a ∧ nextResetEpoch policy a = some boundary := fun boundary hb => by
    obtain ⟨a, ha, hnext⟩ := h.cached boundary hb
    exact ⟨a, hle.known a ha, hnext⟩
  rcases hrow : s.row with _ | row
  · have hresets : s.resets = [] := List.eq_nil_iff_forall_not_mem.2 fun a ha => by
      obtain ⟨row, hmem, -⟩ := h.reset_lt a ha
      simp [hrow] at hmem
    have hnew : (s.write usd first anchor).row = some ⟨anchor, usd⟩ := by rw [BudgetShared.write, hrow, addSpend_none]
    have haccrued : (s.write usd first anchor).accrued = [⟨first, anchor, usd⟩] := by
      simp [BudgetShared.write, h.absent hrow]
    refine ⟨?_, ?_, h.nodup, h.swapped, h.onlyExpired, hcached, ?_, ?_, ?_⟩
    · rw [hnew]
      rintro row ⟨⟩
      exact hw.le
    · intro a ha
      simp [BudgetShared.write, hresets] at ha
    · rw [hnew, haccrued]
      rintro row ⟨⟩ e he
      rw [List.mem_singleton.1 he]
      exact ⟨le_refl _, by simp [Accrual.belongs_of_eq]⟩
    · rw [hnew]
      rintro row ⟨⟩
      rw [currentSpend, haccrued]
      simp [Accrual.belongs_of_eq]
    · rw [hnew]
      rintro ⟨⟩
  obtain ⟨row', hnew, hstart, hspend⟩ := s.write_row hrow usd first anchor
  have hsettled := hw.settled row hrow
  refine ⟨?_, ?_, h.nodup, h.swapped, h.onlyExpired, hcached, ?_, ?_, ?_⟩
  · rw [hnew]
    intro r hr
    obtain rfl : row' = r := Option.some.inj hr
    exact hstart.trans_le (h.start_le row hrow)
  · intro a ha
    obtain ⟨row'', hmem, hlt⟩ := h.reset_lt a ha
    cases hrow.symm.trans hmem
    exact ⟨row', hnew, hstart ▸ hlt⟩
  · rw [hnew]
    intro r hr e he
    obtain rfl : row' = r := Option.some.inj hr
    rw [Accrual.belongs_congr hstart, hstart]
    rcases List.mem_append.1 he with he | he
    · exact h.accruals row hrow e he
    · rw [List.mem_singleton.1 he]
      exact hsettled
  · rw [hnew]
    intro r hr
    obtain rfl : row' = r := Option.some.inj hr
    rw [currentSpend_congr hstart, hspend, h.durable row hrow]
    refine Eq.trans ?_ (currentSpend_append _ row).symm
    simp only [hsettled.2, eq_comm]
  · rw [hnew]
    rintro ⟨⟩

theorem swap_cases (s : BudgetShared) (hrow : s.row = some row) (anchor : Int) :
    (anchor = row.windowStart ∧ s.swap anchor = { s with
      row := some ⟨s.clock, 0⟩, resets := s.resets ++ [anchor], swapped := s.swapped ++ [anchor], sinceReset := 0 }) ∨
    (anchor ≠ row.windowStart ∧ s.swap anchor = { s with swapped := s.swapped ++ [anchor] }) := by
  by_cases hanchor : row.windowStart = anchor
  · exact .inl ⟨hanchor.symm, by simp [swap, ProviderBudgetRow.resetWindow, hrow, hanchor]⟩
  · exact .inr ⟨Ne.symm hanchor, by simp [swap, ProviderBudgetRow.resetWindow, hrow, hanchor]⟩

theorem Le.swap (h : s.Inv policy) (ha : s.Known a) : s.Le (s.swap a) := by
  obtain ⟨row, hrow, -⟩ := ha
  rcases s.swap_cases hrow a with ⟨rfl, heq⟩ | ⟨-, heq⟩
  · rw [heq]
    refine ⟨le_refl _, fun b hb => ?_⟩
    obtain ⟨row', hrow', hle, hb⟩ := hb
    cases hrow.symm.trans hrow'
    refine ⟨_, rfl, le_trans hle (h.start_le row hrow), .inr (List.mem_append.2 ?_)⟩
    rcases hb with rfl | hb
    · exact .inr (List.mem_singleton.2 rfl)
    · exact .inl hb
  · rw [heq]
    exact ⟨le_refl _, fun b hb => hb⟩

theorem Inv.swap (h : s.Inv policy) (ha : s.Known a) (hexp : s.expired policy a = true) : (s.swap a).Inv policy := by
  have hle := Le.swap h ha
  have hcached : ∀ boundary ∈ s.boundary,
      ∃ b, (s.swap a).Known b ∧ nextResetEpoch policy b = some boundary := fun boundary hb => by
    obtain ⟨b, hb, hnext⟩ := h.cached boundary hb
    exact ⟨b, hle.known b hb, hnext⟩
  obtain ⟨row, hrow, hale, ha'⟩ := ha
  rcases s.swap_cases hrow a with ⟨hwon, heq⟩ | ⟨hlost, heq⟩
  · have hwindow := (expired_iff (h.start_le row hrow)).1 (hwon ▸ hexp)
    have hlt : row.windowStart < s.clock := le_of_windowOf_lt hwindow
    have hnot : ∀ e ∈ s.accrued, Accrual.belongs policy ⟨s.clock, 0⟩ e = false := fun e he => by
      have hearlier := (h.accruals row hrow e he).1
      have hwindowOf := windowOf_mono policy hearlier
      unfold Accrual.belongs
      split
      · exact decide_eq_false (by dsimp only; omega)
      · exact decide_eq_false (by dsimp only; omega)
    rw [heq] at hcached ⊢
    refine ⟨?_, ?_, ?_, ?_, ?_, hcached, ?_, ?_, ?_⟩
    · rintro row' ⟨⟩
      exact le_refl _
    · intro b hb
      refine ⟨_, rfl, ?_⟩
      rcases List.mem_append.1 hb with hb | hb
      · obtain ⟨row', hrow', hlt'⟩ := h.reset_lt b hb
        cases hrow.symm.trans hrow'
        exact lt_trans hlt' hlt
      · rw [List.mem_singleton.1 hb, hwon]
        exact hlt
    · refine List.nodup_append.2 ⟨h.nodup, List.nodup_singleton _, fun b hb c hc => ?_⟩
      obtain ⟨row', hrow', hlt'⟩ := h.reset_lt b hb
      cases hrow.symm.trans hrow'
      rw [List.mem_singleton.1 hc, hwon]
      exact ne_of_lt hlt'
    · intro b hb
      exact List.mem_append.2 ((List.mem_append.1 hb).imp_left (h.swapped b))
    · intro b hb
      rcases List.mem_append.1 hb with hb | hb
      · exact h.onlyExpired b hb
      · rw [List.mem_singleton.1 hb]
        exact hexp
    · rintro row' ⟨⟩ e he
      have hearlier := (h.accruals row hrow e he).1
      refine ⟨by dsimp only; omega, ?_⟩
      rw [hnot e he]
      constructor
      · rintro ⟨⟩
      · intro heq'
        dsimp only at heq'
        omega
    · rintro row' ⟨⟩
      have hnone : s.accrued.filter (fun e => Accrual.belongs policy ⟨s.clock, 0⟩ e) = [] := by
        rw [List.filter_eq_nil_iff]
        intro e he
        simp [hnot e he]
      simp [currentSpend, hnone]
    · rintro ⟨⟩
  · have hmem : a ∈ s.resets := ha'.resolve_left hlost
    rw [heq] at hcached ⊢
    refine { h with cached := hcached, swapped := fun b hb => ?_ }
    rcases List.mem_append.1 hb with hb | hb
    · exact h.swapped b hb
    · rw [List.mem_singleton.1 hb]
      exact hmem

end BudgetShared

/-! ### The tasks -/

def BudgetTask.Inv (policy : BudgetResetPolicy) (s : BudgetShared) : BudgetTask → Prop
  | .write _ first anchor => anchor ≤ s.clock ∧ (first = false → s.Known anchor)
  | .insert _ boundary => ∃ anchor, s.Known anchor ∧ nextResetEpoch policy anchor = some boundary
  | .expiry anchor => s.Known anchor
  | .swap anchor => s.Known anchor ∧ s.expired policy anchor = true
  | _ => True

section
variable {policy : BudgetResetPolicy} {s s' : BudgetShared} {t : BudgetTask}

theorem BudgetTask.Inv.mono (h : t.Inv policy s) (hs : s.Inv policy) (hle : s.Le s') : t.Inv policy s' := by
  cases t with
  | write usd first anchor => exact ⟨le_trans h.1 hle.clock, fun hf => hle.known _ (h.2 hf)⟩
  | insert now boundary =>
    obtain ⟨anchor, hanchor, hnext⟩ := h
    exact ⟨anchor, hle.known _ hanchor, hnext⟩
  | expiry anchor => exact hle.known _ h
  | swap anchor => exact ⟨hle.known _ h.1, BudgetShared.expired_mono hle.clock (h.1.le hs) h.2⟩
  | _ => trivial

theorem BudgetTask.Inv.failed (h : t.Inv policy s) : t.failed.Inv policy s := by
  cases t with
  | insert | expiry => exact h
  | _ => trivial

theorem BudgetShared.persist_inv (h : s.Inv policy) (usd : ℚ≥0) : (s.persist usd).Inv policy s := by
  unfold BudgetShared.persist
  rcases hrow : s.row with _ | row
  · trivial
  dsimp only
  split
  · exact ⟨h.start_le row hrow, fun _ => known_row hrow⟩
  · trivial

theorem BudgetTask.Inv.writes {usd : ℚ≥0} {first : Bool} {anchor : Int}
    (h : (BudgetTask.write usd first anchor).Inv policy s)
    (ht : (BudgetTask.write usd first anchor).Timely policy s) : s.Writes policy ⟨first, anchor, usd⟩ where
  le := h.1
  known := h.2
  settled row hrow := by
    rcases first with _ | _
    · obtain ⟨row', hrow', hle, -⟩ := h.2 rfl
      cases hrow.symm.trans hrow'
      exact ⟨hle, by simp [Accrual.belongs]⟩
    rcases ht row hrow with heq | hlt
    · exact ⟨le_of_eq heq.symm, by simp [Accrual.belongs, heq]⟩
    · have hanchor := le_of_windowOf_lt hlt
      refine ⟨le_of_lt hanchor, ?_⟩
      simp [Accrual.belongs, ne_of_lt hlt, ne_of_lt hanchor]

theorem BudgetShared.exec_inv (hs : s.Inv policy) (h : t.Inv policy s) (ht : t.Timely policy s) :
    (s.exec policy t).1.Inv policy ∧ s.Le (s.exec policy t).1 ∧
      (s.exec policy t).2.Inv policy (s.exec policy t).1 := by
  have hle := BudgetShared.Le.refl s
  cases t with
  | stamp usd => exact ⟨hs, hle, currentWindowStartForPolicy_le policy s.clock, fun hf => by cases hf⟩
  | write usd first anchor => exact ⟨hs.write (h.writes ht), .write s usd first anchor, trivial⟩
  | lookup now =>
    unfold BudgetShared.exec
    rcases s.boundary with _ | boundary
    · exact ⟨hs, hle, trivial⟩
    dsimp only
    split <;> exact ⟨hs, hle, trivial⟩
  | seed now =>
    unfold BudgetShared.exec
    rcases hrow : s.row with _ | row
    · exact ⟨hs, hle, trivial⟩
    simp only [Option.bind_some]
    cases hnext : nextResetEpoch policy row.windowStart with
    | none => exact ⟨hs, hle, trivial⟩
    | some boundary => exact ⟨hs, hle, row.windowStart, known_row hrow, hnext⟩
  | insert now boundary =>
    have hcached : ∀ b ∈ some boundary, ∃ anchor, s.Known anchor ∧ nextResetEpoch policy anchor = some b := by
      rintro b ⟨⟩
      exact h
    refine ⟨hs.cache hcached, ⟨le_refl _, fun _ hb => hb⟩, ?_⟩
    unfold BudgetShared.exec
    dsimp only
    split <;> trivial
  | readAnchor =>
    unfold BudgetShared.exec
    cases hrow : s.row with
    | none => exact ⟨hs, hle, trivial⟩
    | some row => exact ⟨hs, hle, known_row hrow⟩
  | expiry anchor =>
    refine ⟨hs, hle, ?_⟩
    unfold BudgetShared.exec
    dsimp only
    split
    · rename_i hexp
      exact ⟨h, hexp⟩
    · trivial
  | swap anchor => exact ⟨hs.swap h.1 h.2, .swap hs h.1, trivial⟩
  | zero => exact ⟨hs.counters 0 s.sinceReset, ⟨le_refl _, fun _ hb => hb⟩, trivial⟩
  | uncache =>
    have hcached : ∀ b ∈ (none : Option Int), ∃ anchor, s.Known anchor ∧ nextResetEpoch policy anchor = some b := by
      rintro b ⟨⟩
    exact ⟨hs.cache hcached, ⟨le_refl _, fun _ hb => hb⟩, trivial⟩
  | done => exact ⟨hs, hle, trivial⟩

/-- The counter holds what was counted since the last winner, or its reset is still to come. -/
def BudgetState.Counted (s : BudgetState) : Prop :=
  BudgetTask.zero ∈ s.tasks ∨ s.shared.cents = s.shared.sinceReset

theorem BudgetShared.exec_counted (h : t.Timely policy s) :
    (s.exec policy t).2 = .zero ∨ (t = .zero ∧ (s.exec policy t).1.cents = (s.exec policy t).1.sinceReset) ∨
      (t ≠ .zero ∧ (s.exec policy t).1.cents = s.cents ∧ (s.exec policy t).1.sinceReset = s.sinceReset) := by
  cases t with
  | swap anchor => exact .inl rfl
  | zero => exact .inr (.inl ⟨rfl, h.symm⟩)
  | lookup now =>
    have hs : (s.exec policy (.lookup now)).1 = s := by
      unfold exec
      cases s.boundary <;> rfl
    exact .inr (.inr ⟨by simp, by rw [hs], by rw [hs]⟩)
  | seed now =>
    have hs : (s.exec policy (.seed now)).1 = s := by
      unfold exec
      cases s.row.bind fun row => nextResetEpoch policy row.windowStart <;> rfl
    exact .inr (.inr ⟨by simp, by rw [hs], by rw [hs]⟩)
  | readAnchor =>
    have hs : (s.exec policy .readAnchor).1 = s := by
      unfold exec
      cases s.row <;> rfl
    exact .inr (.inr ⟨by simp, by rw [hs], by rw [hs]⟩)
  | stamp | write | insert | expiry | uncache | done => exact .inr (.inr ⟨by simp, rfl, rfl⟩)

end

/-! ### The run -/

structure BudgetState.Inv (policy : BudgetResetPolicy) (s : BudgetState) : Prop where
  shared : s.shared.Inv policy
  tasks : ∀ t ∈ s.tasks, t.Inv policy s.shared
  counted : s.Counted

section
variable {policy : BudgetResetPolicy} {s : BudgetState}

theorem BudgetState.zero_mem_set {t u : BudgetTask} {i : Nat} (ht : s.tasks[i]? = some t) (hne : t ≠ .zero)
    (h : BudgetTask.zero ∈ s.tasks) : BudgetTask.zero ∈ s.tasks.set i u := by
  obtain ⟨j, hj⟩ := List.mem_iff_getElem?.1 h
  refine List.mem_iff_getElem?.2 ⟨j, ?_⟩
  rw [List.getElem?_set_ne, hj]
  rintro rfl
  exact hne (Option.some.inj (ht.symm.trans hj))

theorem BudgetState.Inv.advance (h : s.Inv policy) (i : Nat) (htimely : Timely policy s (.advance i)) :
    (s.step policy (.advance i)).Inv policy := by
  rcases ht : s.tasks[i]? with _ | t
  · simp only [BudgetState.step, ht]
    exact h
  simp only [BudgetState.step, ht]
  have hmem : t ∈ s.tasks := List.mem_of_getElem? ht
  have hstep := htimely t ht
  obtain ⟨hshared, hle, hrest⟩ := BudgetShared.exec_inv h.shared (h.tasks t hmem) hstep
  refine ⟨hshared, fun u hu => ?_, ?_⟩
  · rcases List.mem_or_eq_of_mem_set hu with hu | rfl
    · exact (h.tasks u hu).mono h.shared hle
    · exact hrest
  · rcases BudgetShared.exec_counted hstep with hzero | ⟨-, heq⟩ | ⟨hne, hcents, hsince⟩
    · refine .inl (List.mem_iff_getElem?.2 ⟨i, ?_⟩)
      have hi : i < s.tasks.length := (List.getElem?_eq_some_iff.1 ht).1
      rw [List.getElem?_set_self hi, hzero]
    · exact .inr heq
    · rcases h.counted with hz | heq
      · exact .inl (BudgetState.zero_mem_set ht hne hz)
      · exact .inr (hcents.trans (heq.trans hsince.symm))

theorem BudgetState.Inv.fail (h : s.Inv policy) (i : Nat) : (s.step policy (.fail i)).Inv policy := by
  rcases ht : s.tasks[i]? with _ | t
  · simp only [BudgetState.step, ht]
    exact h
  simp only [BudgetState.step, ht]
  refine ⟨h.shared, fun u hu => ?_, ?_⟩
  · rcases List.mem_or_eq_of_mem_set hu with hu | rfl
    · exact h.tasks u hu
    · exact (h.tasks t (List.mem_of_getElem? ht)).failed
  · rcases h.counted with hz | heq
    · by_cases hne : t = .zero
      · subst hne
        have hset : s.tasks.set i BudgetTask.zero.failed = s.tasks := by
          obtain ⟨hi, hget⟩ := List.getElem?_eq_some_iff.1 ht
          exact (congrArg (s.tasks.set i) hget.symm).trans (List.set_getElem_self hi)
        exact .inl (hset.symm ▸ hz)
      · exact .inl (BudgetState.zero_mem_set ht hne hz)
    · exact .inr heq

theorem BudgetState.Inv.spawn (h : s.Inv policy) {t : BudgetTask} (ht : t.Inv policy s.shared) :
    BudgetState.Inv policy { s with tasks := s.tasks ++ [t] } where
  shared := h.shared
  tasks u hu := by
    rcases List.mem_append.1 hu with hu | hu
    · exact h.tasks u hu
    · rw [List.mem_singleton.1 hu]
      exact ht
  counted := h.counted.imp_left fun hz => List.mem_append_left _ hz

theorem BudgetState.Inv.step (h : s.Inv policy) {a : BudgetAction} (htimely : Timely policy s a) :
    (s.step policy a).Inv policy := by
  cases a with
  | tick secs =>
    refine ⟨h.shared.tick secs, fun t ht => (h.tasks t ht).mono h.shared ⟨?_, fun _ hb => hb⟩, h.counted⟩
    exact le_add_of_nonneg_right (Int.natCast_nonneg secs)
  | addCost usd =>
    refine ⟨h.shared.counters _ _, fun t ht => (h.tasks t ht).mono h.shared ⟨le_refl _, fun _ hb => hb⟩, ?_⟩
    refine h.counted.imp_right fun heq => ?_
    exact congrArg (fun cents => (cents + costCents usd) % 2 ^ 64) heq
  | persist usd => exact h.spawn (BudgetShared.persist_inv h.shared usd)
  | roll =>
    simp only [BudgetState.step]
    split
    · exact h.spawn (t := .lookup s.shared.clock) trivial
    · exact h
  | advance i => exact h.advance i htimely
  | fail i => exact h.fail i

theorem BudgetState.Inv.law (h : s.Inv policy) : BudgetLaw policy s where
  oneWinner := ⟨h.shared.nodup, fun anchor ha => List.count_eq_one_of_mem h.shared.nodup (h.shared.swapped anchor ha)⟩
  onlyExpired := h.shared.onlyExpired
  noticed row hrow boundary hb hexp := by
    obtain ⟨anchor, ⟨row', hrow', hle, -⟩, hnext⟩ := h.shared.cached boundary hb
    cases hrow.symm.trans hrow'
    exact boundary_le hle (h.shared.start_le row hrow) hnext hexp
  durable := h.shared.durable
  absent := h.shared.absent
  memory hdone := h.counted.resolve_left fun hz => by cases hdone _ hz

theorem BudgetStart.inv (policy : BudgetResetPolicy) (start : BudgetStart) : start.state.Inv policy where
  shared := by
    refine ⟨start.row_le, by simp [BudgetStart.state], List.nodup_nil, by simp [BudgetStart.state],
      by simp [BudgetStart.state], by simp [BudgetStart.state], ?_, ?_, ?_⟩
    · intro row hrow e he
      have hrow : start.row = some row := hrow
      simp only [BudgetStart.state, hrow, Option.toList_some, List.map_cons, List.map_nil, List.mem_singleton] at he
      subst he
      exact ⟨le_refl _, by simp [Accrual.belongs]⟩
    · intro row hrow
      have hrow : start.row = some row := hrow
      simp [BudgetStart.state, BudgetShared.currentSpend, hrow, Accrual.belongs]
    · intro hnone
      have hnone : start.row = none := hnone
      simp [BudgetStart.state, hnone]
  tasks := by simp [BudgetStart.state]
  counted := .inr rfl

end

/-- In every run whose resets and first accruals come in time the windows keep their law. -/
theorem law_of_timely (policy : BudgetResetPolicy) (start : BudgetStart) (actions : List BudgetAction)
    (h : Run.Along (BudgetState.step policy) (Timely policy) start.state actions) :
    BudgetLaw policy (Run.run (BudgetState.step policy) start.state actions) :=
  (Run.invariant (I := BudgetState.Inv policy) (fun _ _ hs htimely => hs.step htimely) (start.inv policy) h).law

def noonStart : BudgetStart where
  clock := 1754395200
  row := some ⟨1754352000, 5⟩
  cents := 500
  row_le := by
    rintro row ⟨⟩
    decide

/-- A day later one request resets the window, and one that has read its expired start too comes after it. -/
def twoRollers : List BudgetAction :=
  [.tick 86400, .roll, .roll] ++ List.replicate 5 (.advance 0) ++ List.replicate 3 (.advance 1) ++
    List.replicate 3 (.advance 0)

theorem law_of_timely_twoRollers : BudgetLaw .daily (Run.run (BudgetState.step .daily) noonStart.state
      (twoRollers ++ [.persist 1, .advance 2, .addCost 1])) :=
  law_of_timely _ _ _ (by decide +kernel)

/-- The second request loses the swap and erases what was spent since the first. -/
theorem loser_erases_cost : ¬ BudgetLaw .daily (Run.run (BudgetState.step .daily) noonStart.state
      (twoRollers ++ [.addCost 1] ++ List.replicate 3 (.advance 1))) := by
  intro h
  exact absurd (h.memory (by decide +kernel)) (by decide +kernel)

end ObeyGateway.Budgets
