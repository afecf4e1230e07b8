import ObeyGateway.Router.RateLimiter

/-!
# What the rate limiter grants

The balance an operation at `now` would see is `balance l st now`: the tokens with the refill due, capped. One step
lowers it by at least what it takes (`step_balance`), and between steps it grows by no more than the refill rate
(`balance_grow`); so over a stretch of a run what is taken is bounded (`balance_run`).
-/

namespace ObeyGateway.RateLimiter

variable {l : RateLimiter} {st : RateLimiterState} {a : LimiterStep} {as : List LimiterStep}
  {now t u : Nat}

/-- The tokens an operation at `now` finds after its refill. -/
def balance (l : RateLimiter) (st : RateLimiterState) (now : Nat) : ℚ :=
  min l.capacity (st.tokens + asSecs (now - st.lastRefill) * l.tokensPerSecond)

def minted (l : RateLimiter) (d : Nat) : ℚ := asSecs d * l.tokensPerSecond

theorem tokensPerSecond_nonneg (l : RateLimiter) : 0 ≤ l.tokensPerSecond := by
  unfold tokensPerSecond; positivity

theorem tokensPerSecond_pos (hl : 1 ≤ l.requestsPerMinute) : 0 < l.tokensPerSecond := by
  have : (0 : ℚ) < l.requestsPerMinute := by exact_mod_cast hl
  unfold tokensPerSecond; positivity

theorem minted_nonneg (l : RateLimiter) (d : Nat) : 0 ≤ l.minted d :=
  mul_nonneg (asSecs_nonneg d) l.tokensPerSecond_nonneg

theorem minted_add (l : RateLimiter) (d e : Nat) : l.minted (d + e) = l.minted d + l.minted e := by
  simp only [minted, asSecs_add]; ring

theorem minted_mono (l : RateLimiter) {d e : Nat} (h : d ≤ e) : l.minted d ≤ l.minted e :=
  mul_le_mul_of_nonneg_right (asSecs_mono h) l.tokensPerSecond_nonneg

@[simp] theorem minted_zero (l : RateLimiter) : l.minted 0 = 0 := by simp [minted]

theorem balance_eq (l : RateLimiter) (st : RateLimiterState) (now : Nat) :
    l.balance st now = min (l.capacity : ℚ) (st.tokens + l.minted (now - st.lastRefill)) := rfl

theorem balance_le_capacity (l : RateLimiter) (st : RateLimiterState) (now : Nat) :
    l.balance st now ≤ l.capacity := min_le_left _ _

/-- What every state of a run satisfies: the balance is within the capacity and the last refill is
not in the future. -/
structure WithinCapacity (l : RateLimiter) (st : RateLimiterState) (now : Nat) : Prop where
  tokens : st.tokens ≤ l.capacity
  refilled : st.lastRefill ≤ now

theorem WithinCapacity.later (h : WithinCapacity l st t) (htu : t ≤ u) : WithinCapacity l st u :=
  ⟨h.tokens, h.refilled.trans htu⟩

theorem refill_spec (hl : 1 ≤ l.requestsPerMinute) (h : st.tokens ≤ l.capacity) (now : Nat) :
    (l.refillTokensInternal st now).tokens = l.balance st now ∧
      now - (l.refillTokensInternal st now).lastRefill = 0 ∧
      (l.refillTokensInternal st now).cooldownUntil = st.cooldownUntil := by
  unfold refillTokensInternal
  by_cases hd : 0 < now - st.lastRefill
  · have hadd : 0 < asSecs (now - st.lastRefill) * l.tokensPerSecond :=
      mul_pos (asSecs_pos hd) (tokensPerSecond_pos hl)
    rw [if_pos hadd]
    exact ⟨min_comm _ _, Nat.sub_self now, rfl⟩
  · have hz : now - st.lastRefill = 0 := by omega
    rw [if_neg (by simp [hz])]
    exact ⟨by simp [balance_eq, hz, h], hz, rfl⟩

theorem refill_lastRefill_le (h : st.lastRefill ≤ now) : (l.refillTokensInternal st now).lastRefill ≤ now := by
  unfold refillTokensInternal; dsimp only; split
  · exact le_refl now
  · exact h

theorem balance_of_fresh (h : now - st.lastRefill = 0) :
    l.balance st now = min (l.capacity : ℚ) st.tokens := by simp [balance_eq, h]

/-- Between two instants the balance grows by at most the tokens minted. -/
theorem balance_grow (htu : t ≤ u) (hr : st.lastRefill ≤ t) : l.balance st u ≤ l.balance st t + l.minted (u - t) := by
  have hsplit : u - st.lastRefill = (t - st.lastRefill) + (u - t) := by omega
  have hm := l.minted_nonneg (u - t)
  rw [balance_eq, balance_eq, hsplit, minted_add]
  rcases le_total (l.capacity : ℚ) (st.tokens + l.minted (t - st.lastRefill)) with hc | hc
  · rw [min_eq_left hc]
    exact (min_le_left _ _).trans (by linarith)
  · rw [min_eq_right hc]
    exact (min_le_right _ _).trans (by linarith)

/-! ### One step -/

/-- What a step takes from the bucket: grants and debits one token, a refund gives one back. -/
def taken (l : RateLimiter) (st : RateLimiterState) (a : LimiterStep) : ℚ :=
  (if l.Granted st a then 1 else 0) + (if a.op = .debit then 1 else 0)
    - (if a.op = .refund then 1 else 0)

theorem tryAcquire_cases (hl : 1 ≤ l.requestsPerMinute) (st : RateLimiterState) (now : Nat) :
    (∃ d, inCooldown st now = some d ∧ (l.tryAcquire st now).1.isOk = false ∧
      (l.tryAcquire st now).2 = st) ∨
    (inCooldown st now = none ∧
      ((1 ≤ (l.refillTokensInternal (clearCooldown st) now).tokens ∧
        (l.tryAcquire st now).1.isOk = true ∧
        (l.tryAcquire st now).2 =
          { l.refillTokensInternal (clearCooldown st) now with
            tokens := (l.refillTokensInternal (clearCooldown st) now).tokens - 1 }) ∨
       ((l.tryAcquire st now).1.isOk = false ∧
        (l.tryAcquire st now).2 = l.refillTokensInternal (clearCooldown st) now))) := by
  have hl0 : l.requestsPerMinute ≠ 0 := by omega
  unfold tryAcquire
  cases hc : inCooldown st now with
  | some d => exact .inl ⟨d, rfl, rfl, rfl⟩
  | none =>
    refine .inr ⟨rfl, ?_⟩
    simp only [hl0, if_false]
    by_cases h1 : 1 ≤ (l.refillTokensInternal (clearCooldown st) now).tokens
    · rw [if_pos h1]; exact .inl ⟨h1, rfl, rfl⟩
    · rw [if_neg h1]; exact .inr ⟨rfl, rfl⟩

theorem taken_tryAcquire (st : RateLimiterState) (now : Nat) :
    l.taken st ⟨now, .tryAcquire⟩ = if (l.tryAcquire st now).1.isOk = true then 1 else 0 := by
  simp [taken, Granted]

theorem taken_of_ne (st : RateLimiterState) (hop : a.op ≠ .tryAcquire) (hd : a.op ≠ .debit)
    (hr : a.op ≠ .refund) : l.taken st a = 0 := by
  simp [taken, Granted, hop, hd, hr]

/-- A bucket operation: refill at `now`, then set the balance to `tok`. -/
def charged (l : RateLimiter) (st : RateLimiterState) (now : Nat) (tok : ℚ) : RateLimiterState :=
  ⟨tok, (l.refillTokensInternal st now).lastRefill, (l.refillTokensInternal st now).cooldownUntil⟩

theorem refill_eq_charged (l : RateLimiter) (st : RateLimiterState) (now : Nat) :
    l.refillTokensInternal st now = l.charged st now (l.refillTokensInternal st now).tokens := rfl

theorem charged_balance (hl : 1 ≤ l.requestsPerMinute) (h : WithinCapacity l st now) {tok : ℚ} (htok : tok ≤ l.capacity) :
    WithinCapacity l (l.charged st now tok) now ∧ l.balance (l.charged st now tok) now ≤ tok := by
  obtain ⟨-, hfresh, -⟩ := refill_spec hl h.tokens now
  refine ⟨⟨htok, refill_lastRefill_le h.refilled⟩, ?_⟩
  have hbal : l.balance (l.charged st now tok) now = min (l.capacity : ℚ) tok :=
    balance_of_fresh hfresh
  rw [hbal]
  exact min_le_right _ _

/-- One step at its instant keeps the capacity bound and lowers the balance by at least what it
takes. -/
theorem step_balance (hl : 1 ≤ l.requestsPerMinute) (h : WithinCapacity l st a.instant) :
    WithinCapacity l (l.step st a) a.instant ∧
      l.balance (l.step st a) a.instant + l.taken st a ≤ l.balance st a.instant := by
  have hl0 : l.requestsPerMinute ≠ 0 := by omega
  obtain ⟨now, op⟩ := a
  have hsame : ∀ st' : RateLimiterState, st'.tokens = st.tokens → st'.lastRefill = st.lastRefill →
      WithinCapacity l st' now ∧ l.balance st' now = l.balance st now := by
    intro st' ht hr
    exact ⟨⟨ht ▸ h.tokens, hr ▸ h.refilled⟩, by rw [balance_eq, balance_eq, ht, hr]⟩
  have htok := (refill_spec hl h.tokens now).1
  have hcap := l.balance_le_capacity st now
  have hclear : WithinCapacity l (clearCooldown st) now := ⟨h.tokens, h.refilled⟩
  have hctok : (l.refillTokensInternal (clearCooldown st) now).tokens = l.balance st now :=
    (refill_spec hl hclear.tokens now).1
  cases op with
  | tryAcquire =>
    rw [taken_tryAcquire]
    show WithinCapacity l (l.tryAcquire st now).2 now ∧ l.balance (l.tryAcquire st now).2 now + _ ≤ _
    rcases tryAcquire_cases hl st now with ⟨d, -, hok, heq⟩ | ⟨-, ⟨-, hok, heq⟩ | ⟨hok, heq⟩⟩
    · rw [heq, hok]; exact ⟨h, by simp⟩
    · rw [heq, hok, hctok, if_pos rfl]
      have hone : l.balance st now - 1 ≤ l.capacity := by linarith
      obtain ⟨hw, hb⟩ := charged_balance hl hclear hone
      exact ⟨hw, by unfold charged at hb; linarith⟩
    · rw [heq, hok, refill_eq_charged, hctok]
      obtain ⟨hw, hb⟩ := charged_balance hl hclear hcap
      exact ⟨hw, by simpa using hb⟩
  | debit =>
    simp only [step, debit, hl0, if_false, htok]
    have hone : l.balance st now - 1 ≤ l.capacity := by linarith
    obtain ⟨hw, hb⟩ := charged_balance hl h hone
    have htaken : l.taken st ⟨now, .debit⟩ = 1 := by simp [taken, Granted]
    exact ⟨hw, by rw [htaken]; unfold charged at hb; linarith⟩
  | refund =>
    simp only [step, refund, hl0, if_false, htok]
    obtain ⟨hw, hb⟩ := charged_balance hl h (min_le_right (l.balance st now + 1) (l.capacity : ℚ))
    have hle := hb.trans (min_le_left _ _)
    have htaken : l.taken st ⟨now, .refund⟩ = -1 := by simp [taken, Granted]
    exact ⟨hw, by rw [htaken]; unfold charged at hle; linarith⟩
  | applyCooldown waited duration =>
    have hf : (applyCooldown st (now - waited) duration).tokens = st.tokens ∧
        (applyCooldown st (now - waited) duration).lastRefill = st.lastRefill := by
      unfold applyCooldown
      cases st.cooldownUntil with
      | none => exact ⟨rfl, rfl⟩
      | some e => dsimp only; split <;> exact ⟨rfl, rfl⟩
    obtain ⟨hw, hb⟩ := hsame _ hf.1 hf.2
    rw [taken_of_ne st (by simp) (by simp) (by simp), add_zero]
    exact ⟨hw, hb.le⟩
  | clearCooldown =>
    obtain ⟨hw, hb⟩ := hsame (clearCooldown st) rfl rfl
    rw [taken_of_ne st (by simp) (by simp) (by simp), add_zero]
    exact ⟨hw, hb.le⟩
  | checkAvailable =>
    rw [taken_of_ne st (by simp) (by simp) (by simp), add_zero]
    cases hc : inCooldown st now with
    | some d => simp only [step, checkAvailable, hc]; exact ⟨h, le_refl _⟩
    | none =>
      simp only [step, checkAvailable, hc, hl0, if_false]
      rw [refill_eq_charged, hctok]
      exact charged_balance hl hclear hcap

theorem Granted.tokens_nonneg (hl : 1 ≤ l.requestsPerMinute) (h : l.Granted st a) : 0 ≤ (l.step st a).tokens := by
  obtain ⟨now, op⟩ := a
  obtain ⟨hop, hok⟩ := h
  dsimp only at hop hok
  subst hop
  show 0 ≤ (l.tryAcquire st now).2.tokens
  rcases tryAcquire_cases hl st now with ⟨d, -, hno, -⟩ | ⟨-, ⟨h1, -, heq⟩ | ⟨hno, -⟩⟩
  · rw [hno] at hok; simp at hok
  · rw [heq]; dsimp only; linarith
  · rw [hno] at hok; simp at hok

/-- Grants and debits less refunds along the run from `st`. -/
def netUse (l : RateLimiter) (st : RateLimiterState) (as : List LimiterStep) : ℚ :=
  (l.grants st as : ℚ) + debits as - refunds as

theorem netUse_cons (st : RateLimiterState) (a : LimiterStep) (as : List LimiterStep) :
    l.netUse st (a :: as) = l.taken st a + l.netUse (l.step st a) as := by
  unfold netUse taken debits refunds
  simp only [grants, List.countP_cons, decide_eq_true_eq, Nat.cast_add, Nat.cast_ite, Nat.cast_one,
    Nat.cast_zero]
  ring

theorem lastInstant_cons (a : LimiterStep) (as : List LimiterStep) :
    lastInstant t (a :: as) = lastInstant a.instant as := rfl

theorem lastInstant_concat (a : LimiterStep) (as : List LimiterStep) :
    lastInstant t (as ++ [a]) = a.instant := by simp [lastInstant]

theorem InOrder.le_lastInstant (h : InOrder t as) : t ≤ lastInstant t as := by
  induction as generalizing t with
  | nil => exact le_refl t
  | cons a as ih => exact h.1.trans (ih h.2)

theorem inOrder_append {bs : List LimiterStep} : InOrder t (as ++ bs) ↔ InOrder t as ∧ InOrder (lastInstant t as) bs := by
  induction as generalizing t with
  | nil => simp [InOrder, lastInstant]
  | cons a as ih => simp [InOrder, ih, lastInstant_cons, and_assoc]

/-- Along a run the balance falls by the net use, up to the tokens minted meanwhile. -/
theorem balance_run (hl : 1 ≤ l.requestsPerMinute) (h : WithinCapacity l st t) (ho : InOrder t as) :
    WithinCapacity l (Run.run l.step st as) (lastInstant t as) ∧
      l.balance (Run.run l.step st as) (lastInstant t as) + l.netUse st as ≤
        l.balance st t + l.minted (lastInstant t as - t) := by
  induction as generalizing st t with
  | nil => exact ⟨h, by simp [netUse, grants, debits, refunds, lastInstant]⟩
  | cons a as ih =>
    obtain ⟨hw, hb⟩ := step_balance hl (h.later ho.1)
    obtain ⟨hw', hb'⟩ := ih hw ho.2
    refine ⟨hw', ?_⟩
    have hgrow := balance_grow (l := l) ho.1 h.refilled
    have hle := ho.2.le_lastInstant
    have hsplit : lastInstant a.instant as - t =
        (a.instant - t) + (lastInstant a.instant as - a.instant) := by have := ho.1; omega
    rw [netUse_cons, lastInstant_cons, hsplit, minted_add, Run.run_cons]
    linarith

theorem withinCapacity_new (l : RateLimiter) (h : l.requestsPerMinute ≤ l.capacity) (t : Nat) :
    WithinCapacity l (l.newState t) t :=
  ⟨Nat.cast_le.2 h, le_refl t⟩

theorem netUse_le (hl : 1 ≤ l.requestsPerMinute) (h : WithinCapacity l st t)
    {seg : List LimiterStep} (ho : InOrder t (seg ++ [a]))
    (hg : l.Granted (Run.run l.step st seg) a) {s : Nat} (hs : ∀ b ∈ seg ++ [a], s ≤ b.instant) :
    l.netUse st (seg ++ [a]) ≤ l.capacity + l.minted (a.instant - s) := by
  have htok := hg.tokens_nonneg hl
  -- start the count at the first step of the stretch: before it the bucket is full at best
  obtain ⟨b, bs, hbs⟩ : ∃ b bs, seg ++ [a] = b :: bs := by
    cases seg with
    | nil => exact ⟨a, [], rfl⟩
    | cons c cs => exact ⟨c, cs ++ [a], rfl⟩
  have hlast : lastInstant b.instant (seg ++ [a]) = a.instant := lastInstant_concat a seg
  have ho' : InOrder b.instant (seg ++ [a]) := by
    rw [hbs] at ho ⊢
    exact ⟨le_refl _, ho.2⟩
  have hb : t ≤ b.instant := by rw [hbs] at ho; exact ho.1
  obtain ⟨hw, hrun⟩ := balance_run hl (h.later hb) ho'
  rw [hlast] at hw hrun
  rw [Run.run_concat] at hw hrun
  have hend : (l.step (Run.run l.step st seg) a).tokens ≤
      l.balance (l.step (Run.run l.step st seg) a) a.instant := by
    rw [balance_eq]
    exact le_min hw.tokens (by linarith [l.minted_nonneg (a.instant -
      (l.step (Run.run l.step st seg) a).lastRefill)])
  have hsb : s ≤ b.instant := hs b (by rw [hbs]; simp)
  have hmint := l.minted_mono (Nat.sub_le_sub_left hsb a.instant)
  linarith [l.balance_le_capacity st b.instant]

/-! ### The cooldown -/

/-- The stored deadline is one of `ds`, and every one of them that is still ahead at `now` is at most the stored one. -/
structure Cooled (ds : List AppliedDeadline) (st : RateLimiterState) (now : Nat) : Prop where
  mem : ∀ d, st.cooldownUntil = some d → d ∈ ds.map (·.deadline)
  covers : ∀ d ∈ ds.map (·.deadline), now < d → ∃ m, st.cooldownUntil = some m ∧ d ≤ m

variable {ds : List AppliedDeadline}

theorem Cooled.later (h : Cooled ds st t) (htu : t ≤ u) : Cooled ds st u :=
  ⟨h.mem, fun d hd hu => h.covers d hd (htu.trans_lt hu)⟩

theorem Cooled.of_eq {st' : RateLimiterState} (h : Cooled ds st now)
    (he : st'.cooldownUntil = st.cooldownUntil) : Cooled ds st' now :=
  ⟨fun d hd => h.mem d (he ▸ hd), fun d hd hn => by rw [he]; exact h.covers d hd hn⟩

theorem Cooled.clear_passed {st' : RateLimiterState}
    (h : Cooled ds st now) (hpast : inCooldown st now = none) (he : st'.cooldownUntil = none) :
    Cooled ds st' now := by
  refine ⟨fun d hd => by rw [he] at hd; simp at hd, fun d hd hn => ?_⟩
  obtain ⟨m, hm, hdm⟩ := h.covers d hd hn
  rw [inCooldown, hm, Option.filter_eq_none_iff] at hpast
  exact absurd (hn.trans_le hdm) (by simpa using hpast m rfl)

theorem refill_cooldownUntil (l : RateLimiter) (st : RateLimiterState) (now : Nat) :
    (l.refillTokensInternal st now).cooldownUntil = st.cooldownUntil := by
  unfold refillTokensInternal; dsimp only; split <;> rfl

theorem applyCooldown_cooldownUntil (st : RateLimiterState) (calledAt duration : Nat) :
    ∃ m, (applyCooldown st calledAt duration).cooldownUntil = some m ∧
      cooldownDeadline calledAt duration ≤ m ∧
      (m = cooldownDeadline calledAt duration ∨ st.cooldownUntil = some m) ∧
      ∀ d, st.cooldownUntil = some d → d ≤ m := by
  unfold applyCooldown
  rcases hc : st.cooldownUntil with _ | e
  · exact ⟨_, rfl, le_refl _, .inl rfl, by simp⟩
  dsimp only
  split
  · rename_i hle
    exact ⟨e, hc, hle, .inr rfl, by simp⟩
  · rename_i hlt
    exact ⟨_, rfl, le_refl _, .inl rfl, fun d hd => by simp at hd; omega⟩

theorem deadlines_concat (as : List LimiterStep) (a : LimiterStep) : deadlines (as ++ [a]) = match a.op with
      | .applyCooldown waited duration =>
        deadlines as ++ [⟨cooldownDeadline (a.instant - waited) duration, a.instant⟩]
      | .clearCooldown => []
      | _ => deadlines as := by
  rw [deadlines, List.foldl_append]
  rfl

theorem step_cooled (h : Cooled (deadlines as) st a.instant) : Cooled (deadlines (as ++ [a])) (l.step st a) a.instant := by
  obtain ⟨now, op⟩ := a
  rw [deadlines_concat]
  cases op with
  | tryAcquire =>
    cases hc : inCooldown st now with
    | some d => simpa only [step, tryAcquire, hc] using h
    | none =>
      simp only [step, tryAcquire, hc]
      split
      · exact h.clear_passed hc rfl
      · refine h.clear_passed hc ?_
        split <;> simp [refill_cooldownUntil, clearCooldown]
  | checkAvailable =>
    cases hc : inCooldown st now with
    | some d => simpa only [step, checkAvailable, hc] using h
    | none =>
      simp only [step, checkAvailable, hc]
      split
      · exact h.clear_passed hc rfl
      · exact h.clear_passed hc (by simp [refill_cooldownUntil, clearCooldown])
  | debit =>
    refine h.of_eq ?_
    simp only [step, debit]
    split <;> simp [refill_cooldownUntil]
  | refund =>
    refine h.of_eq ?_
    simp only [step, refund]
    split <;> simp [refill_cooldownUntil]
  | clearCooldown =>
    exact ⟨fun d hd => by simp [step, clearCooldown] at hd, fun d hd => by simp at hd⟩
  | applyCooldown waited duration =>
    obtain ⟨m, hm, hge, hor, hmax⟩ := applyCooldown_cooldownUntil st (now - waited) duration
    refine ⟨fun d hd => ?_, fun d hd hn => ⟨m, hm, ?_⟩⟩
    · obtain rfl : m = d := by simpa [step, hm] using hd
      rcases hor with rfl | hor
      · simp
      · rw [List.map_append]; exact List.mem_append_left _ (h.mem m hor)
    · rw [List.map_append, List.mem_append] at hd
      rcases hd with hd | hd
      · obtain ⟨m', hm', hle⟩ := h.covers d hd hn
        exact hle.trans (hmax m' hm')
      · simp only [List.map_cons, List.map_nil, List.mem_singleton] at hd
        exact hd ▸ hge

theorem cooled_after (l : RateLimiter) (t : Nat) (as : List LimiterStep) (ho : InOrder t as) :
    Cooled (deadlines as) (l.after t as) (lastInstant t as) := by
  induction as using List.reverseRecOn with
  | nil => exact ⟨by simp [after, newState], by simp [deadlines]⟩
  | append_singleton as a ih =>
    obtain ⟨ho, ha⟩ := inOrder_append.1 ho
    rw [after, Run.run_concat, lastInstant_concat]
    exact step_cooled ((ih ho).later ha.1)

theorem Granted.not_inCooldown (h : l.Granted st a) : inCooldown st a.instant = none := by
  rcases hc : inCooldown st a.instant with _ | d
  · rfl
  have hok := h.2
  simp [tryAcquire, hc, Except.isOk, Except.toBool] at hok

theorem Cooled.granted (h : Cooled ds st a.instant) (hg : l.Granted st a) : ∀ d ∈ ds, d.deadline ≤ a.instant := by
  intro d hd
  by_contra hlt
  obtain ⟨m, hm, hle⟩ := h.covers d.deadline (List.mem_map_of_mem hd) (by omega)
  have hno := hg.not_inCooldown
  rw [inCooldown, hm, Option.filter_eq_none_iff] at hno
  exact absurd (by omega : a.instant < m) (by simpa using hno m rfl)

theorem deadlines_clamped (as : List LimiterStep) : ∀ d ∈ deadlines as, d.deadline ≤ d.appliedAt + maxCooldown := by
  induction as using List.reverseRecOn with
  | nil => simp [deadlines]
  | append_singleton as a ih =>
    obtain ⟨now, op⟩ := a
    intro d hd
    rw [deadlines_concat] at hd
    cases op with
    | applyCooldown waited duration =>
      rcases List.mem_append.1 hd with hd | hd
      · exact ih d hd
      · rw [List.mem_singleton] at hd
        subst hd
        show now - waited + min duration maxCooldown ≤ now + maxCooldown
        omega
    | clearCooldown => simp at hd
    | _ => exact ih d hd

/-- The deadline in force at `now` is the largest of those applied since the last clear. -/
def DeadlineInForce (ds : List AppliedDeadline) (st : RateLimiterState) (now : Nat) : Prop :=
  (∀ d, st.cooldownUntil = some d → now < d →
    d ∈ ds.map (·.deadline) ∧ ∀ d' ∈ ds, d'.deadline ≤ d) ∧
  (∀ d ∈ ds, now < d.deadline → ∃ m, st.cooldownUntil = some m ∧ now < m)

theorem Cooled.deadlineInForce (h : Cooled ds st now) : DeadlineInForce ds st now := by
  refine ⟨fun d hd hn => ⟨h.mem d hd, fun d' hd' => ?_⟩, fun d hd hn => ?_⟩
  · by_contra hlt
    obtain ⟨m, hm, hle⟩ := h.covers d'.deadline (List.mem_map_of_mem hd') (by omega)
    rw [hd, Option.some.injEq] at hm
    omega
  · obtain ⟨m, hm, hle⟩ := h.covers d.deadline (List.mem_map_of_mem hd) hn
    exact ⟨m, hm, hn.trans_le hle⟩

/-- The law of a limiter of `rpm` requests per minute over every run at non-decreasing instants. -/
theorem limiter_law (rpm : Nat) (hrpm : 1 ≤ rpm) (t : Nat) (as : List LimiterStep) (ho : InOrder t as) :
    let l := RateLimiter.new rpm
    -- the balance never exceeds `rpm`
    (l.after t as).tokens ≤ rpm ∧
    -- over every interval that ends in a grant
    (∀ before seg a s, as = before ++ seg ++ [a] → l.Granted (l.after t (before ++ seg)) a →
      (∀ b ∈ seg ++ [a], s ≤ b.instant) →
      (l.grants (l.after t before) (seg ++ [a]) : ℚ) + debits (seg ++ [a]) - refunds (seg ++ [a]) ≤
        rpm + rpm * asSecs (a.instant - s) / 60) ∧
    -- no grant before an uncleared deadline
    (∀ before a, as = before ++ [a] → l.Granted (l.after t before) a →
      ∀ d ∈ deadlines before, d.deadline ≤ a.instant) ∧
    (∀ now, lastInstant t as ≤ now → DeadlineInForce (deadlines as) (l.after t as) now) ∧
    (∀ d ∈ deadlines as, d.deadline ≤ d.appliedAt + maxCooldown) := by
  intro l
  have hl : 1 ≤ l.requestsPerMinute := hrpm
  have hnew := withinCapacity_new l (le_refl rpm) t
  refine ⟨(balance_run hl hnew ho).1.tokens, ?_, ?_, ?_, deadlines_clamped as⟩
  · rintro before seg a s rfl hg hs
    rw [List.append_assoc] at ho
    obtain ⟨hob, hos⟩ := inOrder_append.1 ho
    rw [after, Run.run_append] at hg
    have h := netUse_le hl (balance_run hl hnew hob).1 hos hg hs
    calc (l.grants (l.after t before) (seg ++ [a]) : ℚ) + debits (seg ++ [a]) - refunds (seg ++ [a])
        ≤ l.capacity + l.minted (a.instant - s) := h
      _ = rpm + rpm * asSecs (a.instant - s) / 60 := by
          simp only [l, RateLimiter.new, minted, tokensPerSecond]; ring
  · rintro before a rfl hg
    obtain ⟨hob, hoa⟩ := inOrder_append.1 ho
    exact ((cooled_after l t before hob).later hoa.1).granted hg
  · intro now hn
    exact ((cooled_after l t as ho).later hn).deadlineInForce

/-- Two grants, a debit and a cooldown that has just passed, on a limiter of 60 per minute. -/
theorem limiter_law_two_seconds :
    let l := RateLimiter.new 60
    let seg : List LimiterStep := [⟨0, .tryAcquire⟩, ⟨500000000, .debit⟩,
      ⟨1000000000, .applyCooldown 0 1000000000⟩]
    let a : LimiterStep := ⟨2000000000, .tryAcquire⟩
    l.Granted (l.after 0 seg) a ∧
      (l.grants (l.after 0 []) (seg ++ [a]) : ℚ) + debits (seg ++ [a]) - refunds (seg ++ [a]) ≤
        (60 : Nat) + (60 : Nat) * asSecs (a.instant - 0) / 60 := by
  intro l seg a
  have hg : l.Granted (l.after 0 seg) a := by decide +kernel
  have ho : InOrder 0 (seg ++ [a]) := by simp [seg, a, InOrder]
  exact ⟨hg, (limiter_law 60 (by decide) 0 (seg ++ [a]) ho).2.1 [] seg a 0 rfl hg (by simp)⟩

end ObeyGateway.RateLimiter
