import ObeyGateway.VirtualKeys.RateLimiter

/-!
# What the per-key limiter admits

The level of the request bucket is what a refill leaves in it; checks, recordings and rejected
requests do not change the level at any later instant, and an admission lowers it by one. The token
window holds, at every instant from the last call on, the recorded entries that are not yet 60 seconds
old (`WindowInv`).
-/

namespace ObeyGateway.VirtualKeys

theorem ceilSecs_le_iff {x : ℚ} {n : Nat} (hn : n < u32Max) : ceilSecs x ≤ n ↔ x ≤ n := by
  unfold ceilSecs
  split
  · rename_i hle
    exact iff_of_true (Nat.zero_le n) (hle.trans (Nat.cast_nonneg n))
  · rename_i hpos
    have hceil : min ⌈x⌉.toNat u32Max ≤ n ↔ ⌈x⌉.toNat ≤ n := by omega
    rw [hceil, Int.toNat_le, Int.ceil_le, Int.cast_natCast]

theorem ceilSecs_le_iff_of_minute {x : ℚ} (hx : x ≤ 60) {n : Nat} : ceilSecs x ≤ n ↔ x ≤ n := by
  by_cases hn : n < u32Max
  · exact ceilSecs_le_iff hn
  · have hmax : 60 < u32Max := by decide
    have hsmall : ceilSecs x ≤ 60 := (ceilSecs_le_iff hmax).2 (by exact_mod_cast hx)
    have hbig : (60 : ℚ) ≤ n := by exact_mod_cast (by omega : 60 ≤ n)
    exact iff_of_true (by omega) (hx.trans hbig)

/-! ### The request bucket -/

namespace RpmBucket

variable {b : RpmBucket} {t u v rpm : Nat}

/-- What every bucket of a limiter of `rpm` requests per minute satisfies. -/
structure Sound (rpm : Nat) (b : RpmBucket) : Prop where
  capacity : b.capacity = rpm
  rate : b.refillPerSec = (rpm : ℚ) / 60
  nonneg : 0 ≤ b.tokens
  le : b.tokens ≤ rpm

/-- The tokens that a call at `now` finds after its refill. -/
def level (b : RpmBucket) (now : Nat) : ℚ := (b.refill now).tokens

def minted (rpm d : Nat) : ℚ := asSecs d * ((rpm : ℚ) / 60)

theorem minted_nonneg (rpm d : Nat) : 0 ≤ minted rpm d :=
  mul_nonneg (asSecs_nonneg d) (by positivity)

theorem minted_add (rpm d e : Nat) : minted rpm (d + e) = minted rpm d + minted rpm e := by
  simp only [minted, asSecs_add]; ring

theorem minted_mono (rpm : Nat) {d e : Nat} (h : d ≤ e) : minted rpm d ≤ minted rpm e :=
  mul_le_mul_of_nonneg_right (asSecs_mono h) (by positivity)

@[simp] theorem minted_zero (rpm : Nat) : minted rpm 0 = 0 := by simp [minted]

theorem minted_pos (hrpm : 1 ≤ rpm) {d : Nat} (hd : 0 < d) : 0 < minted rpm d := by
  have hcast : (0 : ℚ) < rpm := by exact_mod_cast hrpm
  exact mul_pos (asSecs_pos hd) (by positivity)

theorem refill_eq (hrpm : 1 ≤ rpm) (h : Sound rpm b) (now : Nat) : b.refill now = { b with
      tokens := min (b.tokens + minted rpm (now - b.lastRefill)) rpm
      lastRefill := max b.lastRefill now } := by
  unfold refill
  by_cases hle : now ≤ b.lastRefill
  · have hzero : now - b.lastRefill = 0 := by omega
    rw [if_pos hle, hzero, minted_zero, add_zero, min_eq_left h.le, max_eq_left hle]
  · have hlt : 0 < now - b.lastRefill := by omega
    have hpos := minted_pos hrpm hlt
    have hadd : asSecs (now - b.lastRefill) * b.refillPerSec = minted rpm (now - b.lastRefill) := by
      rw [h.rate]; rfl
    rw [if_neg hle]
    simp only [hadd, if_pos hpos, h.capacity]
    rw [max_eq_right (by omega)]

theorem Sound.new (rpm now : Nat) : Sound rpm (RpmBucket.new rpm now) :=
  ⟨rfl, rfl, by simp [RpmBucket.new], le_refl _⟩

theorem level_eq (hrpm : 1 ≤ rpm) (h : Sound rpm b) (now : Nat) :
    b.level now = min (b.tokens + minted rpm (now - b.lastRefill)) rpm := by
  rw [level, refill_eq hrpm h]

theorem Sound.refill (hrpm : 1 ≤ rpm) (h : Sound rpm b) (now : Nat) : Sound rpm (b.refill now) := by
  rw [refill_eq hrpm h]
  refine ⟨h.capacity, h.rate, ?_, min_le_right _ _⟩
  exact le_min (add_nonneg h.nonneg (minted_nonneg _ _)) (Nat.cast_nonneg rpm)

theorem refill_refill (hrpm : 1 ≤ rpm) (h : Sound rpm b) (htu : t ≤ u) : (b.refill t).refill u = b.refill u := by
  rw [refill_eq hrpm (h.refill hrpm t), refill_eq hrpm h, refill_eq hrpm h]
  have hmax : max (max b.lastRefill t) u = max b.lastRefill u := by omega
  have hsplit : u - b.lastRefill = (t - b.lastRefill) + (u - max b.lastRefill t) := by omega
  have hmint := minted_nonneg rpm (u - max b.lastRefill t)
  simp only [hmax, mk.injEq, true_and, and_true]
  rw [hsplit, minted_add]
  rcases le_total (b.tokens + minted rpm (t - b.lastRefill)) (rpm : ℚ) with hc | hc
  · rw [min_eq_left hc, add_assoc]
  · rw [min_eq_right hc, min_eq_right (by linarith), min_eq_right (by linarith)]

theorem level_refill (hrpm : 1 ≤ rpm) (h : Sound rpm b) (htu : t ≤ u) :
    (b.refill t).level u = b.level u := by rw [level, refill_refill hrpm h htu, level]

theorem level_grow (hrpm : 1 ≤ rpm) (h : Sound rpm b) (hr : b.lastRefill ≤ t) (htu : t ≤ u) :
    b.level u = min (b.level t + minted rpm (u - t)) rpm := by
  have hsplit : u - b.lastRefill = (t - b.lastRefill) + (u - t) := by omega
  have hmint := minted_nonneg rpm (u - t)
  rw [level_eq hrpm h, level_eq hrpm h, hsplit, minted_add]
  rcases le_total (b.tokens + minted rpm (t - b.lastRefill)) (rpm : ℚ) with hc | hc
  · rw [min_eq_left hc, add_assoc]
  · rw [min_eq_right hc, min_eq_right (by linarith), min_eq_right (by linarith)]

theorem check_snd (b : RpmBucket) (now : Nat) : (b.check now).2 = b.refill now := by
  unfold check; dsimp only; split
  · rfl
  · split <;> rfl

theorem check_ok_iff (b : RpmBucket) (now : Nat) : (b.check now).1 = .ok () ↔ 1 ≤ b.level now := by
  unfold check level; dsimp only; split
  · simp_all
  · split <;> simp_all

theorem check_error (hrpm : 1 ≤ rpm) (h : Sound rpm b) {r : Nat} (herr : (b.check t).1 = .error r) :
    b.level t < 1 ∧ r = max (ceilSecs ((1 - b.level t) / ((rpm : ℚ) / 60))) 1 := by
  have hrate : (b.refill t).refillPerSec = (rpm : ℚ) / 60 := (h.refill hrpm t).rate
  have hpos : (rpm : ℚ) / 60 ≠ 0 := by
    have hcast : (0 : ℚ) < rpm := by exact_mod_cast hrpm
    positivity
  unfold check at herr
  simp only [hrate, hpos, if_false] at herr
  split at herr
  · cases herr
  · rename_i hlt
    exact ⟨not_le.1 hlt, (Except.error.inj herr).symm⟩

theorem lastRefill_refill (hrpm : 1 ≤ rpm) (h : Sound rpm b) (now : Nat) :
    (b.refill now).lastRefill = max b.lastRefill now := by rw [refill_eq hrpm h]

theorem consume_spec (hrpm : 1 ≤ rpm) (h : Sound rpm b) (hone : 1 ≤ b.level t) :
    Sound rpm (b.consume t) ∧ (b.consume t).lastRefill = max b.lastRefill t ∧
      (b.consume t).level t = b.level t - 1 := by
  have hs := h.refill hrpm t
  have hnon : 0 ≤ b.level t - 1 := by linarith
  have htok : (b.consume t).tokens = b.level t - 1 := max_eq_left hnon
  have hlast : (b.consume t).lastRefill = max b.lastRefill t := lastRefill_refill hrpm h t
  have hcap : b.level t ≤ rpm := hs.le
  have hsound : Sound rpm (b.consume t) :=
    ⟨hs.capacity, hs.rate, by rw [htok]; exact hnon, by rw [htok]; linarith⟩
  refine ⟨hsound, hlast, ?_⟩
  rw [level_eq hrpm hsound, hlast, htok]
  have hzero : t - max b.lastRefill t = 0 := by omega
  rw [hzero, minted_zero, add_zero, min_eq_left (by linarith)]

theorem check_retry (hrpm : 1 ≤ rpm) (h : Sound rpm b) (hr : b.lastRefill ≤ t) {r : Nat}
    (herr : (b.check t).1 = .error r) {n : Nat} (hn : 1 ≤ n) :
    1 ≤ b.level (t + n * 1000000000) ↔ r ≤ n := by
  obtain ⟨hlt, rfl⟩ := check_error hrpm h herr
  have hnon : 0 ≤ b.level t := (h.refill hrpm t).nonneg
  have hone : (1 : ℚ) ≤ rpm := by exact_mod_cast hrpm
  have hpos : (0 : ℚ) < (rpm : ℚ) / 60 := by positivity
  have hsecs : t + n * 1000000000 - t = n * 1000000000 := by omega
  have hmint : minted rpm (n * 1000000000) = n * ((rpm : ℚ) / 60) := by
    rw [minted, asSecs]; push_cast; ring
  rw [level_grow hrpm h hr (by omega), hsecs, hmint, le_min_iff, max_le_iff,
    and_iff_left hone, and_iff_left hn]
  -- no wait is longer than a minute
  have hminute : (1 - b.level t) / ((rpm : ℚ) / 60) ≤ 60 := by
    rw [div_le_iff₀ hpos]
    linarith
  have hwait : 1 ≤ b.level t + n * ((rpm : ℚ) / 60) ↔ (1 - b.level t) / ((rpm : ℚ) / 60) ≤ n := by
    rw [div_le_iff₀ hpos]
    constructor <;> intro h <;> linarith
  rw [hwait]
  exact (ceilSecs_le_iff_of_minute hminute).symm

end RpmBucket

/-! ### Calls on the request bucket -/

namespace PerKeyRateLimiter

variable {l : PerKeyRateLimiter} {c : LimiterCall} {cs : List LimiterCall} {rpm t u : Nat}

theorem first_le_last (c : LimiterCall) : c.first ≤ c.last := by
  cases c with
  | checkRateLimit t => exact t.rpm_le.trans t.tpm_le
  | checkRpm now | checkTpm now | recordTpm now tokens => exact le_refl now

/-- The request tokens that a call at `now` finds. -/
def requestTokens (l : PerKeyRateLimiter) (now : Nat) : ℚ := (l.rpmBucket.map (·.level now)).getD 0

theorem checkRpmAt_eq {b : RpmBucket} (hb : l.rpmBucket = some b) (now : Nat) :
    l.checkRpmAt now = ((b.check now).1, { l with rpmBucket := some (b.refill now) }) := by
  simp only [checkRpmAt, hb, RpmBucket.check_snd]

theorem checkTpmAt_rpmBucket (l : PerKeyRateLimiter) (now : Nat) : (l.checkTpmAt now).2.rpmBucket = l.rpmBucket := by
  unfold checkTpmAt; split <;> rfl

theorem checkRateLimit_cases (l : PerKeyRateLimiter) (ts : CheckInstants) :
    let l₁ := (l.checkRpmAt ts.rpmAt).2
    let l₂ := (l₁.checkTpmAt ts.tpmAt).2
    (∃ r, (l.checkRpmAt ts.rpmAt).1 = .error r ∧
      l.checkRateLimit ts = (.error (.rpmExceeded r), l₁)) ∨
    ((l.checkRpmAt ts.rpmAt).1 = .ok () ∧ ∃ r, (l₁.checkTpmAt ts.tpmAt).1 = .error r ∧
      l.checkRateLimit ts = (.error (.tpmExceeded r), l₂)) ∨
    ((l.checkRpmAt ts.rpmAt).1 = .ok () ∧ (l₁.checkTpmAt ts.tpmAt).1 = .ok () ∧
      l.checkRateLimit ts = (.ok (), l₂.consumeRpmAt ts.consumeAt)) := by
  intro l₁ l₂
  simp only [l₂, l₁, checkRateLimit]
  obtain ⟨answer, l'⟩ := l.checkRpmAt ts.rpmAt
  cases answer with
  | error r => exact .inl ⟨r, rfl, rfl⟩
  | ok u =>
    refine .inr ?_
    dsimp only
    obtain ⟨answer, l''⟩ := l'.checkTpmAt ts.tpmAt
    cases answer with
    | error r => exact .inl ⟨rfl, r, rfl, rfl⟩
    | ok u => exact .inr ⟨rfl, rfl, rfl⟩

theorem step_rpmBucket {b : RpmBucket} (hb : l.rpmBucket = some b) (c : LimiterCall) :
    l.Admits c = false ∧ ((l.step c).rpmBucket = some b ∨ (l.step c).rpmBucket = some (b.refill c.first)) ∨
      l.Admits c = true ∧ 1 ≤ b.level c.first ∧
        (l.step c).rpmBucket = some ((b.refill c.first).consume c.last) := by
  cases c with
  | checkRpm now =>
    refine .inl ⟨rfl, .inr ?_⟩
    simp only [step, checkRpmAt_eq hb, LimiterCall.first]
  | checkTpm now => exact .inl ⟨rfl, .inl ((checkTpmAt_rpmBucket l now).trans hb)⟩
  | recordTpm now tokens => exact .inl ⟨rfl, .inl hb⟩
  | checkRateLimit ts =>
    have hbucket := checkTpmAt_rpmBucket (l.checkRpmAt ts.rpmAt).2 ts.tpmAt
    rcases checkRateLimit_cases l ts with ⟨r, -, heq⟩ | ⟨-, r, -, heq⟩ | ⟨hrpm, -, heq⟩
    · refine .inl ⟨by simp [Admits, heq, Except.isOk, Except.toBool], .inr ?_⟩
      simp only [step, heq, checkRpmAt_eq hb, LimiterCall.first]
    · refine .inl ⟨by simp [Admits, heq, Except.isOk, Except.toBool], .inr ?_⟩
      simp only [step, heq, hbucket]
      simp only [checkRpmAt_eq hb, LimiterCall.first]
    · rw [checkRpmAt_eq hb] at hrpm
      refine .inr ⟨by simp [Admits, heq, Except.isOk, Except.toBool],
        (RpmBucket.check_ok_iff b ts.rpmAt).1 hrpm, ?_⟩
      simp only [step, heq, consumeRpmAt, hbucket]
      simp only [checkRpmAt_eq hb, Option.map_some, LimiterCall.first, LimiterCall.last]

/-- The request bucket of every state of a run up to `t`. -/
def RequestInv (rpm : Nat) (l : PerKeyRateLimiter) (t : Nat) : Prop :=
  ∃ b, l.rpmBucket = some b ∧ b.Sound rpm ∧ b.lastRefill ≤ t

theorem requestTokens_eq {b : RpmBucket} (hb : l.rpmBucket = some b) (now : Nat) : l.requestTokens now = b.level now := by
  simp [requestTokens, hb]

theorem RequestInv.new (rpm : Nat) (tpm : Option Nat) (t : Nat) : RequestInv rpm (newAt (some rpm) tpm t) t :=
  ⟨_, rfl, RpmBucket.Sound.new rpm t, le_refl t⟩

theorem step_unspent (hrpm : 1 ≤ rpm) (h : RequestInv rpm l c.first) (hno : l.Admits c = false) :
    RequestInv rpm (l.step c) c.first ∧ ∀ u, c.first ≤ u → (l.step c).requestTokens u = l.requestTokens u := by
  obtain ⟨b, hb, hs, hr⟩ := h
  rcases step_rpmBucket hb c with ⟨-, hstep | hstep⟩ | ⟨hyes, -⟩
  · refine ⟨⟨b, hstep, hs, hr⟩, fun u hu => ?_⟩
    rw [requestTokens_eq hstep, requestTokens_eq hb]
  · refine ⟨⟨_, hstep, hs.refill hrpm _, ?_⟩, fun u hu => ?_⟩
    · rw [RpmBucket.lastRefill_refill hrpm hs]
      omega
    · rw [requestTokens_eq hstep, requestTokens_eq hb, RpmBucket.level_refill hrpm hs hu]
  · rw [hno] at hyes
    cases hyes

theorem step_spent (hrpm : 1 ≤ rpm) (h : RequestInv rpm l c.first) (hyes : l.Admits c = true) :
    RequestInv rpm (l.step c) c.last ∧ (l.step c).requestTokens c.last + 1 = l.requestTokens c.last := by
  obtain ⟨b, hb, hs, hr⟩ := h
  have hfl := first_le_last c
  rcases step_rpmBucket hb c with ⟨hno, -⟩ | ⟨-, hone, hstep⟩
  · rw [hyes] at hno
    cases hno
  · -- the token that the check found is still there at the last reading of the clock
    have hlater : 1 ≤ (b.refill c.first).level c.last := by
      rw [RpmBucket.level_refill hrpm hs hfl, RpmBucket.level_grow hrpm hs hr hfl]
      refine le_min ?_ (by exact_mod_cast hrpm)
      linarith [RpmBucket.minted_nonneg rpm (c.last - c.first)]
    obtain ⟨hsound, hlast, hlevel⟩ := RpmBucket.consume_spec hrpm (hs.refill hrpm c.first) hlater
    refine ⟨⟨_, hstep, hsound, ?_⟩, ?_⟩
    · rw [hlast, RpmBucket.lastRefill_refill hrpm hs]
      omega
    · rw [requestTokens_eq hstep, hlevel, requestTokens_eq hb, RpmBucket.level_refill hrpm hs hfl]
      ring

theorem metered (hrpm : 1 ≤ rpm) :
    TokenBucket.Metered step LimiterCall.first LimiterCall.last (RequestInv rpm) requestTokens
      (fun l c => if l.Admits c then 1 else 0) (RpmBucket.minted rpm) where
  ordered := first_le_last
  minted_add := RpmBucket.minted_add rpm
  later := fun l t u ⟨b, hb, hs, hr⟩ htu => ⟨b, hb, hs, hr.trans htu⟩
  grow := fun l t u ⟨b, hb, hs, hr⟩ htu => by
    rw [requestTokens_eq hb, requestTokens_eq hb, RpmBucket.level_grow hrpm hs hr htu]
    exact min_le_left _ _
  step := fun l c h => by
    rcases hc : l.Admits c with _ | _
    · obtain ⟨⟨b, hb, hs, hr⟩, hlevel⟩ := step_unspent hrpm h hc
      refine ⟨⟨b, hb, hs, hr.trans (first_le_last c)⟩, ?_⟩
      rw [hlevel _ (first_le_last c)]
      simp
    obtain ⟨hinv, hlevel⟩ := step_spent hrpm h hc
    exact ⟨hinv, by simpa using hlevel.le⟩

/-! ### Admissions -/

theorem admissions_append (l : PerKeyRateLimiter) (cs ds : List LimiterCall) :
    l.admissions (cs ++ ds) = l.admissions cs ++ (Run.run step l cs).admissions ds := by
  induction cs generalizing l with
  | nil => rfl
  | cons c cs ih => simp [admissions, ih]

theorem mem_admissions {x : Nat} (h : x ∈ l.admissions cs) : ∃ c ∈ cs, c.last = x := by
  induction cs generalizing l with
  | nil => cases h
  | cons c cs ih =>
    rcases List.mem_append.1 h with h | h
    · refine ⟨c, List.mem_cons_self, ?_⟩
      split at h
      · exact (List.mem_singleton.1 h).symm
      · cases h
    · obtain ⟨d, hd, rfl⟩ := ih h
      exact ⟨d, List.mem_cons_of_mem _ hd, rfl⟩

theorem length_admissions (l : PerKeyRateLimiter) (cs : List LimiterCall) :
    ((l.admissions cs).length : ℚ) = TokenBucket.total step (fun l c => if l.Admits c then 1 else 0) l cs := by
  induction cs generalizing l with
  | nil => rfl
  | cons c cs ih =>
    rw [admissions, TokenBucket.total, List.length_append, Nat.cast_add, ih]
    split <;> simp

theorem run_unspent (hrpm : 1 ≤ rpm) (h : RequestInv rpm l t) (ho : InOrder t cs) (hno : l.admissions cs = []) :
    RequestInv rpm (Run.run step l cs) (lastInstant t cs) ∧
      ∀ u, lastInstant t cs ≤ u → (Run.run step l cs).requestTokens u = l.requestTokens u := by
  induction cs generalizing l t with
  | nil => exact ⟨h, fun u _ => rfl⟩
  | cons c cs ih =>
    obtain ⟨hfirst, hrest⟩ := List.append_eq_nil_iff.1 hno
    have hc : l.Admits c = false := by
      by_contra hyes
      simp [hyes] at hfirst
    obtain ⟨hinv, hlevel⟩ := step_unspent hrpm ((metered hrpm).later _ _ _ h ho.1) hc
    have hlater := (metered hrpm).later _ _ _ hinv (first_le_last c)
    obtain ⟨hend, htokens⟩ := ih hlater ho.2 hrest
    refine ⟨hend, fun u hu => ?_⟩
    have hle : c.last ≤ lastInstant c.last cs := ho.2.le_lastInstant first_le_last
    rw [Run.run_cons, htokens u hu, hlevel u ((first_le_last c).trans (hle.trans hu))]

theorem requestTokens_bounds (hrpm : 1 ≤ rpm) (h : RequestInv rpm l t) (now : Nat) :
    0 ≤ l.requestTokens now ∧ l.requestTokens now ≤ rpm := by
  obtain ⟨b, hb, hs, -⟩ := h
  rw [requestTokens_eq hb]
  exact ⟨(hs.refill hrpm now).nonneg, (hs.refill hrpm now).le⟩

theorem requestInv_after (hrpm : 1 ≤ rpm) (tpm : Option Nat) (t : Nat) (ho : InOrder t cs) :
    RequestInv rpm (after (some rpm) tpm t cs) (lastInstant t cs) :=
  ((metered hrpm).level_run (RequestInv.new rpm tpm t) ho).1

theorem admissions_stretch_le (hrpm : 1 ≤ rpm) (h : RequestInv rpm l t) (ho : InOrder t cs) {s e : Nat}
    (hcs : ∀ c ∈ cs, s ≤ c.last ∧ c.last ≤ e) :
    ((l.admissions cs).length : ℚ) ≤ rpm + rpm * asSecs (e - s) / 60 := by
  have hmint : (rpm : ℚ) * asSecs (e - s) / 60 = RpmBucket.minted rpm (e - s) := by
    rw [RpmBucket.minted]; ring
  have hnonneg := RpmBucket.minted_nonneg rpm (e - s)
  rw [hmint]
  rcases cs with _ | ⟨c, cs⟩
  · have hcast : (0 : ℚ) ≤ rpm := Nat.cast_nonneg rpm
    simp only [admissions, List.length_nil, Nat.cast_zero]
    linarith
  have hc := hcs c List.mem_cons_self
  have hcap := (metered hrpm).total_le (fun l t h => (requestTokens_bounds hrpm h t).2) h ho
  obtain ⟨hend, -⟩ := (metered hrpm).level_run h ho
  have hpos := (requestTokens_bounds hrpm hend (TokenBucket.lastInstant LimiterCall.last t (c :: cs))).1
  have hlast : TokenBucket.lastInstant LimiterCall.last t (c :: cs) ≤ e :=
    TokenBucket.lastInstant_le (t := c.last) hc.2 fun d hd => (hcs d (List.mem_cons_of_mem _ hd)).2
  have hlen : TokenBucket.lastInstant LimiterCall.last t (c :: cs) - c.last ≤ e - s := by omega
  have hmono := RpmBucket.minted_mono rpm hlen
  rw [length_admissions]
  linarith

theorem admissions_interval_le (hrpm : 1 ≤ rpm) (h : RequestInv rpm l t) (ho : InOrder t cs) (s e : Nat) :
    ((l.admissions cs).countP (fun x => s ≤ x ∧ x ≤ e) : ℚ) ≤ rpm + rpm * asSecs (e - s) / 60 := by
  obtain ⟨before, seg, rest, rfl, hbefore, hseg, hrest⟩ := TokenBucket.InOrder.interval first_le_last ho s e
  rw [List.append_assoc] at ho
  obtain ⟨hob, hos⟩ := TokenBucket.inOrder_append.1 ho
  have hmid := ((metered hrpm).level_run h hob).1
  have hout : ∀ (l : PerKeyRateLimiter) (ds : List LimiterCall), (∀ d ∈ ds, d.last < s ∨ e < d.last) →
      (l.admissions ds).countP (fun x => s ≤ x ∧ x ≤ e) = 0 := by
    intro l ds hds
    rw [List.countP_eq_zero]
    intro x hx
    obtain ⟨d, hd, rfl⟩ := mem_admissions hx
    have hno := hds d hd
    simp only [decide_eq_true_eq]
    omega
  have hcount : ((l.admissions (before ++ seg ++ rest)).countP fun x => s ≤ x ∧ x ≤ e) ≤
      ((Run.run step l before).admissions seg).length := by
    rw [List.append_assoc, admissions_append, admissions_append, List.countP_append, List.countP_append,
      hout _ _ fun d hd => .inl (hbefore d hd), hout _ _ hrest]
    have hle := List.countP_le_length (p := fun x => decide (s ≤ x ∧ x ≤ e))
      (l := (Run.run step l before).admissions seg)
    omega
  have hbound := admissions_stretch_le hrpm hmid (TokenBucket.inOrder_append.1 hos).1 hseg
  calc ((l.admissions (before ++ seg ++ rest)).countP (fun x => s ≤ x ∧ x ≤ e) : ℚ)
      ≤ ((Run.run step l before).admissions seg).length := by exact_mod_cast hcount
    _ ≤ rpm + rpm * asSecs (e - s) / 60 := hbound

theorem checkRpmAt_unspent (hrpm : 1 ≤ rpm) (h : RequestInv rpm l t) :
    RequestInv rpm (l.checkRpmAt t).2 t ∧ ∀ u, t ≤ u → (l.checkRpmAt t).2.requestTokens u = l.requestTokens u :=
  step_unspent (c := .checkRpm t) hrpm h rfl

theorem checkRateLimit_unspent {ts : CheckInstants} (hrpm : 1 ≤ rpm) (h : RequestInv rpm l ts.rpmAt)
    (hno : (l.checkRateLimit ts).1.isOk = false) (u : Nat) (hu : ts.rpmAt ≤ u) :
    (l.checkRateLimit ts).2.requestTokens u = l.requestTokens u :=
  (step_unspent (c := .checkRateLimit ts) hrpm h hno).2 u hu

theorem checkRpmAt_ok_iff (h : RequestInv rpm l t) (now : Nat) : (l.checkRpmAt now).1 = .ok () ↔ 1 ≤ l.requestTokens now := by
  obtain ⟨b, hb, -⟩ := h
  rw [checkRpmAt_eq hb, requestTokens_eq hb]
  exact RpmBucket.check_ok_iff b now

theorem checkRpmAt_retry (hrpm : 1 ≤ rpm) (h : RequestInv rpm l t) {r : Nat} (herr : (l.checkRpmAt t).1 = .error r) :
    1 ≤ r ∧ ∀ n ds, 1 ≤ n → InOrder t ds → lastInstant t ds ≤ t + n * 1000000000 →
      (l.checkRpmAt t).2.admissions ds = [] →
      (((Run.run step (l.checkRpmAt t).2 ds).checkRpmAt (t + n * 1000000000)).1 = .ok () ↔ r ≤ n) := by
  obtain ⟨hinv₁, htokens₁⟩ := checkRpmAt_unspent hrpm h
  obtain ⟨b, hb, hs, hr⟩ := h
  have hcheck : (b.check t).1 = .error r := by rwa [checkRpmAt_eq hb] at herr
  obtain ⟨-, hr1⟩ := RpmBucket.check_error hrpm hs hcheck
  refine ⟨by omega, fun n ds hn hds hend hnone => ?_⟩
  obtain ⟨hinv, htokens⟩ := run_unspent hrpm hinv₁ hds hnone
  rw [checkRpmAt_ok_iff hinv, htokens _ hend, htokens₁ _ (by omega), requestTokens_eq hb]
  exact RpmBucket.check_retry hrpm hs hr hcheck hn

/-- The law of the request bucket over every run at non-decreasing instants. -/
theorem rpm_law (rpm : Nat) (hrpm : 1 ≤ rpm) (tpm : Option Nat) (t : Nat) (cs : List LimiterCall) (ho : InOrder t cs) :
    let l := after (some rpm) tpm t cs
    -- no interval holds more admissions than a full bucket and its refill
    (∀ s e, (((newAt (some rpm) tpm t).admissions cs).countP (fun x => s ≤ x ∧ x ≤ e) : ℚ) ≤
      rpm + rpm * asSecs (e - s) / 60) ∧
    -- a rejected request leaves the tokens that any later call finds
    (∀ ts, lastInstant t cs ≤ ts.rpmAt → (l.checkRateLimit ts).1.isOk = false →
      ∀ u, ts.rpmAt ≤ u → (l.checkRateLimit ts).2.requestTokens u = l.requestTokens u) ∧
    -- of the whole seconds after a refused check, those from its answer on find a token
    (∀ now r, lastInstant t cs ≤ now → (l.checkRpmAt now).1 = .error r →
      1 ≤ r ∧ ∀ n ds, 1 ≤ n → InOrder now ds → lastInstant now ds ≤ now + n * 1000000000 →
        (l.checkRpmAt now).2.admissions ds = [] →
        (((Run.run step (l.checkRpmAt now).2 ds).checkRpmAt (now + n * 1000000000)).1 = .ok () ↔ r ≤ n)) := by
  intro l
  have hinv := requestInv_after hrpm tpm t ho
  have hlater := fun u (hu : lastInstant t cs ≤ u) => (metered hrpm).later _ _ u hinv hu
  refine ⟨fun s e => admissions_interval_le hrpm (RequestInv.new rpm tpm t) ho s e, ?_, ?_⟩
  · intro ts hts hno u hu
    exact checkRateLimit_unspent hrpm (hlater _ hts) hno u hu
  · intro now r hnow herr
    exact checkRpmAt_retry hrpm (hlater now hnow) herr

/-- One request per minute: the second of two is told to wait for the rest of the minute. -/
theorem rpm_law_one_per_minute :
    let l := after (some 1) none 0 [.checkRateLimit ⟨0, 0, 0, le_refl 0, le_refl 0⟩]
    (l.checkRpmAt 500000000).1 = .error 60 ∧
      ∀ n, 1 ≤ n → (((l.checkRpmAt 500000000).2.checkRpmAt (500000000 + n * 1000000000)).1 = .ok () ↔ 60 ≤ n) := by
  intro l
  have ho : InOrder 0 [.checkRateLimit ⟨0, 0, 0, le_refl 0, le_refl 0⟩] := ⟨le_refl 0, trivial⟩
  have herr : (l.checkRpmAt 500000000).1 = .error 60 := by decide +kernel
  refine ⟨herr, fun n hn => ?_⟩
  have hend : lastInstant 500000000 [] ≤ 500000000 + n * 1000000000 := by
    show 500000000 ≤ 500000000 + n * 1000000000
    omega
  have hlast : lastInstant 0 [.checkRateLimit ⟨0, 0, 0, le_refl 0, le_refl 0⟩] ≤ 500000000 := by decide
  exact ((rpm_law 1 (le_refl 1) none 0 _ ho).2.2 500000000 60 hlast herr).2 n [] hn trivial hend rfl

end PerKeyRateLimiter

end ObeyGateway.VirtualKeys
