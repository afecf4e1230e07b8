import ObeyGateway.VirtualKeys.RateLimiterLaw

/-!
# The rolling token window

`WindowInv`: at every instant from the last call on, the entries that are not yet 60 seconds old are the
recorded ones, zero counts apart. The running sum is the sum of the entries, so a check compares the sum
of its reference with the limit.
-/

namespace ObeyGateway.VirtualKeys

namespace TpmWindow

variable {w : TpmWindow} {es records : List (Nat × Nat)} {now t u limit n : Nat}

def weight (es : List (Nat × Nat)) : Nat := (es.map (·.2)).sum

/-- The entry is less than 60 seconds old. -/
def fresh (now : Nat) (e : Nat × Nat) : Bool := now - e.1 < tpmWindow

@[simp] theorem weight_nil : weight [] = 0 := rfl

@[simp] theorem weight_cons (e : Nat × Nat) : weight (e :: es) = e.2 + weight es := List.sum_cons

@[simp] theorem weight_append (es es' : List (Nat × Nat)) : weight (es ++ es') = weight es + weight es' := by
  simp [weight]

theorem weight_le_of_sublist {es es' : List (Nat × Nat)} (h : List.Sublist es es') : weight es ≤ weight es' :=
  (h.map _).sum_le_sum fun _ _ => Nat.zero_le _

theorem weight_filter_ne_zero (es : List (Nat × Nat)) : weight (es.filter (·.2 ≠ 0)) = weight es := by
  induction es with
  | nil => rfl
  | cons e es ih =>
    by_cases he : e.2 = 0
    · rw [List.filter_cons_of_neg (by simpa using he), ih, weight_cons, he, Nat.zero_add]
    · rw [List.filter_cons_of_pos (by simpa using he), weight_cons, weight_cons, ih]

theorem fresh_of_le {e e' : Nat × Nat} (h : fresh now e = true) (hle : e.1 ≤ e'.1) : fresh now e' = true := by
  simp only [fresh, decide_eq_true_eq] at h ⊢
  omega

theorem fresh_earlier {e : Nat × Nat} (h : fresh u e = true) (hle : now ≤ u) : fresh now e = true := by
  simp only [fresh, decide_eq_true_eq] at h ⊢
  omega

theorem filter_fresh_fresh (hle : now ≤ u) (es : List (Nat × Nat)) :
    (es.filter (fresh now)).filter (fresh u) = es.filter (fresh u) := by
  rw [List.filter_filter]
  refine List.filter_congr fun e _ => ?_
  cases hu : fresh u e with
  | false => rfl
  | true => simp [fresh_earlier hu hle]

theorem pruneFrom_eq (hs : es.Pairwise fun a b => a.1 ≤ b.1) :
    pruneFrom now es (weight es) = (es.filter (fresh now), weight (es.filter (fresh now))) := by
  induction es with
  | nil => rfl
  | cons e es ih =>
    obtain ⟨ts, tokens⟩ := e
    obtain ⟨he, hs⟩ := List.pairwise_cons.1 hs
    rw [pruneFrom]
    split
    · rename_i hold
      have hstale : ¬ fresh now (ts, tokens) = true := by simpa [fresh] using hold
      rw [List.filter_cons_of_neg hstale, weight_cons, Nat.add_sub_cancel_left, ih hs]
    · rename_i hnew
      have hfresh : fresh now (ts, tokens) = true := by simpa [fresh] using hnew
      have hall : ((ts, tokens) :: es).filter (fresh now) = (ts, tokens) :: es := by
        refine List.filter_eq_self.2 fun e' he' => ?_
        rcases List.mem_cons.1 he' with rfl | he'
        · exact hfresh
        · exact fresh_of_le hfresh (he e' he')
      rw [hall]

/-- The entries against the records, from the instant `t` on. -/
structure WindowInv (limit : Nat) (records : List (Nat × Nat)) (t : Nat) (w : TpmWindow) : Prop where
  limit : w.limit = limit
  sorted : w.entries.Pairwise fun a b => a.1 ≤ b.1
  past : ∀ e ∈ w.entries, e.1 ≤ t
  sum : w.currentSum = weight w.entries
  window : ∀ now, t ≤ now →
    w.entries.filter (fresh now) = (records.filter (fresh now)).filter (·.2 ≠ 0)

theorem WindowInv.new (limit t : Nat) : WindowInv limit [] t (TpmWindow.new limit) :=
  ⟨rfl, List.Pairwise.nil, by simp [TpmWindow.new], rfl, fun _ _ => rfl⟩

theorem WindowInv.later (h : WindowInv limit records t w) (htu : t ≤ u) : WindowInv limit records u w :=
  ⟨h.limit, h.sorted, fun e he => (h.past e he).trans htu, h.sum, fun now hn => h.window now (htu.trans hn)⟩

theorem WindowInv.prune_eq (h : WindowInv limit records t w) (now : Nat) :
    w.prune now = ⟨w.limit, w.entries.filter (fresh now), weight (w.entries.filter (fresh now))⟩ := by
  rw [prune, h.sum, pruneFrom_eq h.sorted]

theorem WindowInv.prune (h : WindowInv limit records t w) (htn : t ≤ now) : WindowInv limit records now (w.prune now) := by
  rw [h.prune_eq now]
  refine ⟨h.limit, h.sorted.sublist List.filter_sublist, fun e he => ?_, rfl, fun u hu => ?_⟩
  · exact (h.past e (List.mem_of_mem_filter he)).trans htn
  · rw [filter_fresh_fresh hu, h.window u (htn.trans hu)]

theorem WindowInv.weight_fresh (h : WindowInv limit records t w) (htn : t ≤ now) :
    weight (w.entries.filter (fresh now)) = PerKeyRateLimiter.windowSum records now := by
  rw [h.window now htn, weight_filter_ne_zero]
  rfl

theorem WindowInv.record (h : WindowInv limit records t w) (htn : t ≤ now) {tokens : Nat}
    (hfit : PerKeyRateLimiter.windowSum (records ++ [(now, tokens)]) now < 2 ^ 64) :
    WindowInv limit (records ++ [(now, tokens)]) now (w.record now tokens) := by
  have hp := h.prune htn
  have hnow : fresh now (now, tokens) = true := by simp [fresh, tpmWindow]
  unfold TpmWindow.record
  dsimp only
  split
  · rename_i hzero
    subst hzero
    refine ⟨hp.limit, hp.sorted, hp.past, hp.sum, fun u hu => ?_⟩
    rw [hp.window u hu, List.filter_append, List.filter_append]
    cases hu : fresh u (now, 0) <;> simp [hu]
  · rename_i hpos
    have hsum : weight (w.prune now).entries + tokens < 2 ^ 64 := by
      have hwindow : PerKeyRateLimiter.windowSum (records ++ [(now, tokens)]) now =
          PerKeyRateLimiter.windowSum records now + tokens := by
        show weight ((records ++ [(now, tokens)]).filter (fresh now)) =
          weight (records.filter (fresh now)) + tokens
        rw [List.filter_append, weight_append, List.filter_cons_of_pos hnow]
        simp
      rw [h.prune_eq now]
      show weight (w.entries.filter (fresh now)) + tokens < 2 ^ 64
      rw [h.weight_fresh htn]
      omega
    refine ⟨hp.limit, ?_, ?_, ?_, fun u hu => ?_⟩
    · exact List.pairwise_append.2 ⟨hp.sorted, List.pairwise_singleton _ _, fun e he e' he' => by
        rw [List.mem_singleton.1 he']; exact hp.past e he⟩
    · intro e he
      rcases List.mem_append.1 he with he | he
      · exact hp.past e he
      · rw [List.mem_singleton.1 he]
    · show min ((w.prune now).currentSum + tokens) u64Max = weight ((w.prune now).entries ++ [(now, tokens)])
      rw [hp.sum, weight_append]
      simp only [weight_cons, weight_nil, Nat.add_zero]
      exact Nat.min_eq_left (by unfold u64Max; omega)
    · show ((w.prune now).entries ++ [(now, tokens)]).filter (fresh u) = _
      rw [List.filter_append, List.filter_append, List.filter_append, hp.window u hu]
      cases hfresh : fresh u (now, tokens) <;> simp [hfresh, hpos]

theorem walk_spec (hlimit : 1 ≤ limit) (h : limit ≤ weight es) :
    ∃ before e rest, es = before ++ e :: rest ∧ walk limit (weight es) es = some e.1 ∧
      weight rest < limit ∧ limit ≤ weight (e :: rest) := by
  induction es with
  | nil => exact absurd (hlimit.trans h) (by simp)
  | cons e es ih =>
    obtain ⟨ts, tokens⟩ := e
    have hrest : weight ((ts, tokens) :: es) - tokens = weight es := by simp
    rw [walk, hrest]
    split
    · rename_i hlt
      exact ⟨[], (ts, tokens), es, rfl, rfl, hlt, h⟩
    · rename_i hge
      obtain ⟨before, e, rest, rfl, hwalk, hlt, hle⟩ := ih (Nat.le_of_not_lt hge)
      exact ⟨(ts, tokens) :: before, e, rest, rfl, hwalk, hlt, hle⟩

theorem check_snd (w : TpmWindow) (now : Nat) : (w.check now).2 = w.prune now := by
  unfold check; dsimp only; split
  · rfl
  · split
    · rfl
    · split <;> rfl

theorem WindowInv.check_ok_iff (h : WindowInv limit records t w) (htn : t ≤ now) :
    (w.check now).1 = .ok () ↔ PerKeyRateLimiter.windowSum records now < limit := by
  have hsum : (w.prune now).currentSum = PerKeyRateLimiter.windowSum records now := by
    rw [h.prune_eq now]
    exact h.weight_fresh htn
  have hlimit : (w.prune now).limit = limit := h.limit
  unfold check
  simp only [hsum, hlimit]
  split
  · rename_i hlt
    exact iff_of_true rfl hlt
  · rename_i hge
    refine iff_of_false ?_ hge
    split
    · simp
    · split <;> simp

theorem WindowInv.check_error (hlimit : 1 ≤ limit) (h : WindowInv limit records t w) {r : Nat}
    (herr : (w.check now).1 = .error r) :
    ∃ before e rest, w.entries.filter (fresh now) = before ++ e :: rest ∧ r = waitFor now e.1 ∧
      weight rest < limit ∧ limit ≤ weight (e :: rest) := by
  have hp := h.prune_eq now
  have hle : limit ≤ weight (w.entries.filter (fresh now)) := by
    by_contra hlt
    unfold check at herr
    simp [hp, h.limit, Nat.lt_of_not_le hlt] at herr
  obtain ⟨before, e, rest, heq, hwalk, hlt, hge⟩ := walk_spec hlimit hle
  refine ⟨before, e, rest, heq, ?_, hlt, hge⟩
  unfold check at herr
  simp only [hp, h.limit, Nat.not_lt.2 hle, if_false, hwalk, Except.error.injEq] at herr
  exact herr.symm

theorem waitFor_le_iff {ts : Nat} (hts : ts ≤ now) (hn : 1 ≤ n) :
    waitFor now ts ≤ n ↔ ts + tpmWindow ≤ now + n * 1000000000 := by
  have hsecs : asSecs (ts + tpmWindow - now) ≤ n ↔ ts + tpmWindow - now ≤ n * 1000000000 := by
    rw [asSecs, div_le_iff₀ (by norm_num)]
    exact_mod_cast Iff.rfl
  have hminute : asSecs (ts + tpmWindow - now) ≤ 60 := by
    have hle : ts + tpmWindow - now ≤ 60 * 1000000000 := by unfold tpmWindow; omega
    rw [asSecs, div_le_iff₀ (by norm_num)]
    exact_mod_cast hle
  rw [waitFor, max_le_iff, and_iff_left hn, ceilSecs_le_iff_of_minute hminute, hsecs]
  omega

/-- The window is below its limit exactly from the answer of a refused check on. -/
theorem WindowInv.check_retry (hlimit : 1 ≤ limit) (h : WindowInv limit records t w) (htn : t ≤ now) {r : Nat}
    (herr : (w.check now).1 = .error r) (hn : 1 ≤ n) :
    PerKeyRateLimiter.windowSum records (now + n * 1000000000) < limit ↔ r ≤ n := by
  obtain ⟨before, e, rest, heq, rfl, hlt, hge⟩ := h.check_error hlimit herr
  have hsorted : (before ++ e :: rest).Pairwise fun a b => a.1 ≤ b.1 :=
    heq ▸ h.sorted.sublist List.filter_sublist
  have hlater : now ≤ now + n * 1000000000 := Nat.le_add_right now _
  have hwindow : PerKeyRateLimiter.windowSum records (now + n * 1000000000) =
      weight ((before ++ e :: rest).filter (fresh (now + n * 1000000000))) := by
    rw [← heq, filter_fresh_fresh hlater, h.weight_fresh (htn.trans hlater)]
  have hpast : e.1 ≤ now := by
    have hmem : e ∈ w.entries.filter (fresh now) := heq ▸ List.mem_append_right _ List.mem_cons_self
    exact (h.past e (List.mem_of_mem_filter hmem)).trans htn
  rw [hwindow, waitFor_le_iff hpast hn]
  obtain ⟨-, hsuffix, hbefore⟩ := List.pairwise_append.1 hsorted
  by_cases hexp : e.1 + tpmWindow ≤ now + n * 1000000000
  · -- the entry is out, and all that came before it
    refine iff_of_true ?_ hexp
    have hstale : ∀ a ∈ before ++ [e], ¬ fresh (now + n * 1000000000) a = true := by
      intro a ha
      have hle : a.1 ≤ e.1 := by
        rcases List.mem_append.1 ha with ha | ha
        · exact hbefore a ha e List.mem_cons_self
        · rw [List.mem_singleton.1 ha]
      simp only [fresh, decide_eq_true_eq]
      omega
    have hsplit : before ++ e :: rest = (before ++ [e]) ++ rest := by simp
    rw [hsplit, List.filter_append, List.filter_eq_nil_iff.2 hstale, List.nil_append]
    exact lt_of_le_of_lt (weight_le_of_sublist List.filter_sublist) hlt
  · -- the entry is still in, and all that came after it
    refine iff_of_false (Nat.not_lt.2 (hge.trans ?_)) hexp
    have hin : (e :: rest).filter (fresh (now + n * 1000000000)) = e :: rest := by
      refine List.filter_eq_self.2 fun a ha => ?_
      have hle : e.1 ≤ a.1 := by
        rcases List.mem_cons.1 ha with rfl | ha
        · exact le_refl _
        · exact (List.pairwise_cons.1 hsuffix).1 a ha
      simp only [fresh, decide_eq_true_eq]
      omega
    rw [List.filter_append, weight_append, hin]
    exact Nat.le_add_left _ _

end TpmWindow

/-! ### Calls on the token window -/

namespace PerKeyRateLimiter

open TpmWindow

variable {l : PerKeyRateLimiter} {c : LimiterCall} {cs ds : List LimiterCall} {t now limit : Nat}

theorem checkTpmAt_eq {w : TpmWindow} (hw : l.tpmWindow = some w) (now : Nat) :
    l.checkTpmAt now = ((w.check now).1, { l with tpmWindow := some (w.prune now) }) := by
  simp only [checkTpmAt, hw, TpmWindow.check_snd]

theorem checkRpmAt_tpmWindow (l : PerKeyRateLimiter) (now : Nat) : (l.checkRpmAt now).2.tpmWindow = l.tpmWindow := by
  unfold checkRpmAt; split <;> rfl

theorem recorded_append (cs ds : List LimiterCall) : recorded (cs ++ ds) = recorded cs ++ recorded ds :=
  List.filterMap_append

/-- The window of every state of a run up to `t`. -/
def TokenInv (limit : Nat) (cs : List LimiterCall) (l : PerKeyRateLimiter) (t : Nat) : Prop :=
  ∃ w, l.tpmWindow = some w ∧ WindowInv limit (recorded cs) t w

theorem TokenInv.checkTpmAt (h : TokenInv limit cs l t) (htn : t ≤ now) : TokenInv limit cs (l.checkTpmAt now).2 now := by
  obtain ⟨w, hw, hinv⟩ := h
  exact ⟨w.prune now, by rw [checkTpmAt_eq hw], hinv.prune htn⟩

theorem TokenInv.later {u : Nat} (h : TokenInv limit cs l t) (htu : t ≤ u) : TokenInv limit cs l u := by
  obtain ⟨w, hw, hinv⟩ := h
  exact ⟨w, hw, hinv.later htu⟩

theorem TokenInv.of_eq {l' : PerKeyRateLimiter} (h : TokenInv limit cs l t) (heq : l'.tpmWindow = l.tpmWindow) :
    TokenInv limit cs l' t := by
  obtain ⟨w, hw, hinv⟩ := h
  exact ⟨w, heq.trans hw, hinv⟩

theorem TokenInv.step_unrecorded (h : TokenInv limit cs l t) (htc : t ≤ c.first) (hno : recorded [c] = []) :
    TokenInv limit cs (l.step c) c.last := by
  cases c with
  | checkRpm now => exact (h.later htc).of_eq (checkRpmAt_tpmWindow l now)
  | checkTpm now => exact h.checkTpmAt htc
  | recordTpm now tokens => cases hno
  | checkRateLimit ts =>
    have hrpm : TokenInv limit cs (l.checkRpmAt ts.rpmAt).2 ts.rpmAt :=
      (h.later htc).of_eq (checkRpmAt_tpmWindow l ts.rpmAt)
    have htpm := hrpm.checkTpmAt ts.rpm_le
    show TokenInv limit cs (l.checkRateLimit ts).2 ts.consumeAt
    rcases checkRateLimit_cases l ts with ⟨r, -, heq⟩ | ⟨-, r, -, heq⟩ | ⟨-, -, heq⟩
    · rw [heq]
      exact hrpm.later (ts.rpm_le.trans ts.tpm_le)
    · rw [heq]
      exact htpm.later ts.tpm_le
    · rw [heq]
      exact (htpm.later ts.tpm_le).of_eq (by simp [consumeRpmAt])

theorem TokenInv.run_unrecorded (h : TokenInv limit cs l t) (ho : InOrder t ds) (hno : recorded ds = []) :
    TokenInv limit cs (Run.run PerKeyRateLimiter.step l ds) (lastInstant t ds) := by
  induction ds generalizing l t with
  | nil => exact h
  | cons d ds ih =>
    obtain ⟨hd, hds⟩ := List.append_eq_nil_iff.1 ((recorded_append [d] ds).symm.trans hno)
    exact ih (h.step_unrecorded ho.1 hd) ho.2 hds

theorem TokenInv.step (h : TokenInv limit cs l t) (htc : t ≤ c.first)
    (hfit : windowSum (recorded (cs ++ [c])) c.last < 2 ^ 64) :
    TokenInv limit (cs ++ [c]) (l.step c) c.last := by
  have hkeep (hc : recorded [c] = []) : TokenInv limit (cs ++ [c]) (l.step c) c.last := by
    obtain ⟨w, hw, hinv⟩ := h.step_unrecorded htc hc
    exact ⟨w, hw, by rwa [recorded_append, hc, List.append_nil]⟩
  cases c with
  | checkRpm now | checkTpm now | checkRateLimit ts => exact hkeep rfl
  | recordTpm now tokens =>
    obtain ⟨w, hw, hinv⟩ := h
    rw [recorded_append] at hfit
    refine ⟨w.record now tokens, by simp [PerKeyRateLimiter.step, recordTpmAt, hw], ?_⟩
    rw [recorded_append]
    exact hinv.record htc hfit

/-- The tokens in the window stay below `2 ^ 64` along the calls. -/
def Fits (t : Nat) (cs : List LimiterCall) : Prop :=
  ∀ bs, bs <+: cs → windowSum (recorded bs) (lastInstant t bs) < 2 ^ 64

theorem tokenInv_after (rpm : Option Nat) (limit : Nat) (ho : InOrder t cs) (hfit : Fits t cs) :
    TokenInv limit cs (after rpm (some limit) t cs) (lastInstant t cs) := by
  induction cs using List.reverseRecOn with
  | nil => exact ⟨_, rfl, WindowInv.new limit t⟩
  | append_singleton cs c ih =>
    obtain ⟨hocs, hoc⟩ := TokenBucket.inOrder_append.1 ho
    have hlast : lastInstant t (cs ++ [c]) = c.last := TokenBucket.lastInstant_append
    have hbefore := ih hocs fun bs hb => hfit bs (hb.trans (List.prefix_append _ _))
    rw [after, Run.run_concat, hlast]
    refine hbefore.step hoc.1 ?_
    rw [← hlast]
    exact hfit _ (List.prefix_refl _)

theorem TokenInv.check_ok_iff (h : TokenInv limit cs l t) (htn : t ≤ now) :
    (l.checkTpmAt now).1 = .ok () ↔ windowSum (recorded cs) now < limit := by
  obtain ⟨w, hw, hinv⟩ := h
  rw [checkTpmAt_eq hw]
  exact hinv.check_ok_iff htn

theorem TokenInv.check_retry (hlimit : 1 ≤ limit) (h : TokenInv limit cs l t) (htn : t ≤ now) {r : Nat}
    (herr : (l.checkTpmAt now).1 = .error r) :
    1 ≤ r ∧ ∀ n ds, 1 ≤ n → InOrder now ds → lastInstant now ds ≤ now + n * 1000000000 → recorded ds = [] →
      (((Run.run PerKeyRateLimiter.step (l.checkTpmAt now).2 ds).checkTpmAt (now + n * 1000000000)).1 = .ok () ↔ r ≤ n) := by
  have hpruned := h.checkTpmAt htn
  obtain ⟨w, hw, hinv⟩ := h
  have hcheck : (w.check now).1 = .error r := by rwa [checkTpmAt_eq hw] at herr
  obtain ⟨-, e, -, -, hr, -⟩ := hinv.check_error hlimit hcheck
  refine ⟨by rw [hr, waitFor]; exact le_max_right _ _, fun n ds hn hds hend hno => ?_⟩
  rw [(hpruned.run_unrecorded hds hno).check_ok_iff hend]
  exact hinv.check_retry hlimit htn hcheck hn

/-- The law of the token window over every run at non-decreasing instants. -/
theorem tpm_law (rpm : Option Nat) (tpm : Nat) (htpm : 1 ≤ tpm) (t : Nat) (cs : List LimiterCall)
    (ho : InOrder t cs) (hfit : Fits t cs) (now : Nat) (hnow : lastInstant t cs ≤ now) :
    let l := after rpm (some tpm) t cs
    ((l.checkTpmAt now).1 = .ok () ↔ windowSum (recorded cs) now < tpm) ∧
    -- of the whole seconds after a refused check, those from its answer on are below the limit
    ∀ r, (l.checkTpmAt now).1 = .error r →
      1 ≤ r ∧ ∀ n ds, 1 ≤ n → InOrder now ds → lastInstant now ds ≤ now + n * 1000000000 → recorded ds = [] →
        (((Run.run step (l.checkTpmAt now).2 ds).checkTpmAt (now + n * 1000000000)).1 = .ok () ↔ r ≤ n) := by
  intro l
  have hinv := tokenInv_after rpm tpm ho hfit
  exact ⟨hinv.check_ok_iff hnow, fun r herr => hinv.check_retry htpm hnow herr⟩

/-- Two recordings at one instant, the limit reached with the second: the whole minute is to wait. -/
theorem tpm_law_same_instant :
    let cs : List LimiterCall := [.recordTpm 0 4, .checkTpm 0, .recordTpm 0 6]
    let l := after none (some 10) 0 cs
    (l.checkTpmAt 1).1 = .error 60 ∧ ∀ n, 1 ≤ n →
      (((l.checkTpmAt 1).2.checkTpmAt (1 + n * 1000000000)).1 = .ok () ↔ 60 ≤ n) := by
  intro cs l
  have ho : InOrder 0 cs := by simp [InOrder, TokenBucket.InOrder, cs, LimiterCall.first, LimiterCall.last]
  have hfit : Fits 0 cs := by
    intro bs hb
    have hle : windowSum (recorded bs) (lastInstant 0 bs) ≤ weight (recorded cs) := by
      obtain ⟨rest, hrest⟩ := hb
      refine (weight_le_of_sublist List.filter_sublist).trans (weight_le_of_sublist ?_)
      rw [← hrest, recorded_append]
      exact List.sublist_append_left _ _
    exact lt_of_le_of_lt hle (by decide)
  have hlast : lastInstant 0 cs ≤ 1 := by decide
  have herr : (l.checkTpmAt 1).1 = .error 60 := by decide +kernel
  refine ⟨herr, fun n hn => ?_⟩
  have hend : lastInstant 1 [] ≤ 1 + n * 1000000000 := by
    show 1 ≤ 1 + n * 1000000000
    omega
  exact ((tpm_law none 10 (by decide) 0 cs ho hfit 1 hlast).2 60 herr).2 n [] hn trivial hend rfl

end PerKeyRateLimiter

end ObeyGateway.VirtualKeys
