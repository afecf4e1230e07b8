import ObeyGateway.Lib.Assoc
import ObeyGateway.Lib.SortBy
import ObeyGateway.Router.CircuitBreaker
import ObeyGateway.Router.Cost
import ObeyGateway.Router.RateLimiter
import Mathlib.Data.Prod.Lex

/-!
# The order in which providers are tried (`select_provider_order`)

The models whose breaker and cooldowns let them through, by priority, then by cost, and by latency where two costs lie
within ten percent; with version fallback the newest first. The comparator is a total order on the candidates exactly
if no three of one priority form a chain of similar costs that ends out of the band of its beginning while the latency
falls along it (`provider_order_law`).
-/

namespace ObeyGateway
open SortBy

structure ModelGroup where
  models : List ProviderModel
  versionFallbackEnabled : Bool

structure LatencySnapshot where
  known : List (String × ℚ)
  fallbackMs : ℚ

def LatencySnapshot.getLatency (s : LatencySnapshot) (provider : String) : ℚ :=
  (Assoc.get s.known provider).getD s.fallbackMs

/-- `LatencyTracker::snapshot`; the fallback is the median of what is tracked. -/
def latencySnapshot (latencies : List (String × ℚ)) : LatencySnapshot :=
  let values := sortBy compare (latencies.map (·.2))
  let len := values.length
  { known := latencies
    fallbackMs :=
      if values.isEmpty then 100
      else if len % 2 = 0 then (values.getD (len / 2 - 1) 0 + values.getD (len / 2) 0) / 2
      else values.getD (len / 2) 0 }

/-- What is read of the router and its metrics: breakers, limiters, cooldown deadlines in epoch seconds (zero for
none), latencies. -/
structure SelectionState where
  circuitBreakers : List (String × CircuitBreaker)
  rateLimiters : List (String × RateLimiterState)
  cooldownUntilTimestamp : List (String × Nat)
  latencies : List (String × ℚ)
  cacheAwareEnabled : Bool
  costSortHitRate : ℚ

structure SelectionTime where
  instant : Nat
  epochSecs : Nat

namespace SelectionState
variable (st : SelectionState) (now : SelectionTime)

def providerCooldownRemainingSecs (provider : String) : Option Nat :=
  match Assoc.get st.cooldownUntilTimestamp provider with
  | none => none
  | some deadline =>
    if deadline = 0 then none
    else if now.epochSecs < deadline then some (deadline - now.epochSecs) else none

/-- `cb.is_available()` of the breaker of `m`, when there is one. -/
def breakerAvailable (m : ProviderModel) : Bool × SelectionState :=
  let cbKey := m.provider ++ ":" ++ m.model
  match Assoc.get st.circuitBreakers cbKey with
  | some cb =>
    let (ok, cb) := cb.isAvailable now.instant
    (ok, { st with circuitBreakers := Assoc.put st.circuitBreakers cbKey cb })
  | none => (true, st)

def cooldownOk (m : ProviderModel) : Bool :=
  (match Assoc.get st.rateLimiters m.provider with
    | some rl => (RateLimiter.cooldownRemaining rl now.instant).isNone
    | none => true) && (st.providerCooldownRemainingSecs now m.provider).isNone

def filtered (st : SelectionState) : List ProviderModel → List ProviderModel
  | [] => []
  | m :: ms =>
    let (cbOk, st') := st.breakerAvailable now m
    if cbOk && st'.cooldownOk now m then m :: filtered st' ms else filtered st' ms

def assumedHitRate : Option ℚ :=
  if st.cacheAwareEnabled && 0 < st.costSortHitRate then some st.costSortHitRate else none

end SelectionState

/-- `str::parse::<u32>` -/
def parseU32 (text : List Char) : Option Nat :=
  let digits := match text with
    | '+' :: rest => rest
    | _ => text
  if digits.isEmpty || !digits.all Char.isDigit then none
  else
    let value := digits.foldl (fun n c => 10 * n + (c.toNat - '0'.toNat)) 0
    if value < 2 ^ 32 then some value else none

def extractVersionDate (modelName : String) : ℕ ×ₗ ℕ ×ₗ ℕ :=
  match (modelName.toList.splitOn '-').reverse with
  | day :: month :: year :: _ =>
    match parseU32 year, parseU32 month, parseU32 day with
    | some year, some month, some day =>
      if 2020 ≤ year ∧ year ≤ 2100 ∧ 1 ≤ month ∧ month ≤ 12 ∧ 1 ≤ day ∧ day ≤ 31 then
        toLex (year, toLex (month, day))
      else toLex (0, toLex (0, 0))
    | _, _, _ => toLex (0, toLex (0, 0))
  | _ => toLex (0, toLex (0, 0))

def sortByVersionFallback (models : List ProviderModel) : List ProviderModel :=
  sortBy (fun a b => compare (extractVersionDate b.model) (extractVersionDate a.model)) models

/-- The closure that `candidates.sort_by` gets. -/
def providerCmp (latencySnapshot : LatencySnapshot) (assumedHitRate : Option ℚ) (a b : ProviderModel) : Ordering :=
  match compare a.priority b.priority with
  | .eq =>
    let costA := a.sortCost assumedHitRate
    let costB := b.sortCost assumedHitRate
    let costDiff := |costA - costB|
    let costThreshold := min costA costB * (1 / 10)
    if costDiff ≤ costThreshold then
      compare (latencySnapshot.getLatency a.provider) (latencySnapshot.getLatency b.provider)
    else compare costA costB
  | other => other

namespace SelectionState
variable (st : SelectionState) (now : SelectionTime)

def cmp : ProviderModel → ProviderModel → Ordering := providerCmp (latencySnapshot st.latencies) st.assumedHitRate

def selectProviderOrder (group : ModelGroup) : List ProviderModel :=
  let candidates := sortBy st.cmp (st.filtered now group.models)
  if group.versionFallbackEnabled then sortByVersionFallback candidates else candidates

theorem breakerAvailable_fst (m : ProviderModel) : (st.breakerAvailable now m).1 =
      ((Assoc.get st.circuitBreakers (m.provider ++ ":" ++ m.model)).map
        (fun cb => (cb.isAvailable now.instant).1)).getD true := by
  cases h : Assoc.get st.circuitBreakers (m.provider ++ ":" ++ m.model) <;> simp [breakerAvailable, h]

theorem isAvailable_again (cb : CircuitBreaker) (t : Nat) :
    ((cb.isAvailable t).2.isAvailable t).1 = (cb.isAvailable t).1 := by
  unfold CircuitBreaker.isAvailable
  cases h : cb.state with
  | closed | halfOpen => simp [h]
  | «open» openedAt retryAfter =>
    by_cases hd : retryAfter ≤ t - openedAt <;> simp [h, hd]

theorem breakerAvailable_frame (m m' : ProviderModel) :
    ((st.breakerAvailable now m).2.breakerAvailable now m').1 = (st.breakerAvailable now m').1 ∧
      (st.breakerAvailable now m).2.cooldownOk now m' = st.cooldownOk now m' := by
  rw [breakerAvailable_fst, breakerAvailable_fst]
  rcases h : Assoc.get st.circuitBreakers (m.provider ++ ":" ++ m.model) with _ | cb
  · simp [breakerAvailable, h]
  simp only [breakerAvailable, h]
  refine ⟨?_, rfl⟩
  by_cases hk : m'.provider ++ ":" ++ m'.model = m.provider ++ ":" ++ m.model
  · simp [hk, h, isAvailable_again]
  · simp [Assoc.get_put_of_ne hk]

/-- The breaker of `m` is available and no cooldown holds its provider back. -/
def Eligible (m : ProviderModel) : Bool := (st.breakerAvailable now m).1 && st.cooldownOk now m

theorem filtered_eq_filter (models : List ProviderModel) : st.filtered now models = models.filter (st.Eligible now) := by
  induction models generalizing st with
  | nil => rfl
  | cons m ms ih =>
    have hsame : ∀ m', (st.breakerAvailable now m).2.Eligible now m' = st.Eligible now m' := by
      intro m'
      obtain ⟨h₁, h₂⟩ := st.breakerAvailable_frame now m m'
      rw [Eligible, h₁, h₂, Eligible]
    simp only [filtered, List.filter_cons, ih, (st.breakerAvailable_frame now m m).2]
    rw [List.filter_congr fun m' _ => hsame m']
    rfl

end SelectionState

/-! ### The comparator -/

namespace SelectionState
variable (st : SelectionState) (now : SelectionTime) (group : ModelGroup)

def latency (m : ProviderModel) : ℚ := (latencySnapshot st.latencies).getLatency m.provider

def cost (m : ProviderModel) : ℚ := m.sortCost st.assumedHitRate

theorem cmp_eq_keyedBandCmp : st.cmp = keyedBandCmp ProviderModel.priority (1 / 10) st.cost st.latency := by
  funext a b
  unfold cmp providerCmp keyedBandCmp bandCmp
  cases compare a.priority b.priority <;> rfl

/-- `b` costs about what `a` and `c` cost, `c` is out of the band of `a`, and the latency does not rise from `a` to
`c`. -/
def HasReversal : Prop :=
  ∃ a ∈ st.filtered now group.models, ∃ b ∈ st.filtered now group.models, ∃ c ∈ st.filtered now group.models,
    a.priority = b.priority ∧ b.priority = c.priority ∧ Reversed (1 / 10) st.cost st.latency a b c

/-- `a` may stand before `b` in the result. -/
def Before (a b : ProviderModel) : Prop :=
  if group.versionFallbackEnabled then
    extractVersionDate b.model ≤ extractVersionDate a.model ∧
      (extractVersionDate a.model = extractVersionDate b.model → (st.cmp a b).isLE)
  else (st.cmp a b).isLE

/-- The comparator is a total preorder, the result sorted, and where candidates are told apart their order does not
matter. -/
structure OrderLaw : Prop where
  antisymm : ∀ a b, st.cmp b a = (st.cmp a b).swap
  trans : ∀ a ∈ st.filtered now group.models, ∀ b ∈ st.filtered now group.models,
    ∀ c ∈ st.filtered now group.models, (st.cmp a b).isLE → (st.cmp b c).isLE → (st.cmp a c).isLE
  equiv : ∀ a ∈ st.filtered now group.models, ∀ b ∈ st.filtered now group.models,
    ∀ c ∈ st.filtered now group.models, st.cmp a b = .eq → st.cmp b c = .eq → st.cmp a c = .eq
  sorted : (st.selectProviderOrder now group).Pairwise (st.Before group)
  perm : (st.filtered now group.models).Pairwise (fun a b => st.cmp a b ≠ .eq) →
    ∀ models, models.Perm group.models →
      st.selectProviderOrder now { group with models } = st.selectProviderOrder now group

variable {st now group}

theorem totalOn_iff (hcost : ∀ m ∈ group.models, m.NonNeg) :
    TotalOn st.cmp (st.filtered now group.models) ↔ ¬ st.HasReversal now group := by
  have hnonneg : ∀ m ∈ st.filtered now group.models, 0 ≤ st.cost m := by
    intro m hm
    rw [filtered_eq_filter, List.mem_filter] at hm
    exact (hcost m hm.1).sortCost _
  rw [cmp_eq_keyedBandCmp, keyedBandCmp_totalOn_iff (by norm_num) hnonneg]
  constructor
  · rintro h ⟨a, ha, b, hb, c, hc, hab, hbc, hrev⟩
    exact h a ha b hb c hc hab hbc hrev
  · intro h a ha b hb c hc hab hbc hrev
    exact h ⟨a, ha, b, hb, c, hc, hab, hbc, hrev⟩

theorem sorted_of_totalOn (h : TotalOn st.cmp (st.filtered now group.models)) :
    (st.selectProviderOrder now group).Pairwise (st.Before group) := by
  unfold selectProviderOrder Before
  split
  · exact sortBy_descending _ h.sortBy_pairwise
  · exact h.sortBy_pairwise

theorem perm_of_totalOn (h : TotalOn st.cmp (st.filtered now group.models))
    (hne : (st.filtered now group.models).Pairwise fun a b => st.cmp a b ≠ .eq) {models : List ProviderModel}
    (hp : models.Perm group.models) :
    st.selectProviderOrder now { group with models } = st.selectProviderOrder now group := by
  have hp' : (st.filtered now models).Perm (st.filtered now group.models) := by
    rw [filtered_eq_filter, filtered_eq_filter]
    exact hp.filter _
  unfold selectProviderOrder
  rw [h.sortBy_eq_of_perm hne hp']

/-- The order of the candidates is well defined exactly if they have no reversal. -/
theorem provider_order_law (st : SelectionState) (now : SelectionTime) (group : ModelGroup)
    (hcost : ∀ m ∈ group.models, m.NonNeg) : st.OrderLaw now group ↔ ¬ st.HasReversal now group := by
  rw [← totalOn_iff hcost]
  constructor
  · intro h
    exact ⟨fun a _ b _ => h.antisymm a b, h.trans⟩
  · intro h
    refine ⟨fun a b => ?_, h.trans, ?_, sorted_of_totalOn h, fun hne models hp => perm_of_totalOn h hne hp⟩
    · rw [cmp_eq_keyedBandCmp]
      exact keyedBandCmp_swap
    · intro a ha b hb c hc hab hbc
      exact h.eq_trans ha hb hc hab hbc

/-- Prices of 100, 108 and 117 at one priority: each is within ten percent of the next, the ends are not. -/
def driftGroup : ModelGroup where
  models := [⟨"a", "m", 100, 100, 0, none, none, none, 0⟩, ⟨"b", "m", 100, 108, 0, none, none, none, 0⟩,
    ⟨"c", "m", 100, 117, 0, none, none, none, 0⟩]
  versionFallbackEnabled := false

def driftState (a b c : ℚ) : SelectionState := ⟨[], [], [], [("a", a), ("b", b), ("c", c)], false, 0⟩

theorem provider_order_law_rising_latencies : (driftState 10 20 30).OrderLaw ⟨0, 0⟩ driftGroup := by
  refine (provider_order_law _ _ _ ?_).2 ?_
  · intro m hm
    simp only [driftGroup, List.mem_cons, List.not_mem_nil, or_false] at hm
    rcases hm with rfl | rfl | rfl <;> constructor <;> simp
  · rintro ⟨a, ha, b, hb, c, hc, -, -, hrev⟩
    have hlatency := hrev.tie_right.trans hrev.tie_left
    rw [filtered_eq_filter, List.mem_filter] at ha hc
    simp only [driftGroup, List.mem_cons, List.not_mem_nil, or_false] at ha hc
    -- the only pair out of band is the cheapest and the dearest, and the dearest is the slowest
    rcases ha.1 with rfl | rfl | rfl <;> rcases hc.1 with rfl | rfl | rfl <;>
      first
        | exact hrev.not_near (by decide +kernel)
        | exact absurd hlatency (by decide +kernel)
        | exact absurd hrev.dearer (by decide +kernel)

/-- With the latencies falling the dearest comes before the middle one and that before the cheapest, which comes
before the dearest. -/
theorem provider_order_cycle : ¬ (driftState 30 20 10).OrderLaw ⟨0, 0⟩ driftGroup := by
  intro h
  have hca := h.trans ⟨"c", "m", 100, 117, 0, none, none, none, 0⟩ (by decide) ⟨"b", "m", 100, 108, 0, none, none, none, 0⟩ (by decide)
    ⟨"a", "m", 100, 100, 0, none, none, none, 0⟩ (by decide) (by decide +kernel) (by decide +kernel)
  exact absurd hca (by decide +kernel)

end SelectionState

end ObeyGateway
