import ObeyGateway.Context.Overflow
import ObeyGateway.Context.Truncation
import ObeyGateway.SmartRouting.SemanticCache

/-!
# Reducing a request to its budget (`ContextBudgetGate::reduce`)

The budget and the verdict are in tokens of the tokenizer; the removal of the oldest messages stops by an estimate of
four bytes a token, within the budget less what the request counted beyond its estimate. Each removal may take off
more by the estimate than by the tokenizer, and the loop stops with messages left in a request that does not fit
(`reduce_law_iff`).
-/

namespace ObeyGateway.Context

open Models Compression

/-- `(len as u32 + 3) / 4` -/
def quarter (len : Nat) : UInt32 := (UInt32.ofNat len + 3) / 4

def byteLength (text : List Char) : Nat := (String.ofList text).utf8ByteSize

section
variable (numbers : Json.NumberText)

def estimateField (m : Message) (key : String) : UInt32 :=
  match Assoc.get m.extra key with
  | some value => quarter (byteLength (value.print numbers))
  | none => 0

def estimateMessage (m : Message) : UInt32 :=
  1 + quarter (byteLength (SmartRouting.contentAsText numbers m.content)) + estimateField numbers m "tool_calls" +
    estimateField numbers m "tool_call_id"

/-- `ContextManager::estimate_tokens`; the sum wraps as it does in a release build. -/
def estimateTokens (messages : List Message) : UInt32 :=
  messages.foldl (fun total m => total + estimateMessage numbers m) 0

end

inductive TruncationStrategy
  | removeOldest
  | slidingWindow (windowSize : Nat)

structure TruncationResult where
  truncated : Bool
  messagesRemoved : Nat
  originalTokens : UInt32
  finalTokens : UInt32

def applyTruncationStrategy (messages : List Message) (maxTokens : UInt32) (strategy : TruncationStrategy)
    (estimate : List Message → UInt32) : List Message × TruncationResult :=
  let originalTokens := estimate messages
  if originalTokens ≤ maxTokens then (messages, ⟨false, 0, originalTokens, originalTokens⟩)
  else
    let out := match strategy with
      | .removeOldest => truncateRemoveOldest messages maxTokens estimate
      | .slidingWindow windowSize => truncateSlidingWindow messages windowSize
    (out.1, ⟨true, out.2, originalTokens, estimate out.1⟩)

inductive ContextReductionStrategy
  | removeOldest
  | slidingWindow
  | clearToolsThenRemove
  | summarizeThenTrim
deriving DecidableEq

structure ReductionOptions where
  strategy : ContextReductionStrategy
  budget : UInt32
  slidingWindowSize : Nat
  toolResultKeepRecent : Nat
  toolResultExcludeTools : List String
  toolResultPlaceholder : String

structure ReductionOutcome where
  strategyApplied : ContextReductionStrategy
  originalTokens : Nat
  finalTokens : Nat
  budget : UInt32
  groupsRemoved : Nat
  toolResultsCleared : Nat
  summarized : Bool
  fallbackFromSummarization : Bool
  fits : Bool

namespace ContextBudgetGate

section
variable (counter : TokenCounter) (request : OpenAIRequest) (options : ReductionOptions)

/-- What the estimate may count: the budget without what the tokenizer counts beyond the estimate. -/
def messageBudget : UInt32 :=
  let nonMessageTokens := counter.countRequest request - (estimateTokens counter.numbers request.messages).toNat
  .ofNat (options.budget.toNat - nonMessageTokens)

def initialOutcome : ReductionOutcome where
  strategyApplied := options.strategy
  originalTokens := counter.countRequest request
  finalTokens := counter.countRequest request
  budget := options.budget
  groupsRemoved := 0
  toolResultsCleared := 0
  summarized := false
  fallbackFromSummarization := false
  fits := counter.countRequest request ≤ options.budget.toNat

def recount (messages : List Message) (outcome : ReductionOutcome) : OpenAIRequest × ReductionOutcome :=
  let reduced := { request with messages }
  (reduced, { outcome with
    finalTokens := counter.countRequest reduced
    fits := counter.countRequest reduced ≤ options.budget.toNat })

def truncate (maxTokens : UInt32) (strategy : TruncationStrategy) (outcome : ReductionOutcome) :
    OpenAIRequest × ReductionOutcome :=
  let out := applyTruncationStrategy request.messages maxTokens strategy (estimateTokens counter.numbers)
  recount counter request options out.1
    { outcome with groupsRemoved := outcome.groupsRemoved + out.2.messagesRemoved }

def firstStage : OpenAIRequest × ReductionOutcome :=
  let outcome := initialOutcome counter request options
  let clearTools :=
    let out := clearToolResults request.messages options.toolResultKeepRecent options.toolResultExcludeTools
      options.toolResultPlaceholder
    recount counter request options out.1 { outcome with toolResultsCleared := out.2 }
  match options.strategy with
  | .slidingWindow =>
    truncate counter request options (messageBudget counter request options)
      (.slidingWindow options.slidingWindowSize) outcome
  | .clearToolsThenRemove => clearTools
  | .summarizeThenTrim => clearTools
  | .removeOldest => (request, outcome)

def reduce : OpenAIRequest × ReductionOutcome :=
  let outcome := initialOutcome counter request options
  if outcome.fits then (request, outcome)
  else
    let stage := firstStage counter request options
    if stage.2.fits then stage
    else truncate counter stage.1 options (messageBudget counter request options) .removeOldest stage.2

structure ReduceLaw (out : OpenAIRequest × ReductionOutcome) : Prop where
  fits : out.2.fits = true → counter.countRequest out.1 ≤ options.budget.toNat
  exhausted : out.2.fits = false → ∀ m ∈ out.1.messages, isSystem m = true
  untouched : counter.countRequest request ≤ options.budget.toNat → out.1 = request
  system : out.1.messages.filter isSystem = request.messages.filter isSystem

end

section
variable {counter : TokenCounter} {request : OpenAIRequest} {messages kept : List Message}

theorem foldl_satAdd_sublist {weight : Message → Nat} (h : kept.Sublist messages) {a b : Nat} (hab : a ≤ b)
    (ha : a ≤ 2 ^ 32 - 1) :
    kept.foldl (fun total m => satAdd total (weight m)) a ≤ messages.foldl (fun total m => satAdd total (weight m)) b := by
  induction h generalizing a b with
  | slnil => exact hab
  | cons m _ ih =>
    have hle : a ≤ satAdd b (weight m) := by
      unfold satAdd
      omega
    exact ih hle ha
  | cons_cons m _ ih =>
    have hmax : satAdd a (weight m) ≤ 2 ^ 32 - 1 := by
      unfold satAdd
      omega
    exact ih (satAdd_le_satAdd hab _) hmax

theorem countRequest_sublist (h : kept.Sublist messages) :
    counter.countRequest { request with messages := kept } ≤ counter.countRequest { request with messages } := by
  have hfield : ∀ key {a b : Nat}, a ≤ b →
      (match Assoc.get request.extra key with
        | some value => satAdd a (counter.countJson request.model value)
        | none => a) ≤
      (match Assoc.get request.extra key with
        | some value => satAdd b (counter.countJson request.model value)
        | none => b) := by
    intro key a b hab
    split
    · exact satAdd_le_satAdd hab _
    · exact hab
  simp only [TokenCounter.countRequest]
  refine satAdd_le_satAdd (foldl_le_foldl ?_ _ (hfield _ (hfield _ ?_))) 2
  · intro a b f hab
    split
    · exact hab
    · exact satAdd_le_satAdd (satAdd_le_satAdd hab _) _
  · exact foldl_satAdd_sublist h (Nat.le_refl _) (Nat.min_le_right _ _)

theorem removeOldest_sublist (h : removeOldest messages = some kept) : kept.Sublist messages := by
  rcases removeOldest_cases messages with ⟨-, hnone⟩ | ⟨front, m, behind, rfl, -, -, hsome⟩
  · rw [hnone] at h
    cases h
  · obtain rfl := Option.some.inj (h.symm.trans hsome)
    refine List.Sublist.append_left ?_ front
    split
    · exact (List.dropWhile_sublist isTool).trans (List.sublist_cons_self m behind)
    · exact List.sublist_cons_self m behind

theorem reaches_sublist {s t : List Message × Nat} (h : removal.Reaches s t) : t.1.Sublist s.1 :=
  h.invariant (I := fun t => t.1.Sublist s.1) (fun hnext hs => by
    obtain ⟨rest, hround, rfl⟩ := removal_next.1 hnext
    exact (removeOldest_sublist hround).trans hs) (List.Sublist.refl _)

theorem exists_other_of_next {s t : List Message × Nat} (h : removal.next s = some t) : ∃ m ∈ s.1, isSystem m = false := by
  obtain ⟨rest, hround, -⟩ := removal_next.1 h
  rcases removeOldest_cases s.1 with ⟨-, hnone⟩ | ⟨front, m, behind, hsplit, -, hm, -⟩
  · rw [hround] at hnone
    cases hnone
  · exact ⟨m, by rw [hsplit]; simp, hm⟩

theorem next_of_exists_other {s : List Message × Nat} (h : ∃ m ∈ s.1, isSystem m = false) : removal.next s ≠ none := by
  intro hnone
  obtain ⟨m, hm, hother⟩ := h
  rcases removeOldest_cases s.1 with ⟨hall, -⟩ | ⟨front, m, behind, -, -, -, hsome⟩
  · rw [hall m hm] at hother
    cases hother
  · rw [removal_next.2 ⟨_, hsome, rfl⟩] at hnone
    cases hnone

/-! ### The stages -/

theorem applyTruncationStrategy_removeOldest (messages : List Message) (maxTokens : UInt32)
    (estimate : List Message → UInt32) :
    (applyTruncationStrategy messages maxTokens .removeOldest estimate).1 =
      (truncateRemoveOldest messages maxTokens estimate).1 := by
  simp only [applyTruncationStrategy]
  split
  · rename_i hle
    have hdone : removal.run (fun s => estimate s.1 ≤ maxTokens) (messages, 0) = (messages, 0) :=
      Shrinking.run_of_done (decide_eq_true hle)
    exact (congrArg Prod.fst hdone).symm
  · rfl

theorem mapIdx_filter_eq {p : Message → Bool} {f : Nat → Message → Message}
    (h : ∀ i m, messages[i]? = some m → f i m = m ∨ p m = false ∧ p (f i m) = false) :
    (messages.mapIdx f).filter p = messages.filter p := by
  induction messages generalizing f with
  | nil => rfl
  | cons m messages ih =>
    have ih' := ih (f := fun i => f (i + 1)) fun i m hm => h (i + 1) m (by simpa using hm)
    rw [List.mapIdx_cons]
    rcases h 0 m rfl with heq | ⟨hbefore, hafter⟩
    · rw [heq, List.filter_cons, List.filter_cons, ih']
    · rw [List.filter_cons_of_neg (by simp [hafter]), List.filter_cons_of_neg (by simp [hbefore]), ih']

theorem clearToolResults_system (messages : List Message) (keepRecent : Nat) (excludeTools : List String)
    (placeholder : String) :
    (clearToolResults messages keepRecent excludeTools placeholder).1.filter isSystem = messages.filter isSystem := by
  rw [clearToolResults_eq]
  refine mapIdx_filter_eq fun i m hm => ?_
  by_cases hclear : i ∈ clearable messages keepRecent ∧ excludedBy excludeTools messages i = false
  · obtain ⟨t, ht, hrole⟩ := mem_clearable_or.1 (.inl hclear.1)
    obtain rfl : m = t := Option.some.inj (hm.symm.trans ht)
    have hsystem : isSystem m = false := by
      simp only [isSystem, hrole]
      decide
    rw [if_pos hclear]
    exact .inr ⟨hsystem, hsystem⟩
  · rw [if_neg hclear]
    exact .inl rfl

variable (counter : TokenCounter)

theorem firstStage_fits (request : OpenAIRequest) (options : ReductionOptions) :
    (firstStage counter request options).2.fits =
      decide (counter.countRequest (firstStage counter request options).1 ≤ options.budget.toNat) := by
  unfold firstStage
  cases options.strategy <;> rfl

theorem firstStage_system (request : OpenAIRequest) (options : ReductionOptions) :
    (firstStage counter request options).1.messages.filter isSystem = request.messages.filter isSystem := by
  have hclear := clearToolResults_system request.messages options.toolResultKeepRecent options.toolResultExcludeTools
    options.toolResultPlaceholder
  unfold firstStage
  cases options.strategy with
  | removeOldest => rfl
  | slidingWindow =>
    simp only [truncate, recount, applyTruncationStrategy]
    split
    · rfl
    · exact truncateSlidingWindow_system _ _
  | clearToolsThenRemove | summarizeThenTrim => exact hclear

/-- Once the estimate is within its budget, so is the request: at every list that the removal may pass with messages
left. -/
def EstimateSuffices (counter : TokenCounter) (request : OpenAIRequest) (options : ReductionOptions) : Prop :=
  let stage := (firstStage counter request options).1
  ∀ s, removal.Reaches (stage.messages, 0) s →
    estimateTokens counter.numbers s.1 ≤ messageBudget counter request options → (∃ m ∈ s.1, isSystem m = false) →
      counter.countRequest { stage with messages := s.1 } ≤ options.budget.toNat

theorem reduce_fits (request : OpenAIRequest) (options : ReductionOptions) :
    (reduce counter request options).2.fits =
      decide (counter.countRequest (reduce counter request options).1 ≤ options.budget.toNat) := by
  by_cases h : counter.countRequest request ≤ options.budget.toNat
  · have hfits : (initialOutcome counter request options).fits = true := decide_eq_true h
    simp only [reduce, if_pos hfits]
    rfl
  · have hfits : ¬ (initialOutcome counter request options).fits = true := by simpa [initialOutcome] using h
    simp only [reduce, if_neg hfits]
    split
    · exact firstStage_fits counter request options
    · rfl

theorem reduce_request (request : OpenAIRequest) (options : ReductionOptions) :
    (reduce counter request options).1 =
      let stage := (firstStage counter request options).1
      if counter.countRequest request ≤ options.budget.toNat then request
      else if counter.countRequest stage ≤ options.budget.toNat then stage
      else { stage with
        messages := (truncateRemoveOldest stage.messages (messageBudget counter request options)
          (estimateTokens counter.numbers)).1 } := by
  simp only [reduce, firstStage_fits, decide_eq_true_eq]
  have hinitial : (initialOutcome counter request options).fits = true ↔
      counter.countRequest request ≤ options.budget.toNat := decide_eq_true_iff
  simp only [hinitial]
  split
  · rfl
  · split
    · rfl
    · simp only [truncate, recount]
      rw [applyTruncationStrategy_removeOldest]

/-- A reduced request fits or holds system messages only if and only if it fits from the start, or the removal does
not stop too early. -/
theorem reduce_law_iff (counter : TokenCounter) (request : OpenAIRequest) (options : ReductionOptions) :
    ReduceLaw counter request options (reduce counter request options) ↔
      counter.countRequest request ≤ options.budget.toNat ∨ EstimateSuffices counter request options := by
  have hrequest := reduce_request counter request options
  set out := reduce counter request options with hout
  set stage := (firstStage counter request options).1 with hstage
  set ended := removal.run (fun s => estimateTokens counter.numbers s.1 ≤ messageBudget counter request options)
    (stage.messages, 0) with hended
  have hremoved : (truncateRemoveOldest stage.messages (messageBudget counter request options)
      (estimateTokens counter.numbers)).1 = ended.1 := rfl
  simp only [hremoved] at hrequest
  constructor
  · intro law
    by_cases hfits : counter.countRequest request ≤ options.budget.toNat
    · exact .inl hfits
    refine .inr fun s hs hestimate hother => ?_
    by_cases hstageFits : counter.countRequest stage ≤ options.budget.toNat
    · exact (countRequest_sublist (reaches_sublist hs)).trans hstageFits
    rw [if_neg hfits, if_neg hstageFits] at hrequest
    -- the removal ends before `s`, in a request that fits or has nothing left to remove
    have hfirst : removal.Reaches ended s := Shrinking.run_first hs (decide_eq_true hestimate)
    cases hverdict : out.2.fits with
    | true =>
      have hcount := law.fits hverdict
      rw [hrequest] at hcount
      exact (countRequest_sublist (reaches_sublist hfirst)).trans hcount
    | false =>
      have hall := law.exhausted hverdict
      rw [hrequest] at hall
      obtain ⟨m, hm, hsystem⟩ : ∃ m ∈ ended.1, isSystem m = false := by
        rcases hfirst.eq_or_next with heq | ⟨u, hnext, -⟩
        · rwa [heq]
        · exact exists_other_of_next hnext
      rw [hall m hm] at hsystem
      cases hsystem
  · intro hcondition
    refine ⟨fun hfits => ?_, fun hfits m hm => ?_, fun hfits => ?_, ?_⟩
    · rw [hout, reduce_fits] at hfits
      exact of_decide_eq_true hfits
    · rw [hout, reduce_fits, ← hout] at hfits
      have hcount := of_decide_eq_false hfits
      by_contra hother
      have hsystem : isSystem m = false := by simpa using hother
      by_cases hrequestFits : counter.countRequest request ≤ options.budget.toNat
      · rw [hrequest, if_pos hrequestFits] at hcount
        exact hcount hrequestFits
      by_cases hstageFits : counter.countRequest stage ≤ options.budget.toNat
      · rw [hrequest, if_neg hrequestFits, if_pos hstageFits] at hcount
        exact hcount hstageFits
      rw [if_neg hrequestFits, if_neg hstageFits] at hrequest
      rw [hrequest] at hcount hm
      have hsuffices := hcondition.resolve_left hrequestFits
      rcases Shrinking.run_ends (m := removal)
        (fun s => estimateTokens counter.numbers s.1 ≤ messageBudget counter request options)
        (stage.messages, 0) with hdone | hnone
      · exact hcount (hsuffices ended (Shrinking.reaches_run _ _) (of_decide_eq_true hdone) ⟨m, hm, hsystem⟩)
      · exact next_of_exists_other ⟨m, hm, hsystem⟩ hnone
    · rw [hrequest, if_pos hfits]
    · rw [hrequest]
      split
      · rfl
      · split
        · exact firstStage_system counter request options
        · have hkept := truncateRemoveOldest_system stage.messages (messageBudget counter request options)
            (estimateTokens counter.numbers)
          exact hkept.trans (firstStage_system counter request options)

end

def repeatedText : OpenAIRequest where
  model := "x"
  messages := [textMessage "user" "aaaaaaaaaaaaaaaaaaaaaaaaaaaaaaaaaaaaaaaa", textMessage "user" "a"]
  stream := false
  temperature := none
  maxTokens := none
  extra := []
  extra_nodup := Json.nodupKeys_object_nil

def removeToEight : ReductionOptions where
  strategy := .removeOldest
  budget := 8
  slidingWindowSize := 20
  toolResultKeepRecent := 3
  toolResultExcludeTools := []
  toolResultPlaceholder := "[cleared]"

theorem removed_repeatedText :
    truncateRemoveOldest repeatedText.messages 6 (estimateTokens oneToken.numbers) = ([textMessage "user" "a"], 1) := by
  have hnext : removal.next (repeatedText.messages, 0) = some ([textMessage "user" "a"], 1) := by rfl
  rw [truncateRemoveOldest, Shrinking.run_of_some (by decide +kernel) hnext]
  exact Shrinking.run_of_done (by decide +kernel)

/-- The estimate takes eleven tokens off for the removed message and the tokenizer six: nine are left. -/
theorem reduce_stops_early : (reduce oneToken repeatedText removeToEight).2.fits = false ∧
      ¬ ReduceLaw oneToken repeatedText removeToEight (reduce oneToken repeatedText removeToEight) := by
  have hbudget : messageBudget oneToken repeatedText removeToEight = 6 := by decide +kernel
  have hrequest : ¬ oneToken.countRequest repeatedText ≤ removeToEight.budget.toNat := by decide +kernel
  have hreduced : (reduce oneToken repeatedText removeToEight).1 =
      { repeatedText with messages := [textMessage "user" "a"] } := by
    have h := reduce_request oneToken repeatedText removeToEight
    have hstage : (firstStage oneToken repeatedText removeToEight).1 = repeatedText := rfl
    simp only [hstage, hbudget, if_neg hrequest, removed_repeatedText] at h
    exact h
  have hfits : (reduce oneToken repeatedText removeToEight).2.fits = false := by
    rw [reduce_fits, hreduced]
    decide +kernel
  refine ⟨hfits, fun law => ?_⟩
  have hall := law.exhausted hfits
  rw [hreduced] at hall
  exact absurd (hall _ List.mem_cons_self) (by decide)

end ContextBudgetGate

end ObeyGateway.Context
