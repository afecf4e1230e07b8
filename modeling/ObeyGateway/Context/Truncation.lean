import ObeyGateway.Context.ClearToolResults
import ObeyGateway.Lib.Descent

/-!
# Truncating a conversation (`context/strategies.rs`)

The oldest message that is not a system message goes first, an assistant message with calls together with the
tool results directly behind it; or all but the newest messages go at once. Both keep the system messages. But a
removal stops at a system message between a call and its result, and the result may be left alone
(`truncation_law_iff`).
-/

namespace ObeyGateway.Context

open Models
open Xml (toolCallId)

def isSystem (m : Message) : Bool := m.role = "system"

def isTool (m : Message) : Bool := m.role = "tool"

/-- One round of `truncate_remove_oldest`: a message with calls goes with its results, any other one alone. -/
def removeOldest : List Message → Option (List Message)
  | [] => none
  | m :: rest =>
    if isSystem m then (removeOldest rest).map (m :: ·)
    else some (if hasToolCalls m then rest.dropWhile isTool else rest)

theorem removeOldest_length {messages rest : List Message} (h : removeOldest messages = some rest) :
    rest.length < messages.length := by
  induction messages generalizing rest with
  | nil => cases h
  | cons m messages ih =>
    rw [removeOldest] at h
    split at h
    · obtain ⟨rest, hrest, rfl⟩ := Option.map_eq_some_iff.1 h
      exact Nat.succ_lt_succ (ih hrest)
    · obtain rfl := Option.some.inj h
      have hdrop := (List.dropWhile_sublist (l := messages) isTool).length_le
      split <;> simp only [List.length_cons] <;> omega

def removal : Shrinking (List Message × Nat) where
  next s := (removeOldest s.1).map fun rest => (rest, s.2 + (s.1.length - rest.length))
  size s := s.1.length
  size_lt h := by
    obtain ⟨rest, hrest, rfl⟩ := Option.map_eq_some_iff.1 h
    exact removeOldest_length hrest

def truncateRemoveOldest (messages : List Message) (maxTokens : UInt32) (estimate : List Message → UInt32) :
    List Message × Nat :=
  removal.run (fun s => estimate s.1 ≤ maxTokens) (messages, 0)

/-- The way back from a tool result to the message with the calls, over tool results. -/
def groupHead (nonSystem : List Message) : Nat → Option Nat
  | 0 => none
  | p + 1 =>
    match nonSystem[p]? with
    | none => none
    | some m => if hasToolCalls m then some p else if isTool m then groupHead nonSystem p else none

def recentMessages (nonSystem : List Message) (windowSize : Nat) : List Message :=
  let start := nonSystem.length - windowSize
  let recent := nonSystem.drop start
  if recent.head?.any isTool then
    match groupHead nonSystem start with
    | some head => nonSystem.drop head
    | none => recent
  else recent

def truncateSlidingWindow (messages : List Message) (windowSize : Nat) : List Message × Nat :=
  let system := messages.filter isSystem
  let nonSystem := messages.filter (!isSystem ·)
  if messages.length ≤ windowSize ∨ nonSystem.length ≤ windowSize then (messages, 0)
  else
    let kept := system ++ recentMessages nonSystem windowSize
    (kept, messages.length - kept.length)

/-! ### Paired conversations -/

/-- The turn's message is an assistant message with the call that the result names. -/
def answers (turn : Option Message) (m : Message) : Bool :=
  turn.any fun a => a.role = "assistant" && (toolCallId m).any (calls a ·)

/-- Each result answers its turn, the last message before it that is neither a result nor, with `through`, a system
message. -/
def paired (through : Bool) : Option Message → List Message → Bool
  | _, [] => true
  | turn, m :: rest =>
    if isTool m then answers turn m && paired through turn rest
    else if isSystem m then paired through (if through then turn else none) rest
    else paired through (some m) rest

/-- Only results of the turn and system messages stand between a message with calls and its results. -/
def WellPaired (messages : List Message) : Prop := paired true none messages = true

instance : DecidablePred WellPaired := fun _ => inferInstanceAs (Decidable (_ = true))

def DirectlyPaired (messages : List Message) : Prop := paired false none messages = true

structure TruncationLaw (messages out : List Message) : Prop where
  paired : WellPaired out
  system : out.filter isSystem = messages.filter isSystem

section
variable {through : Bool} {turn : Option Message} {m a : Message} {messages front behind rest : List Message}

theorem not_isTool_of_isSystem (h : isSystem m = true) : isTool m = false := by
  simp only [isSystem, isTool, decide_eq_true_eq, decide_eq_false_iff_not] at h ⊢
  rw [h]
  decide

theorem not_isTool_of_hasToolCalls (h : hasToolCalls m = true) : isTool m = false := by
  simp only [hasToolCalls, isTool, Bool.and_eq_true, decide_eq_true_eq, decide_eq_false_iff_not] at h ⊢
  rw [h.1]
  decide

theorem hasToolCalls_of_answers (h : answers (some a) m = true) : hasToolCalls a = true := by
  simp only [answers, Option.any_some, Bool.and_eq_true, decide_eq_true_eq] at h
  obtain ⟨hrole, hcalls⟩ := h
  simp only [hasToolCalls, hrole, decide_true, Bool.true_and]
  cases hfield : Assoc.get a.extra "tool_calls" with
  | some v => rfl
  | none => simp [calls, Xml.toolCalls, hfield] at hcalls

theorem paired_tool (h : isTool m = true) :
    paired through turn (m :: rest) = (answers turn m && paired through turn rest) := by
  rw [paired, if_pos h]

theorem paired_system (h : isSystem m = true) :
    paired through turn (m :: rest) = paired through (if through then turn else none) rest := by
  rw [paired, if_neg (by simp [not_isTool_of_isSystem h]), if_pos h]

theorem paired_other (htool : isTool m = false) (hsystem : isSystem m = false) :
    paired through turn (m :: rest) = paired through (some m) rest := by
  rw [paired, if_neg (by simp [htool]), if_neg (by simp [hsystem])]

theorem paired_front (h : ∀ m ∈ front, isSystem m = true) :
    paired through none (front ++ rest) = paired through none rest := by
  induction front with
  | nil => rfl
  | cons m front ih =>
    rw [List.cons_append, paired_system (h m List.mem_cons_self), ite_self]
    exact ih fun m hm => h m (List.mem_cons_of_mem _ hm)

theorem paired_turn (h : rest.head?.any isTool = false) : paired false turn rest = paired false none rest := by
  rcases rest with _ | ⟨m, rest⟩
  · rfl
  have htool : isTool m = false := by simpa using h
  cases hsystem : isSystem m with
  | true => rw [paired_system hsystem, paired_system hsystem]; rfl
  | false => rw [paired_other htool hsystem, paired_other htool hsystem]

theorem head_not_isTool (h : paired through none rest = true) : rest.head?.any isTool = false := by
  rcases rest with _ | ⟨m, rest⟩
  · rfl
  rcases htool : isTool m with _ | _
  · simpa using htool
  rw [paired_tool htool] at h
  cases h

theorem head_dropWhile (l : List Message) : (l.dropWhile isTool).head?.any isTool = false := by
  rcases h : l.dropWhile isTool with _ | ⟨m, rest⟩
  · rfl
  have hhead := List.head?_dropWhile_not isTool l
  rw [h] at hhead
  simpa using hhead

theorem paired_dropWhile (h : paired through turn behind = true) :
    paired through turn (behind.dropWhile isTool) = true := by
  induction behind with
  | nil => exact h
  | cons m behind ih =>
    cases htool : isTool m with
    | true =>
      rw [paired_tool htool, Bool.and_eq_true] at h
      rw [List.dropWhile_cons_of_pos htool]
      exact ih h.2
    | false => rwa [List.dropWhile_cons_of_neg (by simp [htool])]

theorem paired_of_dropWhile (h : paired true turn behind = true)
    (hrest : paired false turn (behind.dropWhile isTool) = true) : paired false turn behind = true := by
  induction behind with
  | nil => rfl
  | cons m behind ih =>
    cases htool : isTool m with
    | true =>
      rw [paired_tool htool, Bool.and_eq_true] at h ⊢
      rw [List.dropWhile_cons_of_pos htool] at hrest
      exact ⟨h.1, ih h.2 hrest⟩
    | false => rwa [List.dropWhile_cons_of_neg (by simp [htool])] at hrest

theorem head_of_no_calls (hcalls : hasToolCalls a = false) (h : paired through (some a) rest = true) :
    rest.head?.any isTool = false := by
  rcases rest with _ | ⟨m, rest⟩
  · rfl
  rcases htool : isTool m with _ | _
  · simpa using htool
  rw [paired_tool htool, Bool.and_eq_true] at h
  rw [hasToolCalls_of_answers h.1] at hcalls
  cases hcalls

theorem WellPaired.of_directly (h : DirectlyPaired messages) : WellPaired messages := by
  have hgen : ∀ {messages : List Message} {turn turn' : Option Message}, turn = none ∨ turn = turn' →
      paired false turn messages = true → paired true turn' messages = true := by
    intro messages
    induction messages with
    | nil => intros; rfl
    | cons m rest ih =>
      intro turn turn' hturn h
      cases htool : isTool m with
      | true =>
        rw [paired_tool htool, Bool.and_eq_true] at h
        rcases hturn with rfl | rfl
        · cases h.1
        · rw [paired_tool htool, Bool.and_eq_true]
          exact ⟨h.1, ih (.inr rfl) h.2⟩
      | false =>
        cases hsystem : isSystem m with
        | true =>
          rw [paired_system hsystem] at h ⊢
          exact ih (.inl rfl) h
        | false =>
          rw [paired_other htool hsystem] at h ⊢
          exact ih (.inr rfl) h
  exact hgen (.inl rfl) h

/-! ### The rounds -/

theorem removeOldest_append (hfront : ∀ m ∈ front, isSystem m = true) (hm : isSystem m = false) :
    removeOldest (front ++ m :: behind) =
      some (front ++ if hasToolCalls m then behind.dropWhile isTool else behind) := by
  induction front with
  | nil =>
    rw [List.nil_append, removeOldest, if_neg (by simp [hm])]
    rfl
  | cons f front ih =>
    rw [List.cons_append, removeOldest, if_pos (hfront f List.mem_cons_self),
      ih fun m hm => hfront m (List.mem_cons_of_mem _ hm)]
    rfl

theorem removeOldest_cases (messages : List Message) :
    ((∀ m ∈ messages, isSystem m = true) ∧ removeOldest messages = none) ∨
      ∃ front m behind, messages = front ++ m :: behind ∧ (∀ m ∈ front, isSystem m = true) ∧ isSystem m = false ∧
        removeOldest messages = some (front ++ if hasToolCalls m then behind.dropWhile isTool else behind) := by
  induction messages with
  | nil => exact .inl ⟨by simp, rfl⟩
  | cons f messages ih =>
    rcases hf : isSystem f with _ | _
    · have hnil : ∀ m ∈ ([] : List Message), isSystem m = true := List.forall_mem_nil _
      exact .inr ⟨[], f, messages, rfl, hnil, hf, removeOldest_append hnil hf⟩
    rcases ih with ⟨hall, hnone⟩ | ⟨front, m, behind, rfl, hfront, hm, hsome⟩
    · refine .inl ⟨List.forall_mem_cons.2 ⟨hf, hall⟩, ?_⟩
      rw [removeOldest, if_pos hf, hnone]
      rfl
    · have hfront' : ∀ m ∈ f :: front, isSystem m = true := List.forall_mem_cons.2 ⟨hf, hfront⟩
      exact .inr ⟨f :: front, m, behind, rfl, hfront', hm, removeOldest_append hfront' hm⟩

theorem removeOldest_system (h : removeOldest messages = some rest) : rest.filter isSystem = messages.filter isSystem := by
  have hdrop : ∀ l : List Message, (l.dropWhile isTool).filter isSystem = l.filter isSystem := by
    intro l
    induction l with
    | nil => rfl
    | cons m l ih =>
      rcases htool : isTool m with _ | _
      · rw [List.dropWhile_cons_of_neg (by simp [htool])]
      have hsystem : ¬ isSystem m = true := fun hs => by simp [not_isTool_of_isSystem hs] at htool
      rw [List.dropWhile_cons_of_pos htool, ih, List.filter_cons_of_neg hsystem]
  rcases removeOldest_cases messages with ⟨-, hnone⟩ | ⟨front, m, behind, rfl, -, hm, hsome⟩
  · rw [hnone] at h
    cases h
  · obtain rfl := Option.some.inj (h.symm.trans hsome)
    rw [List.filter_append, List.filter_append, List.filter_cons_of_neg (by simp [hm])]
    split
    · rw [hdrop]
    · rfl

theorem removeOldest_directly (hpaired : DirectlyPaired messages) (h : removeOldest messages = some rest) :
    DirectlyPaired rest := by
  rcases removeOldest_cases messages with ⟨-, hnone⟩ | ⟨front, m, behind, rfl, hfront, hm, hsome⟩
  · rw [hnone] at h
    cases h
  · obtain rfl := Option.some.inj (h.symm.trans hsome)
    unfold DirectlyPaired at hpaired ⊢
    rw [paired_front hfront] at hpaired ⊢
    have htool : isTool m = false := by simpa using head_not_isTool hpaired
    rw [paired_other htool hm] at hpaired
    cases hcalls : hasToolCalls m with
    | true =>
      have hdrop := paired_dropWhile hpaired
      rwa [paired_turn (head_dropWhile behind)] at hdrop
    | false =>
      rwa [paired_turn (head_of_no_calls hcalls hpaired)] at hpaired

theorem removal_next {s t : List Message × Nat} : removal.next s = some t ↔
      ∃ rest, removeOldest s.1 = some rest ∧ t = (rest, s.2 + (s.1.length - rest.length)) :=
  Option.map_eq_some_iff.trans (exists_congr fun _ => and_congr_right fun _ => eq_comm)

/-- The conversations that the rounds pass are all well paired if and only if the results stand directly behind
their calls. -/
theorem directlyPaired_iff_reaches (removed : Nat) (h : WellPaired messages) :
    DirectlyPaired messages ↔ ∀ s, removal.Reaches (messages, removed) s → WellPaired s.1 := by
  constructor
  · intro hdirect s hreach
    refine WellPaired.of_directly (hreach.invariant (I := fun s => DirectlyPaired s.1) ?_ hdirect)
    intro s t hnext hs
    obtain ⟨rest, hround, rfl⟩ := removal_next.1 hnext
    exact removeOldest_directly hs hround
  · intro hall
    induction hlen : messages.length using Nat.strong_induction_on generalizing messages removed with
    | _ n ih =>
      rcases removeOldest_cases messages with ⟨hsystem, -⟩ | ⟨front, m, behind, hsplit, hfront, hm, hsome⟩
      · have hfront : paired false none (messages ++ []) = paired false none [] := paired_front hsystem
        rwa [List.append_nil] at hfront
      · have hnext : removal.next (messages, removed) = some _ := removal_next.2 ⟨_, hsome, rfl⟩
        have hrest := hall _ (.single hnext)
        have hdirect := ih _ (hlen ▸ removeOldest_length hsome) _ hrest
          (fun s hs => hall s (.head hnext hs)) rfl
        subst hsplit
        unfold DirectlyPaired WellPaired at *
        rw [paired_front hfront] at h hdirect ⊢
        have htool : isTool m = false := by simpa using head_not_isTool h
        rw [paired_other htool hm] at h ⊢
        cases hcalls : hasToolCalls m with
        | true =>
          rw [hcalls, if_pos rfl] at hdirect
          refine paired_of_dropWhile h ?_
          rwa [paired_turn (head_dropWhile behind)]
        | false =>
          rw [hcalls, if_neg (by decide)] at hdirect
          rwa [paired_turn (head_of_no_calls hcalls h)]

theorem truncateRemoveOldest_ends {s : List Message × Nat} (h : removal.Reaches (messages, 0) s) :
    truncateRemoveOldest messages 0 (fun l => if l.length ≤ s.1.length then 0 else 1) = s := by
  refine Shrinking.run_eq h ?_ fun u hu => ?_
  · simp
  · by_contra hlt
    have hlong : ¬ u.1.length ≤ s.1.length := hlt
    simp [hlong] at hu

theorem truncateRemoveOldest_system (messages : List Message) (maxTokens : UInt32) (estimate : List Message → UInt32) :
    (truncateRemoveOldest messages maxTokens estimate).1.filter isSystem = messages.filter isSystem := by
  refine (Shrinking.reaches_run (m := removal) _ (messages, 0)).invariant
    (I := fun s => s.1.filter isSystem = messages.filter isSystem) ?_ rfl
  intro s t hnext hs
  obtain ⟨rest, hround, rfl⟩ := removal_next.1 hnext
  exact (removeOldest_system hround).trans hs

/-! ### The window -/

def turnBehind : Option Message → List Message → Option Message
  | turn, [] => turn
  | turn, m :: rest => turnBehind (if isTool m then turn else some m) rest

theorem turnBehind_concat (l : List Message) (m : Message) :
    turnBehind turn (l ++ [m]) = if isTool m then turnBehind turn l else some m := by
  induction l generalizing turn with
  | nil => rfl
  | cons a l ih => exact ih

theorem paired_filter (turn : Option Message) (messages : List Message) :
    paired true turn (messages.filter (!isSystem ·)) = paired true turn messages := by
  induction messages generalizing turn with
  | nil => rfl
  | cons m messages ih =>
    cases hsystem : isSystem m with
    | true =>
      rw [List.filter_cons_of_neg (by simp [hsystem]), paired_system hsystem]
      exact ih turn
    | false =>
      rw [List.filter_cons_of_pos (by simp [hsystem])]
      cases htool : isTool m with
      | true => rw [paired_tool htool, paired_tool htool, ih]
      | false => rw [paired_other htool hsystem, paired_other htool hsystem, ih]

theorem paired_append (hfront : ∀ m ∈ front, isSystem m = false) :
    paired true turn (front ++ rest) = (paired true turn front && paired true (turnBehind turn front) rest) := by
  induction front generalizing turn with
  | nil => rfl
  | cons m front ih =>
    obtain ⟨hm, hfront⟩ := List.forall_mem_cons.1 hfront
    rw [List.cons_append, turnBehind]
    cases htool : isTool m with
    | true => rw [paired_tool htool, paired_tool htool, ih hfront, Bool.and_assoc, if_pos rfl]
    | false => rw [paired_other htool hm, paired_other htool hm, ih hfront, if_neg (by decide)]

variable {nonSystem : List Message}

theorem groupHead_of_turn {p : Nat} (hp : p ≤ nonSystem.length)
    (hturn : turnBehind none (nonSystem.take p) = some a) (ha : hasToolCalls a = true) :
    ∃ head ≤ p, groupHead nonSystem p = some head ∧ nonSystem[head]? = some a := by
  induction p with
  | zero =>
    rw [List.take_zero] at hturn
    cases hturn
  | succ p ih =>
    have hlt : p < nonSystem.length := hp
    rw [List.take_succ_eq_append_getElem hlt, turnBehind_concat] at hturn
    rw [groupHead, List.getElem?_eq_getElem hlt]
    cases hcalls : hasToolCalls nonSystem[p] with
    | true =>
      rw [if_neg (by simp [not_isTool_of_hasToolCalls hcalls])] at hturn
      exact ⟨p, Nat.le_succ p, by simp [hcalls], by rw [List.getElem?_eq_getElem hlt, hturn]⟩
    | false =>
      cases htool : isTool nonSystem[p] with
      | true =>
        rw [htool, if_pos rfl] at hturn
        obtain ⟨head, hle, hfind, hget⟩ := ih hlt.le hturn
        exact ⟨head, hle.trans (Nat.le_succ p), by simpa [hcalls, htool] using hfind, hget⟩
      | false =>
        rw [htool, if_neg (by decide)] at hturn
        obtain rfl := Option.some.inj hturn
        rw [ha] at hcalls
        cases hcalls

theorem recentMessages_cut (hsystem : ∀ m ∈ nonSystem, isSystem m = false) (h : WellPaired nonSystem) (windowSize : Nat) :
    ∃ cut, recentMessages nonSystem windowSize = nonSystem.drop cut ∧ (nonSystem.drop cut).head?.any isTool = false := by
  simp only [recentMessages]
  set start := nonSystem.length - windowSize with hstart
  have hle : start ≤ nonSystem.length := Nat.sub_le _ _
  rcases hhead : (nonSystem.drop start).head?.any isTool with _ | _
  · exact ⟨start, by rw [if_neg (by decide)], hhead⟩
  obtain ⟨t, htail, htool⟩ := (Option.any_eq_true _ _).1 hhead
  obtain ⟨rest, hrest⟩ := List.head?_eq_some_iff.1 htail
  have hpaired := h
  unfold WellPaired at hpaired
  rw [← List.take_append_drop start nonSystem, paired_append fun m hm => hsystem m (List.mem_of_mem_take hm),
    hrest, paired_tool htool] at hpaired
  simp only [Bool.and_eq_true] at hpaired
  obtain ⟨-, hanswers, -⟩ := hpaired
  rcases hturn : turnBehind none (nonSystem.take start) with _ | a
  · rw [hturn] at hanswers
    cases hanswers
  rw [hturn] at hanswers
  have ha := hasToolCalls_of_answers hanswers
  obtain ⟨head, -, hfind, hget⟩ := groupHead_of_turn hle hturn ha
  refine ⟨head, by rw [if_pos rfl, hfind], ?_⟩
  rw [List.head?_drop, hget]
  simpa using not_isTool_of_hasToolCalls ha

theorem mem_recentMessages {windowSize : Nat} (h : m ∈ recentMessages nonSystem windowSize) : m ∈ nonSystem := by
  simp only [recentMessages] at h
  split at h
  · split at h <;> exact List.mem_of_mem_drop h
  · exact List.mem_of_mem_drop h

theorem truncateSlidingWindow_system (messages : List Message) (windowSize : Nat) :
    (truncateSlidingWindow messages windowSize).1.filter isSystem = messages.filter isSystem := by
  simp only [truncateSlidingWindow]
  split
  · rfl
  · have hnone : (recentMessages (messages.filter (!isSystem ·)) windowSize).filter isSystem = [] := by
      refine List.filter_eq_nil_iff.2 fun m hm => ?_
      simpa using (List.mem_filter.1 (mem_recentMessages hm)).2
    rw [List.filter_append, hnone, List.append_nil]
    exact List.filter_eq_self.2 fun m hm => (List.mem_filter.1 hm).2

theorem truncateSlidingWindow_law (h : WellPaired messages) (windowSize : Nat) :
    TruncationLaw messages (truncateSlidingWindow messages windowSize).1 := by
  refine ⟨?_, truncateSlidingWindow_system messages windowSize⟩
  simp only [truncateSlidingWindow]
  split
  · exact h
  · have hnon : ∀ m ∈ messages.filter (!isSystem ·), isSystem m = false := by simp
    have hpaired : WellPaired (messages.filter (!isSystem ·)) := (paired_filter none messages).trans h
    obtain ⟨cut, hcut, hhead⟩ := recentMessages_cut hnon hpaired windowSize
    set nonSystem := messages.filter (!isSystem ·)
    show paired true none (messages.filter isSystem ++ recentMessages nonSystem windowSize) = true
    rw [paired_front (by simp), hcut]
    unfold WellPaired at hpaired
    rw [← List.take_append_drop cut nonSystem, paired_append fun m hm => hnon m (List.mem_of_mem_take hm),
      Bool.and_eq_true] at hpaired
    rcases hdrop : nonSystem.drop cut with _ | ⟨m, rest⟩
    · rfl
    rw [hdrop] at hhead hpaired
    have htool : isTool m = false := by simpa using hhead
    have hm := hnon m (List.mem_of_mem_drop (hdrop ▸ List.mem_cons_self))
    rw [paired_other htool hm] at hpaired ⊢
    exact hpaired.2

/-- The window always keeps the pairs; the removal keeps them for every limit and estimator if and only if no
system message stands between a message with calls and one of its results. -/
theorem truncation_law_iff (messages : List Message) (h : WellPaired messages) :
    (∀ windowSize, TruncationLaw messages (truncateSlidingWindow messages windowSize).1) ∧
      ((∀ maxTokens estimate, TruncationLaw messages (truncateRemoveOldest messages maxTokens estimate).1) ↔
        DirectlyPaired messages) := by
  refine ⟨truncateSlidingWindow_law h, fun law => ?_, fun hdirect maxTokens estimate => ?_⟩
  · refine (directlyPaired_iff_reaches 0 h).2 fun s hs => ?_
    have hs' := (law 0 fun l => if l.length ≤ s.1.length then 0 else 1).paired
    rwa [truncateRemoveOldest_ends hs] at hs'
  · refine ⟨?_, truncateRemoveOldest_system messages maxTokens estimate⟩
    exact (directlyPaired_iff_reaches 0 h).1 hdirect _ (Shrinking.reaches_run _ _)

end

def answered : List Message := [callMessage "a", resultMessage "a" "x"]

theorem truncation_law_iff_answered : (∀ windowSize, TruncationLaw answered (truncateSlidingWindow answered windowSize).1) ∧
      ((∀ maxTokens estimate, TruncationLaw answered (truncateRemoveOldest answered maxTokens estimate).1) ↔
        DirectlyPaired answered) :=
  truncation_law_iff answered (by decide +kernel)

theorem nodupKeys_noFields : (Json.object []).nodupKeys = true := rfl

theorem notMem_noFields (k : String) : k ∉ Assoc.keys ([] : Json.Map) := List.not_mem_nil

def textMessage (role text : String) : Message where
  role := role
  content := .string text
  extra := []
  content_nodup := nodupKeys_text text
  extra_nodup := nodupKeys_noFields
  extra_role := notMem_noFields "role"
  extra_content := notMem_noFields "content"

def interrupted : List Message := [callMessage "a", textMessage "system" "s", resultMessage "a" "x"]

/-- The call goes and its result stays. -/
theorem interrupted_orphan : WellPaired interrupted ∧
      ¬ TruncationLaw interrupted
        (truncateRemoveOldest interrupted 0 fun l => if l.length ≤ 2 then 0 else 1).1 := by
  refine ⟨by decide +kernel, fun law => ?_⟩
  have hround : removal.Reaches (interrupted, 0) ([textMessage "system" "s", resultMessage "a" "x"], 1) := .single rfl
  have hends : truncateRemoveOldest interrupted 0 (fun l => if l.length ≤ 2 then 0 else 1) = _ :=
    truncateRemoveOldest_ends hround
  have hpaired := law.paired
  rw [hends] at hpaired
  revert hpaired
  decide +kernel

end ObeyGateway.Context
