import ObeyGateway.Compression.Critical
import ObeyGateway.Lib.Bisect

/-!
# The oldest cut (`binary_search_oldest_cut`)

A group of linked messages stays when one of them has to, or when its newest message is not before the cut. So a
later cut keeps fewer messages, a count that adds up weights of messages becomes no larger, and the binary search
finds the first cut that fits (`oldest_cut_law`).
-/

namespace ObeyGateway.Compression

/-- A count of tokens: a sum of weights of the messages, and what the other fields make of it. -/
structure AdditiveCount where
  count : CompressiblePayload → Nat
  messageCount : CompressiblePayload → CompressibleMessage → Nat
  additive : ∀ payload : CompressiblePayload, ∃ (weight : String × Json × Json.Map × Nat → Nat) (total : Nat → Nat),
    Monotone total ∧
      ∀ messages, count { payload with messages } = total ((messages.map wire).map weight).sum

namespace AdditiveCount
variable (tokens : AdditiveCount)

/-- `refresh_message_token_counts` -/
def recountMessages (payload : CompressiblePayload) : CompressiblePayload :=
  { payload with messages := payload.messages.map (recount (tokens.messageCount payload)) }

/-- `binary_search_oldest_cut` with any count -/
def binarySearchOldestCut (payload : CompressiblePayload) (target : Nat) : CompressiblePayload :=
  if payload.messages.isEmpty || tokens.count payload ≤ target then payload
  else
    let maximumCut := payload.messages.length
    let cut := if tokens.count (payloadForCut payload maximumCut) > target then maximumCut
      else Bisect.bisect (fun c => tokens.count (payloadForCut payload c) ≤ target) maximumCut 1 maximumCut
    tokens.recountMessages (payloadForCut payload cut).refreshMetadata

end AdditiveCount

section
variable (tokens : AdditiveCount) (payload : CompressiblePayload) (target : Nat)

def LeastCut (cut : Nat) : Prop :=
  1 ≤ cut ∧ cut ≤ payload.messages.length ∧
    (∀ c, 1 ≤ c → c < cut → target < tokens.count (payloadForCut payload c)) ∧
    (tokens.count (payloadForCut payload cut) ≤ target ∨ cut = payload.messages.length)

def SharesCall (msgs : List CompressibleMessage) (i j : Nat) : Prop := ∃ id, Link msgs i j id ∨ Link msgs j i id

/-- The messages of the positions are left, with the messages they are related to. -/
structure KeptAt (msgs msgs' : List CompressibleMessage) (positions : List Nat) : Prop where
  sorted : positions.Pairwise (· < ·)
  bound : ∀ i ∈ positions, i < msgs.length
  messages : msgs'.map wire = positions.filterMap fun i => (msgs[i]?).map wire
  related : ∀ i ∈ positions, ∀ j, Relation.ReflTransGen (fun i j => j ∈ (adjacency msgs).getD i []) i j → j ∈ positions
  linked : Refreshed msgs → Distinct msgs →
    ∀ i ∈ positions, ∀ j, Relation.ReflTransGen (SharesCall msgs) i j → j ∈ positions

structure OldestCutLaw (out : CompressiblePayload) : Prop where
  fitting : payload.messages = [] ∨ tokens.count payload ≤ target → out = payload
  least : payload.messages ≠ [] → target < tokens.count payload →
    ∃ cut, LeastCut tokens payload target cut ∧
      out = tokens.recountMessages (payloadForCut payload cut).refreshMetadata
  kept : ∃ positions, KeptAt payload.messages out.messages positions

end

section
variable {msgs : List CompressibleMessage} {tokens : AdditiveCount} {payload : CompressiblePayload} {c d : Nat}

theorem keepNewest_of_le (h : c ≤ d) {group : List Nat} (hkeep : keepNewest msgs d group = true) :
    keepNewest msgs c group = true := by
  simp only [keepNewest, Bool.or_eq_true, decide_eq_true_eq] at hkeep ⊢
  exact hkeep.imp_right h.trans

theorem retainGroups_sublist (h : c ≤ d) :
    (retainGroups msgs (keepNewest msgs d)).Sublist (retainGroups msgs (keepNewest msgs c)) := by
  rw [retainGroups_eq, retainGroups_eq]
  refine (List.monotone_filter_right _ fun e hkept => ?_).map _
  obtain ⟨group, hgroup, hmem⟩ := List.any_eq_true.1 hkept
  rw [Bool.and_eq_true] at hmem
  exact List.any_eq_true.2 ⟨group, hgroup, Bool.and_eq_true_iff.2 ⟨keepNewest_of_le h hmem.1, hmem.2⟩⟩

theorem map_wire_payloadForCut :
    (payloadForCut payload c).messages.map wire = (retainGroups payload.messages (keepNewest payload.messages c)).map wire :=
  map_wire_refreshMessages

theorem map_wire_cut (cut : Nat) : (tokens.recountMessages (payloadForCut payload cut).refreshMetadata).messages.map wire =
    (retainGroups payload.messages (keepNewest payload.messages cut)).map wire := by
  rw [← map_wire_payloadForCut, AdditiveCount.recountMessages, map_wire_recount]
  exact map_wire_refreshMessages

theorem AdditiveCount.count_le (payload : CompressiblePayload) {messages messages' : List CompressibleMessage}
    (h : (messages'.map wire).Sublist (messages.map wire)) :
    tokens.count { payload with messages := messages' } ≤ tokens.count { payload with messages } := by
  obtain ⟨weight, total, hmono, hcount⟩ := tokens.additive payload
  rw [hcount, hcount]
  exact hmono ((h.map weight).sum_le_sum fun _ _ => Nat.zero_le _)

theorem count_payloadForCut_le (h : c ≤ d) :
    tokens.count (payloadForCut payload d) ≤ tokens.count (payloadForCut payload c) := by
  refine tokens.count_le payload ?_
  show ((payloadForCut payload d).messages.map wire).Sublist ((payloadForCut payload c).messages.map wire)
  rw [map_wire_payloadForCut, map_wire_payloadForCut]
  exact (retainGroups_sublist h).map wire

theorem retainGroups_all (msgs : List CompressibleMessage) : retainGroups msgs (fun _ => true) = msgs := by
  rw [retainGroups_eq, List.filter_eq_self.2, List.zipIdx_map_fst]
  intro e he
  obtain ⟨group, hgroup, hmem⟩ := exists_relationshipGroup (List.mem_zipIdx' he).1
  exact List.any_eq_true.2 ⟨group, hgroup, Bool.and_eq_true_iff.2 ⟨rfl, decide_eq_true hmem⟩⟩

theorem map_wire_retainGroups (keep : List Nat → Bool) :
    (retainGroups msgs keep).map wire = (keptPositions msgs keep).filterMap fun i => (msgs[i]?).map wire := by
  rw [retainGroups_eq, keptPositions, List.filterMap_map, List.map_map, ← List.filterMap_eq_map]
  refine List.filterMap_congr fun e he => ?_
  have hget := List.mk_mem_zipIdx_iff_getElem?.1 (List.mem_of_mem_filter he)
  simp only [Function.comp_apply, hget, Option.map_some]

theorem keptAt_retain {msgs' : List CompressibleMessage} {keep : List Nat → Bool}
    (h : msgs'.map wire = (retainGroups msgs keep).map wire) : KeptAt msgs msgs' (keptPositions msgs keep) where
  sorted := (selection_retain h).sorted
  bound i hi := (mem_keptPositions.1 hi).1
  messages := h.trans (map_wire_retainGroups keep)
  related i hi j hpath := by
    induction hpath with
    | refl => exact hi
    | tail _ hstep ih => exact adjacent_kept hstep ih
  linked hr hd i hi j hpath := by
    induction hpath with
    | refl => exact hi
    | tail _ hstep ih =>
      obtain ⟨id, hlink | hlink⟩ := hstep
      · exact (linkClosed_kept hr hd keep _ _ id hlink).1 ih
      · exact (linkClosed_kept hr hd keep _ _ id hlink).2 ih

variable (tokens : AdditiveCount)

theorem binarySearchOldestCut_kept (payload : CompressiblePayload) (target : Nat) :
    ∃ positions, KeptAt payload.messages (tokens.binarySearchOldestCut payload target).messages positions := by
  simp only [AdditiveCount.binarySearchOldestCut]
  split
  · exact ⟨_, keptAt_retain (congrArg (List.map wire) (retainGroups_all payload.messages).symm)⟩
  · exact ⟨_, keptAt_retain (map_wire_cut _)⟩

theorem leastCut_search (target : Nat) (hne : payload.messages ≠ []) :
    LeastCut tokens payload target
      (if tokens.count (payloadForCut payload payload.messages.length) > target then payload.messages.length
        else Bisect.bisect (fun c => tokens.count (payloadForCut payload c) ≤ target) payload.messages.length 1
          payload.messages.length) := by
  have hpos : 1 ≤ payload.messages.length := List.length_pos_of_ne_nil hne
  split
  · rename_i hlast
    exact ⟨hpos, le_rfl, fun c _ hc => Nat.lt_of_lt_of_le hlast (count_payloadForCut_le hc.le), .inr rfl⟩
  · rename_i hlast
    have hmono : ∀ p q, p ≤ q → decide (tokens.count (payloadForCut payload p) ≤ target) = true →
        decide (tokens.count (payloadForCut payload q) ≤ target) = true := fun p q hpq hp =>
      decide_eq_true ((count_payloadForCut_le hpq).trans (of_decide_eq_true hp))
    obtain ⟨hfirst, hbound⟩ := Bisect.bisect_spec hmono hpos (Nat.sub_le _ _)
      (decide_eq_true (Nat.le_of_not_lt hlast))
    refine ⟨hfirst.le, hbound, fun c hc hlt => ?_, .inl (of_decide_eq_true hfirst.found)⟩
    exact Nat.lt_of_not_le (of_decide_eq_false (hfirst.before c hc hlt))

theorem AdditiveCount.law (payload : CompressiblePayload) (target : Nat) :
    OldestCutLaw tokens payload target (tokens.binarySearchOldestCut payload target) := by
  refine ⟨fun hfits => ?_, fun hne hcount => ?_, binarySearchOldestCut_kept tokens payload target⟩
  · exact if_pos (by simpa using hfits)
  · have hguard : ¬ (payload.messages.isEmpty || decide (tokens.count payload ≤ target)) = true := by
      simpa using ⟨hne, hcount⟩
    exact ⟨_, leastCut_search tokens target hne, if_neg hguard⟩

/-! ### The count of the engines -/

theorem foldl_satAdd_eq {α : Type*} (weight : α → Nat) (l : List α) {a : Nat} (ha : a ≤ 2 ^ 32 - 1) :
    l.foldl (fun total x => satAdd total (weight x)) a = min (a + (l.map weight).sum) (2 ^ 32 - 1) := by
  induction l generalizing a with
  | nil => simpa using (Nat.min_eq_left ha).symm
  | cons x l ih =>
    have hmax : satAdd a (weight x) ≤ 2 ^ 32 - 1 := Nat.min_le_right _ _
    rw [List.foldl_cons, ih hmax, List.map_cons, List.sum_cons]
    unfold satAdd
    omega

/-- What `count_request` adds to the count of the messages. -/
def countRest (counter : TokenCounter) (payload : CompressiblePayload) (total : Nat) : Nat :=
  let extra := match payload.toolDefinitions with
    | some tools => Assoc.insert payload.extra "tools" tools
    | none => payload.extra
  let field total key := match Assoc.get extra key with
    | some value => satAdd total (counter.countJson payload.model value)
    | none => total
  let total := field (field total "tools") "tool_choice"
  let total := extra.foldl (fun total f =>
    if f.1 = "tools" ∨ f.1 = "tool_choice" then total
    else satAdd (satAdd total (counter.countText payload.model f.1))
      (counter.countJson payload.model f.2)) total
  satAdd total 2

variable (counter : TokenCounter)

theorem monotone_countRest (payload : CompressiblePayload) :
    Monotone (countRest counter payload) := by
  intro a b hab
  have hfield : ∀ (value : Option Json) {a b : Nat}, a ≤ b →
      (match value with
        | some value => satAdd a (counter.countJson payload.model value)
        | none => a) ≤
      (match value with
        | some value => satAdd b (counter.countJson payload.model value)
        | none => b) := by
    intro value a b hab
    cases value with
    | none => exact hab
    | some value => exact satAdd_le_satAdd hab _
  refine satAdd_le_satAdd (foldl_le_foldl ?_ _ (hfield _ (hfield _ hab))) 2
  intro a b f hab
  split
  · exact hab
  · exact satAdd_le_satAdd (satAdd_le_satAdd hab _) _

def wireWeight (counter : TokenCounter) (model : String) (w : String × Json × Json.Map × Nat) : Nat :=
  counter.countMessage model
    { role := w.1, content := w.2.1, extra := w.2.2.1, age := 0, tokenCount := 0, cacheProtected := false
      originalIndex := w.2.2.2, critical := false, relationships := {} }

theorem countTokens_eq (payload : CompressiblePayload) (messages : List CompressibleMessage) :
    counter.countTokens { payload with messages } = countRest counter payload
      (min (counter.countText payload.model payload.model +
        ((messages.map wire).map (wireWeight counter payload.model)).sum) (2 ^ 32 - 1)) := by
  have hmax : counter.countText payload.model payload.model ≤ 2 ^ 32 - 1 := Nat.min_le_right _ _
  have hweight : (messages.map wire).map (wireWeight counter payload.model) =
      messages.map (counter.countMessage payload.model) := by
    rw [List.map_map]
    rfl
  rw [hweight, ← foldl_satAdd_eq _ _ hmax]
  rfl

theorem additive_countTokens (payload : CompressiblePayload) :
    ∃ (weight : String × Json × Json.Map × Nat → Nat) (total : Nat → Nat), Monotone total ∧
      ∀ messages, counter.countTokens { payload with messages } = total ((messages.map wire).map weight).sum := by
  refine ⟨wireWeight counter payload.model, fun sum => countRest counter payload
    (min (counter.countText payload.model payload.model + sum) (2 ^ 32 - 1)), fun a b hab => ?_,
    countTokens_eq counter payload⟩
  exact monotone_countRest counter payload (by omega)

def TokenCounter.additiveCount (counter : TokenCounter) (context : CompressionContext) : AdditiveCount where
  count := counter.countTokens
  messageCount payload := counter.countMessage (if payload.model.isEmpty then context.model else payload.model)
  additive := additive_countTokens counter

theorem searchCut_eq (payload : CompressiblePayload) (target fuel low high : Nat) :
    searchCut counter payload target fuel low high =
      Bisect.bisect (fun c => counter.countTokens (payloadForCut payload c) ≤ target) fuel low high := by
  induction fuel generalizing low high with
  | zero => rfl
  | succ fuel ih => simp only [searchCut, Bisect.bisect, ih, decide_eq_true_eq]

theorem binarySearchOldestCut_eq (context : CompressionContext)
    (payload : CompressiblePayload) (target : Nat) :
    binarySearchOldestCut counter context payload target =
      (counter.additiveCount context).binarySearchOldestCut payload target := by
  simp only [binarySearchOldestCut, AdditiveCount.binarySearchOldestCut, searchCut_eq]
  rfl

end

/-- A payload that does not fit is cut at the first cut that fits, or at the last; the messages left are some of the
payload's, in their order, with all messages they are linked to. So for every count that adds up, and for the one of
the engines. -/
theorem oldest_cut_law (payload : CompressiblePayload) (target : Nat) :
    (∀ tokens : AdditiveCount, OldestCutLaw tokens payload target (tokens.binarySearchOldestCut payload target)) ∧
      ∀ (counter : TokenCounter) (context : CompressionContext),
        OldestCutLaw (counter.additiveCount context) payload target
          (binarySearchOldestCut counter context payload target) := by
  refine ⟨fun tokens => tokens.law payload target, fun counter context => ?_⟩
  rw [binarySearchOldestCut_eq]
  exact (counter.additiveCount context).law payload target

def shortPayload : CompressiblePayload :=
  { plainPayload "b" with
    messages := [{ userMessage "a" with role := "assistant" }, { userMessage "b" with originalIndex := 1 }] }

/-- A payload that fits is not cut, though the first cut would leave out its first message. -/
theorem fitting_payload_kept : binarySearchOldestCut textLength openWindow shortPayload 1000 = shortPayload ∧
      ¬ ∃ cut, LeastCut (textLength.additiveCount openWindow) shortPayload 1000 cut ∧
        (binarySearchOldestCut textLength openWindow shortPayload 1000).messages.map wire =
          (payloadForCut shortPayload cut).messages.map wire := by
  have hkept : binarySearchOldestCut textLength openWindow shortPayload 1000 = shortPayload := by decide +kernel
  refine ⟨hkept, ?_⟩
  rintro ⟨cut, ⟨hpos, -, hbefore, -⟩, hwire⟩
  rcases Nat.lt_or_eq_of_le hpos with hlt | rfl
  · have hfirst := hbefore 1 (Nat.le_refl 1) hlt
    exact absurd hfirst (by decide +kernel)
  · rw [hkept] at hwire
    have hlength := congrArg List.length hwire
    revert hlength
    decide +kernel

end ObeyGateway.Compression
