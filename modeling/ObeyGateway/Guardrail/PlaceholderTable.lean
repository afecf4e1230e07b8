import ObeyGateway.Guardrail.Reinjection
import ObeyGateway.Lib.Run

/-!
# The placeholder table over whole runs (`guardrail/pii.rs`)

A run of `redact` and `placeholder_for` is a run of `placeholder_for` calls (`run_eq_afterCalls`), and the context after
it is the `table` of the keys seen: at most `max_entries` entries, one placeholder for each key. What fails is the
answer to a key that is asked for again after it came too late for the map (`mappedIffEntry_iff`).
-/

namespace ObeyGateway.Guardrail

open Splice

inductive ContextOp
  | placeholderFor (entityLabel value : Str)
  | redact (content : Str) (findings : List Finding)

/-- The arguments of the `placeholder_for` calls that the operation makes, in order. -/
def ContextOp.calls : ContextOp → List (Str × Str)
  | .placeholderFor entityLabel value => [(entityLabel, value)]
  | .redact content findings =>
    (applied content findings).map fun f => (f.entityLabel, slice content f.start f.stop)

def callKey (call : Str × Str) : Key := (normalizeEntityType call.1, call.2)

namespace GuardrailContext

def step (ctx : GuardrailContext) : ContextOp → GuardrailContext
  | .placeholderFor entityLabel value => (ctx.placeholderFor entityLabel value).2
  | .redact content findings => (ctx.redact content findings).2

/-- One `placeholder_for` after the other: the answers and the context they leave. -/
def answers : GuardrailContext → List (Str × Str) → List PlaceholderResult × GuardrailContext
  | ctx, [] => ([], ctx)
  | ctx, call :: calls =>
    let result := ctx.placeholderFor call.1 call.2
    let rest := answers result.2 calls
    (result.1 :: rest.1, rest.2)

/-- `placeholder_for` says `Mapped` exactly when the map has the placeholder with this value. -/
def MappedIffEntry (ctx : GuardrailContext) (entityLabel value : Str) : Prop :=
  let result := ctx.placeholderFor entityLabel value
  result.1 = .mapped result.1.placeholder ↔ (result.1.placeholder, value) ∈ result.2.reinjectionMap

variable {ctx : GuardrailContext}

variable (ctx : GuardrailContext)

theorem answers_append (calls calls' : List (Str × Str)) :
    (ctx.answers (calls ++ calls')).2 = ((ctx.answers calls).2.answers calls').2 := by
  induction calls generalizing ctx with
  | nil => rfl
  | cons call calls ih => exact ih _

theorem assign_placeholderText (content : Str) (fs : List Finding) :
    (assign (placeholderText content) ctx fs).2 =
      (ctx.answers (fs.map fun f => (f.entityLabel, slice content f.start f.stop))).2 := by
  induction fs generalizing ctx with
  | nil => rfl
  | cons f fs ih => exact ih _

theorem step_eq_answers (op : ContextOp) : ctx.step op = (ctx.answers op.calls).2 := by
  cases op with
  | placeholderFor entityLabel value => rfl
  | redact content findings =>
    show (ctx.redact content findings).2 = _
    rw [redact, walkSpans_eq_assemble]
    exact assign_placeholderText ctx content _

theorem run_eq_answers (ops : List ContextOp) :
    Run.run step ctx ops = (ctx.answers (ops.flatMap ContextOp.calls)).2 := by
  induction ops generalizing ctx with
  | nil => rfl
  | cons op ops ih =>
    rw [Run.run_cons, ih, step_eq_answers, List.flatMap_cons, answers_append]

end GuardrailContext

/-! ### The answers of a table -/

def seenKeys (calls : List (Str × Str)) : List Key := (calls.map callKey).foldl see []

section
variable {m : Nat} {seen : List Key} {k : Key}

theorem nodup_see (h : seen.Nodup) (k : Key) : (see seen k).Nodup := by
  by_cases hk : k ∈ seen
  · rwa [see_of_mem hk]
  · rw [see_of_not_mem hk]
    refine List.nodup_append.2 ⟨h, by simp, ?_⟩
    rintro a ha b hb rfl
    rw [List.mem_singleton.1 hb] at ha
    exact hk ha

theorem nodup_foldl_see (h : seen.Nodup) (ks : List Key) : (ks.foldl see seen).Nodup := by
  induction ks generalizing seen with
  | nil => exact h
  | cons k ks ih => exact ih (nodup_see h k)

theorem length_see_le (seen : List Key) (k : Key) : (see seen k).length ≤ seen.length + 1 := by
  by_cases hk : k ∈ seen
  · rw [see_of_mem hk]
    omega
  · simp [see_of_not_mem hk]

theorem length_foldl_see_le (ks seen : List Key) : (ks.foldl see seen).length ≤ seen.length + ks.length := by
  induction ks generalizing seen with
  | nil => simp
  | cons k ks ih =>
    have hstep := length_see_le seen k
    have hrest := ih (see seen k)
    simp only [List.foldl_cons, List.length_cons]
    omega

theorem answers_table (m : Nat) (seen : List Key) (calls : List (Str × Str)) :
    ((table m seen).answers calls).1.map (·.placeholder) =
        calls.map (fun call => token ((calls.map callKey).foldl see seen) (callKey call)) ∧
      ((table m seen).answers calls).2 = table m ((calls.map callKey).foldl see seen) := by
  induction calls generalizing seen with
  | nil => exact ⟨rfl, rfl⟩
  | cons call calls ih =>
    obtain ⟨htext, hctx⟩ := placeholderFor_table m seen call.1 call.2
    obtain ⟨ihtext, ihctx⟩ := ih (see seen (callKey call))
    have hmem : callKey call ∈ see seen (callKey call) := mem_see.2 (.inr rfl)
    have hkey : (normalizeEntityType call.1, call.2) = callKey call := rfl
    simp only [GuardrailContext.answers, List.map_cons, List.foldl_cons]
    rw [hctx, htext, hkey, ihtext, ihctx, token_foldl_see hmem]
    exact ⟨rfl, rfl⟩

theorem mem_reinjectionMap_table (hk : k ∈ seen) :
    (token seen k, k.2) ∈ (table m seen).reinjectionMap ↔ k ∈ seen.take m := by
  constructor
  · intro h
    obtain ⟨k', hk', heq⟩ := List.mem_map.1 h
    have htoken : token seen k' = token seen k := congrArg Prod.fst heq
    rwa [← token_injective (List.mem_of_mem_take hk') hk htoken]
  · intro h
    exact List.mem_map_of_mem h

theorem nodup_placeholders_table (h : seen.Nodup) : ((table m seen).reinjectionMap.map (·.1)).Nodup := by
  have hmap : (table m seen).reinjectionMap.map (·.1) = (seen.take m).map (token seen) :=
    List.map_map
  rw [hmap]
  refine List.Nodup.map_on ?_ (h.sublist (List.take_sublist _ _))
  intro k hk k' hk' heq
  exact token_injective (List.mem_of_mem_take hk) (List.mem_of_mem_take hk') heq

theorem mapped_table (m : Nat) (seen : List Key) (label value : Str) :
    let result := ((table m seen).placeholderFor label value).1
    result = .mapped result.placeholder ↔
      (normalizeEntityType label, value) ∈ seen ∨ seen.length < m := by
  intro result
  have hlen : (table m seen).reinjectionMap.length = min m seen.length := by simp [table]
  have hmax : (table m seen).maxEntries = m := rfl
  by_cases hmem : (normalizeEntityType label, value) ∈ seen
  · have hd : (table m seen).dedup (normalizeEntityType label, value) = some (token seen _) := if_pos hmem
    simp [result, GuardrailContext.placeholderFor, hd, hmem, PlaceholderResult.placeholder]
  · have hd : (table m seen).dedup (normalizeEntityType label, value) = none := if_neg hmem
    simp only [result, GuardrailContext.placeholderFor, hd, hlen, hmax, hmem, false_or]
    split
    · rename_i hfull
      have hno : ¬ seen.length < m := by omega
      simp [PlaceholderResult.placeholder, hno]
    · rename_i hroom
      have hlt : seen.length < m := by omega
      simp [PlaceholderResult.placeholder, hlt]

/-- The answer is right unless the key was seen before, after the map had filled up. -/
theorem mappedIffEntry_iff (h : seen.Nodup) (label value : Str) : (table m seen).MappedIffEntry label value ↔
      (normalizeEntityType label, value) ∉ seen.drop m := by
  set k : Key := (normalizeEntityType label, value) with hkdef
  obtain ⟨htext, hctx⟩ := placeholderFor_table m seen label value
  have hentry := mem_reinjectionMap_table (m := m) (mem_see.2 (.inr rfl) : k ∈ see seen k)
  have hmapped := mapped_table m seen label value
  simp only [← hkdef] at htext hctx hmapped
  simp only [GuardrailContext.MappedIffEntry]
  rw [hmapped, htext, hctx, hentry]
  by_cases hk : k ∈ seen
  · have hsplit : k ∈ seen ↔ k ∈ seen.take m ∨ k ∈ seen.drop m := by
      rw [← List.mem_append, List.take_append_drop]
    have hdisj : k ∈ seen.take m → k ∉ seen.drop m := by
      intro h1 h2
      have hnodup : (seen.take m ++ seen.drop m).Nodup := by rwa [List.take_append_drop]
      exact (List.nodup_append.1 hnodup).2.2 k h1 k h2 rfl
    rw [see_of_mem hk]
    tauto
  · have hdrop : k ∉ seen.drop m := fun h' => hk (List.mem_of_mem_drop h')
    rw [see_of_not_mem hk, List.take_append]
    have htake : k ∉ seen.take m := fun h' => hk (List.mem_of_mem_take h')
    have hlast : k ∈ [k].take (m - seen.length) ↔ seen.length < m := by
      rcases Nat.lt_or_ge seen.length m with hlt | hge
      · rw [List.take_of_length_le (by simp; omega)]
        simp [hlt]
      · rw [Nat.sub_eq_zero_of_le hge]
        simpa using hge
    simp [List.mem_append, hk, htake, hlast, hdrop]

end

/-- The map has at most `max_entries` entries with distinct placeholders, and two calls got the same one exactly when
their types and values agree. The next answer is `Mapped` exactly when there is an entry for it, unless its pair was
first seen when the map was full. -/
theorem placeholder_table_law (cap : Nat) (ops : List ContextOp) :
    let calls := ops.flatMap ContextOp.calls
    let ctx := Run.run GuardrailContext.step (GuardrailContext.withCapacity cap) ops
    let given := ((GuardrailContext.withCapacity cap).answers calls).1
    ctx = ((GuardrailContext.withCapacity cap).answers calls).2 ∧
      ctx.reinjectionMap.length ≤ ctx.maxEntries ∧
      (ctx.reinjectionMap.map (·.1)).Nodup ∧
      (∀ entityType, ctx.nextSequence entityType ≤ calls.length) ∧
      (∀ (i j : Nat) call call' r r', calls[i]? = some call → calls[j]? = some call' →
        given[i]? = some r → given[j]? = some r' →
        (r.placeholder = r'.placeholder ↔
          normalizeEntityType call.1 = normalizeEntityType call'.1 ∧ call.2 = call'.2)) ∧
      ∀ label value, ctx.MappedIffEntry label value ↔
        (normalizeEntityType label, value) ∉ (seenKeys calls).drop ctx.maxEntries := by
  intro calls ctx given
  have hrun : ctx = ((GuardrailContext.withCapacity cap).answers calls).2 :=
    GuardrailContext.run_eq_answers _ _
  obtain ⟨htexts, hctx⟩ := answers_table (max 1 (min cap 10000)) [] calls
  rw [← withCapacity_eq] at htexts hctx
  have htable : ctx = table (max 1 (min cap 10000)) (seenKeys calls) := hrun.trans hctx
  have hnodup : (seenKeys calls).Nodup := nodup_foldl_see List.nodup_nil _
  refine ⟨hrun, ?_, ?_, ?_, ?_, ?_⟩
  · rw [htable]
    show ((seenKeys calls).take _ |>.map _).length ≤ _
    rw [List.length_map, List.length_take]
    exact min_le_left _ _
  · rw [htable]
    exact nodup_placeholders_table hnodup
  · intro entityType
    have hcount : (seenKeys calls).countP (·.1 = entityType) ≤ (seenKeys calls).length :=
      List.countP_le_length
    have hlen : (seenKeys calls).length ≤ 0 + (calls.map callKey).length :=
      length_foldl_see_le (calls.map callKey) []
    rw [List.length_map] at hlen
    rw [htable]
    show (seenKeys calls).countP (·.1 = entityType) ≤ calls.length
    omega
  · intro i j call call' r r' hi hj hr hr'
    have hat : ∀ {n : Nat} {c : Str × Str} {r : PlaceholderResult}, calls[n]? = some c → given[n]? = some r →
        r.placeholder = token (seenKeys calls) (callKey c) ∧ callKey c ∈ seenKeys calls := by
      intro n c r hc hr
      have hn := congrArg (·[n]?) htexts
      simp only [List.getElem?_map] at hn
      rw [hr, hc] at hn
      refine ⟨Option.some.inj hn, mem_foldl_see.2 (.inr ?_)⟩
      exact List.mem_map_of_mem (List.mem_of_getElem? hc)
    obtain ⟨htext, hmem⟩ := hat hi hr
    obtain ⟨htext', hmem'⟩ := hat hj hr'
    rw [htext, htext', ← Prod.mk.injEq]
    constructor
    · intro h
      exact token_injective hmem hmem' h
    · intro h
      show token (seenKeys calls) (callKey call) = token (seenKeys calls) (callKey call')
      rw [show callKey call = callKey call' from h]
  · intro label value
    rw [htable]
    exact mappedIffEntry_iff hnodup label value

/-- With room for one entry, the second value of a type is an overflow the first time and `Mapped`
without an entry when it comes again. -/
theorem repeated_overflow_is_mapped :
    let ops := [ContextOp.placeholderFor (str "X") (str "a"), .placeholderFor (str "X") (str "b")]
    let ctx := Run.run GuardrailContext.step (GuardrailContext.withCapacity 1) ops
    ¬ ctx.MappedIffEntry (str "X") (str "b") := by
  intro ops ctx
  have hlast : (ctx.placeholderFor (str "X") (str "b")).1 = .mapped (str "<<PII_X_2>>") := by decide +kernel
  have hmap : (ctx.placeholderFor (str "X") (str "b")).2.reinjectionMap =
      [(str "<<PII_X_1>>", str "a")] := by decide +kernel
  have hne : (str "<<PII_X_2>>", str "b") ∉ [(str "<<PII_X_1>>", str "a")] := by decide +kernel
  intro h
  simp only [GuardrailContext.MappedIffEntry, hlast, hmap, PlaceholderResult.placeholder, true_iff] at h
  exact hne h

end ObeyGateway.Guardrail
