import ObeyGateway.Guardrail.Pii

/-!
# The placeholder table and what redaction keeps

All a `GuardrailContext` knows is which values it has seen, in which order: a context that was reached
by `redact` calls is the `table` of these keys (`redactAll_eq`). With that the loop of `redact` puts
`token`s at the applied spans, and nothing else of the content changes.
-/

namespace ObeyGateway.Guardrail

open Splice

/-- A normalized entity type and a value of it. -/
abbrev Key := Str × Str

def keyOf (content : Str) (f : Finding) : Key :=
  (normalizeEntityType f.entityLabel, slice content f.start f.stop)

def see (seen : List Key) (k : Key) : List Key := if k ∈ seen then seen else seen ++ [k]

def number (seen : List Key) (k : Key) : Nat :=
  (seen.takeWhile (· ≠ k)).countP (·.1 = k.1) + 1

def token (seen : List Key) (k : Key) : Str := placeholder k.1 (number seen k)

def table (maxEntries : Nat) (seen : List Key) : GuardrailContext where
  reinjectionMap := (seen.take maxEntries).map fun k => (token seen k, k.2)
  nextSequence entityType := seen.countP (·.1 = entityType)
  dedup k := if k ∈ seen then some (token seen k) else none
  maxEntries := maxEntries
  overflowCount := seen.length - maxEntries

section
variable {seen : List Key} {k k' : Key}

theorem see_of_mem (h : k ∈ seen) : see seen k = seen := if_pos h

theorem see_of_not_mem (h : k ∉ seen) : see seen k = seen ++ [k] := if_neg h

theorem mem_see : k' ∈ see seen k ↔ k' ∈ seen ∨ k' = k := by
  by_cases h : k ∈ seen
  · rw [see_of_mem h]
    exact ⟨.inl, fun h' => h'.elim id fun e => e ▸ h⟩
  · simp [see_of_not_mem h]

theorem mem_foldl_see {ks : List Key} : k ∈ ks.foldl see seen ↔ k ∈ seen ∨ k ∈ ks := by
  induction ks generalizing seen with
  | nil => simp
  | cons k' ks ih => rw [List.foldl_cons, ih, mem_see, List.mem_cons, or_assoc]

theorem number_cons_self (k : Key) (seen : List Key) : number (k :: seen) k = 1 := by
  simp [number]

theorem number_cons_ne {a : Key} (h : a ≠ k) : number (a :: seen) k = number seen k + if a.1 = k.1 then 1 else 0 := by
  rw [number, List.takeWhile_cons_of_pos (by simpa using h), List.countP_cons, number]
  simp only [decide_eq_true_eq]
  omega

theorem number_append (h : k ∈ seen) (rest : List Key) : number (seen ++ rest) k = number seen k := by
  induction seen with
  | nil => cases h
  | cons a seen ih =>
    rw [List.cons_append]
    by_cases ha : a = k
    · rw [ha, number_cons_self, number_cons_self]
    · rw [number_cons_ne ha, number_cons_ne ha,
        ih ((List.mem_cons.1 h).resolve_left fun e => ha e.symm)]

theorem token_append (h : k ∈ seen) (rest : List Key) : token (seen ++ rest) k = token seen k := by
  rw [token, number_append h, token]

theorem token_see (h : k ∈ seen) (k' : Key) : token (see seen k') k = token seen k := by
  by_cases hk' : k' ∈ seen
  · rw [see_of_mem hk']
  · rw [see_of_not_mem hk', token_append h]

theorem token_foldl_see (h : k ∈ seen) (ks : List Key) : token (ks.foldl see seen) k = token seen k := by
  induction ks generalizing seen with
  | nil => rfl
  | cons k' ks ih => rw [List.foldl_cons, ih (mem_see.2 (.inl h)), token_see h]

theorem number_new (h : k ∉ seen) : number (seen ++ [k]) k = seen.countP (·.1 = k.1) + 1 := by
  have hall : ∀ a ∈ seen, decide (a ≠ k) = true := fun a ha => by
    simpa using fun e : a = k => h (e ▸ ha)
  rw [number, List.takeWhile_append_of_pos hall]
  simp

theorem number_injective (hk : k ∈ seen) (hk' : k' ∈ seen) (htype : k.1 = k'.1)
    (h : number seen k = number seen k') : k = k' := by
  induction seen with
  | nil => cases hk
  | cons a seen ih =>
    have hpos : ∀ k, 1 ≤ number seen k := fun k => Nat.le_add_left _ _
    by_cases ha : a = k
    · by_cases ha' : a = k'
      · exact ha.symm.trans ha'
      · -- the head counts for the other key
        rw [ha, number_cons_self, number_cons_ne (ha ▸ ha'), if_pos htype] at h
        have := hpos k'
        omega
    · by_cases ha' : a = k'
      · rw [ha', number_cons_self, number_cons_ne (ha' ▸ ha), if_pos htype.symm] at h
        have := hpos k
        omega
      · rw [number_cons_ne ha, number_cons_ne ha', htype] at h
        exact ih ((List.mem_cons.1 hk).resolve_left fun e => ha e.symm)
          ((List.mem_cons.1 hk').resolve_left fun e => ha' e.symm) (by omega)

end

theorem withCapacity_eq (cap : Nat) : GuardrailContext.withCapacity cap = table (max 1 (min cap 10000)) [] := by
  simp [GuardrailContext.withCapacity, table]

section
variable {m : Nat} {seen : List Key} {k : Key}

theorem nextSequence_new (m : Nat) (seen : List Key) (k : Key) :
    Function.update (table m seen).nextSequence k.1 ((table m seen).nextSequence k.1 + 1) =
      (table m (seen ++ [k])).nextSequence := by
  funext T
  by_cases hT : T = k.1
  · subst hT
    simp [table]
  · simp [table, hT, Ne.symm hT]

theorem dedup_new (m : Nat) (seen : List Key) (k : Key) :
    Function.update (table m seen).dedup k (some (token (seen ++ [k]) k)) =
      (table m (seen ++ [k])).dedup := by
  funext k'
  by_cases hk' : k' = k
  · subst hk'
    simp [table]
  · by_cases hmem : k' ∈ seen
    · simp [table, hk', hmem, token_append hmem]
    · simp [table, hk', hmem]

theorem reinjectionMap_append (m : Nat) (seen : List Key) (k : Key) :
    (seen.take m).map (fun k' => (token (seen ++ [k]) k', k'.2)) = (table m seen).reinjectionMap :=
  List.map_congr_left fun _ hk' => by rw [token_append (List.mem_of_mem_take hk')]

theorem table_new_of_full (h : m ≤ seen.length) : table m (seen ++ [k]) = { table m seen with
      nextSequence := (table m (seen ++ [k])).nextSequence
      dedup := (table m (seen ++ [k])).dedup
      overflowCount := (table m seen).overflowCount + 1 } := by
  have hover : seen.length + 1 - m = seen.length - m + 1 := by omega
  simp only [table, GuardrailContext.mk.injEq, true_and]
  rw [List.take_append_of_le_length h, reinjectionMap_append, List.length_append]
  exact ⟨rfl, hover⟩

theorem table_new_of_room (h : seen.length < m) : table m (seen ++ [k]) = { table m seen with
      nextSequence := (table m (seen ++ [k])).nextSequence
      dedup := (table m (seen ++ [k])).dedup
      reinjectionMap := (table m seen).reinjectionMap ++ [(token (seen ++ [k]) k, k.2)] } := by
  have htake : (seen ++ [k]).take m = seen.take m ++ [k] := by
    rw [List.take_of_length_le (by simpa using Nat.succ_le_of_lt h), List.take_of_length_le h.le]
  have hover : seen.length + 1 - m = seen.length - m := by omega
  simp only [table, GuardrailContext.mk.injEq, true_and]
  rw [htake, List.map_append, reinjectionMap_append, List.length_append]
  exact ⟨rfl, hover⟩

end

variable (m : Nat)

theorem placeholderFor_table (seen : List Key) (label value : Str) :
    ((table m seen).placeholderFor label value).1.placeholder =
        token (see seen (normalizeEntityType label, value)) (normalizeEntityType label, value) ∧
      ((table m seen).placeholderFor label value).2 =
        table m (see seen (normalizeEntityType label, value)) := by
  set k : Key := (normalizeEntityType label, value) with hk
  by_cases hmem : k ∈ seen
  · have hd : (table m seen).dedup k = some (token seen k) := if_pos hmem
    simp only [GuardrailContext.placeholderFor, ← hk, hd, see_of_mem hmem]
    exact ⟨rfl, trivial⟩
  · have hd : (table m seen).dedup k = none := if_neg hmem
    have htoken : placeholder k.1 ((table m seen).nextSequence k.1 + 1) = token (seen ++ [k]) k := by
      rw [token, number_new hmem]
      rfl
    have hlen : (table m seen).reinjectionMap.length = min m seen.length := by simp [table]
    simp only [GuardrailContext.placeholderFor, ← hk, hd, see_of_not_mem hmem]
    rw [show normalizeEntityType label = k.1 from rfl, htoken, nextSequence_new, dedup_new, hlen]
    split
    · rename_i hfull
      exact ⟨rfl, (table_new_of_full (hfull.trans (min_le_right _ _))).symm⟩
    · rename_i hroom
      have hlt : seen.length < m := by
        have hmax : (table m seen).maxEntries = m := rfl
        rw [hmax] at hroom
        omega
      exact ⟨rfl, (table_new_of_room hlt).symm⟩

def keysOf (content : Str) (findings : List Finding) : List Key :=
  (applied content findings).map (keyOf content)

def seenBy (seen : List Key) (calls : List (Str × List Finding)) : List Key :=
  calls.foldl (fun seen call => (keysOf call.1 call.2).foldl see seen) seen

/-- One `redact` after the other on the same context. -/
def redactAll : GuardrailContext → List (Str × List Finding) → List Str × GuardrailContext
  | ctx, [] => ([], ctx)
  | ctx, (content, findings) :: calls =>
    let redacted := ctx.redact content findings
    let rest := redactAll redacted.2 calls
    (redacted.1 :: rest.1, rest.2)

def tokenEdit (seen : List Key) (content : Str) (f : Finding) : Edit UInt8 :=
  ⟨f.start, f.stop, token seen (keyOf content f)⟩

/-- The tokens that `seen` has for the spans, from the left to the right. -/
def tokenEdits (seen : List Key) (content : Str) (spans : List Finding) : List (Edit UInt8) :=
  spans.reverse.map (tokenEdit seen content)

theorem assign_table (seen : List Key) (content : Str) (fs : List Finding) :
    assign (GuardrailContext.placeholderText content) (table m seen) fs =
      (fs.map (tokenEdit ((fs.map (keyOf content)).foldl see seen) content),
        table m ((fs.map (keyOf content)).foldl see seen)) := by
  induction fs generalizing seen with
  | nil => rfl
  | cons f fs ih =>
    obtain ⟨htext, hctx⟩ := placeholderFor_table m seen f.entityLabel (slice content f.start f.stop)
    have hmem : keyOf content f ∈ see seen (keyOf content f) := mem_see.2 (.inr rfl)
    have hhead : tokenEdit ((fs.map (keyOf content)).foldl see (see seen (keyOf content f))) content f =
        ⟨f.start, f.stop, token (see seen (keyOf content f)) (keyOf content f)⟩ := by
      rw [tokenEdit, token_foldl_see hmem]
    simp only [assign, GuardrailContext.placeholderText, List.map_cons, List.foldl_cons]
    rw [htext, hctx, hhead, show see seen (normalizeEntityType f.entityLabel,
      slice content f.start f.stop) = see seen (keyOf content f) from rfl, ih]
    rfl

theorem redact_table (seen : List Key) (content : Str) (findings : List Finding) :
    (table m seen).redact content findings =
      (assemble content 0 (tokenEdits ((keysOf content findings).foldl see seen) content
          (applied content findings)),
        table m ((keysOf content findings).foldl see seen)) := by
  rw [GuardrailContext.redact, walkSpans_eq_assemble, assign_table, ← List.map_reverse]
  rfl

theorem mem_seenBy {seen : List Key} {calls : List (Str × List Finding)} {k : Key} :
    k ∈ seenBy seen calls ↔ k ∈ seen ∨ ∃ call ∈ calls, k ∈ keysOf call.1 call.2 := by
  induction calls generalizing seen with
  | nil => simp [seenBy]
  | cons call calls ih =>
    have hstep : seenBy seen (call :: calls) =
        seenBy ((keysOf call.1 call.2).foldl see seen) calls := rfl
    rw [hstep, ih, mem_foldl_see, List.exists_mem_cons_iff, or_assoc]

theorem token_seenBy {seen : List Key} {k : Key} (h : k ∈ seen) (calls : List (Str × List Finding)) :
    token (seenBy seen calls) k = token seen k := by
  induction calls generalizing seen with
  | nil => rfl
  | cons call calls ih =>
    exact (ih (mem_foldl_see.2 (.inl h))).trans (token_foldl_see h _)

theorem SpansDown.descending {bound : Nat} {fs : List Finding} (h : SpansDown bound fs)
    (seen : List Key) (content : Str) : Descending bound (fs.map (tokenEdit seen content)) := by
  induction fs generalizing bound with
  | nil => trivial
  | cons f fs ih => exact ⟨h.1, h.2.1, ih h.2.2⟩

variable (seen : List Key)

theorem ascending_tokenEdits (content : Str) (findings : List Finding) :
    Ascending content.length 0 (tokenEdits seen content (applied content findings)) := by
  rw [tokenEdits, List.map_reverse]
  exact ((applied_down content findings).descending seen content).reverse

/-- Every output has the tokens of the last table. -/
theorem redactAll_eq (seen : List Key) (calls : List (Str × List Finding)) : redactAll (table m seen) calls =
      (calls.map fun call => assemble call.1 0
          (tokenEdits (seenBy seen calls) call.1 (applied call.1 call.2)),
        table m (seenBy seen calls)) := by
  induction calls generalizing seen with
  | nil => rfl
  | cons call calls ih =>
    obtain ⟨content, findings⟩ := call
    have htokens : tokenEdits ((keysOf content findings).foldl see seen) content
          (applied content findings) =
        tokenEdits (seenBy seen ((content, findings) :: calls)) content
          (applied content findings) := by
      refine List.map_congr_left fun f hf => ?_
      have hmem : keyOf content f ∈ (keysOf content findings).foldl see seen :=
        mem_foldl_see.2 (.inr (List.mem_map_of_mem (List.mem_reverse.1 hf)))
      rw [tokenEdit, ← token_seenBy hmem calls]
      rfl
    simp only [redactAll, redact_table, ih, List.map_cons]
    rw [htokens]
    rfl

theorem redactAll_withCapacity (cap : Nat) (calls : List (Str × List Finding)) :
    (redactAll (GuardrailContext.withCapacity cap) calls).2 =
      table (max 1 (min cap 10000)) (seenBy [] calls) := by
  rw [withCapacity_eq, redactAll_eq]

def covered (spans : List Finding) (i : Nat) : Bool := spans.any fun f => f.start ≤ i && i < f.stop

/-- The output is the content with placeholders for the bytes that the spans cover. -/
def Redacts (content out : Str) (spans : List Finding) : Prop :=
  ∃ es : List (Edit UInt8), Ascending content.length 0 es ∧
    (∀ e ∈ es, e.start < e.stop ∧ ∃ entityType seq, 1 ≤ seq ∧ e.text = placeholder entityType seq) ∧
    covers es = covered spans ∧
    (pieces content 0 es).flatten = keep content (covered spans) ∧ out = assemble content 0 es

theorem covers_tokenEdits (content : Str) (spans : List Finding) :
    covers (tokenEdits seen content spans) = covered spans := by
  funext i
  rw [covers, tokenEdits, List.any_map, List.any_reverse]
  rfl

theorem redacts_applied (content : Str) (findings : List Finding) : Redacts content
      (assemble content 0 (tokenEdits seen content (applied content findings)))
      (applied content findings) := by
  have hasc := ascending_tokenEdits seen content findings
  have hcov := covers_tokenEdits seen content (applied content findings)
  refine ⟨_, hasc, ?_, hcov, ?_, rfl⟩
  · intro e he
    obtain ⟨f, hf, rfl⟩ := List.mem_map.1 he
    have hacc := (mem_of_mem_applied (List.mem_reverse.1 hf)).2
    exact ⟨(accepted_bounds hacc).1, _, _, Nat.le_add_left _ _, rfl⟩
  · rw [flatten_pieces hasc, hcov]

theorem applied_or_overlaps {content : Str} {findings : List Finding} {f : Finding}
    (hf : f ∈ findings) (hacc : accepted content f = true) :
    f ∈ applied content findings ∨
      ∃ g ∈ applied content findings, f.start ≤ g.start ∧ g.start < f.stop := by
  by_cases hmem : f ∈ applied content findings
  · exact .inl hmem
  · rcases exists_applied_of_skipped (sortedSpans_pairwise content findings)
      (mem_sortedSpans.2 ⟨hf, hacc⟩) hmem with ⟨c, hc, -⟩ | h
    · cases hc
    · exact .inr h

theorem covered_applied {content : Str} {findings : List Finding}
    (h : ∀ f ∈ findings, ∀ g ∈ findings, accepted content f = true → accepted content g = true →
      (f.start = g.start ∧ f.stop = g.stop) ∨ f.stop ≤ g.start ∨ g.stop ≤ f.start) :
    covered (applied content findings) = covered (findings.filter (accepted content)) := by
  funext i
  rw [Bool.eq_iff_iff]
  simp only [covered, List.any_eq_true, List.mem_filter]
  constructor
  · rintro ⟨f, hf, hi⟩
    exact ⟨f, mem_of_mem_applied hf, hi⟩
  · rintro ⟨f, ⟨hf, hacc⟩, hi⟩
    rcases applied_or_overlaps hf hacc with hmem | ⟨g, hg, hle, hlt⟩
    · exact ⟨f, hmem, hi⟩
    · obtain ⟨hg', hgacc⟩ := mem_of_mem_applied hg
      have hgb := accepted_bounds hgacc
      refine ⟨g, hg, ?_⟩
      rcases h f hf g hg' hacc hgacc with ⟨h1, h2⟩ | hdis | hdis
      · rwa [← h1, ← h2]
      · omega
      · omega

/-- `redact` puts placeholders in the place of the applied spans. An accepted finding that it does not apply reaches
over the start of one it does; when none cut into each other, no byte of any is left. -/
theorem redact_keeps_outside_applied (cap : Nat) (earlier : List (Str × List Finding))
    (content : Str) (findings : List Finding) :
    let ctx := (redactAll (GuardrailContext.withCapacity cap) earlier).2
    let out := (ctx.redact content findings).1
    Redacts content out (applied content findings) ∧
      (∀ f ∈ applied content findings, f ∈ findings ∧ accepted content f = true) ∧
      (∀ f ∈ findings, accepted content f = true → f ∉ applied content findings →
        ∃ g ∈ applied content findings, f.start ≤ g.start ∧ g.start < f.stop) ∧
      ((∀ f ∈ findings, ∀ g ∈ findings, accepted content f = true → accepted content g = true →
          (f.start = g.start ∧ f.stop = g.stop) ∨ f.stop ≤ g.start ∨ g.stop ≤ f.start) →
        Redacts content out (findings.filter (accepted content))) := by
  intro ctx out
  have hout : Redacts content out (applied content findings) := by
    simp only [out, ctx, redactAll_withCapacity, redact_table]
    exact redacts_applied _ content findings
  refine ⟨hout, fun f hf => mem_of_mem_applied hf, ?_, ?_⟩
  · intro f hf hacc hmem
    exact (applied_or_overlaps hf hacc).resolve_left hmem
  · intro hcut
    rw [Redacts, ← covered_applied hcut]
    exact hout

/-- Of two overlapping detections the left one is skipped, and its first bytes stay. -/
theorem redact_leaves_detected_bytes : ¬ Redacts (str "abcdef")
      (GuardrailContext.new.redact (str "abcdef")
        [⟨str "X", 0, 4⟩, ⟨str "X", 2, 6⟩]).1
      ([⟨str "X", 0, 4⟩, ⟨str "X", 2, 6⟩].filter (accepted (str "abcdef"))) := by
  have hout : (GuardrailContext.new.redact (str "abcdef")
      [⟨str "X", 0, 4⟩, ⟨str "X", 2, 6⟩]).1 = str "ab<<PII_X_1>>" := by decide +kernel
  have hcov : covered ([⟨str "X", 0, 4⟩, ⟨str "X", 2, 6⟩].filter (accepted (str "abcdef"))) 0 =
      true := by decide +kernel
  rintro ⟨es, hasc, htext, hes, -, heq⟩
  have hzero : covers es 0 = true := by rw [hes, hcov]
  rw [hout] at heq
  rcases es with _ | ⟨e, es⟩
  · cases hzero
  -- the first edit begins at the first byte, so the output begins with a placeholder
  obtain ⟨-, entityType, seq, -, htext⟩ := htext e List.mem_cons_self
  have hstart : e.start = 0 := by
    by_contra hne
    have hmono : Ascending (str "abcdef").length e.start (e :: es) := ⟨le_rfl, hasc.2⟩
    rw [not_covers hmono (Nat.pos_of_ne_zero hne)] at hzero
    cases hzero
  have hhead : (str "ab<<PII_X_1>>").head? = some 60 := by
    rw [heq, assemble, hstart, htext, placeholder_eq]
    rfl
  exact absurd hhead (by decide +kernel)

end ObeyGateway.Guardrail
