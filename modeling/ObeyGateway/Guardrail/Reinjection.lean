import ObeyGateway.Guardrail.Redaction
import ObeyGateway.Lib.Replace

/-!
# Re-injection (`guardrail/pii.rs`)

`reinject` goes through the map and replaces every occurrence of each placeholder by its value. The
loop undoes a redaction span by span, in the order of the map, as long as the placeholder whose turn it
is does not occur in the text that is not, or no longer, redacted.
-/

namespace ObeyGateway.Guardrail

open Splice

def GuardrailContext.reinject (ctx : GuardrailContext) (content : Str) : Str :=
  ctx.reinjectionMap.foldl
    (fun out entry => if entry.1 <:+: out then replaceAll entry.1 entry.2 out else out) content

/-- The length of a match of `<<PII_[A-Za-z0-9_]+_[0-9]+>>` at the start of the text. The body has no
`>`, so that it reaches up to the `>>`. -/
def placeholderAt (s : Str) : Option Nat :=
  let rest := s.drop 6
  let body := rest.takeWhile fun b => isAsciiAlphanumeric b || b == 95
  let digits := body.reverse.takeWhile fun b => 48 ≤ b && b ≤ 57
  match body.reverse.drop digits.length with
  | 95 :: _ :: _ =>
    if str "<<PII_" <+: s ∧ digits ≠ [] ∧ str ">>" <+: rest.drop body.length then
      some (body.length + 8)
    else none
  | _ => none

/-- `PLACEHOLDER_RE.find_iter`; the second argument counts the bytes of the current match still to be
skipped. -/
def placeholderMatches : Nat → Nat → Str → List (Nat × Nat)
  | _, _, [] => []
  | pos, k + 1, _ :: s => placeholderMatches (pos + 1) k s
  | pos, 0, b :: s =>
    match placeholderAt (b :: s) with
    | some n => (pos, pos + n) :: placeholderMatches (pos + 1) (n - 1) s
    | none => placeholderMatches (pos + 1) 0 s

/-- `PLACEHOLDER_RE.replace_all` -/
def replacePlaceholders (f : Str → Str) : Nat → Str → Str
  | _, [] => []
  | k + 1, _ :: s => replacePlaceholders f k s
  | 0, b :: s =>
    match placeholderAt (b :: s) with
    | some n => f ((b :: s).take n) ++ replacePlaceholders f (n - 1) s
    | none => b :: replacePlaceholders f 0 s

/-- `String::replace_range`, which panics on a range that is out of bounds or cuts a character. -/
def checkedReplaceRange (s : Str) (a b : Nat) (text : Str) : Option Str :=
  if a ≤ b ∧ b ≤ s.length ∧ isCharBoundary s a = true ∧ isCharBoundary s b = true then
    some (replaceRange s a b text)
  else none

/-- From each `<<PII_` that starts no complete placeholder on, 32 bytes and up to the next character. -/
def corruptedFragments (content : Str) : List (Nat × Nat) :=
  let complete := (placeholderMatches 0 0 content).map (·.1)
  let starts := (List.range content.length).filter fun start =>
    str "<<PII_" <+: content.drop start && !complete.contains start
  starts.map fun start =>
    let stop := min (start + 32) content.length
    (start, ((List.range (content.length + 1)).find? fun i =>
      stop ≤ i && isCharBoundary content i).getD content.length)

def replaceCorruptedFragments (content : Str) : Option Str :=
  (corruptedFragments content).reverse.foldlM
    (fun out fragment => checkedReplaceRange out fragment.1 fragment.2 (str "[REDACTED]")) content

/-- `none` is a panic. -/
def GuardrailContext.reinjectSafe (ctx : GuardrailContext) (content : Str) : Option Str :=
  let out := ctx.reinject content
  let complete := ctx.reinjectionMap.map (·.1)
  let out := if 0 < ctx.overflowCount then
      replacePlaceholders (fun m => if m ∈ complete then m else str "[REDACTED]") 0 out
    else out
  replaceCorruptedFragments out

theorem digit_toNat {d : Nat} (h : d < 10) : (UInt8.ofNat (48 + d)).toNat = 48 + d := by
  rw [UInt8.toNat_ofNat', Nat.mod_eq_of_lt (by omega)]

theorem mem_decimal {n : Nat} {b : UInt8} (h : b ∈ decimal n) : b.toNat ≤ 57 := by
  obtain ⟨d, hd, rfl⟩ := List.mem_map.1 h
  have hlt : d < 10 := Nat.digits_lt_base (by omega) (List.mem_reverse.1 hd)
  rw [digit_toNat hlt]
  omega

theorem decimal_injective {n n' : Nat} (h : decimal n = decimal n') : n = n' := by
  have hread : ∀ n, (decimal n).map (fun b => b.toNat - 48) = (Nat.digits 10 n).reverse := by
    intro n
    rw [decimal, List.map_map]
    refine (List.map_congr_left fun d hd => ?_).trans (List.map_id _)
    have hlt : d < 10 := Nat.digits_lt_base (by omega) (List.mem_reverse.1 hd)
    have htoNat := digit_toNat hlt
    simp only [Function.comp_apply, id_eq]
    omega
  have hdigits : (Nat.digits 10 n).reverse = (Nat.digits 10 n').reverse := by
    rw [← hread, ← hread, h]
  exact Nat.digits_inj_iff.1 (List.reverse_injective hdigits)

theorem placeholder_injective {entityType entityType' : Str} {seq seq' : Nat}
    (h : placeholder entityType seq = placeholder entityType' seq') :
    entityType = entityType' ∧ seq = seq' := by
  have hbody : entityType ++ 95 :: decimal seq = entityType' ++ 95 :: decimal seq' := by
    simp only [placeholder_eq, List.cons.injEq, true_and] at h
    have hinner := List.append_cancel_right h
    rw [List.append_assoc, List.append_assoc] at hinner
    exact List.append_cancel_left hinner
  have hno : ∀ n, (95 : UInt8) ∉ (decimal n).reverse := fun n hm =>
    absurd (mem_decimal (List.mem_reverse.1 hm)) (by decide)
  -- the number is what follows the last underscore
  have hrev : (decimal seq).reverse ++ 95 :: entityType.reverse =
      (decimal seq').reverse ++ 95 :: entityType'.reverse := by
    simpa using congrArg List.reverse hbody
  have hdec := eq_of_prefix_before_gt (hno seq) (hno seq') (by rw [hrev])
  have hseq : seq = seq' := decimal_injective (List.reverse_injective hdec)
  subst hseq
  exact ⟨List.append_cancel_right hbody, rfl⟩

theorem bracketed_placeholder {entityType : Str} (hlt : 60 ∉ entityType) (hgt : 62 ∉ entityType)
    (seq : Nat) : Bracketed 60 62 (placeholder entityType seq) := by
  have hdec : ∀ b : UInt8, b ∈ decimal seq → b ≠ 60 ∧ b ≠ 62 := fun b hb => by
    have := mem_decimal hb
    constructor <;> rintro rfl <;> exact absurd this (by decide)
  refine ⟨by decide, _, placeholder_eq entityType seq, ?_, ?_⟩
  · simp only [List.mem_append, List.mem_cons, not_or]
    exact ⟨⟨by decide, hlt⟩, by decide, fun hm => (hdec _ hm).1 rfl⟩
  · simp only [List.mem_append, List.mem_cons, not_or]
    exact ⟨⟨by decide, hgt⟩, by decide, fun hm => (hdec _ hm).2 rfl⟩

theorem mem_normalizeEntityType {label : Str} {b : UInt8} (h : b ∈ normalizeEntityType label) : b ≠ 60 ∧ b ≠ 62 := by
  simp only [normalizeEntityType] at h
  split at h
  · revert b
    decide +kernel
  · obtain ⟨c, -, rfl⟩ := List.mem_map.1 h
    have hall : ∀ c : Fin 256, (if isAsciiAlphanumeric (UInt8.ofFin c) then
        toAsciiUppercase (UInt8.ofFin c) else 95) ≠ 60 ∧ (if isAsciiAlphanumeric (UInt8.ofFin c) then
        toAsciiUppercase (UInt8.ofFin c) else 95) ≠ 62 := by decide +kernel
    exact hall c.toFin

theorem token_injective {seen : List Key} {k k' : Key} (hk : k ∈ seen) (hk' : k' ∈ seen)
    (h : token seen k = token seen k') : k = k' := by
  obtain ⟨htype, hnumber⟩ := placeholder_injective h
  exact number_injective hk hk' htype hnumber

/-! ### The loop undoes the edits one key after the other -/

def between (content : Str) (spans : List Finding) : List Str :=
  pieces content 0 (spans.reverse.map fun f => ⟨f.start, f.stop, []⟩)

/-- When the turn of a key comes, its placeholder does not occur between the spans that are not yet
restored, or it is its own value. -/
def NoStray (seen : List Key) (content : Str) : List Key → List Finding → Prop
  | [], _ => True
  | k :: ks, spans =>
    (token seen k = k.2 ∨ ∀ text ∈ between content spans, ¬ token seen k <:+: text) ∧
      NoStray seen content ks (spans.filter (keyOf content · ≠ k))

instance decidableNoStray (seen : List Key) (content : Str) :
    ∀ ks spans, Decidable (NoStray seen content ks spans)
  | [], _ => isTrue trivial
  | _ :: ks, _ => @instDecidableAnd _ _ _ (decidableNoStray seen content ks _)

theorem pieces_map {xs : List UInt8} {pos : Nat} (text : Finding → Str) (spans : List Finding) :
    pieces xs pos (spans.map fun f => ⟨f.start, f.stop, text f⟩) =
      pieces xs pos (spans.map fun f => ⟨f.start, f.stop, []⟩) := by
  induction spans generalizing pos with
  | nil => rfl
  | cons f spans ih => exact congrArg (slice xs pos f.start :: ·) ih

section
variable {seen : List Key} {content : Str}

theorem between_eq (spans : List Finding) : between content spans = pieces content 0 (tokenEdits seen content spans) :=
  (pieces_map _ _).symm

theorem filter_tokenEdits {k : Key} {spans : List Finding} (hk : k ∈ seen) (hspans : ∀ f ∈ spans, keyOf content f ∈ seen) :
    (tokenEdits seen content spans).filter (·.text ≠ token seen k) =
      tokenEdits seen content (spans.filter (keyOf content · ≠ k)) := by
  rw [tokenEdits, List.filter_map, tokenEdits, ← List.filter_reverse]
  refine congrArg _ (List.filter_congr fun f hf => ?_)
  have hinj : token seen (keyOf content f) = token seen k ↔ keyOf content f = k :=
    ⟨token_injective (hspans f (List.mem_reverse.1 hf)) hk, fun h => by rw [h]⟩
  simp [tokenEdit, hinj]

theorem reinject_step {k : Key} {spans : List Finding} (hplain : ∀ k ∈ seen, 60 ∉ k.1 ∧ 62 ∉ k.1)
    (hk : k ∈ seen) (hspans : ∀ f ∈ spans, keyOf content f ∈ seen)
    (hasc : Ascending content.length 0 (tokenEdits seen content spans))
    (hstray : token seen k = k.2 ∨ ∀ text ∈ between content spans, ¬ token seen k <:+: text) :
    (if token seen k <:+: assemble content 0 (tokenEdits seen content spans) then
        replaceAll (token seen k) k.2 (assemble content 0 (tokenEdits seen content spans))
      else assemble content 0 (tokenEdits seen content spans)) =
      assemble content 0 (tokenEdits seen content (spans.filter (keyOf content · ≠ k))) := by
  have htoken : ∀ k ∈ seen, Bracketed 60 62 (token seen k) := fun k hk =>
    bracketed_placeholder (hplain k hk).1 (hplain k hk).2 _
  have hvalue : ∀ e ∈ tokenEdits seen content spans, e.text = token seen k →
      slice content e.start e.stop = k.2 := by
    intro e he htext
    obtain ⟨f, hf, rfl⟩ := List.mem_map.1 he
    have hkey := token_injective (hspans f (List.mem_reverse.1 hf)) hk htext
    exact congrArg Prod.snd hkey
  have hreplace : replaceAll (token seen k) k.2 (assemble content 0 (tokenEdits seen content spans)) =
      assemble content 0 ((tokenEdits seen content spans).filter (·.text ≠ token seen k)) := by
    rcases hstray with hself | hstray
    · rw [← hself, replaceAll_self (htoken k hk).ne_nil]
      refine (assemble_filter hasc fun e he hno => ?_).symm
      have htext : e.text = token seen k := by simpa using hno
      rw [htext, hself, hvalue e he htext]
    · refine replaceAll_assemble (htoken k hk) hasc (fun e he => ?_) hvalue ?_
      · obtain ⟨f, hf, rfl⟩ := List.mem_map.1 he
        exact htoken _ (hspans f (List.mem_reverse.1 hf))
      · rwa [← between_eq]
  rw [← filter_tokenEdits hk hspans, ← hreplace]
  split
  · rfl
  · rename_i hno
    exact (replaceAll_of_absent hno).symm

theorem reinject_run {ks : List Key} {spans : List Finding}
    (hplain : ∀ k ∈ seen, 60 ∉ k.1 ∧ 62 ∉ k.1) (hks : ∀ k ∈ ks, k ∈ seen)
    (hspans : ∀ f ∈ spans, keyOf content f ∈ seen)
    (hasc : Ascending content.length 0 (tokenEdits seen content spans))
    (hstray : NoStray seen content ks spans) :
    (ks.map fun k => (token seen k, k.2)).foldl
        (fun out entry => if entry.1 <:+: out then replaceAll entry.1 entry.2 out else out)
        (assemble content 0 (tokenEdits seen content spans)) =
      assemble content 0 (tokenEdits seen content (spans.filter (keyOf content · ∉ ks))) := by
  induction ks generalizing spans with
  | nil => simp
  | cons k ks ih =>
    have hk := hks k List.mem_cons_self
    have hasc' : Ascending content.length 0
        (tokenEdits seen content (spans.filter (keyOf content · ≠ k))) := by
      rw [← filter_tokenEdits hk hspans]
      exact hasc.filter _
    rw [List.map_cons, List.foldl_cons, reinject_step hplain hk hspans hasc hstray.1,
      ih (fun k' hk' => hks k' (List.mem_cons_of_mem _ hk'))
        (fun f hf => hspans f (List.mem_of_mem_filter hf)) hasc' hstray.2, List.filter_filter]
    congr 2
    refine List.filter_congr fun f _ => ?_
    simp [Bool.and_comm]

end

theorem plain_of_mem_seenBy {calls : List (Str × List Finding)} {k : Key}
    (h : k ∈ seenBy [] calls) : 60 ∉ k.1 ∧ 62 ∉ k.1 := by
  obtain ⟨call, -, hk⟩ := (mem_seenBy.1 h).resolve_left List.not_mem_nil
  obtain ⟨f, -, rfl⟩ := List.mem_map.1 hk
  exact ⟨fun hm => (mem_normalizeEntityType hm).1 rfl, fun hm => (mem_normalizeEntityType hm).2 rfl⟩

/-- Where no placeholder of the map occurs in text that `redact` did not write, every content comes
back. -/
theorem reinject_redact (cap : Nat) (calls : List (Str × List Finding))
    (hcap : (seenBy [] calls).length ≤ (GuardrailContext.withCapacity cap).maxEntries)
    (hstray : ∀ call ∈ calls, NoStray (seenBy [] calls) call.1 (seenBy [] calls)
      (applied call.1 call.2)) :
    let run := redactAll (GuardrailContext.withCapacity cap) calls
    run.1.map run.2.reinject = calls.map (·.1) := by
  intro run
  have hmap : (table (max 1 (min cap 10000)) (seenBy [] calls)).reinjectionMap =
      (seenBy [] calls).map fun k => (token (seenBy [] calls) k, k.2) := by
    have htake : (seenBy [] calls).take (max 1 (min cap 10000)) = seenBy [] calls :=
      List.take_of_length_le hcap
    simp only [table, htake]
  simp only [run]
  rw [withCapacity_eq, redactAll_eq, List.map_map]
  refine List.map_congr_left fun call hcall => ?_
  have hspans : ∀ f ∈ applied call.1 call.2, keyOf call.1 f ∈ seenBy [] calls := fun f hf =>
    mem_seenBy.2 (.inr ⟨call, hcall, List.mem_map_of_mem hf⟩)
  have hnone : (applied call.1 call.2).filter (keyOf call.1 · ∉ seenBy [] calls) = [] := by
    rw [List.filter_eq_nil_iff]
    intro f hf
    simpa using hspans f hf
  simp only [Function.comp_apply, GuardrailContext.reinject, hmap]
  rw [reinject_run (fun k hk => plain_of_mem_seenBy hk) (fun k hk => hk) hspans
    (ascending_tokenEdits _ _ _) (hstray call hcall), hnone]
  rfl

theorem noStray_of_no_lt {seen : List Key} {content : Str} (h : 60 ∉ content) (ks : List Key)
    (spans : List Finding) : NoStray seen content ks spans := by
  induction ks generalizing spans with
  | nil => trivial
  | cons k ks ih =>
    refine ⟨.inr fun text htext hin => h ?_, ih _⟩
    have hhead : (60 : UInt8) ∈ token seen k := by
      rw [token, placeholder_eq]
      exact List.mem_cons_self
    exact mem_of_mem_pieces htext (hin.subset hhead)

def plainCall : Str × List Finding :=
  (str "a@x to b@y and a@x", [⟨str "email", 0, 3⟩, ⟨str "email", 7, 10⟩, ⟨str "email", 15, 18⟩])

theorem plainCall_comes_back :
    let run := redactAll GuardrailContext.new [plainCall]
    run.1 = [str "<<PII_EMAIL_1>> to <<PII_EMAIL_2>> and <<PII_EMAIL_1>>"] ∧
      run.1.map run.2.reinject = [plainCall.1] := by
  refine ⟨by decide +kernel, reinject_redact 256 [plainCall] (by decide +kernel) ?_⟩
  intro call hcall
  rw [List.mem_singleton.1 hcall]
  exact noStray_of_no_lt (by decide +kernel) _ _

/-- A detected value that has the placeholder of another one in it. -/
def nestedCall : Str × List Finding :=
  (str "a <<PII_X_2>>", [⟨str "X", 0, 1⟩, ⟨str "X", 2, 13⟩])

theorem nestedCall_is_rewritten :
    let run := redactAll GuardrailContext.new [nestedCall]
    (seenBy [] [nestedCall]).length ≤ GuardrailContext.new.maxEntries ∧
      run.1 = [str "<<PII_X_2>> <<PII_X_1>>"] ∧
      run.1.map run.2.reinject = [str "a a"] ∧ [str "a a"] ≠ [nestedCall.1] := by
  decide +kernel

/-- A stray placeholder that another one, further down the map, happens to turn back. -/
def cancellingCalls : List (Str × List Finding) :=
  [(str "<<PII_<<PII_Y_1>>_1>>", []),
    (str "<<PII_<<PII_Y_1>>_1>> X", [⟨str "X", 0, 21⟩, ⟨str "Y", 22, 23⟩])]

example :
    let seen := seenBy [] cancellingCalls
    let run := redactAll GuardrailContext.new cancellingCalls
    ¬ NoStray seen (str "<<PII_<<PII_Y_1>>_1>>") seen [] ∧
      run.1.map run.2.reinject = cancellingCalls.map (·.1) := by
  decide +kernel

end ObeyGateway.Guardrail
