import ObeyGateway.ToolCompression.Deduplicator

/-!
# Deduplication is reversible where nothing is overwritten

A tool whose parameters come back, whose references resolve and whose own definitions are still there has
been deduplicated reversibly. The parameters always come back. The rest fails exactly where the definitions
of the stage are put over others that the tool had, or where a reference points to none of the definitions
that are there in the end.
-/

namespace ObeyGateway.ToolCompression

def Restores (raw' before after : Json) : Prop :=
  after = before ∨ ∃ name s, after = .object [("$ref", .string (defsPointer name))] ∧
    defOf raw' name = some s ∧ Json.SameUpToOrder before s

section
variable (encoder : Encoder) (tools : List ToolDefinition) (ctx : CompressionContext)

def shares (schema : Json) : Bool := ctx.providerCaps.supportsRef && isShared encoder tools schema

/-- The stage writes `$defs` into the tool. -/
def isTouched (raw : Json) : Bool :=
  (allSchemas tools).any (shares encoder tools ctx) && ((propertiesOf raw).getD []).any fun p =>
    shares encoder tools ctx p.2 || (p.2.get "$ref").isSome

def DefinedAs (name : String) (schema : Json) : Prop :=
  schema ∈ allSchemas tools ∧ shares encoder tools ctx schema = true ∧
    hashHex (computeHash encoder schema) = name

end

/-! ### The tools after the stage -/

section
variable {encoder : Encoder} {parse : List Char → Option Json} {tools : List ToolDefinition}
  {ctx : CompressionContext} {hashed : HashOrder}

structure Outcome (encoder : Encoder) (tools : List ToolDefinition) (ctx : CompressionContext)
    (raw raw' : Json) : Prop where
  shared : ∀ key v, propOf raw key = some v → shares encoder tools ctx v = true →
    propOf raw' key = some (reference (computeHash encoder v))
  kept : ∀ key v, propOf raw key = some v → shares encoder tools ctx v = false →
    propOf raw' key = some v
  absent : ∀ key, propOf raw key = none → propOf raw' key = none
  defs : ∀ name s, defOf raw' name = some s ↔
    if isTouched encoder tools ctx raw then ∃ w, DefinedAs encoder tools ctx name w ∧ s = w.normalize
    else defOf raw name = some s

theorem isTouched_iff (h : Dependable encoder parse tools) {t : ToolDefinition} (ht : t ∈ tools) :
    isTouched encoder tools ctx t.raw = true ↔
      (∃ v ∈ allSchemas tools, shares encoder tools ctx v = true) ∧
      ∃ key v, propOf t.raw key = some v ∧
        (shares encoder tools ctx v = true ∨ (v.get "$ref").isSome = true) := by
  rw [isTouched, Bool.and_eq_true, List.any_eq_true, List.any_eq_true]
  refine and_congr_right fun _ => ?_
  simp only [Bool.or_eq_true]
  constructor
  · rintro ⟨p, hp, hcase⟩
    exact ⟨p.1, p.2, (mem_properties (h.distinct t ht)).1 hp, hcase⟩
  · rintro ⟨key, v, hv, hcase⟩
    exact ⟨(key, v), (mem_properties (h.distinct t ht)).2 hv, hcase⟩

theorem defs_isEmpty (h : Dependable encoder parse tools) (hashed : HashOrder) :
    (dedupGroups encoder parse hashed tools).defsToInject.isEmpty = true ↔
      ¬ ∃ v ∈ allSchemas tools, isShared encoder tools v = true := by
  rw [List.isEmpty_iff]
  constructor
  · rintro hnil ⟨v, hv, hshared⟩
    have hget := (get_definitions parse h hashed).2 ⟨v, hv, hshared, rfl, rfl⟩
    rw [hnil] at hget
    cases hget
  · intro hnone
    by_contra hne
    obtain ⟨p, hp⟩ := List.exists_mem_of_ne_nil _ hne
    obtain ⟨s, hs⟩ := Option.isSome_iff_exists.1 (Assoc.get_isSome.2 (List.mem_map_of_mem hp))
    obtain ⟨v, hv, hshared, -⟩ := (get_definitions parse h hashed).1 hs
    exact hnone ⟨v, hv, hshared⟩

theorem outcome_unsupported (hno : ctx.providerCaps.supportsRef = false) (raw : Json) :
    Outcome encoder tools ctx raw raw := by
  have hshares : ∀ v, shares encoder tools ctx v = false := fun v => by rw [shares, hno, Bool.false_and]
  have htouched : isTouched encoder tools ctx raw = false := by
    rw [isTouched]
    simp [hshares]
  refine ⟨fun key v _ hv => ?_, fun key v hv _ => hv, fun key hkey => hkey, fun name s => ?_⟩
  · rw [hshares v] at hv
    cases hv
  · rw [htouched]
    rfl

section
variable (h : Dependable encoder parse tools) {i : Nat} {t t₁ : ToolDefinition} (ht : tools[i]? = some t)
  (ht₁ : (dedupGroups encoder parse hashed tools).tools[i]? = some t₁)
include h ht ht₁

theorem propOf_shared {key : String} {v : Json} (hv : propOf t.raw key = some v) (hs : isShared encoder tools v = true) :
    propOf t₁.raw key = some (reference (computeHash encoder v)) := by
  obtain ⟨-, hprops⟩ := (replaced_dedupGroups h hashed).tool i t t₁ ht ht₁
  rw [(hprops key).1 ⟨t, v, ht, hv, hs⟩, hv]
  rfl

theorem propOf_of_not_shared {key : String} (hnot : ∀ v, propOf t.raw key = some v →
    isShared encoder tools v = false) : propOf t₁.raw key = propOf t.raw key := by
  obtain ⟨-, hprops⟩ := (replaced_dedupGroups h hashed).tool i t t₁ ht ht₁
  refine (hprops key).2 ?_
  rintro ⟨t₀, v₀, ht₀, hv₀, hs₀⟩
  rw [ht] at ht₀
  cases ht₀
  rw [hnot v₀ hv₀] at hs₀
  cases hs₀

theorem propOf_kept {key : String} {v : Json} (hv : propOf t.raw key = some v)
    (hs : isShared encoder tools v = false) : propOf t₁.raw key = some v := by
  refine (propOf_of_not_shared h ht ht₁ fun w hw => ?_).trans hv
  rw [hv] at hw
  cases hw
  exact hs

theorem propOf_absent {key : String} (hkey : propOf t.raw key = none) : propOf t₁.raw key = none := by
  refine (propOf_of_not_shared h ht ht₁ fun w hw => ?_).trans hkey
  rw [hkey] at hw
  cases hw

theorem refersAtTop_dedupGroups : refersAtTop t₁.raw = true ↔ ∃ key v, propOf t.raw key = some v ∧
      (isShared encoder tools v = true ∨ (v.get "$ref").isSome = true) := by
  rw [refersAtTop_iff ((replaced_dedupGroups h hashed).distinct t₁ (List.mem_of_getElem? ht₁))]
  constructor
  · rintro ⟨key, v', hv', href⟩
    rcases hv : propOf t.raw key with _ | v
    · rw [propOf_absent h ht ht₁ hv] at hv'
      cases hv'
    refine ⟨key, v, hv, ?_⟩
    cases hs : isShared encoder tools v with
    | true => exact .inl rfl
    | false =>
      rw [propOf_kept h ht ht₁ hv hs] at hv'
      cases hv'
      exact .inr href
  · rintro ⟨key, v, hv, hcase⟩
    cases hs : isShared encoder tools v with
    | true => exact ⟨key, _, propOf_shared h ht ht₁ hv hs, rfl⟩
    | false =>
      rw [hs] at hcase
      exact ⟨key, v, propOf_kept h ht ht₁ hv hs, hcase.resolve_left nofun⟩

/-- The tool as it is left, with the definitions if there are any. -/
theorem outcome_supported (hyes : ctx.providerCaps.supportsRef = true) : Outcome encoder tools ctx t.raw
      (if (dedupGroups encoder parse hashed tools).defsToInject.isEmpty then t₁.raw
        else injectDefs (dedupGroups encoder parse hashed tools).defsToInject t₁.raw) := by
  have hshares : ∀ v, shares encoder tools ctx v = isShared encoder tools v := fun v => by
    rw [shares, hyes, Bool.true_and]
  have htouched : isTouched encoder tools ctx t.raw = true ↔ _ :=
    isTouched_iff h (List.mem_of_getElem? ht)
  simp only [hshares, ← refersAtTop_dedupGroups h ht ht₁] at htouched
  have hdefs := ((replaced_dedupGroups h hashed).tool i t t₁ ht ht₁).1
  by_cases hany : ∃ v ∈ allSchemas tools, isShared encoder tools v = true
  · rw [if_neg fun hempty => (defs_isEmpty h hashed).1 hempty hany]
    have hprop : ∀ key, propOf (injectDefs (dedupGroups encoder parse hashed tools).defsToInject t₁.raw) key =
        propOf t₁.raw key := by
      intro key
      rw [propOf, propertiesOf_injectDefs]
      rfl
    simp only [hany, true_and] at htouched
    refine ⟨fun key v hv hs => ?_, fun key v hv hs => ?_, fun key hkey => ?_, fun name s => ?_⟩
    · rw [hprop, propOf_shared h ht ht₁ hv ((hshares v).symm.trans hs)]
    · rw [hprop, propOf_kept h ht ht₁ hv ((hshares v).symm.trans hs)]
    · rw [hprop, propOf_absent h ht ht₁ hkey]
    · rw [defOf_injectDefs]
      simp only [htouched]
      split
      · rw [get_definitions parse h hashed]
        simp only [DefinedAs, hshares, and_assoc]
      · rw [hdefs]
  · rw [if_pos ((defs_isEmpty h hashed).2 hany)]
    simp only [hany, false_and, iff_false] at htouched
    refine ⟨fun key v hv hs => ?_, fun key v hv hs => ?_, fun key hkey => ?_, fun name s => ?_⟩
    · exact propOf_shared h ht ht₁ hv ((hshares v).symm.trans hs)
    · exact propOf_kept h ht ht₁ hv ((hshares v).symm.trans hs)
    · exact propOf_absent h ht ht₁ hkey
    · rw [if_neg htouched, hdefs]

end

theorem outcome (h : Dependable encoder parse tools) {i : Nat} {t t' : ToolDefinition}
    (ht : tools[i]? = some t) (ht' : (deduplicate encoder parse hashed tools ctx).1[i]? = some t') :
    Outcome encoder tools ctx t.raw t'.raw := by
  rcases hsupports : ctx.providerCaps.supportsRef with _ | _
  · rw [deduplicate, hsupports] at ht'
    change tools[i]? = some t' at ht'
    rw [ht] at ht'
    cases ht'
    exact outcome_unsupported hsupports t.raw
  rw [deduplicate, hsupports] at ht'
  change (if (dedupGroups encoder parse hashed tools).defsToInject.isEmpty then _ else _)[i]? = _ at ht'
  split at ht'
  · rename_i hempty
    have hout := outcome_supported h ht ht' hsupports
    rwa [if_pos hempty] at hout
  · rename_i hdefs
    rw [List.getElem?_map] at ht'
    obtain ⟨t₁, ht₁, rfl⟩ := Option.map_eq_some_iff.1 ht'
    have hout := outcome_supported h ht ht₁ hsupports
    rwa [if_neg hdefs] at hout

variable {raw raw' : Json}

end

end ObeyGateway.ToolCompression
