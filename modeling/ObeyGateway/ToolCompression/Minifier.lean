import ObeyGateway.Lib.JsonRewrite
import ObeyGateway.Lib.Text
import ObeyGateway.ToolCompression.Types

/-!
# The schema minifier

`stages/minifier.rs`. The whole tool is walked, and at every object fields are dropped and unions of one
member, or of one member and `null`, give way to that member. The walk does not know which objects are
schemas: a map of parameters is edited like one.
-/

namespace ObeyGateway.ToolCompression

def isBlank (text : String) : Bool := (Text.trim text.toList).isEmpty

/-- Without the title, `additionalProperties: false` and a blank description. -/
def stripFields (map : Json.Map) : Json.Map :=
  let map := Assoc.erase map "title"
  let map := if Assoc.get map "additionalProperties" = some (.bool false) then
      Assoc.erase map "additionalProperties"
    else map
  match Assoc.get map "description" with
  | some (.string desc) => if isBlank desc then Assoc.erase map "description" else map
  | _ => map

def isNullType (value : Json) : Bool := (value.get "type").bind Json.asStr = some "null"

/-- The member beside `null`. -/
def findNullablePair : List Json → Option Json
  | [a, b] =>
    if isNullType a && !isNullType b then some b
    else if isNullType b && !isNullType a then some a
    else none
  | _ => none

def mergeInner (inner : Json) (map : Json.Map) : Json.Map :=
  (inner.asObject.getD []).foldl (fun map f => Assoc.insert map f.1 f.2) map

/-- The fields with the union under `key` collapsed, if it can be. -/
def collapseUnion (caps : ProviderCaps) (key : String) (map : Json.Map) : Option Json.Map :=
  match (Assoc.get map key).bind Json.asArray with
  | some [inner] => some (mergeInner inner (Assoc.erase map key))
  | some members =>
    match findNullablePair members with
    | some nonNull =>
      if caps.supportsNullable then
        some (Assoc.insert (mergeInner nonNull (Assoc.erase map key)) "nullable" (.bool true))
      else none
    | none => none
  | none => none

def collapse (caps : ProviderCaps) (map : Json.Map) : Option Json.Map :=
  (collapseUnion caps "anyOf" map).or (collapseUnion caps "oneOf" map)

def minifyFields (caps : ProviderCaps) (map : Json.Map) : Json.Map :=
  let map := stripFields map
  (collapse caps map).getD map

def minifyValue (caps : ProviderCaps) : Json → Json := Json.rewrite (minifyFields caps)

/-- `SchemaMinifier::apply` -/
def minify (encoder : Encoder) (tools : List ToolDefinition) (ctx : CompressionContext) :
    List ToolDefinition × CompressionContext × Nat :=
  let after := tools.map fun tool => { tool with raw := minifyValue ctx.providerCaps tool.raw }
  let totalSaved := ((tools.zip after).map fun (before, after) =>
    encoder.estimateTokens before.raw - encoder.estimateTokens after.raw).sum
  (after, ctx.book "schema_minifier" totalSaved, totalSaved)

theorem mem_mergeInner {inner : Json} {map : Json.Map} {f : String × Json}
    (h : f ∈ mergeInner inner map) : f ∈ map ∨ inner.size > f.2.size := by
  have hfold : ∀ (more fields : Json.Map), f ∈ more.foldl (fun map f => Assoc.insert map f.1 f.2) fields →
      f ∈ fields ∨ f ∈ more := by
    intro more
    induction more with
    | nil => exact fun fields hf => .inl hf
    | cons g more ih =>
      intro fields hf
      rcases ih _ hf with hf | hf
      · rcases Assoc.mem_insert hf with rfl | hf
        · exact .inr List.mem_cons_self
        · exact .inl hf
      · exact .inr (List.mem_cons_of_mem _ hf)
  rcases hfold _ map h with hf | hf
  · exact .inl hf
  · refine .inr ?_
    cases inner with
    | object fields => exact Json.size_field hf
    | _ => cases hf

theorem erase_sublist (map : Json.Map) (key : String) : (Assoc.erase map key).Sublist map :=
  List.filter_sublist

theorem stripFields_sublist (map : Json.Map) : (stripFields map).Sublist map := by
  have htwo : (if Assoc.get (Assoc.erase map "title") "additionalProperties" = some (.bool false) then
      Assoc.erase (Assoc.erase map "title") "additionalProperties"
      else Assoc.erase map "title").Sublist map := by
    split
    · exact (erase_sublist _ _).trans (erase_sublist _ _)
    · exact erase_sublist _ _
  unfold stripFields
  dsimp only
  split
  · split
    · exact (erase_sublist _ _).trans htwo
    · exact htwo
  · exact htwo

/-- What the collapsed fields hold comes from the fields or from a member of the union. -/
theorem size_collapseUnion {caps : ProviderCaps} {key : String} {map merged : Json.Map}
    (h : collapseUnion caps key map = some merged) {f : String × Json} (hf : f ∈ merged) :
    f.2.size < (Json.object map).size := by
  have hmember : ∀ {members : List Json} {inner : Json}, (Assoc.get map key).bind Json.asArray = some members →
      inner ∈ members → f ∈ mergeInner inner (Assoc.erase map key) → f.2.size < (Json.object map).size := by
    intro members inner hget hinner hf
    obtain ⟨v, hv, harray⟩ := Option.bind_eq_some_iff.1 hget
    cases v with
    | array items =>
      cases harray
      have hfield : (Json.array members).size < (Json.object map).size :=
        Json.size_field (Assoc.mem_of_get hv)
      have hitem := Json.size_item hinner
      rcases mem_mergeInner hf with hf | hf
      · exact Json.size_field ((erase_sublist map key).subset hf)
      · omega
    | _ => cases harray
  unfold collapseUnion at h
  split at h
  · rename_i inner hget
    cases h
    exact hmember hget List.mem_cons_self hf
  · rename_i members _ hget
    split at h
    · rename_i nonNull hpair
      split at h
      · cases h
        have hinner : nonNull ∈ members := by
          unfold findNullablePair at hpair
          split at hpair
          · split at hpair
            · cases hpair
              simp
            · split at hpair
              · cases hpair
                simp
              · cases hpair
          · cases hpair
        rcases Assoc.mem_insert hf with rfl | hf
        · rw [Json.size_object]
          exact Nat.succ_pos _
        · exact hmember hget hinner hf
      · cases h
    · cases h
  · cases h

theorem shrinks_minifyFields (caps : ProviderCaps) : Json.Shrinks (minifyFields caps) := by
  intro map f hf
  have hstrip : (Json.object (stripFields map)).size ≤ (Json.object map).size := by
    rw [Json.size_object, Json.size_object]
    have := ((stripFields_sublist map).map (fun f => f.2.size)).sum_le_sum fun _ _ => Nat.zero_le _
    omega
  change f ∈ (collapse caps (stripFields map)).getD (stripFields map) at hf
  rcases hcollapse : collapse caps (stripFields map) with _ | merged
  · rw [hcollapse] at hf
    exact Json.size_field ((stripFields_sublist map).subset hf)
  rw [hcollapse] at hf
  rcases Option.or_eq_some_iff.1 hcollapse with h | ⟨-, h⟩
  · exact lt_of_lt_of_le (size_collapseUnion h hf) hstrip
  · exact lt_of_lt_of_le (size_collapseUnion h hf) hstrip

end ObeyGateway.ToolCompression
