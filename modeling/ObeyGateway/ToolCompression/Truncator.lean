import ObeyGateway.ToolCompression.Minifier

/-!
# The description truncator

`stages/truncator.rs`. At the low level examples are taken out of the descriptions, at the medium level the
tool keeps the first sentence of its description and the parameters lose theirs, at the high level all
descriptions go, and at the maximal level long enumerations too. The patterns for examples and the
descriptions computed beforehand are parameters.
-/

namespace ObeyGateway.ToolCompression

structure Truncator where
  /-- What is left after the matches of the example patterns are taken out. -/
  replaceExamples : String → String
  /-- The compressed description of a tool, by its name. -/
  precomputed : String → Option String

namespace Truncator
variable (truncator : Truncator)

def removeExamplePatterns (desc : String) : String :=
  String.ofList (Text.trim (truncator.replaceExamples desc).toList)

def removeExamplesFields (map : Json.Map) : Json.Map :=
  match Assoc.get map "description" with
  | some (.string desc) =>
    let desc := truncator.removeExamplePatterns desc
    if isBlank desc then Assoc.erase map "description"
    else Assoc.insert map "description" (.string desc)
  | _ => map

def removeExamplesRecursive : Json → Json := Json.rewrite truncator.removeExamplesFields

def removeDescription (map : Json.Map) : Json.Map := Assoc.erase map "description"

def removeAllDescriptions : Json → Json := Json.rewrite removeDescription

def maxEnumEntries : Nat := 5

def replaceLargeEnumFields (map : Json.Map) : Json.Map :=
  match (Assoc.get map "enum").bind Json.asArray with
  | some entries =>
    if maxEnumEntries < entries.length then
      Assoc.insert (Assoc.erase map "enum") "description"
        (.string ("One of " ++ String.ofList (Json.digits entries.length) ++ " allowed values"))
    else map
  | none => map

def replaceLargeEnums : Json → Json := Json.rewrite replaceLargeEnumFields

/-- Up to and with the first `.`, `?` or `!` before a space. -/
def firstSentence : List Char → List Char
  | [] => []
  | c :: text =>
    if c ∈ ['.', '?', '!'] ∧ text.head? = some ' ' then [c] else c :: firstSentence text

def extractFirstSentence (text : String) : String := String.ofList (firstSentence text.toList)

def minPreserveLength : Nat := 20

def truncateToFirstSentence (raw : Json) : Json :=
  raw.update ["function"] fun
    | .object obj =>
      match Assoc.get obj "description" with
      | some (.string desc) =>
        if desc.utf8ByteSize ≤ minPreserveLength then .object obj
        else .object (Assoc.insert obj "description" (.string (extractFirstSentence desc)))
      | _ => .object obj
    | value => value

def setToolDescription (desc : String) (raw : Json) : Json :=
  raw.update ["function"] fun
    | .object obj => .object (Assoc.insert obj "description" (.string desc))
    | value => value

/-- The schema of a parameter; `recurse` goes into its own parameters, if it has some. -/
def removeFromProp (recurse : Json → Json) : Json → Json
  | .object prop =>
    let prop := removeDescription prop
    if (Assoc.get prop "properties").isSome then recurse (.object prop) else .object prop
  | schema => schema

def removeFromProps (recurse : Json → Json) : Json → Json
  | .object props => .object (props.map fun p => (p.1, removeFromProp recurse p.2))
  | value => value

/-- Each round goes into a smaller value, so that the size is fuel enough. -/
def removeFromPropertiesFuel : Nat → Json → Json
  | fuel + 1, .object obj => .object (obj.map fun f =>
      (f.1, if f.1 = "properties" then removeFromProps (removeFromPropertiesFuel fuel) f.2 else f.2))
  | _, value => value

def removeDescriptionsFromProperties (schema : Json) : Json :=
  removeFromPropertiesFuel schema.size schema

def removeParamDescriptions (raw : Json) : Json :=
  raw.update ["function", "parameters"] removeDescriptionsFromProperties

def truncate (level : CompressionLevel) (tool : ToolDefinition) : Json :=
  match level with
  | .low => truncator.removeExamplesRecursive tool.raw
  | .medium =>
    let raw := match truncator.precomputed tool.name with
      | some desc => setToolDescription desc tool.raw
      | none => truncateToFirstSentence tool.raw
    removeParamDescriptions raw
  | .high => removeAllDescriptions tool.raw
  | .max => replaceLargeEnums (removeAllDescriptions tool.raw)

/-- `DescriptionTruncator::apply` -/
def apply (encoder : Encoder) (tools : List ToolDefinition) (ctx : CompressionContext) :
    List ToolDefinition × CompressionContext × Nat :=
  let after := tools.map fun tool => { tool with raw := truncator.truncate ctx.level tool }
  let totalSaved := ((tools.zip after).map fun (before, after) =>
    encoder.estimateTokens before.raw - encoder.estimateTokens after.raw).sum
  (after, ctx.book "description_truncator" totalSaved, totalSaved)

theorem shrinks_removeDescription : Json.Shrinks removeDescription :=
  fun map _ hf => Json.size_field ((erase_sublist map "description").subset hf)

theorem size_removeDescription (map : Json.Map) : (Json.object (removeDescription map)).size ≤ (Json.object map).size := by
  rw [Json.size_object, Json.size_object]
  have := ((erase_sublist map "description").map (fun f => f.2.size)).sum_le_sum fun _ _ => Nat.zero_le _
  exact Nat.succ_le_succ this

theorem size_string_lt (text : String) (map : Json.Map) : (Json.string text).size < (Json.object map).size := by
  rw [Json.size_object]
  exact Nat.succ_pos _

theorem shrinks_removeExamplesFields : Json.Shrinks truncator.removeExamplesFields := by
  intro map f hf
  unfold removeExamplesFields at hf
  split at hf
  · dsimp only at hf
    split at hf
    · exact Json.size_field ((erase_sublist map _).subset hf)
    · rcases Assoc.mem_insert hf with rfl | hf
      · exact size_string_lt _ map
      · exact Json.size_field hf
  · exact Json.size_field hf

theorem shrinks_replaceLargeEnumFields : Json.Shrinks replaceLargeEnumFields := by
  intro map f hf
  unfold replaceLargeEnumFields at hf
  split at hf
  · split at hf
    · rcases Assoc.mem_insert hf with rfl | hf
      · exact size_string_lt _ map
      · exact Json.size_field ((erase_sublist map _).subset hf)
    · exact Json.size_field hf
  · exact Json.size_field hf

theorem removeFromProps_congr {recurse recurse' : Json → Json} {v : Json}
    (h : ∀ w, w.size < v.size → recurse w = recurse' w) :
    removeFromProps recurse v = removeFromProps recurse' v := by
  cases v with
  | object props =>
    have hsame : props.map (fun p => (p.1, removeFromProp recurse p.2)) =
        props.map fun p => (p.1, removeFromProp recurse' p.2) := by
      refine List.map_congr_left fun p hp => Prod.ext rfl ?_
      have hprop := Json.size_field hp
      cases hschema : p.2 with
      | object prop =>
        rw [hschema] at hprop
        have hsmaller := size_removeDescription prop
        rw [removeFromProp, removeFromProp, h _ (by omega)]
      | _ => rfl
    rw [removeFromProps, removeFromProps, hsame]
  | _ => rfl

theorem removeFromPropertiesFuel_eq {n k : Nat} {v : Json} (hn : v.size ≤ n) (hk : v.size ≤ k) :
    removeFromPropertiesFuel n v = removeFromPropertiesFuel k v := by
  induction n generalizing k v with
  | zero =>
    cases v with
    | object fields => exact absurd hn (by rw [Json.size_object]; omega)
    | _ => cases k <;> rfl
  | succ n ih =>
    cases k with
    | zero =>
      cases v with
      | object fields => exact absurd hk (by rw [Json.size_object]; omega)
      | _ => rfl
    | succ k =>
      cases v with
      | object obj =>
        have hfields : ∀ f ∈ obj, removeFromProps (removeFromPropertiesFuel n) f.2 =
            removeFromProps (removeFromPropertiesFuel k) f.2 := by
          intro f hf
          have hfield := Json.size_field hf
          exact removeFromProps_congr fun w hw => ih (by omega) (by omega)
        rw [removeFromPropertiesFuel, removeFromPropertiesFuel]
        congr 1
        refine List.map_congr_left fun f hf => ?_
        rw [hfields f hf]
      | _ => rfl

theorem removeDescriptionsFromProperties_object (obj : Json.Map) :
    removeDescriptionsFromProperties (.object obj) = .object (obj.map fun f =>
      (f.1, if f.1 = "properties" then removeFromProps removeDescriptionsFromProperties f.2 else f.2)) := by
  obtain ⟨n, hn⟩ : ∃ n, (Json.object obj).size = n + 1 := ⟨_, Json.size_object obj⟩
  rw [removeDescriptionsFromProperties, hn, removeFromPropertiesFuel]
  congr 1
  refine List.map_congr_left fun f hf => ?_
  have hfield := Json.size_field hf
  rw [removeFromProps_congr fun w hw => removeFromPropertiesFuel_eq (v := w) (by omega) le_rfl]
  rfl

end Truncator

end ObeyGateway.ToolCompression
