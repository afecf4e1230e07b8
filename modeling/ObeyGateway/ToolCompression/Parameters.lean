import ObeyGateway.ToolCompression.SchemaWalks

/-!
# Parameters under compression

The minifier and the truncator are to keep the name of a tool and, in every schema of an object that is
reached from its parameters through `properties` and `items`, the names of the properties and the list of
the required ones. They lose a parameter whose name they take for a keyword, and a union that is collapsed
may overwrite the properties of the schema that it stands in.
-/

namespace ObeyGateway.ToolCompression

/-- From a schema to one inside: that of a property, that of all items, or that of the item at a place. -/
inductive Step
  | property (name : String)
  | items
  | item (i : Nat)

def child : Step → Json → Option Json
  | .property name, schema => (schema.get "properties").bind (·.get name)
  | .items, schema => schema.get "items"
  | .item i, schema => ((schema.get "items").bind Json.asArray).bind (·[i]?)

def schemaAt : List Step → Json → Option Json
  | [], schema => some schema
  | step :: path, schema => (child step schema).bind (schemaAt path)

def propertyMap (schema : Json) : Option Json.Map := (schema.get "properties").bind Json.asObject

def requiredNames (schema : Json) : Option (List String) :=
  ((schema.get "required").bind Json.asArray).map (·.filterMap Json.asStr)

def parametersAt (path : List Step) (schema : Json) : Option (List String × Option (List String)) :=
  (schemaAt path schema).bind fun s => (propertyMap s).map fun props => (Assoc.keys props, requiredNames s)

/-- Every schema of an object has its property names and its required list still. -/
def KeepsSchemas (before after : Json) : Prop :=
  ∀ path names required, parametersAt path before = some (names, required) →
    ∃ names', parametersAt path after = some (names', required) ∧ ∀ name, name ∈ names' ↔ name ∈ names

def KeepsParameters (raw raw' : Json) : Prop :=
  functionName raw' = functionName raw ∧
    ∀ params, raw.pointer parametersPath = some params →
      ∃ params', raw'.pointer parametersPath = some params' ∧ KeepsSchemas params params'

theorem parametersAt_cons (step : Step) (path : List Step) (schema : Json) :
    parametersAt (step :: path) schema = (child step schema).bind (parametersAt path) := by
  rw [parametersAt, schemaAt, Option.bind_assoc]
  rfl

def schemaKeys : List String := ["properties", "items", "required"]

variable {v w : Json}

theorem child_congr (h : ∀ key ∈ schemaKeys, v.get key = w.get key) (step : Step) : child step v = child step w := by
  cases step <;> simp only [child, h "properties" (by decide), h "items" (by decide)]

theorem parametersAt_congr (h : ∀ key ∈ schemaKeys, v.get key = w.get key)
    (path : List Step) : parametersAt path v = parametersAt path w := by
  cases path with
  | nil =>
    show (propertyMap v).map _ = (propertyMap w).map _
    rw [propertyMap, propertyMap, h "properties" (by decide), requiredNames, requiredNames,
      h "required" (by decide)]
  | cons step path => rw [parametersAt_cons, parametersAt_cons, child_congr h]

section
open Truncator

variable (recurse : Json → Json)

theorem get_removeDescription {map : Json.Map} {key : String} (hkey : key ≠ "description") :
    (Json.object (removeDescription map)).get key = (Json.object map).get key :=
  Assoc.get_erase_of_ne hkey

theorem parametersAt_removeDescription (map : Json.Map) (path : List Step) :
    parametersAt path (.object (removeDescription map)) = parametersAt path (.object map) := by
  refine parametersAt_congr (fun key hkey => get_removeDescription ?_) path
  rintro rfl
  simp [schemaKeys] at hkey

variable {recurse} in
theorem parametersAt_removeFromProp {path : List Step}
    (h : ∀ v, parametersAt path (recurse v) = parametersAt path v) (v : Json) :
    parametersAt path (removeFromProp recurse v) = parametersAt path v := by
  cases v with
  | object prop =>
    show parametersAt path (if _ then recurse _ else _) = _
    split
    · rw [h, parametersAt_removeDescription]
    · exact parametersAt_removeDescription prop path
  | _ => rfl

theorem get_removeDescriptionsFromProperties (v : Json) (key : String) :
    (removeDescriptionsFromProperties v).get key = if key = "properties" then
      (v.get key).map (removeFromProps removeDescriptionsFromProperties) else v.get key := by
  cases v with
  | object obj =>
    rw [removeDescriptionsFromProperties_object]
    show Assoc.get (obj.map _) key = _
    rw [Assoc.get_mapKeyed fun k w =>
      if k = "properties" then removeFromProps removeDescriptionsFromProperties w else w]
    show (Assoc.get obj key).map _ = if _ then (Assoc.get obj key).map _ else Assoc.get obj key
    split
    · rfl
    · rw [Option.map_id']
  | _ => split <;> rfl

theorem get_removeFromProps (v : Json) (name : String) :
    (removeFromProps recurse v).get name = (v.get name).map (removeFromProp recurse) := by
  cases v with
  | object props => exact Assoc.get_map _
  | _ => rfl

theorem keys_removeFromProps (v : Json) :
    (removeFromProps recurse v).asObject.map Assoc.keys = v.asObject.map Assoc.keys := by
  cases v with
  | object props => exact congrArg some (Assoc.keys_map _)
  | _ => rfl

theorem parametersAt_removeDescriptions (path : List Step) (v : Json) :
    parametersAt path (removeDescriptionsFromProperties v) = parametersAt path v := by
  induction path generalizing v with
  | nil =>
    have hrequired : requiredNames (removeDescriptionsFromProperties v) = requiredNames v := by
      rw [requiredNames, get_removeDescriptionsFromProperties, if_neg (by decide), requiredNames]
    have hprops : (propertyMap (removeDescriptionsFromProperties v)).map Assoc.keys =
        (propertyMap v).map Assoc.keys := by
      rw [propertyMap, get_removeDescriptionsFromProperties, if_pos rfl, propertyMap, Option.bind_map,
        Option.map_bind, Option.map_bind]
      exact Option.bind_congr fun w _ => keys_removeFromProps _ w
    have hpair : ∀ s : Json, parametersAt [] s = ((propertyMap s).map Assoc.keys).map (·, requiredNames s) := by
      intro s
      rw [Option.map_map]
      rfl
    rw [hpair, hpair, hrequired, hprops]
  | cons step path ih =>
    rw [parametersAt_cons, parametersAt_cons]
    cases step with
    | property name =>
      rw [child, child, get_removeDescriptionsFromProperties, if_pos rfl, Option.bind_map]
      simp only [Function.comp_def, get_removeFromProps, Option.bind_assoc, Option.bind_map]
      simp only [parametersAt_removeFromProp ih]
    | items | item => rw [child, get_removeDescriptionsFromProperties, if_neg (by decide), child]

end

/-! ### Every schema under the walks -/

def QuietSchema (caps : ProviderCaps) (schema : Json.Map) : Prop :=
  (∀ key ∈ ["properties", "items"], (Assoc.get schema key).isSome = true → Unmasked caps schema key) ∧
    ∀ props, propertyMap (.object schema) = some props →
      Unmasked caps schema "required" ∧ promoted caps props = none

def QuietSchemas (caps : ProviderCaps) (schema : Json) : Prop :=
  ∀ path fields, schemaAt path schema = some (.object fields) → QuietSchema caps fields

def Truncator.NoLosses (truncator : Truncator) (level : CompressionLevel) (schema : Json) : Prop :=
  ∀ path s props, schemaAt path schema = some s → propertyMap s = some props → truncator.NoLoss level props

theorem schemaAt_cons {step : Step} {path : List Step} (hw : child step v = some w) :
    schemaAt (step :: path) v = schemaAt path w := by
  rw [schemaAt, hw, Option.bind_some]

theorem QuietSchemas.child {caps : ProviderCaps} {step : Step} (h : QuietSchemas caps v)
    (hw : child step v = some w) : QuietSchemas caps w :=
  fun path fields hpath => h (step :: path) fields ((schemaAt_cons hw).trans hpath)

theorem object_of_schemaAt (path : List Step) {s : Json} {props : Json.Map}
    (hpath : schemaAt path v = some s) (hprops : propertyMap s = some props) : ∃ fields, v = .object fields := by
  cases v with
  | object fields => exact ⟨fields, rfl⟩
  | _ =>
    cases path with
    | nil =>
      cases hpath
      cases hprops
    | cons step path => cases step <;> cases hpath

namespace Truncator
variable (truncator : Truncator) {caps : ProviderCaps} (level : CompressionLevel)

variable {truncator level} in
theorem NoLosses.child {step : Step} {v w : Json} (h : truncator.NoLosses level v)
    (hw : child step v = some w) : truncator.NoLosses level w :=
  fun path s props hpath => h (step :: path) s props ((schemaAt_cons hw).trans hpath)

def walk (caps : ProviderCaps) (level : CompressionLevel) : Json → Json :=
  runEdits (truncator.walks caps level)

theorem walk_object (fields : Json.Map) : truncator.walk caps level (.object fields) =
    .object (fieldsAfter (truncator.walks caps level) fields) :=
  runEdits_object (truncator.shrinks_walks caps level) fields

variable {fields : Json.Map}

theorem get_walk {key : String} (hkey : key ∉ minifiedKeys) (henum : key ≠ "enum") (h : Unmasked caps fields key) :
    (truncator.walk caps level (.object fields)).get key =
      (Assoc.get fields key).map (truncator.walk caps level) := by
  have hdescription : key ≠ "description" := by
    rintro rfl
    exact hkey (by decide)
  rw [walk_object]
  show Assoc.get (fieldsAfter _ _) key = _
  rw [truncator.get_walks hdescription henum, get_minifyFields hkey h]
  rfl

theorem requiredNames_walk (h : Unmasked caps fields "required") :
    requiredNames (truncator.walk caps level (.object fields)) = requiredNames (.object fields) := by
  rw [requiredNames, truncator.get_walk level (by decide) (by decide) h, requiredNames]
  show _ = ((Assoc.get fields "required").bind Json.asArray).map _
  rw [Option.bind_map, Option.map_bind, Option.map_bind]
  refine Option.bind_congr fun v _ => ?_
  show ((truncator.walk caps level v).asArray).map _ = _
  rw [walk, asArray_runEdits (truncator.shrinks_walks caps level), Option.map_map]
  congr 1
  funext items
  show (items.map _).filterMap Json.asStr = items.filterMap Json.asStr
  rw [List.filterMap_map]
  congr 1
  funext item
  exact asStr_runEdits (truncator.shrinks_walks caps level) item

variable {props : Json.Map}

theorem properties_walk (h : QuietSchema caps fields) (hprops : Assoc.get fields "properties" = some (.object props)) :
    (truncator.walk caps level (.object fields)).get "properties" =
      some (.object (fieldsAfter (truncator.walks caps level) props)) := by
  have hunmasked := h.1 "properties" (by decide) (by rw [hprops]; rfl)
  rw [truncator.get_walk level (by decide) (by decide) hunmasked, hprops, Option.map_some, walk_object]

theorem properties_of_propertyMap (h : propertyMap (.object fields) = some props) :
    Assoc.get fields "properties" = some (.object props) := by
  obtain ⟨v, hv, hobject⟩ := Option.bind_eq_some_iff.1 h
  cases v with
  | object map =>
    cases hobject
    exact hv
  | _ => cases hobject

theorem parameters_walk_iff (h : QuietSchema caps fields) (hprops : propertyMap (.object fields) = some props) :
    (∃ names, parametersAt [] (truncator.walk caps level (.object fields)) =
      some (names, requiredNames (.object fields)) ∧ ∀ name, name ∈ names ↔ name ∈ Assoc.keys props) ↔
    truncator.NoLoss level props := by
  obtain ⟨hrequired, hquiet⟩ := h.2 props hprops
  rw [← truncator.names_iff hquiet]
  have hparams : parametersAt [] (truncator.walk caps level (.object fields)) =
      some (Assoc.keys (fieldsAfter (truncator.walks caps level) props), requiredNames (.object fields)) := by
    show (propertyMap _).map _ = _
    rw [propertyMap, truncator.properties_walk level h (properties_of_propertyMap hprops),
      truncator.requiredNames_walk level hrequired]
    rfl
  rw [hparams]
  constructor
  · rintro ⟨names, heq, hsame⟩
    cases heq
    exact hsame
  · exact fun hsame => ⟨_, rfl, hsame⟩

variable {level}

theorem child_walk {step : Step} {o : Json.Map} (h : QuietSchema caps fields)
    (hno : ∀ props, propertyMap (.object fields) = some props → truncator.NoLoss level props)
    (hchild : child step (.object fields) = some (.object o)) :
    child step (truncator.walk caps level (.object fields)) =
      some (truncator.walk caps level (.object o)) := by
  have hitems : ∀ v, Assoc.get fields "items" = some v →
      (truncator.walk caps level (.object fields)).get "items" = some (truncator.walk caps level v) := by
    intro v hv
    have hunmasked := h.1 "items" (by decide) (by rw [hv]; rfl)
    rw [truncator.get_walk level (by decide) (by decide) hunmasked, hv, Option.map_some]
  cases step with
  | property name =>
    obtain ⟨v, hv, hget⟩ := Option.bind_eq_some_iff.1 hchild
    cases v with
    | object props =>
      have hprops : propertyMap (.object fields) = some props := by
        rw [propertyMap, hv]
        rfl
      rw [child, truncator.properties_walk level h hv]
      exact truncator.get_walks_object (h.2 props hprops).2 (hno props hprops) hget
    | _ => cases hget
  | items => exact hitems _ hchild
  | item i =>
    obtain ⟨items, hsome, hitem⟩ := Option.bind_eq_some_iff.1 hchild
    obtain ⟨v, hv, harray⟩ := Option.bind_eq_some_iff.1 hsome
    rw [child, hitems v hv, Option.bind_some, walk, asArray_runEdits (truncator.shrinks_walks caps level),
      harray, Option.map_some, Option.bind_some, List.getElem?_map, hitem]
    rfl

variable {truncator}

theorem keepsSchemas_walk {v : Json} (hquiet : QuietSchemas caps v) (hno : truncator.NoLosses level v) :
    KeepsSchemas v (truncator.walk caps level v) := by
  intro path names required hparams
  induction path generalizing v with
  | nil =>
    obtain ⟨props, hprops, heq⟩ := Option.map_eq_some_iff.1 hparams
    obtain ⟨fields, rfl⟩ := object_of_schemaAt [] rfl hprops
    cases heq
    exact (truncator.parameters_walk_iff level (hquiet [] fields rfl) hprops).2 (hno [] _ props rfl hprops)
  | cons step path ih =>
    obtain ⟨s, hs, hparams'⟩ := Option.bind_eq_some_iff.1 hparams
    obtain ⟨props, hprops, -⟩ := Option.map_eq_some_iff.1 hparams'
    obtain ⟨fields, rfl⟩ := object_of_schemaAt (step :: path) hs hprops
    obtain ⟨w, hw, hpath⟩ := Option.bind_eq_some_iff.1 hs
    obtain ⟨o, rfl⟩ := object_of_schemaAt path hpath hprops
    rw [parametersAt_cons, hw, Option.bind_some] at hparams
    rw [parametersAt_cons, truncator.child_walk (hquiet [] fields rfl)
      (fun props hprops => hno [] _ props rfl hprops) hw, Option.bind_some]
    exact ih (hquiet.child hw) (hno.child hw) hparams

theorem noLosses_of_keepsSchemas {v : Json} (hquiet : QuietSchemas caps v)
    (hkeeps : KeepsSchemas v (truncator.walk caps level v)) : truncator.NoLosses level v := by
  have hroot : ∀ {fields : Json.Map}, QuietSchemas caps (.object fields) →
      KeepsSchemas (.object fields) (truncator.walk caps level (.object fields)) →
      ∀ props, propertyMap (.object fields) = some props → truncator.NoLoss level props := by
    intro fields hquiet hkeeps props hprops
    refine (truncator.parameters_walk_iff level (hquiet [] fields rfl) hprops).1 (hkeeps [] _ _ ?_)
    show (propertyMap _).map _ = _
    rw [hprops]
    rfl
  intro path s props hpath hprops
  induction path generalizing v with
  | nil =>
    obtain ⟨fields, rfl⟩ := object_of_schemaAt [] hpath hprops
    cases hpath
    exact hroot hquiet hkeeps props hprops
  | cons step path ih =>
    obtain ⟨fields, rfl⟩ := object_of_schemaAt (step :: path) hpath hprops
    obtain ⟨w, hw, hpath⟩ := Option.bind_eq_some_iff.1 hpath
    obtain ⟨o, rfl⟩ := object_of_schemaAt path hpath hprops
    have hwalked := truncator.child_walk (hquiet [] fields rfl) (hroot hquiet hkeeps) hw
    refine ih (hquiet.child hw) (fun path' names required hparams => ?_) hpath
    have hkept := hkeeps (step :: path') names required
    rw [parametersAt_cons, parametersAt_cons, hw, hwalked] at hkept
    exact hkept hparams

end Truncator

/-- No member of a union comes over the function, its name, its parameters, or what is read of these. -/
structure QuietTool (caps : ProviderCaps) (raw : Json) : Prop where
  root : ∀ fields, raw = .object fields → Unmasked caps fields "function"
  name : ∀ function, raw.get "function" = some (.object function) → Unmasked caps function "name"
  parameters : ∀ function, raw.get "function" = some (.object function) →
    (Assoc.get function "parameters").isSome = true → Unmasked caps function "parameters"
  schemas : ∀ params, raw.pointer parametersPath = some params → QuietSchemas caps params

/-- No parameter of the tool, at any depth, has the name of a keyword that is dropped. -/
def Truncator.NoParameterLost (truncator : Truncator) (level : CompressionLevel) (raw : Json) : Prop :=
  ∀ params, raw.pointer parametersPath = some params → truncator.NoLosses level params

namespace Truncator
variable (truncator : Truncator) {caps : ProviderCaps} (level : CompressionLevel) {raw : Json}

variable {key : String}

theorem get_walk_value {v : Json} (hkey : key ∉ minifiedKeys) (henum : key ≠ "enum")
    (h : ∀ fields, v = .object fields → Unmasked caps fields key) :
    (truncator.walk caps level v).get key = (v.get key).map (truncator.walk caps level) := by
  cases v with
  | object fields => exact truncator.get_walk level hkey henum (h fields rfl)
  | array items =>
    rw [walk, runEdits_array (truncator.shrinks_walks caps level)]
    rfl
  | _ =>
    rw [walk, runEdits_leaf fun _ => rfl]
    rfl

theorem pointer_walk (hroot : ∀ fields, raw = .object fields → Unmasked caps fields "function") (hkey : key ∉ minifiedKeys) (henum : key ≠ "enum")
    (h : ∀ function, raw.get "function" = some (.object function) → Unmasked caps function key) :
    (truncator.walk caps level raw).pointer ["function", key] =
      (raw.pointer ["function", key]).map (truncator.walk caps level) := by
  rw [Json.pointer, truncator.get_walk_value level (by decide) (by decide) hroot, Json.pointer,
    Option.bind_map, Option.map_bind]
  refine Option.bind_congr fun function hfunction => ?_
  show (truncator.walk caps level function).pointer [key] = (function.pointer [key]).map _
  rw [Json.pointer_singleton, Json.pointer_singleton]
  refine truncator.get_walk_value level hkey henum fun fields hfields => h fields ?_
  rw [← hfields]
  exact hfunction

theorem functionName_walk (h : QuietTool caps raw) : functionName (truncator.walk caps level raw) = functionName raw := by
  rw [functionName, truncator.pointer_walk level h.root (by decide) (by decide) h.name, functionName,
    Option.bind_map]
  congr 2
  funext v
  exact asStr_runEdits (truncator.shrinks_walks caps level) v

theorem parameters_walk (h : QuietTool caps raw) {params : Json} (hparams : raw.pointer parametersPath = some params) :
    (truncator.walk caps level raw).pointer parametersPath = some (truncator.walk caps level params) := by
  have hunmasked : ∀ function, raw.get "function" = some (.object function) →
      Unmasked caps function "parameters" := by
    intro function hfunction
    refine h.parameters function hfunction ?_
    change (raw.get "function").bind _ = some params at hparams
    rw [hfunction, Option.bind_some, Json.pointer_singleton] at hparams
    change Assoc.get function "parameters" = some params at hparams
    rw [hparams]
    rfl
  rw [parametersPath, truncator.pointer_walk level h.root (by decide) (by decide) hunmasked]
  change (raw.pointer parametersPath).map _ = _
  rw [hparams]
  rfl

theorem keepsParameters_walk_iff (h : QuietTool caps raw) :
    KeepsParameters raw (truncator.walk caps level raw) ↔ truncator.NoParameterLost level raw := by
  constructor
  · rintro ⟨-, hkeeps⟩ params hparams
    obtain ⟨params', hparams', hschemas⟩ := hkeeps params hparams
    rw [truncator.parameters_walk level h hparams] at hparams'
    cases hparams'
    exact noLosses_of_keepsSchemas (h.schemas params hparams) hschemas
  · intro hno
    refine ⟨truncator.functionName_walk level h, fun params hparams => ?_⟩
    exact ⟨_, truncator.parameters_walk level h hparams,
      keepsSchemas_walk (h.schemas params hparams) (hno params hparams)⟩

/-! ### The medium level of a tool -/

def DescriptionOnly (edit : Json → Json) : Prop :=
  ∀ v key, key ≠ "description" → (edit v).get key = v.get key

theorem pointer_describe {edit : Json → Json} (hedit : DescriptionOnly edit) (raw : Json) (hkey : key ≠ "description") :
    (raw.update ["function"] edit).pointer ["function", key] = raw.pointer ["function", key] := by
  show (raw.update ["function"] edit).pointer (["function"] ++ [key]) = raw.pointer (["function"] ++ [key])
  rw [Json.pointer_update, Json.pointer_append]
  refine Option.bind_congr fun function _ => ?_
  rw [Json.pointer_singleton, Json.pointer_singleton, hedit function key hkey]

def describe (tool : ToolDefinition) : Json :=
  match truncator.precomputed tool.name with
  | some desc => setToolDescription desc tool.raw
  | none => truncateToFirstSentence tool.raw

theorem pointer_describe_tool (tool : ToolDefinition) (hkey : key ≠ "description") :
    (truncator.describe tool).pointer ["function", key] = tool.raw.pointer ["function", key] := by
  unfold describe
  split
  · rename_i desc _
    refine pointer_describe (fun v key hkey => ?_) tool.raw hkey
    cases v with
    | object obj => exact Assoc.get_insert_of_ne hkey
    | _ => rfl
  · refine pointer_describe (fun v key hkey => ?_) tool.raw hkey
    cases v with
    | object obj =>
      dsimp only
      split
      · split
        · rfl
        · exact Assoc.get_insert_of_ne hkey
      · rfl
    | _ => rfl

end Truncator

theorem keepsParameters_congr {raw raw' raw'' : Json} {f : Json → Json} (hname : functionName raw'' = functionName raw')
    (hparams : raw''.pointer parametersPath = (raw'.pointer parametersPath).map f)
    (hf : ∀ path v, parametersAt path (f v) = parametersAt path v) :
    KeepsParameters raw raw'' ↔ KeepsParameters raw raw' := by
  have hschemas : ∀ v w, KeepsSchemas v (f w) ↔ KeepsSchemas v w := by
    intro v w
    simp only [KeepsSchemas, hf]
  unfold KeepsParameters
  rw [hname, hparams]
  simp only [Option.map_eq_some_iff]
  constructor
  · rintro ⟨hsame, hkeeps⟩
    refine ⟨hsame, fun params h => ?_⟩
    obtain ⟨_, ⟨params', hparams', rfl⟩, hkept⟩ := hkeeps params h
    exact ⟨params', hparams', (hschemas params params').1 hkept⟩
  · rintro ⟨hsame, hkeeps⟩
    refine ⟨hsame, fun params h => ?_⟩
    obtain ⟨params', hparams', hkept⟩ := hkeeps params h
    exact ⟨_, ⟨params', hparams', rfl⟩, (hschemas params params').2 hkept⟩

namespace Truncator
variable (truncator : Truncator)

theorem keepsParameters_medium (raw : Json) (tool : ToolDefinition) :
    KeepsParameters raw (truncator.truncate .medium tool) ↔ KeepsParameters raw tool.raw := by
  show KeepsParameters raw (removeParamDescriptions (truncator.describe tool)) ↔ _
  have hname : functionName (removeParamDescriptions (truncator.describe tool)) = functionName tool.raw := by
    rw [functionName, functionName, ← truncator.pointer_describe_tool tool (by decide)]
    congr 2
    rw [Json.pointer, removeParamDescriptions, Json.get_update, if_pos rfl, Json.pointer, Option.bind_map]
    refine Option.bind_congr fun function _ => ?_
    show (function.update ["parameters"] _).pointer ["name"] = function.pointer ["name"]
    rw [Json.pointer_singleton, Json.get_update, if_neg (by decide), Json.pointer_singleton]
  have hparams : (removeParamDescriptions (truncator.describe tool)).pointer parametersPath =
      (tool.raw.pointer parametersPath).map removeDescriptionsFromProperties := by
    have hupdate := Json.pointer_update parametersPath removeDescriptionsFromProperties
      (truncator.describe tool) []
    rw [List.append_nil] at hupdate
    refine hupdate.trans ?_
    rw [parametersPath, truncator.pointer_describe_tool tool (by decide)]
    cases tool.raw.pointer ["function", "parameters"] <;> rfl
  exact keepsParameters_congr hname hparams parametersAt_removeDescriptions

/-- The tool after both stages keeps its parameters exactly if none has the name of a keyword. -/
theorem parameters_kept_iff (caps : ProviderCaps) (level : CompressionLevel) (tool : ToolDefinition)
    (hquiet : QuietTool caps tool.raw) :
    KeepsParameters tool.raw
      (truncator.truncate level { tool with raw := minifyValue caps tool.raw }) ↔
    truncator.NoParameterLost level tool.raw := by
  rw [← truncator.keepsParameters_walk_iff level hquiet]
  cases level with
  | medium => exact truncator.keepsParameters_medium _ _
  | _ => exact Iff.rfl

theorem schemaAt_rule {P : Json → Prop} (hstep : ∀ v, P v → ∀ step w, child step v = some w → P w)
    (path : List Step) {v s : Json} (hv : P v) (hpath : schemaAt path v = some s) : P s := by
  induction path generalizing v with
  | nil =>
    cases hpath
    exact hv
  | cons step path ih =>
    obtain ⟨w, hw, hpath⟩ := Option.bind_eq_some_iff.1 hpath
    exact ih (hstep v hv step w hw) hpath

def plain : Truncator := ⟨id, fun _ => none⟩

def queryFields : Json.Map := [("type", .string "string"), ("description", .string "What to look for")]

/-- Filters, or `null`. -/
def filterFields : Json.Map := [("anyOf", .array [
  .object [("type", .string "object"), ("properties", .object [("field", .object [("type", .string "string")])])],
  .object [("type", .string "null")]])]

def searchProps : Json.Map := [("filter", .object filterFields), ("query", .object queryFields)]

def searchFields : Json.Map := [("properties", .object searchProps), ("required", .array [.string "query"]),
  ("title", .string "Search"), ("type", .string "object")]

def searchTool : ToolDefinition where
  raw := .object [("function", .object [("name", .string "search"), ("parameters", .object searchFields)]),
    ("type", .string "function")]
  name := "search"
  contentHash := 0

theorem search_schemas (path : List Step) {s : Json} (hpath : schemaAt path (.object searchFields) = some s) :
    s = .object searchFields ∨ s = .object filterFields ∨ s = .object queryFields := by
  refine schemaAt_rule (P := fun s => s = .object searchFields ∨ s = .object filterFields ∨
    s = .object queryFields) (fun v hv step w hw => ?_) path (.inl rfl) hpath
  rcases hv with rfl | rfl | rfl
  · cases step with
    | property name =>
      have hmem := Assoc.mem_of_get (show Assoc.get searchProps name = some w from hw)
      simp only [searchProps, List.mem_cons, Prod.mk.injEq, List.not_mem_nil, or_false] at hmem
      rcases hmem with ⟨-, rfl⟩ | ⟨-, rfl⟩
      · exact .inr (.inl rfl)
      · exact .inr (.inr rfl)
    | items | item => cases hw
  · cases step <;> cases hw
  · cases step <;> cases hw

theorem unmasked_of_none {caps : ProviderCaps} {map : Json.Map} (h : promoted caps map = none) (key : String) :
    Unmasked caps map key := by
  intro inner hinner
  rw [h] at hinner
  cases hinner

theorem quiet_searchTool : QuietTool ⟨true, true⟩ searchTool.raw where
  root fields hfields := by
    cases hfields
    exact unmasked_of_none rfl _
  name function hfunction := by
    cases hfunction
    exact unmasked_of_none rfl _
  parameters function hfunction _ := by
    cases hfunction
    exact unmasked_of_none rfl _
  schemas params hparams := by
    cases hparams
    intro path fields hpath
    rcases search_schemas path hpath with h | h | h
    · cases h
      refine ⟨fun key _ _ => unmasked_of_none rfl key, fun props hprops => ?_⟩
      cases hprops
      exact ⟨unmasked_of_none rfl _, rfl⟩
    · cases h
      refine ⟨fun key hkey hsome => ?_, nofun⟩
      simp only [List.mem_cons, List.not_mem_nil, or_false] at hkey
      rcases hkey with rfl | rfl <;> cases hsome
    · cases h
      exact ⟨fun key _ _ => unmasked_of_none rfl key, nofun⟩

theorem searchTool_noParameterLost : plain.NoParameterLost .max searchTool.raw := by
  intro params hparams
  cases hparams
  intro path s props hpath hprops
  rcases search_schemas path hpath with rfl | rfl | rfl
  · cases hprops
    intro name schema hget
    have hmem := Assoc.mem_of_get hget
    simp only [searchProps, List.mem_cons, Prod.mk.injEq, List.not_mem_nil, or_false] at hmem
    rcases hmem with ⟨rfl, rfl⟩ | ⟨rfl, rfl⟩ <;> rfl
  · cases hprops
  · cases hprops

/-- A title and descriptions go, a union collapses, and the parameters are kept. -/
theorem searchTool_keeps_parameters : KeepsParameters searchTool.raw
    (plain.truncate .max { searchTool with raw := minifyValue ⟨true, true⟩ searchTool.raw }) :=
  (plain.parameters_kept_iff ⟨true, true⟩ .max searchTool quiet_searchTool).2 searchTool_noParameterLost

def addBook : ToolDefinition where
  raw := .object [("function", .object [("name", .string "add_book"), ("parameters", .object [
    ("properties", .object [("title", .object [("type", .string "string")])]),
    ("required", .array [.string "title"])])])]
  name := "add_book"
  contentHash := 0

/-- A parameter `title` is taken for the title of a schema, and is still required. -/
theorem title_parameter_lost : ¬KeepsParameters addBook.raw
    (plain.truncate .low { addBook with raw := minifyValue ⟨true, true⟩ addBook.raw }) := by
  rintro ⟨-, hkeeps⟩
  obtain ⟨params', hparams', hschemas⟩ := hkeeps _ rfl
  cases hparams'
  obtain ⟨names, hnames, hsame⟩ := hschemas [] ["title"] (some ["title"]) rfl
  cases hnames
  exact absurd ((hsame "title").2 (by decide)) (by decide)

end Truncator

end ObeyGateway.ToolCompression
