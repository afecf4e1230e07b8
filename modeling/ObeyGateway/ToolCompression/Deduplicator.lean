import ObeyGateway.Lib.Buckets
import ObeyGateway.Lib.JsonOrder
import ObeyGateway.ToolCompression.Types

/-!
# The schema deduplicator

`stages/deduplicator.rs`: a parameter schema that occurs often enough is written once under `$defs`, and its
occurrences become references to it. The definitions are put into a tool over those that it has, and into
every tool in which some parameter is a reference: what the tool's own references point to is lost.
-/

namespace ObeyGateway.ToolCompression

open Buckets

def propertiesOf (raw : Json) : Option Json.Map :=
  (raw.pointer (parametersPath ++ ["properties"])).bind Json.asObject

structure SchemaEntry where
  toolIdx : Nat
  propertyKey : String
  canonical : List Char
  hash : UInt64
  tokenEstimate : Nat

/-- The format `{:016x}`. -/
def hashHex (hash : UInt64) : String :=
  String.ofList ((List.range 16).map fun i => Json.hexDigits.getD (hash.toNat / 16 ^ (15 - i) % 16) '0')

def defsPointer (name : String) : String := "#/$defs/" ++ name

def reference (hash : UInt64) : Json := .object [("$ref", .string (defsPointer (hashHex hash)))]

def totalWithoutDedup (inlineTokens duplicates : Nat) : Nat := duplicates * inlineTokens

def totalWithDedup (inlineTokens duplicates : Nat) : Nat := inlineTokens + 5 + duplicates * 10

def isWorthwhile (inlineTokens duplicates : Nat) : Bool :=
  2 ≤ duplicates && totalWithDedup inlineTokens duplicates < totalWithoutDedup inlineTokens duplicates

def insertProperty (key : String) (schema : Json) (raw : Json) : Json :=
  raw.update (parametersPath ++ ["properties"]) fun
    | .object props => .object (Assoc.insert props key schema)
    | value => value

def hasRef (params : Json.Map) : Bool :=
  (((Assoc.get params "properties").bind Json.asObject).getD []).any fun p => (p.2.get "$ref").isSome

def injectDefs (defs : Json.Map) (raw : Json) : Json :=
  raw.update parametersPath fun
    | .object params =>
      if hasRef params then .object (Assoc.insert params "$defs" (.object defs)) else .object params
    | value => value

structure DedupState where
  tools : List ToolDefinition
  defsToInject : Json.Map
  totalSaved : Nat

section
variable (encoder : Encoder) (parse : List Char → Option Json)

def canonicalize (value : Json) : List Char := encoder.toText value.normalize

def computeHash (schema : Json) : UInt64 := encoder.hash (canonicalize encoder schema)

def schemaEntry (toolIdx : Nat) (property : String × Json) : SchemaEntry :=
  let canonical := canonicalize encoder property.2
  { toolIdx, propertyKey := property.1, canonical, hash := encoder.hash canonical
    tokenEstimate := Encoder.textTokens canonical }

def schemaEntries (tools : List ToolDefinition) : List SchemaEntry :=
  tools.zipIdx.flatMap fun (tool, toolIdx) =>
    ((propertiesOf tool.raw).getD []).map (schemaEntry encoder toolIdx)

def replaceEntry (entries : List SchemaEntry) (schema : Json) (tools : List ToolDefinition) (idx : Nat) :
    List ToolDefinition :=
  match entries[idx]? with
  | none => tools
  | some entry => tools.modify entry.toolIdx fun tool =>
    { tool with raw := insertProperty entry.propertyKey schema tool.raw }

def dedupGroup (entries : List SchemaEntry) (state : DedupState) (group : UInt64 × List Nat) :
    DedupState :=
  match group.2.head?.bind (entries[·]?) with
  | none => state
  | some representative =>
    let inlineTokens := representative.tokenEstimate
    let duplicates := group.2.length
    if !isWorthwhile inlineTokens duplicates then state
    else
      { tools := group.2.foldl (replaceEntry entries (reference representative.hash)) state.tools
        defsToInject := Assoc.insert state.defsToInject (hashHex representative.hash)
          ((parse representative.canonical).getD .null)
        totalSaved := state.totalSaved +
          (totalWithoutDedup inlineTokens duplicates - totalWithDedup inlineTokens duplicates) }

def dedupGroups (hashed : HashOrder) (tools : List ToolDefinition) : DedupState :=
  let entries := schemaEntries encoder tools
  let groups := groupPositions (·.hash) entries
  (hashed.order groups).foldl (dedupGroup parse entries) ⟨tools, [], 0⟩

/-- `SchemaDeduplicator::apply` -/
def deduplicate (hashed : HashOrder) (tools : List ToolDefinition) (ctx : CompressionContext) :
    List ToolDefinition × CompressionContext × Nat :=
  if !ctx.providerCaps.supportsRef then (tools, ctx, 0)
  else
    let state := dedupGroups encoder parse hashed tools
    let tools := if state.defsToInject.isEmpty then state.tools
      else state.tools.map fun tool => { tool with raw := injectDefs state.defsToInject tool.raw }
    (tools, ctx.book "schema_deduplicator" state.totalSaved, state.totalSaved)

end

def propOf (raw : Json) (key : String) : Option Json := (propertiesOf raw).bind (Assoc.get · key)

def defOf (raw : Json) (name : String) : Option Json := raw.pointer (parametersPath ++ ["$defs", name])

def refersAtTop (raw : Json) : Bool := ((propertiesOf raw).getD []).any fun p => (p.2.get "$ref").isSome

section
variable (raw : Json) (key : String) (schema : Json) (defs : Json.Map)

theorem propertiesOf_insertProperty : propertiesOf (insertProperty key schema raw) =
    (propertiesOf raw).map (Assoc.insert · key schema) := by
  have hupdate := Json.pointer_update (parametersPath ++ ["properties"]) (fun
    | .object props => .object (Assoc.insert props key schema)
    | value => value) raw []
  rw [List.append_nil] at hupdate
  rw [propertiesOf, insertProperty, hupdate, propertiesOf]
  cases raw.pointer (parametersPath ++ ["properties"]) with
  | none => rfl
  | some value => cases value <;> rfl

theorem update_append (path rest : List String) (f : Json → Json) (v : Json) :
    v.update (path ++ rest) f = v.update path (Json.update rest f) := by
  induction path generalizing v with
  | nil => rfl
  | cons key path ih =>
    rw [List.cons_append]
    cases v with
    | object fields =>
      rw [Json.update, Json.update]
      simp only [ih]
    | _ => rfl

theorem defOf_insertProperty (name : String) : defOf (insertProperty key schema raw) name = defOf raw name := by
  rw [defOf, insertProperty, update_append, Json.pointer_update, defOf, Json.pointer_append]
  refine Option.bind_congr fun params _ => ?_
  rw [Json.pointer, Json.get_update, if_neg (by decide)]
  rfl

theorem refersAtTop_eq {params : Json.Map} (hparams : raw.pointer parametersPath = some (.object params)) :
    hasRef params = refersAtTop raw := by
  rw [hasRef, refersAtTop, propertiesOf, Json.pointer_append, hparams, Option.bind_some,
    Json.pointer_singleton]
  rfl

theorem propertiesOf_injectDefs : propertiesOf (injectDefs defs raw) = propertiesOf raw := by
  rw [propertiesOf, injectDefs, Json.pointer_update, propertiesOf, Json.pointer_append]
  congr 1
  refine Option.bind_congr fun params _ => ?_
  cases params with
  | object params =>
    show (if hasRef params then _ else _ : Json).pointer _ = _
    split
    · show (Assoc.get (Assoc.insert params _ _) "properties").bind _ = _
      rw [Assoc.get_insert_of_ne (by decide)]
      rfl
    · rfl
  | _ => rfl

theorem defOf_injectDefs (name : String) : defOf (injectDefs defs raw) name =
    if refersAtTop raw then Assoc.get defs name else defOf raw name := by
  rw [defOf, injectDefs, Json.pointer_update, defOf, Json.pointer_append]
  rcases hparams : raw.pointer parametersPath with _ | value
  · have hnone : refersAtTop raw = false := by
      rw [refersAtTop, propertiesOf, Json.pointer_append, hparams]
      rfl
    rw [hnone]
    rfl
  rw [Option.bind_some, Option.bind_some]
  cases value with
  | object params =>
    rw [← refersAtTop_eq raw hparams]
    show (if hasRef params then _ else _ : Json).pointer _ = _
    split
    · rw [Json.pointer, Json.get, Assoc.get_insert_self, Option.bind_some, Json.pointer_singleton]
      rfl
    · rfl
  | _ =>
    have hnone : refersAtTop raw = false := by
      rw [refersAtTop, propertiesOf, Json.pointer_append, hparams]
      rfl
    rw [hnone]
    rfl

end

def DistinctProps (raw : Json) : Prop := ∀ props, propertiesOf raw = some props → (Assoc.keys props).Nodup

variable {raw : Json}

theorem distinctProps_of_nodupKeys (hraw : raw.nodupKeys = true) : DistinctProps raw := by
  intro props hprops
  obtain ⟨value, hvalue, hobject⟩ := Option.bind_eq_some_iff.1 hprops
  cases value with
  | object fields =>
    cases hobject
    exact (Json.nodupKeys_object.1 (Json.nodupKeys_pointer hraw hvalue)).1
  | _ => cases hobject

theorem mem_properties (hraw : DistinctProps raw) {p : String × Json} :
    p ∈ (propertiesOf raw).getD [] ↔ propOf raw p.1 = some p.2 := by
  rw [propOf]
  cases hprops : propertiesOf raw with
  | none => simp
  | some props => exact Assoc.mem_iff_get (hraw props hprops)

theorem refersAtTop_iff (hraw : DistinctProps raw) :
    refersAtTop raw = true ↔ ∃ key v, propOf raw key = some v ∧ (v.get "$ref").isSome = true := by
  rw [refersAtTop, List.any_eq_true]
  constructor
  · rintro ⟨p, hp, href⟩
    exact ⟨p.1, p.2, (mem_properties hraw).1 hp, href⟩
  · rintro ⟨key, v, hv, href⟩
    exact ⟨(key, v), (mem_properties hraw).2 hv, href⟩

/-! ### One replacement -/

theorem DistinctProps.insertProperty (hraw : DistinctProps raw) (key : String)
    (schema : Json) : DistinctProps (insertProperty key schema raw) := by
  intro props hprops
  rw [propertiesOf_insertProperty] at hprops
  obtain ⟨before, hbefore, rfl⟩ := Option.map_eq_some_iff.1 hprops
  exact Assoc.nodup_insert (hraw before hbefore)

theorem propOf_insertProperty (hraw : (propertiesOf raw).isSome = true) (key : String) (schema : Json) (key' : String) :
    propOf (insertProperty key schema raw) key' = if key' = key then some schema else propOf raw key' := by
  obtain ⟨props, hprops⟩ := Option.isSome_iff_exists.1 hraw
  rw [propOf, propertiesOf_insertProperty, propOf, hprops]
  exact Assoc.get_insert

section
variable (encoder : Encoder) {tools tools' : List ToolDefinition}

/-- The tools after the parameters in `done` have been replaced by references. -/
structure Replaced (tools : List ToolDefinition) (done : Nat → String → Prop)
    (tools' : List ToolDefinition) : Prop where
  length : tools'.length = tools.length
  distinct : ∀ t' ∈ tools', DistinctProps t'.raw
  tool : ∀ (i : Nat) (t t' : ToolDefinition), tools[i]? = some t → tools'[i]? = some t' →
    (∀ name, defOf t'.raw name = defOf t.raw name) ∧ ∀ key,
      (done i key → propOf t'.raw key =
        (propOf t.raw key).map fun v => reference (computeHash encoder v)) ∧
      (¬ done i key → propOf t'.raw key = propOf t.raw key)

variable {encoder}

theorem Replaced.refl (hdistinct : ∀ t ∈ tools, DistinctProps t.raw) : Replaced encoder tools (fun _ _ => False) tools := by
  refine ⟨rfl, hdistinct, fun i t t' ht ht' => ?_⟩
  rw [ht] at ht'
  cases ht'
  exact ⟨fun _ => rfl, fun _ => ⟨False.elim, fun _ => rfl⟩⟩

variable {done : Nat → String → Prop} {entries : List SchemaEntry}

theorem Replaced.congr (h : Replaced encoder tools done tools') {done' : Nat → String → Prop}
    (hdone : ∀ i key, done i key ↔ done' i key) : Replaced encoder tools done' tools' := by
  have hsame : done = done' := funext fun i => funext fun key => propext (hdone i key)
  rwa [← hsame]

def EntryOf (encoder : Encoder) (tools : List ToolDefinition) (e : SchemaEntry) : Prop :=
  ∃ t v, tools[e.toolIdx]? = some t ∧ propOf t.raw e.propertyKey = some v ∧
    e = schemaEntry encoder e.toolIdx (e.propertyKey, v)

theorem isSome_propertiesOf {raw : Json} {key : String} (h : (propOf raw key).isSome = true) :
    (propertiesOf raw).isSome = true := by
  rw [propOf] at h
  cases hprops : propertiesOf raw with
  | none =>
    rw [hprops] at h
    cases h
  | some props => rfl

theorem Replaced.step (h : Replaced encoder tools done tools') {idx : Nat} {e : SchemaEntry}
    (hidx : entries[idx]? = some e) (he : EntryOf encoder tools e) :
    Replaced encoder tools (fun i key => done i key ∨ (i = e.toolIdx ∧ key = e.propertyKey))
      (replaceEntry entries (reference e.hash) tools' idx) := by
  obtain ⟨t₀, v, ht₀, hv, heq⟩ := he
  have hhash : e.hash = computeHash encoder v := by
    rw [heq]
    rfl
  rw [replaceEntry, hidx]
  refine ⟨by rw [List.length_modify, h.length], fun t'' hmem => ?_, fun i t t'' ht ht'' => ?_⟩
  · obtain ⟨i, hi⟩ := List.mem_iff_getElem?.1 hmem
    change (tools'.modify e.toolIdx _)[i]? = _ at hi
    rw [List.getElem?_modify] at hi
    obtain ⟨t', ht', rfl⟩ := Option.map_eq_some_iff.1 hi
    have hdistinct := h.distinct t' (List.mem_of_getElem? ht')
    split
    · exact hdistinct.insertProperty _ _
    · exact hdistinct
  change (tools'.modify e.toolIdx _)[i]? = _ at ht''
  rw [List.getElem?_modify] at ht''
  obtain ⟨t', ht', rfl⟩ := Option.map_eq_some_iff.1 ht''
  obtain ⟨hdefs, hprops⟩ := h.tool i t t' ht ht'
  by_cases hi : e.toolIdx = i
  · rw [if_pos hi]
    rw [hi, ht] at ht₀
    cases ht₀
    have hkey : (propOf t'.raw e.propertyKey).isSome = true := by
      obtain ⟨hdone, hkept⟩ := hprops e.propertyKey
      by_cases hd : done i e.propertyKey
      · rw [hdone hd, hv]
        rfl
      · rw [hkept hd, hv]
        rfl
    refine ⟨fun name => (defOf_insertProperty _ _ _ name).trans (hdefs name), fun key => ?_⟩
    show (_ → propOf (insertProperty _ _ _) key = _) ∧ (_ → propOf (insertProperty _ _ _) key = _)
    rw [propOf_insertProperty (isSome_propertiesOf hkey)]
    by_cases hk : key = e.propertyKey
    · rw [if_pos hk, hk, hv, hhash]
      exact ⟨fun _ => rfl, fun hnot => absurd (.inr ⟨hi.symm, rfl⟩) hnot⟩
    · rw [if_neg hk]
      obtain ⟨hdone, hkept⟩ := hprops key
      exact ⟨fun hd => hdone (hd.resolve_right fun h => hk h.2), fun hnot => hkept fun hd => hnot (.inl hd)⟩
  · rw [if_neg hi]
    refine ⟨hdefs, fun key => ?_⟩
    obtain ⟨hdone, hkept⟩ := hprops key
    exact ⟨fun hd => hdone (hd.resolve_right fun h => hi h.1.symm), fun hnot => hkept fun hd => hnot (.inl hd)⟩

theorem Replaced.foldl (h : Replaced encoder tools done tools') {todo : List (Nat × Json)}
    (htodo : ∀ p ∈ todo, ∃ e, entries[p.1]? = some e ∧ p.2 = reference e.hash ∧ EntryOf encoder tools e) :
    Replaced encoder tools
      (fun i key => done i key ∨ ∃ p ∈ todo, ∃ e, entries[p.1]? = some e ∧ e.toolIdx = i ∧ e.propertyKey = key)
      (todo.foldl (fun tools p => replaceEntry entries p.2 tools p.1) tools') := by
  induction todo generalizing done tools' with
  | nil => simpa using h
  | cons p todo ih =>
    obtain ⟨e, hidx, hschema, he⟩ := htodo p List.mem_cons_self
    rw [List.foldl_cons, hschema]
    refine (ih (h.step hidx he) fun q hq => htodo q (List.mem_cons_of_mem _ hq)).congr fun i key => ?_
    constructor
    · rintro ((hd | ⟨rfl, rfl⟩) | ⟨q, hq, hrest⟩)
      · exact .inl hd
      · exact .inr ⟨p, List.mem_cons_self, e, hidx, rfl, rfl⟩
      · exact .inr ⟨q, List.mem_cons_of_mem _ hq, hrest⟩
    · rintro (hd | ⟨q, hq, e', he', hi, hk⟩)
      · exact .inl (.inl hd)
      · rcases List.mem_cons.1 hq with rfl | hq
        · rw [hidx] at he'
          cases he'
          exact .inl (.inr ⟨hi.symm, hk.symm⟩)
        · exact .inr ⟨q, hq, e', he', hi, hk⟩

end

def paying (entries : List SchemaEntry) (group : UInt64 × List Nat) : Option SchemaEntry :=
  (group.2.head?.bind (entries[·]?)).filter fun e => isWorthwhile e.tokenEstimate group.2.length

section
variable (parse : List Char → Option Json) (entries : List SchemaEntry)

theorem dedupGroup_none {state : DedupState} {group : UInt64 × List Nat}
    (h : paying entries group = none) : dedupGroup parse entries state group = state := by
  rw [paying] at h
  rw [dedupGroup]
  rcases hrep : group.2.head?.bind (entries[·]?) with _ | e
  · rfl
  rw [hrep] at h
  have hnot : isWorthwhile e.tokenEstimate group.2.length = false := by simpa using h
  simp [hnot]

theorem dedupGroup_some (state : DedupState) {group : UInt64 × List Nat} {e : SchemaEntry}
    (h : paying entries group = some e) :
    (dedupGroup parse entries state group).tools =
      group.2.foldl (replaceEntry entries (reference e.hash)) state.tools ∧
    (dedupGroup parse entries state group).defsToInject =
      Assoc.insert state.defsToInject (hashHex e.hash) ((parse e.canonical).getD .null) := by
  obtain ⟨hrep, hpays⟩ := Option.filter_eq_some_iff.1 h
  rw [dedupGroup, hrep]
  simp [hpays]

def replacements (groups : List (UInt64 × List Nat)) : List (Nat × Json) :=
  groups.flatMap fun group => ((paying entries group).map fun e =>
    group.2.map fun idx => (idx, reference e.hash)).getD []

def definitions (groups : List (UInt64 × List Nat)) : Json.Map :=
  groups.filterMap fun group => (paying entries group).map fun e =>
    (hashHex e.hash, (parse e.canonical).getD .null)

theorem foldl_dedupGroup (groups : List (UInt64 × List Nat)) (state : DedupState) :
    (groups.foldl (dedupGroup parse entries) state).tools =
      (replacements entries groups).foldl (fun tools p => replaceEntry entries p.2 tools p.1)
        state.tools ∧
    (groups.foldl (dedupGroup parse entries) state).defsToInject =
      (definitions parse entries groups).foldl (fun defs p => Assoc.insert defs p.1 p.2)
        state.defsToInject := by
  induction groups generalizing state with
  | nil => exact ⟨rfl, rfl⟩
  | cons group groups ih =>
    obtain ⟨htools, hdefs⟩ := ih (dedupGroup parse entries state group)
    have hreplace : replacements entries (group :: groups) = ((paying entries group).map fun e =>
        group.2.map fun idx => (idx, reference e.hash)).getD [] ++ replacements entries groups :=
      List.flatMap_cons
    rw [List.foldl_cons, htools, hdefs, hreplace, List.foldl_append]
    rcases hpaying : paying entries group with _ | e
    · have hsame : definitions parse entries (group :: groups) = definitions parse entries groups :=
        List.filterMap_cons_none (by rw [hpaying]; rfl)
      rw [dedupGroup_none parse entries hpaying, hsame]
      exact ⟨rfl, rfl⟩
    have hmore : definitions parse entries (group :: groups) =
        (hashHex e.hash, (parse e.canonical).getD .null) :: definitions parse entries groups :=
      List.filterMap_cons_some (by rw [hpaying]; rfl)
    obtain ⟨hgroup, hdef⟩ := dedupGroup_some parse entries state hpaying
    rw [hgroup, hdef, hmore, Option.map_some, Option.getD_some, List.foldl_map]
    exact ⟨rfl, rfl⟩

end

section
variable (encoder : Encoder) (parse : List Char → Option Json) (tools : List ToolDefinition)

def allSchemas : List Json := tools.flatMap fun t => ((propertiesOf t.raw).getD []).map (·.2)

def occurrences (schema : Json) : Nat :=
  ((allSchemas tools).filter fun s => canonicalize encoder s = canonicalize encoder schema).length

def isShared (schema : Json) : Bool :=
  isWorthwhile (Encoder.textTokens (canonicalize encoder schema)) (occurrences encoder tools schema)

/-- No object has a key twice, the hash tells the canonical texts that occur apart, and they are read back
as what was written. -/
structure Dependable : Prop where
  keys : ∀ t ∈ tools, t.raw.nodupKeys = true
  hash : ∀ v ∈ allSchemas tools, ∀ w ∈ allSchemas tools, computeHash encoder v = computeHash encoder w →
    canonicalize encoder v = canonicalize encoder w
  read : ∀ v ∈ allSchemas tools, parse (canonicalize encoder v) = some v.normalize

variable {encoder parse tools}

theorem Dependable.distinct (h : Dependable encoder parse tools) : ∀ t ∈ tools, DistinctProps t.raw :=
  fun t ht => distinctProps_of_nodupKeys (h.keys t ht)

theorem mem_allSchemas (h : Dependable encoder parse tools) {v : Json} :
    v ∈ allSchemas tools ↔ ∃ t ∈ tools, ∃ key, propOf t.raw key = some v := by
  rw [allSchemas, List.mem_flatMap]
  refine exists_congr fun t => and_congr_right fun ht => ?_
  rw [List.mem_map]
  constructor
  · rintro ⟨p, hp, rfl⟩
    exact ⟨p.1, (mem_properties (h.distinct t ht)).1 hp⟩
  · rintro ⟨key, hkey⟩
    exact ⟨(key, v), (mem_properties (h.distinct t ht)).2 hkey, rfl⟩

theorem mem_schemaEntries (h : Dependable encoder parse tools) {e : SchemaEntry} :
    e ∈ schemaEntries encoder tools ↔ EntryOf encoder tools e := by
  rw [schemaEntries, List.mem_flatMap]
  constructor
  · rintro ⟨⟨t, i⟩, ht, he⟩
    obtain ⟨p, hp, rfl⟩ := List.mem_map.1 he
    have hget : tools[i]? = some t := List.mem_zipIdx_iff_getElem?.1 ht
    have hdistinct := h.distinct t (List.mem_of_getElem? hget)
    exact ⟨t, p.2, hget, (mem_properties hdistinct).1 hp, rfl⟩
  · rintro ⟨t, v, ht, hv, heq⟩
    have hdistinct := h.distinct t (List.mem_of_getElem? ht)
    refine ⟨(t, e.toolIdx), List.mem_zipIdx_iff_getElem?.2 ht, List.mem_map.2 ?_⟩
    exact ⟨(e.propertyKey, v), (mem_properties hdistinct).2 hv, heq.symm⟩

theorem EntryOf.schema (h : Dependable encoder parse tools) {e : SchemaEntry}
    (he : EntryOf encoder tools e) : ∃ v ∈ allSchemas tools, e.canonical = canonicalize encoder v ∧
      e.hash = computeHash encoder v ∧
      e.tokenEstimate = Encoder.textTokens (canonicalize encoder v) := by
  obtain ⟨t, v, ht, hv, heq⟩ := he
  refine ⟨v, (mem_allSchemas h).2 ⟨t, List.mem_of_getElem? ht, _, hv⟩, ?_⟩
  rw [heq]
  exact ⟨rfl, rfl, rfl⟩

theorem map_canonical : (schemaEntries encoder tools).map (·.canonical) =
    (allSchemas tools).map (canonicalize encoder) := by
  rw [schemaEntries, allSchemas, List.map_flatMap, List.map_flatMap]
  have hfst : tools = tools.zipIdx.map (·.1) := (List.zipIdx_map_fst ..).symm
  conv_rhs => rw [hfst, List.flatMap_map]
  refine List.flatMap_congr fun e _ => ?_
  rw [List.map_map, List.map_map]
  rfl

theorem length_filter_hash (h : Dependable encoder parse tools) {v : Json} (hv : v ∈ allSchemas tools) :
    ((schemaEntries encoder tools).filter (·.hash = computeHash encoder v)).length =
      occurrences encoder tools v := by
  let sameHash := fun c => decide (encoder.hash c = computeHash encoder v)
  have hentries : (schemaEntries encoder tools).filter (·.hash = computeHash encoder v) =
      (schemaEntries encoder tools).filter (sameHash ∘ (·.canonical)) := by
    refine List.filter_congr fun e he => ?_
    obtain ⟨w, -, hcanonical, hhash, -⟩ := ((mem_schemaEntries h).1 he).schema h
    show decide (e.hash = _) = decide (encoder.hash e.canonical = _)
    rw [hhash, hcanonical]
    rfl
  have hschemas : (allSchemas tools).filter (sameHash ∘ canonicalize encoder) =
      (allSchemas tools).filter fun s => canonicalize encoder s = canonicalize encoder v := by
    refine List.filter_congr fun w hw => ?_
    show decide (computeHash encoder w = computeHash encoder v) = _
    rw [decide_eq_decide]
    exact ⟨h.hash w hw v hv, fun heq => congrArg encoder.hash heq⟩
  have hlength : ∀ {α : Type} (f : α → List Char) (l : List α),
      (l.filter (sameHash ∘ f)).length = ((l.map f).filter sameHash).length := by
    intro α f l
    rw [List.filter_map, List.length_map]
  rw [hentries, hlength, map_canonical, ← hlength, hschemas]
  rfl

end

theorem hexDigit_injective : ∀ a < 16, ∀ b < 16, Json.hexDigits.getD a '0' = Json.hexDigits.getD b '0' → a = b := by
  decide +kernel

theorem mod_pow_eq {a b k : Nat} (h : ∀ i < k, a / 16 ^ i % 16 = b / 16 ^ i % 16) : a % 16 ^ k = b % 16 ^ k := by
  induction k with
  | zero => rw [pow_zero, Nat.mod_one, Nat.mod_one]
  | succ k ih =>
    rw [Nat.mod_pow_succ, Nat.mod_pow_succ, ih fun i hi => h i (by omega), h k (by omega)]

theorem hashHex_injective {a b : UInt64} (h : hashHex a = hashHex b) : a = b := by
  have hlist := String.ofList_injective h
  have hdigits : ∀ i < 16, a.toNat / 16 ^ i % 16 = b.toNat / 16 ^ i % 16 := by
    intro i hi
    have hdigit := List.map_inj_left.1 hlist (15 - i) (List.mem_range.2 (by omega))
    have hsub : 15 - (15 - i) = i := by omega
    rw [hsub] at hdigit
    exact hexDigit_injective _ (Nat.mod_lt _ (by omega)) _ (Nat.mod_lt _ (by omega)) hdigit
  have hmod := mod_pow_eq hdigits
  have ha := a.toNat_lt
  have hb := b.toNat_lt
  rw [Nat.mod_eq_of_lt (by omega), Nat.mod_eq_of_lt (by omega)] at hmod
  exact UInt64.toNat_inj.1 hmod

/-! ### Groups and shared schemas -/

section
variable {encoder : Encoder} {parse : List Char → Option Json} {tools : List ToolDefinition}

variable (encoder tools) in
def hashGroups : List (UInt64 × List Nat) := groupPositions (·.hash) (schemaEntries encoder tools)

theorem sorts_hashGroups : Sorts (hashGroups encoder tools) (List.range (schemaEntries encoder tools).length)
    fun i => (((schemaEntries encoder tools)[i]?).map (·.hash)).getD 0 :=
  sorts_groupPositions fun i e he => by rw [he]; rfl

variable {group : UInt64 × List Nat}

theorem group_eq (hg : group ∈ hashGroups encoder tools) : group.2 = bucket (hashGroups encoder tools) group.1 := by
  rw [bucket, (Assoc.mem_iff_get sorts_hashGroups.nodup).1 hg]
  rfl

theorem mem_group (hg : group ∈ hashGroups encoder tools) {idx : Nat} :
    idx ∈ group.2 ↔ ∃ e, (schemaEntries encoder tools)[idx]? = some e ∧ e.hash = group.1 := by
  rw [group_eq hg, (sorts_hashGroups.bucket _).mem_iff, List.mem_filter, List.mem_range,
    decide_eq_true_iff]
  constructor
  · rintro ⟨hlt, hhash⟩
    have hget := List.getElem?_eq_getElem hlt
    rw [hget] at hhash
    exact ⟨_, hget, hhash⟩
  · rintro ⟨e, hget, hhash⟩
    refine ⟨(List.getElem?_eq_some_iff.1 hget).1, ?_⟩
    rw [hget]
    exact hhash

variable {v : Json}

/-- A group belongs to the schema of any of its entries, and pays exactly if that is shared. -/
theorem paying_spec (h : Dependable encoder parse tools) (hg : group ∈ hashGroups encoder tools) (hv : v ∈ allSchemas tools)
    (hhash : group.1 = computeHash encoder v) :
    (isShared encoder tools v = false → paying (schemaEntries encoder tools) group = none) ∧
    (isShared encoder tools v = true → ∃ e, paying (schemaEntries encoder tools) group = some e ∧
      e.hash = computeHash encoder v ∧ e.canonical = canonicalize encoder v) := by
  have hlength : group.2.length = occurrences encoder tools v := by
    rw [group_eq hg, (sorts_hashGroups.bucket _).length_eq, ← length_filter_hash h hv, length_positions]
    intro i e he
    rw [he, decide_eq_true_iff, hhash]
    rfl
  have hne : group.2 ≠ [] := by
    rw [group_eq hg]
    exact sorts_hashGroups.nonempty _ (List.mem_map_of_mem hg)
  obtain ⟨idx, rest, hcons⟩ := List.exists_cons_of_ne_nil hne
  obtain ⟨e, hget, he⟩ := (mem_group hg).1 (by rw [hcons]; exact List.mem_cons_self)
  obtain ⟨w, hw, hcanonical, hehash, htokens⟩ :=
    ((mem_schemaEntries h).1 (List.mem_of_getElem? hget)).schema h
  have hsame : canonicalize encoder w = canonicalize encoder v :=
    h.hash w hw v hv (by rw [← hehash, he, hhash])
  have hpaying : paying (schemaEntries encoder tools) group =
      (some e).filter fun e => isShared encoder tools v := by
    rw [paying, hcons, List.head?_cons, Option.bind_some, hget, ← hcons, hlength]
    simp only [Option.filter_some, htokens, hsame]
    rfl
  rw [hpaying]
  constructor
  · intro hnot
    simp [hnot]
  · intro hshared
    refine ⟨e, by simp [hshared], by rw [he, hhash], by rw [hcanonical, hsame]⟩

theorem normalize_eq (h : Dependable encoder parse tools) {w : Json} (hv : v ∈ allSchemas tools)
    (hw : w ∈ allSchemas tools) (hhash : computeHash encoder v = computeHash encoder w) :
    v.normalize = w.normalize :=
  Json.print_injective (h.hash v hv w hw hhash)

theorem isShared_congr {w : Json} (hsame : canonicalize encoder v = canonicalize encoder w) :
    isShared encoder tools v = isShared encoder tools w := by
  simp only [isShared, occurrences, hsame]

theorem exists_group (h : Dependable encoder parse tools) (hv : v ∈ allSchemas tools) :
    ∃ group ∈ hashGroups encoder tools, group.1 = computeHash encoder v := by
  obtain ⟨t, ht, key, hkey⟩ := (mem_allSchemas h).1 hv
  obtain ⟨i, hi⟩ := List.mem_iff_getElem?.1 ht
  have he : schemaEntry encoder i (key, v) ∈ schemaEntries encoder tools :=
    (mem_schemaEntries h).2 ⟨t, v, hi, hkey, rfl⟩
  obtain ⟨idx, hidx⟩ := List.mem_iff_getElem?.1 he
  have hkeys : computeHash encoder v ∈ Assoc.keys (hashGroups encoder tools) := by
    refine sorts_hashGroups.mem_keys.2 ⟨idx, List.mem_range.2 (List.getElem?_eq_some_iff.1 hidx).1, ?_⟩
    rw [hidx]
    rfl
  obtain ⟨group, hgroup, heq⟩ := List.mem_map.1 hkeys
  exact ⟨group, hgroup, heq⟩

theorem group_schema (h : Dependable encoder parse tools) (hg : group ∈ hashGroups encoder tools) :
    ∃ v ∈ allSchemas tools, group.1 = computeHash encoder v := by
  obtain ⟨idx, hidx, heq⟩ := sorts_hashGroups.mem_keys.1 (List.mem_map_of_mem hg)
  have hget := List.getElem?_eq_getElem (List.mem_range.1 hidx)
  obtain ⟨v, hv, -, hhash, -⟩ := ((mem_schemaEntries h).1 (List.mem_of_getElem? hget)).schema h
  refine ⟨v, hv, ?_⟩
  rw [← heq, hget, ← hhash]
  rfl

theorem of_mem_definitions (h : Dependable encoder parse tools) (hashed : HashOrder) {p : String × Json}
    (hp : p ∈ definitions parse (schemaEntries encoder tools) (hashed.order (hashGroups encoder tools))) :
    ∃ v ∈ allSchemas tools, isShared encoder tools v = true ∧
      p = (hashHex (computeHash encoder v), v.normalize) := by
  obtain ⟨group, hgroup, hsome⟩ := List.mem_filterMap.1 hp
  have hg := (hashed.perm _).mem_iff.1 hgroup
  obtain ⟨v, hv, hhash⟩ := group_schema h hg
  obtain ⟨hnone, hpays⟩ := paying_spec h hg hv hhash
  by_cases hshared : isShared encoder tools v = true
  · obtain ⟨e, he, hehash, hcanonical⟩ := hpays hshared
    rw [he, Option.map_some, hehash, hcanonical, h.read v hv] at hsome
    cases hsome
    exact ⟨v, hv, hshared, rfl⟩
  · rw [hnone (by simpa using hshared)] at hsome
    cases hsome

theorem name_mem_definitions (h : Dependable encoder parse tools) (hashed : HashOrder)
    (hv : v ∈ allSchemas tools) (hshared : isShared encoder tools v = true) :
    hashHex (computeHash encoder v) ∈ Assoc.keys (definitions parse (schemaEntries encoder tools)
      (hashed.order (hashGroups encoder tools))) := by
  obtain ⟨group, hg, hhash⟩ := exists_group h hv
  obtain ⟨e, he, hehash, -⟩ := (paying_spec h hg hv hhash).2 hshared
  refine List.mem_map.2 ⟨(hashHex (computeHash encoder v), (parse e.canonical).getD .null),
    List.mem_filterMap.2 ⟨group, (hashed.perm _).mem_iff.2 hg, ?_⟩, rfl⟩
  rw [he, Option.map_some, hehash]

variable (parse) in
theorem get_definitions (h : Dependable encoder parse tools) (hashed : HashOrder) {name : String}
    {s : Json} : Assoc.get (dedupGroups encoder parse hashed tools).defsToInject name = some s ↔
      ∃ v ∈ allSchemas tools, isShared encoder tools v = true ∧
        hashHex (computeHash encoder v) = name ∧ s = v.normalize := by
  have hdefs := (foldl_dedupGroup parse (schemaEntries encoder tools)
    (hashed.order (hashGroups encoder tools)) ⟨tools, [], 0⟩).2
  change (dedupGroups encoder parse hashed tools).defsToInject = _ at hdefs
  have hget : ∀ v ∈ allSchemas tools, hashHex (computeHash encoder v) ∈ Assoc.keys (definitions parse
      (schemaEntries encoder tools) (hashed.order (hashGroups encoder tools))) →
      Assoc.get (dedupGroups encoder parse hashed tools).defsToInject
        (hashHex (computeHash encoder v)) = some v.normalize := by
    intro v hv hname
    rw [hdefs, Assoc.get_foldl_insert_of_forall, if_pos hname]
    intro p hp hkey
    obtain ⟨w, hw, -, rfl⟩ := of_mem_definitions h hashed hp
    exact normalize_eq h hw hv (hashHex_injective hkey)
  constructor
  · intro hsome
    have hname : name ∈ Assoc.keys (definitions parse (schemaEntries encoder tools)
        (hashed.order (hashGroups encoder tools))) := by
      by_contra hnot
      rw [hdefs, Assoc.get_foldl_insert_of_notMem hnot] at hsome
      cases hsome
    obtain ⟨p, hp, rfl⟩ := List.mem_map.1 hname
    obtain ⟨v, hv, hshared, rfl⟩ := of_mem_definitions h hashed hp
    rw [hget v hv hname] at hsome
    cases hsome
    exact ⟨v, hv, hshared, rfl, rfl⟩
  · rintro ⟨v, hv, hshared, rfl, rfl⟩
    exact hget v hv (name_mem_definitions h hashed hv hshared)

theorem mem_replacements (h : Dependable encoder parse tools) (hashed : HashOrder) {p : Nat × Json} :
    p ∈ replacements (schemaEntries encoder tools) (hashed.order (hashGroups encoder tools)) ↔
      ∃ e v, (schemaEntries encoder tools)[p.1]? = some e ∧ v ∈ allSchemas tools ∧
        e.hash = computeHash encoder v ∧ isShared encoder tools v = true ∧ p.2 = reference e.hash := by
  rw [replacements, List.mem_flatMap]
  constructor
  · rintro ⟨group, hgroup, hmem⟩
    have hg := (hashed.perm _).mem_iff.1 hgroup
    obtain ⟨v, hv, hhash⟩ := group_schema h hg
    obtain ⟨hnone, hpays⟩ := paying_spec h hg hv hhash
    by_cases hshared : isShared encoder tools v = true
    · obtain ⟨e₀, he₀, hehash, -⟩ := hpays hshared
      rw [he₀, Option.map_some, Option.getD_some] at hmem
      obtain ⟨idx, hidx, rfl⟩ := List.mem_map.1 hmem
      obtain ⟨e, hget, he⟩ := (mem_group hg).1 hidx
      exact ⟨e, v, hget, hv, he.trans hhash, hshared, by rw [hehash, he, hhash]⟩
    · rw [hnone (by simpa using hshared)] at hmem
      cases hmem
  · rintro ⟨e, v, hget, hv, hhash, hshared, hp⟩
    obtain ⟨group, hg, hgroup⟩ := exists_group h hv
    obtain ⟨e₀, he₀, hehash, -⟩ := (paying_spec h hg hv hgroup).2 hshared
    refine ⟨group, (hashed.perm _).mem_iff.2 hg, ?_⟩
    rw [he₀, Option.map_some, Option.getD_some]
    refine List.mem_map.2 ⟨p.1, (mem_group hg).2 ⟨e, hget, hhash.trans hgroup.symm⟩, ?_⟩
    rw [hehash, ← hhash, ← hp]

/-- The parameters that are replaced are those whose schema is shared. -/
theorem replaced_dedupGroups (h : Dependable encoder parse tools) (hashed : HashOrder) : Replaced encoder tools
      (fun i key => ∃ t v, tools[i]? = some t ∧ propOf t.raw key = some v ∧
        isShared encoder tools v = true)
      (dedupGroups encoder parse hashed tools).tools := by
  have htools := (foldl_dedupGroup parse (schemaEntries encoder tools)
    (hashed.order (hashGroups encoder tools)) ⟨tools, [], 0⟩).1
  change (dedupGroups encoder parse hashed tools).tools = _ at htools
  rw [htools]
  refine ((Replaced.refl h.distinct).foldl fun p hp => ?_).congr fun i key => ?_
  · obtain ⟨e, v, hget, -, -, -, hschema⟩ := (mem_replacements h hashed).1 hp
    exact ⟨e, hget, hschema, (mem_schemaEntries h).1 (List.mem_of_getElem? hget)⟩
  · rw [false_or]
    constructor
    · rintro ⟨p, hp, e, he, rfl, rfl⟩
      obtain ⟨e', v, hget, hv, hhash, hshared, -⟩ := (mem_replacements h hashed).1 hp
      rw [he] at hget
      cases hget
      obtain ⟨t, w, ht, hw, heq⟩ := (mem_schemaEntries h).1 (List.mem_of_getElem? he)
      have hwmem : w ∈ allSchemas tools := (mem_allSchemas h).2 ⟨t, List.mem_of_getElem? ht, _, hw⟩
      have hsame : computeHash encoder w = computeHash encoder v := by
        rw [← hhash, heq]
        rfl
      refine ⟨t, w, ht, hw, ?_⟩
      rwa [isShared_congr (h.hash w hwmem v hv hsame)]
    · rintro ⟨t, v, ht, hv, hshared⟩
      have hmem : v ∈ allSchemas tools := (mem_allSchemas h).2 ⟨t, List.mem_of_getElem? ht, _, hv⟩
      have he : schemaEntry encoder i (key, v) ∈ schemaEntries encoder tools :=
        (mem_schemaEntries h).2 ⟨t, v, ht, hv, rfl⟩
      obtain ⟨idx, hidx⟩ := List.mem_iff_getElem?.1 he
      exact ⟨(idx, _), (mem_replacements h hashed).2 ⟨_, v, hidx, hmem, rfl, hshared, rfl⟩, _, hidx,
        rfl, rfl⟩

end

end ObeyGateway.ToolCompression
