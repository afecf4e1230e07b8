import ObeyGateway.ToolCompression.Truncator

/-!
# Series of walks

The minifier and then the truncator walk over a tool. Here is what one object becomes: which fields are the
same in all walks, and which parameters of a map of parameters are lost, since their name is one of the
keywords that the walks drop.
-/

namespace ObeyGateway.ToolCompression

/-! ### A series of walks -/

def runEdits (edits : List (Json.Map → Json.Map)) (v : Json) : Json :=
  edits.foldl (fun v edit => Json.rewrite edit v) v

def fieldsAfter : List (Json.Map → Json.Map) → Json.Map → Json.Map
  | [], map => map
  | edit :: edits, map => fieldsAfter edits ((edit map).map fun f => (f.1, Json.rewrite edit f.2))

section
variable {edits : List (Json.Map → Json.Map)}

theorem get_fieldsAfter {key : String}
    (hkey : ∀ edit ∈ edits, ∀ map, Assoc.get (edit map) key = Assoc.get map key) (map : Json.Map) :
    Assoc.get (fieldsAfter edits map) key = (Assoc.get map key).map (runEdits edits) := by
  induction edits generalizing map with
  | nil =>
    show Assoc.get map key = (Assoc.get map key).map fun v => v
    rw [Option.map_id']
  | cons edit edits ih =>
    rw [fieldsAfter, ih fun e he => hkey e (List.mem_cons_of_mem _ he), Assoc.get_map,
      hkey edit List.mem_cons_self, Option.map_map]
    rfl

variable (hedits : ∀ edit ∈ edits, Json.Shrinks edit)
include hedits

theorem runEdits_object (map : Json.Map) : runEdits edits (.object map) = .object (fieldsAfter edits map) := by
  induction edits generalizing map with
  | nil => rfl
  | cons edit edits ih =>
    show runEdits edits (Json.rewrite edit (.object map)) = _
    rw [Json.rewrite_object (hedits edit List.mem_cons_self),
      ih fun e he => hedits e (List.mem_cons_of_mem _ he)]
    rfl

theorem runEdits_array (items : List Json) : runEdits edits (.array items) = .array (items.map (runEdits edits)) := by
  induction edits generalizing items with
  | nil =>
    show Json.array items = .array (items.map fun v => v)
    rw [List.map_id']
  | cons edit edits ih =>
    show runEdits edits (Json.rewrite edit (.array items)) = _
    rw [Json.rewrite_array (hedits edit List.mem_cons_self),
      ih fun e he => hedits e (List.mem_cons_of_mem _ he), List.map_map]
    rfl

theorem get_fieldsAfter_object {key : String} (hkey : ∀ edit ∈ edits, ∀ (map o : Json.Map),
      Assoc.get map key = some (.object o) → Assoc.get (edit map) key = some (.object o))
    {map o : Json.Map} (hget : Assoc.get map key = some (.object o)) :
    Assoc.get (fieldsAfter edits map) key = some (runEdits edits (.object o)) := by
  induction edits generalizing map o with
  | nil => exact hget
  | cons edit edits ih =>
    have hfirst : Assoc.get ((edit map).map fun f => (f.1, Json.rewrite edit f.2)) key =
        some (Json.rewrite edit (.object o)) := by
      rw [Assoc.get_map, hkey edit List.mem_cons_self map o hget]
      rfl
    rw [Json.rewrite_object (hedits edit List.mem_cons_self)] at hfirst
    rw [fieldsAfter, ih (fun e he => hedits e (List.mem_cons_of_mem _ he))
      (fun e he => hkey e (List.mem_cons_of_mem _ he)) hfirst,
      ← Json.rewrite_object (hedits edit List.mem_cons_self)]
    rfl

omit hedits in
theorem runEdits_leaf {v : Json} (h : ∀ edit, Json.rewrite edit v = v) : runEdits edits v = v := by
  induction edits with
  | nil => rfl
  | cons edit edits ih =>
    show runEdits edits (Json.rewrite edit v) = v
    rw [h, ih]

theorem asStr_runEdits (v : Json) : (runEdits edits v).asStr = v.asStr := by
  cases v with
  | array items =>
    rw [runEdits_array hedits]
    rfl
  | object map =>
    rw [runEdits_object hedits]
    rfl
  | _ => rw [runEdits_leaf fun _ => rfl]

theorem asArray_runEdits (v : Json) : (runEdits edits v).asArray = v.asArray.map (·.map (runEdits edits)) := by
  cases v with
  | array items =>
    rw [runEdits_array hedits]
    rfl
  | object map =>
    rw [runEdits_object hedits]
    rfl
  | _ =>
    rw [runEdits_leaf fun _ => rfl]
    rfl

end

namespace Truncator
variable (truncator : Truncator)

def levelEdits : CompressionLevel → List (Json.Map → Json.Map)
  | .low => [truncator.removeExamplesFields]
  | .medium => []
  | .high => [removeDescription]
  | .max => [removeDescription, replaceLargeEnumFields]

def walks (caps : ProviderCaps) (level : CompressionLevel) : List (Json.Map → Json.Map) :=
  minifyFields caps :: truncator.levelEdits level

variable {level : CompressionLevel}

theorem levelEdits_rule {P : (Json.Map → Json.Map) → Prop} (examples : level = .low → P truncator.removeExamplesFields)
    (descriptions : level = .high ∨ level = .max → P removeDescription)
    (enums : level = .max → P replaceLargeEnumFields) : ∀ edit ∈ truncator.levelEdits level, P edit := by
  intro edit hedit
  cases level with
  | low =>
    rw [levelEdits, List.mem_singleton] at hedit
    rw [hedit]
    exact examples rfl
  | medium => cases hedit
  | high =>
    rw [levelEdits, List.mem_singleton] at hedit
    rw [hedit]
    exact descriptions (.inl rfl)
  | max =>
    rcases List.mem_cons.1 hedit with rfl | hedit
    · exact descriptions (.inr rfl)
    · rw [List.mem_singleton] at hedit
      rw [hedit]
      exact enums rfl

theorem shrinks_walks (caps : ProviderCaps) (level : CompressionLevel) :
    ∀ edit ∈ truncator.walks caps level, Json.Shrinks edit := by
  intro edit hedit
  rcases List.mem_cons.1 hedit with rfl | hedit
  · exact shrinks_minifyFields caps
  · exact truncator.levelEdits_rule (fun _ => truncator.shrinks_removeExamplesFields)
      (fun _ => shrinks_removeDescription) (fun _ => shrinks_replaceLargeEnumFields) edit hedit

variable {key : String}

theorem get_removeExamplesFields {map : Json.Map} (hkey : key ≠ "description") :
    Assoc.get (truncator.removeExamplesFields map) key = Assoc.get map key := by
  unfold removeExamplesFields
  split
  · dsimp only
    split
    · exact Assoc.get_erase_of_ne hkey
    · exact Assoc.get_insert_of_ne hkey
  · rfl

theorem get_replaceLargeEnumFields {map : Json.Map} (hdescription : key ≠ "description")
    (henum : key ≠ "enum") : Assoc.get (replaceLargeEnumFields map) key = Assoc.get map key := by
  unfold replaceLargeEnumFields
  split
  · split
    · rw [Assoc.get_insert_of_ne hdescription, Assoc.get_erase_of_ne henum]
    · rfl
  · rfl

theorem get_levelEdits (hdescription : key ≠ "description")
    (henum : key ≠ "enum") : ∀ edit ∈ truncator.levelEdits level, ∀ map,
      Assoc.get (edit map) key = Assoc.get map key := by
  refine truncator.levelEdits_rule (fun _ map => ?_) (fun _ map => ?_) fun _ map => ?_
  · exact truncator.get_removeExamplesFields hdescription
  · exact Assoc.get_erase_of_ne hdescription
  · exact get_replaceLargeEnumFields hdescription henum

theorem get_walks {caps : ProviderCaps} (hdescription : key ≠ "description") (henum : key ≠ "enum") (map : Json.Map) :
    Assoc.get (fieldsAfter (truncator.walks caps level) map) key =
      (Assoc.get (minifyFields caps map) key).map (runEdits (truncator.walks caps level)) := by
  show Assoc.get (fieldsAfter (truncator.levelEdits level) _) key = _
  rw [get_fieldsAfter (truncator.get_levelEdits hdescription henum), Assoc.get_map, Option.map_map]
  rfl

end Truncator

def isStripped (name : String) (schema : Json) : Bool :=
  name = "title" || (name = "additionalProperties" && schema = .bool false) ||
    (name = "description" && schema.asStr.any isBlank)

def dropIf (key : String) (p : Json → Bool) (map : Json.Map) : Json.Map :=
  if (Assoc.get map key).any p then Assoc.erase map key else map

theorem get_dropIf (k : String) (p : Json → Bool) (map : Json.Map) (key : String) :
    Assoc.get (dropIf k p map) key = (Assoc.get map key).filter fun v => !(key = k && p v) := by
  unfold dropIf
  by_cases hk : key = k
  · subst hk
    rcases h : Assoc.get map key with _ | v
    · simp [h]
    cases hp : p v with
    | true => simp [hp, Assoc.get_erase_self, Option.filter_some]
    | false => simp [hp, h, Option.filter_some]
  · have hall : (Assoc.get map key).filter (fun v => !(decide (key = k) && p v)) = Assoc.get map key := by
      cases Assoc.get map key <;> simp [hk, Option.filter_some]
    rw [hall]
    split
    · exact Assoc.get_erase_of_ne hk
    · rfl

theorem stripFields_eq (map : Json.Map) : stripFields map = dropIf "description" (·.asStr.any isBlank)
    (dropIf "additionalProperties" (· = .bool false) (Assoc.erase map "title")) := by
  have hadditional : ∀ m : Json.Map, dropIf "additionalProperties" (· = .bool false) m =
      if Assoc.get m "additionalProperties" = some (.bool false) then
        Assoc.erase m "additionalProperties" else m := by
    intro m
    unfold dropIf
    cases Assoc.get m "additionalProperties" <;> simp
  unfold stripFields
  dsimp only
  rw [← hadditional]
  generalize dropIf "additionalProperties" (· = .bool false) (Assoc.erase map "title") = m
  unfold dropIf
  cases h : Assoc.get m "description" with
  | none => rfl
  | some v => cases v <;> rfl

theorem get_stripFields (map : Json.Map) (key : String) :
    Assoc.get (stripFields map) key = (Assoc.get map key).filter (!isStripped key ·) := by
  have htitle : Assoc.get (Assoc.erase map "title") key =
      (Assoc.get map key).filter fun _ => !(key = "title") := by
    by_cases hk : key = "title"
    · subst hk
      rw [Assoc.get_erase_self]
      cases Assoc.get map "title" <;> rfl
    · rw [Assoc.get_erase_of_ne hk]
      cases Assoc.get map key <;> simp [hk, Option.filter_some]
  rw [stripFields_eq, get_dropIf, get_dropIf, htitle, Option.filter_filter, Option.filter_filter]
  simp only [isStripped, Bool.not_or, Bool.and_assoc]

/-! ### Collapsed unions -/

/-- The member that takes the place of the union under `key`. -/
def unionMember (caps : ProviderCaps) (key : String) (map : Json.Map) : Option Json :=
  match (Assoc.get map key).bind Json.asArray with
  | some [inner] => some inner
  | some members => if caps.supportsNullable then findNullablePair members else none
  | none => none

def promoted (caps : ProviderCaps) (map : Json.Map) : Option Json :=
  (unionMember caps "anyOf" map).or (unionMember caps "oneOf" map)

def Unmasked (caps : ProviderCaps) (map : Json.Map) (key : String) : Prop :=
  ∀ inner, promoted caps map = some inner → inner.get key = none

section
variable {caps : ProviderCaps} {map : Json.Map}

variable {key : String}

theorem get_mergeInner {inner : Json} (h : inner.get key = none) :
    Assoc.get (mergeInner inner map) key = Assoc.get map key := by
  have hkey : key ∉ Assoc.keys (inner.asObject.getD []) := by
    cases inner with
    | object fields =>
      intro hmem
      have hsome := Assoc.get_isSome.2 hmem
      change ((Json.object fields).get key).isSome = true at hsome
      rw [h] at hsome
      cases hsome
    | _ => exact List.not_mem_nil
  rw [mergeInner, Assoc.get_foldl_insert_of_notMem hkey]

theorem collapseUnion_cases (caps : ProviderCaps) (union : String) (map : Json.Map) :
    (collapseUnion caps union map = none ∧ unionMember caps union map = none) ∨
    ∃ merged inner, collapseUnion caps union map = some merged ∧ unionMember caps union map = some inner ∧
      ∀ key, key ≠ union → key ≠ "nullable" → inner.get key = none →
        Assoc.get merged key = Assoc.get map key := by
  unfold collapseUnion unionMember
  generalize (Assoc.get map union).bind Json.asArray = members
  match members with
  | none => exact .inl ⟨rfl, rfl⟩
  | some [] => exact .inl ⟨rfl, ite_self _⟩
  | some [inner] =>
    refine .inr ⟨_, inner, rfl, rfl, fun key hkey _ hinner => ?_⟩
    rw [get_mergeInner hinner, Assoc.get_erase_of_ne hkey]
  | some (a :: b :: rest) =>
    dsimp only
    rcases hpair : findNullablePair (a :: b :: rest) with _ | inner
    · exact .inl ⟨rfl, ite_self _⟩
    rcases caps.supportsNullable with _ | _
    · exact .inl ⟨rfl, rfl⟩
    refine .inr ⟨_, inner, rfl, rfl, fun key hkey hnullable hinner => ?_⟩
    rw [Assoc.get_insert_of_ne hnullable, get_mergeInner hinner, Assoc.get_erase_of_ne hkey]

theorem unionMember_stripFields (caps : ProviderCaps) {union : String} (map : Json.Map)
    (h : union = "anyOf" ∨ union = "oneOf") :
    unionMember caps union (stripFields map) = unionMember caps union map := by
  have hsame : Assoc.get (stripFields map) union = Assoc.get map union := by
    rw [get_stripFields]
    cases Assoc.get map union with
    | none => rfl
    | some v => rcases h with rfl | rfl <;> simp [isStripped, Option.filter_some]
  rw [unionMember, hsame]
  rfl

theorem promoted_stripFields (caps : ProviderCaps) (map : Json.Map) :
    promoted caps (stripFields map) = promoted caps map := by
  rw [promoted, unionMember_stripFields caps map (.inl rfl), unionMember_stripFields caps map (.inr rfl)]
  rfl

def minifiedKeys : List String :=
  ["title", "additionalProperties", "description", "anyOf", "oneOf", "nullable"]

theorem collapse_eq_none (h : promoted caps map = none) : collapse caps (stripFields map) = none := by
  rw [← promoted_stripFields, promoted, Option.or_eq_none_iff] at h
  rw [collapse, Option.or_eq_none_iff]
  rcases collapseUnion_cases caps "anyOf" (stripFields map) with ⟨hany, -⟩ | ⟨_, _, -, hany, -⟩
  · rcases collapseUnion_cases caps "oneOf" (stripFields map) with ⟨hone, -⟩ | ⟨_, _, -, hone, -⟩
    · exact ⟨hany, hone⟩
    · rw [h.2] at hone
      cases hone
  · rw [h.1] at hany
    cases hany

theorem get_collapse {merged : Json.Map} (hcollapse : collapse caps map = some merged)
    (hkey : key ∉ minifiedKeys) (h : Unmasked caps map key) : Assoc.get merged key = Assoc.get map key := by
  simp only [minifiedKeys, List.mem_cons, not_or] at hkey
  obtain ⟨-, -, -, hany, hone, hnullable, -⟩ := hkey
  unfold Unmasked promoted at h
  rw [collapse] at hcollapse
  rcases collapseUnion_cases caps "anyOf" map with ⟨hnone, hmember⟩ | ⟨merged', inner, hsome, hmember, hget⟩
  · rw [hnone, Option.none_or] at hcollapse
    rcases collapseUnion_cases caps "oneOf" map with ⟨hnone, -⟩ | ⟨merged', inner, hsome, hmember', hget⟩
    · rw [hnone] at hcollapse
      cases hcollapse
    · rw [hsome] at hcollapse
      cases hcollapse
      refine hget key hone hnullable (h inner ?_)
      rw [hmember, hmember', Option.none_or]
  · rw [hsome, Option.some_or] at hcollapse
    cases hcollapse
    refine hget key hany hnullable (h inner ?_)
    rw [hmember, Option.some_or]

theorem get_minifyFields (hkey : key ∉ minifiedKeys) (h : Unmasked caps map key) :
    Assoc.get (minifyFields caps map) key = Assoc.get map key := by
  have hstrip : Assoc.get (stripFields map) key = Assoc.get map key := by
    simp only [minifiedKeys, List.mem_cons, not_or] at hkey
    rw [get_stripFields]
    cases Assoc.get map key with
    | none => rfl
    | some v => simp [isStripped, hkey, Option.filter_some]
  rw [minifyFields]
  rcases hcollapse : collapse caps (stripFields map) with _ | merged
  · exact hstrip
  rw [Option.getD_some, get_collapse hcollapse hkey, hstrip]
  unfold Unmasked
  rw [promoted_stripFields]
  exact h

end

namespace Truncator
variable (truncator : Truncator)

def isDropped : CompressionLevel → String → Json → Bool
  | .low, name, schema => name = "description" &&
      schema.asStr.any fun desc => isBlank (truncator.removeExamplePatterns desc)
  | .medium, _, _ => false
  | .high, name, _ => name = "description"
  | .max, name, schema => name = "description" ||
      (name = "enum" && schema.asArray.any (maxEnumEntries < ·.length))

theorem isSome_removeExamplesFields (map : Json.Map) (name : String) :
    (Assoc.get (truncator.removeExamplesFields map) name).isSome =
      (Assoc.get map name).any (!truncator.isDropped .low name ·) := by
  by_cases hname : name = "description"
  · subst hname
    unfold removeExamplesFields
    rcases h : Assoc.get map "description" with _ | schema
    · rw [h]
      rfl
    cases schema with
    | string desc =>
      dsimp only
      split
      · rename_i hblank
        rw [Assoc.get_erase_self]
        simp [isDropped, Json.asStr, hblank]
      · rename_i hblank
        rw [Assoc.get_insert_self]
        simp [isDropped, Json.asStr, hblank]
    | _ =>
      rw [h]
      rfl
  · rw [truncator.get_removeExamplesFields hname]
    cases Assoc.get map name <;> simp [isDropped, hname]

theorem isSome_replaceLargeEnumFields (map : Json.Map) {name : String} (hname : name ≠ "description") :
    (Assoc.get (replaceLargeEnumFields map) name).isSome =
      (Assoc.get map name).any (!truncator.isDropped .max name ·) := by
  by_cases henum : name = "enum"
  · subst henum
    unfold replaceLargeEnumFields
    rcases h : Assoc.get map "enum" with _ | schema
    · rw [Option.bind_none]
      simp [h]
    cases schema with
    | array entries =>
      rw [Option.bind_some, Json.asArray]
      dsimp only
      split
      · rename_i hlarge
        rw [Assoc.get_insert_of_ne (by decide), Assoc.get_erase_self]
        simp [isDropped, Json.asArray, hlarge]
      · rename_i hlarge
        rw [h]
        simp [isDropped, Json.asArray, hlarge]
    | _ =>
      show (Assoc.get map "enum").isSome = _
      rw [h]
      rfl
  · rw [get_replaceLargeEnumFields hname henum]
    cases Assoc.get map name <;> simp [isDropped, hname, henum]

theorem isDropped_rewrite {edit : Json.Map → Json.Map} (hedit : Json.Shrinks edit)
    (level : CompressionLevel) (name : String) (v : Json) :
    truncator.isDropped level name (Json.rewrite edit v) = truncator.isDropped level name v := by
  have hedits : ∀ e ∈ [edit], Json.Shrinks e := fun e he => List.mem_singleton.1 he ▸ hedit
  have hstr : (Json.rewrite edit v).asStr = v.asStr := asStr_runEdits hedits v
  have harray : (Json.rewrite edit v).asArray = v.asArray.map (·.map (Json.rewrite edit)) :=
    asArray_runEdits hedits v
  have hlength : (Json.rewrite edit v).asArray.any (maxEnumEntries < ·.length) =
      v.asArray.any (maxEnumEntries < ·.length) := by
    rw [harray]
    cases v.asArray <;> simp
  cases level <;> simp only [isDropped, hstr, hlength]

theorem isSome_levelEdits {level : CompressionLevel} (map : Json.Map) {name : String}
    (hmax : level = .max → name ≠ "description") :
    (Assoc.get (fieldsAfter (truncator.levelEdits level) map) name).isSome =
      (Assoc.get map name).any (!truncator.isDropped level name ·) := by
  cases level with
  | low =>
    show (Assoc.get (List.map _ _) name).isSome = _
    rw [Assoc.get_map, Option.isSome_map, truncator.isSome_removeExamplesFields]
  | medium =>
    show (Assoc.get map name).isSome = _
    cases Assoc.get map name <;> rfl
  | high =>
    show (Assoc.get (List.map _ _) name).isSome = _
    rw [Assoc.get_map, Option.isSome_map]
    by_cases hname : name = "description"
    · subst hname
      rw [removeDescription, Assoc.get_erase_self]
      cases Assoc.get map "description" <;> rfl
    · rw [removeDescription, Assoc.get_erase_of_ne hname]
      cases Assoc.get map name <;> simp [isDropped, hname]
  | max =>
    have hname := hmax rfl
    show (Assoc.get (List.map _ _) name).isSome = _
    rw [Assoc.get_map, Option.isSome_map, truncator.isSome_replaceLargeEnumFields _ hname, Assoc.get_map,
      removeDescription, Assoc.get_erase_of_ne hname, Option.any_map]
    congr 1
    funext v
    show (!truncator.isDropped .max name (Json.rewrite removeDescription v)) = _
    rw [truncator.isDropped_rewrite shrinks_removeDescription]

theorem enum_of_description {map : Json.Map}
    (h : (Assoc.get (fieldsAfter (truncator.levelEdits .max) map) "description").isSome = true) :
    ∃ entries, Assoc.get map "enum" = some entries ∧ truncator.isDropped .max "enum" entries = true := by
  change (Assoc.get (List.map _ (replaceLargeEnumFields (List.map _ (removeDescription map))))
    "description").isSome = true at h
  rw [Assoc.get_map, Option.isSome_map] at h
  have hgone : Assoc.get ((removeDescription map).map fun f => (f.1, Json.rewrite removeDescription f.2))
      "description" = none := by
    rw [Assoc.get_map, removeDescription, Assoc.get_erase_self]
    rfl
  have henum : Assoc.get ((removeDescription map).map fun f => (f.1, Json.rewrite removeDescription f.2))
      "enum" = (Assoc.get map "enum").map (Json.rewrite removeDescription) := by
    rw [Assoc.get_map, removeDescription, Assoc.get_erase_of_ne (by decide)]
  unfold replaceLargeEnumFields at h
  split at h
  · rename_i entries hentries
    split at h
    · rename_i hlarge
      rw [henum, Option.bind_map] at hentries
      obtain ⟨schema, hschema, harray⟩ := Option.bind_eq_some_iff.1 hentries
      change (Json.rewrite removeDescription schema).asArray = some entries at harray
      refine ⟨schema, hschema, ?_⟩
      rw [← truncator.isDropped_rewrite shrinks_removeDescription]
      simp [isDropped, harray, hlarge]
    · rw [hgone] at h
      cases h
  · rw [hgone] at h
    cases h

/-! ### What a property map becomes -/

section
variable {caps : ProviderCaps} {level : CompressionLevel}

def isLost (level : CompressionLevel) (name : String) (schema : Json) : Bool :=
  isStripped name schema || truncator.isDropped level name schema

def NoLoss (level : CompressionLevel) (props : Json.Map) : Prop :=
  ∀ name schema, Assoc.get props name = some schema → truncator.isLost level name schema = false

variable {props : Json.Map} (hquiet : promoted caps props = none)
include hquiet

theorem fieldsAfter_quiet : fieldsAfter (truncator.walks caps level) props = fieldsAfter (truncator.levelEdits level)
      ((stripFields props).map fun f => (f.1, minifyValue caps f.2)) := by
  show fieldsAfter _ ((minifyFields caps props).map _) = _
  rw [minifyFields, collapse_eq_none hquiet]
  rfl

theorem isSome_walks {name : String} (hmax : level = .max → name ≠ "description") :
    (Assoc.get (fieldsAfter (truncator.walks caps level) props) name).isSome =
      (Assoc.get props name).any (!truncator.isLost level name ·) := by
  rw [truncator.fieldsAfter_quiet hquiet, truncator.isSome_levelEdits _ hmax, Assoc.get_map, get_stripFields]
  rcases Assoc.get props name with _ | schema
  · rfl
  rw [Option.filter_some]
  cases hstrip : isStripped name schema with
  | true => simp [isLost, hstrip]
  | false => simp [isLost, hstrip, minifyValue, truncator.isDropped_rewrite (shrinks_minifyFields caps)]

theorem enum_lost (hmax : level = .max)
    (h : (Assoc.get (fieldsAfter (truncator.walks caps level) props) "description").isSome = true) :
    ∃ schema, Assoc.get props "enum" = some schema ∧ truncator.isLost level "enum" schema = true := by
  subst hmax
  rw [truncator.fieldsAfter_quiet hquiet] at h
  obtain ⟨entries, hentries, hdropped⟩ := truncator.enum_of_description h
  rw [Assoc.get_map, get_stripFields] at hentries
  obtain ⟨schema, hschema, rfl⟩ := Option.map_eq_some_iff.1 hentries
  obtain ⟨hget, -⟩ := Option.filter_eq_some_iff.1 hschema
  refine ⟨schema, hget, ?_⟩
  rw [minifyValue, truncator.isDropped_rewrite (shrinks_minifyFields caps)] at hdropped
  rw [isLost, hdropped, Bool.or_true]

theorem names_iff : (∀ name, name ∈ Assoc.keys (fieldsAfter (truncator.walks caps level) props) ↔
    name ∈ Assoc.keys props) ↔ truncator.NoLoss level props := by
  simp only [← Assoc.get_isSome]
  constructor
  · intro hsame
    have hplain : ∀ name schema, (level = .max → name ≠ "description") →
        Assoc.get props name = some schema → truncator.isLost level name schema = false := by
      intro name schema hmax hget
      have hsome := (hsame name).2 (by rw [hget]; rfl)
      rw [truncator.isSome_walks hquiet hmax, hget, Option.any_some, Bool.not_eq_true'] at hsome
      exact hsome
    intro name schema hget
    refine hplain name schema (fun hmax hname => ?_) hget
    obtain ⟨entries, hentries, hlost⟩ := truncator.enum_lost hquiet hmax
      ((hsame "description").2 (by rw [← hname, hget]; rfl))
    rw [hplain "enum" entries (fun _ => by decide) hentries] at hlost
    cases hlost
  · intro hno name
    by_cases hmax : level = .max ∧ name = "description"
    · obtain ⟨hlevel, rfl⟩ := hmax
      refine iff_of_false (fun hsome => ?_) fun hsome => ?_
      · obtain ⟨entries, hentries, hlost⟩ := truncator.enum_lost hquiet hlevel hsome
        rw [hno "enum" entries hentries] at hlost
        cases hlost
      · obtain ⟨schema, hschema⟩ := Option.isSome_iff_exists.1 hsome
        have hkept := hno "description" schema hschema
        rw [hlevel] at hkept
        simp [isLost, isDropped] at hkept
    · rw [truncator.isSome_walks hquiet fun hlevel hname => hmax ⟨hlevel, hname⟩]
      rcases hget : Assoc.get props name with _ | schema
      · rfl
      rw [Option.any_some, hno name schema hget]
      rfl

omit hquiet in
theorem get_level_object {name : String} (hname : level = .high ∨ level = .max → name ≠ "description") :
    ∀ edit ∈ truncator.levelEdits level, ∀ (map o : Json.Map), Assoc.get map name = some (.object o) →
      Assoc.get (edit map) name = some (.object o) := by
  refine truncator.levelEdits_rule (fun _ map o hget => ?_) (fun hlevel map o hget => ?_)
    fun hlevel map o hget => ?_
  · by_cases hdescription : name = "description"
    · subst hdescription
      rw [removeExamplesFields, hget]
      exact hget
    · rw [truncator.get_removeExamplesFields hdescription, hget]
  · rw [removeDescription, Assoc.get_erase_of_ne (hname hlevel), hget]
  · by_cases henum : name = "enum"
    · subst henum
      rw [replaceLargeEnumFields, hget]
      exact hget
    · rw [get_replaceLargeEnumFields (hname (.inr hlevel)) henum, hget]

theorem get_walks_object (hno : truncator.NoLoss level props) {name : String} {o : Json.Map}
    (hget : Assoc.get props name = some (.object o)) :
    Assoc.get (fieldsAfter (truncator.walks caps level) props) name =
      some (runEdits (truncator.walks caps level) (.object o)) := by
  have hkept := hno name _ hget
  rw [isLost, Bool.or_eq_false_iff] at hkept
  have hminified : Assoc.get ((stripFields props).map fun f => (f.1, minifyValue caps f.2)) name =
      some (minifyValue caps (.object o)) := by
    rw [Assoc.get_map, get_stripFields, hget, Option.filter_some, hkept.1]
    rfl
  have hname : level = .high ∨ level = .max → name ≠ "description" := by
    rintro (rfl | rfl) rfl <;> simp [isDropped] at hkept
  rw [minifyValue, Json.rewrite_object (shrinks_minifyFields caps)] at hminified
  have hlevel := get_fieldsAfter_object
    (fun edit hedit => truncator.shrinks_walks caps level edit (List.mem_cons_of_mem _ hedit))
    (truncator.get_level_object hname) hminified
  rw [← Json.rewrite_object (shrinks_minifyFields caps)] at hlevel
  rw [truncator.fieldsAfter_quiet hquiet]
  exact hlevel

end

end Truncator

end ObeyGateway.ToolCompression
