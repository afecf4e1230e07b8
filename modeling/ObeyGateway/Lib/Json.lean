import Mathlib.Data.String.Basic
import ObeyGateway.Lib.Assoc

/-!
# JSON values

The values of `serde_json`. An object is the list of its fields; the maps of `serde_json` keep them by
ascending key, and the operations here do too. `fold` is the recursion that goes through a whole value:
a traversal says in an `Alg` what it does at each kind of value, and `fold_array` and `fold_object` are
its equations.
-/

/-- A `u64`, a negative `i64`, or the bits of a finite `f64`. -/
inductive Number
  | posInt (n : UInt64)
  | negInt (n : { n : Int64 // n < 0 })
  | float (bits : { bits : UInt64 // bits.toNat / 2 ^ 52 % 2 ^ 11 ≠ 2 ^ 11 - 1 })
deriving DecidableEq

/-- `Number::from_f64` -/
def Number.fromF64 (bits : UInt64) : Option Number :=
  if h : bits.toNat / 2 ^ 52 % 2 ^ 11 ≠ 2 ^ 11 - 1 then some (.float ⟨bits, h⟩) else none

inductive Json
  | null
  | bool (b : Bool)
  | number (n : Number)
  | string (s : String)
  | array (items : List Json)
  | object (fields : List (String × Json))

namespace Json

abbrev Map := List (String × Json)

/-- What a traversal does at each kind of value, given what it did to the parts. -/
structure Alg (α : Type*) where
  null : α
  bool : Bool → α
  number : Number → α
  string : String → α
  array : List α → α
  object : List (String × α) → α

section
variable {α : Type*} (alg : Alg α)

mutual

def fold : Json → α
  | .null => alg.null
  | .bool b => alg.bool b
  | .number n => alg.number n
  | .string s => alg.string s
  | .array items => alg.array (foldItems items)
  | .object fields => alg.object (foldFields fields)

def foldItems : List Json → List α
  | [] => []
  | v :: vs => fold v :: foldItems vs

def foldFields : List (String × Json) → List (String × α)
  | [] => []
  | f :: fs => (f.1, fold f.2) :: foldFields fs

end

@[simp] theorem fold_null : fold alg .null = alg.null := rfl

@[simp] theorem fold_bool (b : Bool) : fold alg (.bool b) = alg.bool b := rfl

@[simp] theorem fold_number (n : Number) : fold alg (.number n) = alg.number n := rfl

@[simp] theorem fold_string (s : String) : fold alg (.string s) = alg.string s := rfl

@[simp] theorem fold_array (items : List Json) : fold alg (.array items) = alg.array (items.map (fold alg)) := by
  have h : foldItems alg items = items.map (fold alg) := by
    induction items with
    | nil => rfl
    | cons v vs ih => rw [foldItems, ih, List.map_cons]
  rw [fold, h]

@[simp] theorem fold_object (fields : Map) :
    fold alg (.object fields) = alg.object (fields.map fun f => (f.1, fold alg f.2)) := by
  have h : foldFields alg fields = fields.map fun f => (f.1, fold alg f.2) := by
    induction fields with
    | nil => rfl
    | cons f fs ih => rw [foldFields, ih, List.map_cons]
  rw [fold, h]

end

/-- A property of every value from its parts. -/
@[elab_as_elim, induction_eliminator]
theorem induct {P : Json → Prop} (null : P .null) (bool : ∀ b, P (.bool b))
    (number : ∀ n, P (.number n)) (string : ∀ s, P (.string s))
    (array : ∀ items, (∀ v ∈ items, P v) → P (.array items))
    (object : ∀ fields : Map, (∀ f ∈ fields, P f.2) → P (.object fields)) (v : Json) : P v :=
  @Json.rec P (fun items => ∀ v ∈ items, P v) (fun fields => ∀ f ∈ fields, P f.2) (fun f => P f.2)
    null bool number string (fun items ih => array items ih) (fun fields ih => object fields ih)
    (fun _ h => absurd h List.not_mem_nil)
    (fun _ _ hv hvs w hw => (List.mem_cons.1 hw).elim (fun h => h ▸ hv) (hvs w))
    (fun _ h => absurd h List.not_mem_nil)
    (fun _ _ hf hfs g hg => (List.mem_cons.1 hg).elim (fun h => h ▸ hf) (hfs g))
    (fun _ _ h => h) v

/-- As `Alg`, with each part beside what was done to it. -/
structure ParaAlg (α : Type*) where
  null : α
  bool : Bool → α
  number : Number → α
  string : String → α
  array : List (Json × α) → α
  object : List (String × Json × α) → α

section
variable {α : Type*} (alg : ParaAlg α)

def ParaAlg.toAlg : Alg (Json × α) where
  null := (.null, alg.null)
  bool b := (.bool b, alg.bool b)
  number n := (.number n, alg.number n)
  string s := (.string s, alg.string s)
  array items := (.array (items.map (·.1)), alg.array items)
  object fields := (.object (fields.map fun f => (f.1, f.2.1)), alg.object fields)

def para (v : Json) : α := (fold alg.toAlg v).2

theorem fold_toAlg (v : Json) : fold alg.toAlg v = (v, para alg v) := by
  refine Prod.ext ?_ rfl
  induction v with
  | null | bool | number | string => rfl
  | array items ih =>
    rw [fold_array]
    show Json.array ((items.map (fold alg.toAlg)).map (·.1)) = _
    have hitems : items.map (fun v => (fold alg.toAlg v).1) = items.map id := List.map_congr_left ih
    rw [List.map_map, Function.comp_def, hitems, List.map_id]
  | object fields ih =>
    rw [fold_object]
    show Json.object ((fields.map _).map fun f : String × Json × α => (f.1, f.2.1)) = _
    have hfields : fields.map (fun f => (f.1, (fold alg.toAlg f.2).1)) = fields.map id :=
      List.map_congr_left fun f hf => Prod.ext rfl (ih f hf)
    rw [List.map_map, Function.comp_def, hfields, List.map_id]

@[simp] theorem para_array (items : List Json) :
    para alg (.array items) = alg.array (items.map fun v => (v, para alg v)) := by
  rw [para, fold_array]
  show alg.array _ = _
  rw [List.map_congr_left fun v _ => fold_toAlg alg v]

@[simp] theorem para_object (fields : Map) :
    para alg (.object fields) = alg.object (fields.map fun f => (f.1, f.2, para alg f.2)) := by
  rw [para, fold_object]
  show alg.object _ = _
  rw [List.map_congr_left fun f _ => by rw [fold_toAlg]]

end

mutual

def beq : Json → Json → Bool
  | .null, .null => true
  | .bool b, .bool c => b == c
  | .number m, .number n => m = n
  | .string s, .string t => s == t
  | .array vs, .array ws => beqItems vs ws
  | .object fs, .object gs => beqFields fs gs
  | _, _ => false

def beqItems : List Json → List Json → Bool
  | [], [] => true
  | v :: vs, w :: ws => beq v w && beqItems vs ws
  | _, _ => false

def beqFields : List (String × Json) → List (String × Json) → Bool
  | [], [] => true
  | f :: fs, g :: gs => f.1 == g.1 && beq f.2 g.2 && beqFields fs gs
  | _, _ => false

end

theorem beq_iff (v w : Json) : beq v w = true ↔ v = w := by
  induction v generalizing w with
  | null | bool | number | string => cases w <;> simp [beq]
  | array items ih =>
    cases w with
    | array ws =>
      simp only [beq, array.injEq]
      induction items generalizing ws with
      | nil => cases ws <;> simp [beqItems]
      | cons v vs ihs =>
        rcases ws with _ | ⟨w, ws⟩
        · simp [beqItems]
        rw [beqItems, Bool.and_eq_true, ih v (by simp), List.cons.injEq,
          ihs (fun v hv => ih v (by simp [hv])) ws]
    | _ => simp [beq]
  | object fields ih =>
    cases w with
    | object gs =>
      simp only [beq, object.injEq]
      induction fields generalizing gs with
      | nil => cases gs <;> simp [beqFields]
      | cons f fs ihs =>
        rcases gs with _ | ⟨g, gs⟩
        · simp [beqFields]
        rw [beqFields, Bool.and_eq_true, Bool.and_eq_true, ih f (by simp), List.cons.injEq,
          ihs (fun f hf => ih f (by simp [hf])) gs, beq_iff_eq, Prod.ext_iff]
    | _ => simp [beq]

instance : DecidableEq Json := fun v w => decidable_of_iff _ (beq_iff v w)

/-- `Value::get` with a key -/
def get : Json → String → Option Json
  | .object fields, key => Assoc.get fields key
  | _, _ => none

def asStr : Json → Option String
  | .string s => some s
  | _ => none

def asArray : Json → Option (List Json)
  | .array items => some items
  | _ => none

def asObject : Json → Option Map
  | .object fields => some fields
  | _ => none

/-- `Value::pointer`, for a path through objects -/
def pointer : Json → List String → Option Json
  | v, [] => some v
  | v, key :: path => (v.get key).bind (pointer · path)

/-- Changes what `pointer_mut` gives, if there is something. -/
def update : List String → (Json → Json) → Json → Json
  | [], f, v => f v
  | key :: path, f, .object fields =>
    .object (fields.map fun p => (p.1, if p.1 = key then update path f p.2 else p.2))
  | _ :: _, _, v => v

theorem get_update (key : String) (path : List String) (f : Json → Json) (v : Json) (key' : String) :
    (v.update (key :: path) f).get key' =
      if key' = key then (v.get key').map (update path f) else v.get key' := by
  cases v with
  | object fields =>
    show Assoc.get (fields.map _) key' = _
    rw [Assoc.get_mapKeyed fun k w => if k = key then update path f w else w]
    show (Assoc.get fields key').map _ = if _ then (Assoc.get fields key').map _ else Assoc.get fields key'
    split
    · rfl
    · rw [Option.map_id']
  | _ => split <;> rfl

theorem pointer_singleton (v : Json) (key : String) : v.pointer [key] = v.get key := by
  rw [pointer]
  cases v.get key <;> rfl

theorem pointer_append (v : Json) (path rest : List String) :
    v.pointer (path ++ rest) = (v.pointer path).bind (·.pointer rest) := by
  induction path generalizing v with
  | nil => rfl
  | cons key path ih =>
    rw [List.cons_append, pointer, pointer, Option.bind_assoc]
    simp only [ih]

theorem pointer_update (path : List String) (f : Json → Json) (v : Json) (rest : List String) :
    (v.update path f).pointer (path ++ rest) = (v.pointer path).bind fun w => (f w).pointer rest := by
  induction path generalizing v with
  | nil => rfl
  | cons key path ih =>
    rw [List.cons_append, pointer, pointer, get_update, if_pos rfl, Option.bind_map, Option.bind_assoc]
    simp only [Function.comp_def, ih]

def asU64 : Json → Option UInt64
  | .number (.posInt n) => some n
  | _ => none

def asI64 : Json → Option Int
  | .number (.posInt n) => if n.toNat < 2 ^ 63 then some n.toNat else none
  | .number (.negInt n) => some n.1.toInt
  | _ => none

def nodupKeys : Json → Bool :=
  fold { null := true, bool := fun _ => true, number := fun _ => true, string := fun _ => true
         array := fun items => items.all id
         object := fun fields => (Assoc.keys fields).Nodup && fields.all (·.2) }

@[simp] theorem nodupKeys_array {items : List Json} :
    nodupKeys (.array items) = true ↔ ∀ v ∈ items, nodupKeys v = true := by
  simp [nodupKeys]

@[simp] theorem nodupKeys_object {fields : Map} : nodupKeys (.object fields) = true ↔
    (Assoc.keys fields).Nodup ∧ ∀ f ∈ fields, nodupKeys f.2 = true := by
  simp only [nodupKeys, fold_object, Bool.and_eq_true, decide_eq_true_eq, Assoc.keys_map,
    List.all_map, List.all_eq_true, Function.comp_apply]

theorem nodupKeys_object_nil : nodupKeys (.object []) = true := rfl

theorem nodupKeys_get {v w : Json} {key : String} (h : v.nodupKeys = true) (hw : v.get key = some w) :
    w.nodupKeys = true := by
  cases v with
  | object fields => exact (nodupKeys_object.1 h).2 (key, w) (Assoc.mem_of_get hw)
  | _ => cases hw

theorem nodupKeys_pointer {v w : Json} {path : List String} (h : v.nodupKeys = true)
    (hw : v.pointer path = some w) : w.nodupKeys = true := by
  induction path generalizing v with
  | nil =>
    cases hw
    exact h
  | cons key path ih =>
    obtain ⟨u, hu, hw⟩ := Option.bind_eq_some_iff.1 hw
    exact ih (nodupKeys_get h hu) hw

theorem nodupKeys_insert {fields : Map} {k : String} {v : Json}
    (h : nodupKeys (.object fields) = true) (hv : v.nodupKeys = true) :
    nodupKeys (.object (Assoc.insert fields k v)) = true := by
  rw [nodupKeys_object] at h ⊢
  refine ⟨Assoc.nodup_insert h.1, fun f hf => ?_⟩
  rcases Assoc.mem_insert hf with rfl | hf
  · exact hv
  · exact h.2 f hf

theorem nodupKeys_foldl_insert {more fields : Map} (h : nodupKeys (.object fields) = true)
    (hmore : ∀ f ∈ more, f.2.nodupKeys = true) :
    nodupKeys (.object (more.foldl (fun map f => Assoc.insert map f.1 f.2) fields)) = true := by
  induction more generalizing fields with
  | nil => exact h
  | cons f more ih =>
    exact ih (nodupKeys_insert h (hmore f List.mem_cons_self))
      fun g hg => hmore g (List.mem_cons_of_mem _ hg)

end Json
