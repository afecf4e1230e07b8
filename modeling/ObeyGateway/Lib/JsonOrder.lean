import ObeyGateway.Lib.Json

/-!
# The order of object keys

Two values are the same up to the order of object keys when one is got from the other by reordering the
fields of objects, anywhere in the value and any number of times. `normalize` sorts the fields of every
object; for values in which no object has a key twice, the values that `normalize` makes equal are
exactly the ones that are the same up to order.
-/

namespace Json

inductive Reorder : Json → Json → Prop
  | here {fields fields' : Map} (h : fields.Perm fields') : Reorder (.object fields) (.object fields')
  | item (before after : List Json) {v w : Json} (h : Reorder v w) :
      Reorder (.array (before ++ v :: after)) (.array (before ++ w :: after))
  | field (before after : Map) (k : String) {v w : Json} (h : Reorder v w) :
      Reorder (.object (before ++ (k, v) :: after)) (.object (before ++ (k, w) :: after))

def SameUpToOrder : Json → Json → Prop := Relation.ReflTransGen Reorder

def normalizeAlg : Alg Json where
  null := .null
  bool := .bool
  number := .number
  string := .string
  array := .array
  object fields := .object (Assoc.sort fields)

def normalize : Json → Json := fold normalizeAlg

def normalizeFields (fields : Map) : Map := fields.map fun f => (f.1, normalize f.2)

@[simp] theorem normalize_array (items : List Json) :
    normalize (.array items) = .array (items.map normalize) := fold_array _ _

@[simp] theorem normalize_object (fields : Map) :
    normalize (.object fields) = .object (Assoc.sort (normalizeFields fields)) := fold_object _ _

theorem keys_normalizeFields (fields : Map) : Assoc.keys (normalizeFields fields) = Assoc.keys fields := Assoc.keys_map _

variable {v w : Json}

theorem Reorder.symm (h : Reorder v w) : Reorder w v := by
  induction h with
  | here h => exact .here h.symm
  | item before after _ ih => exact .item before after ih
  | field before after k _ ih => exact .field before after k ih

instance : Std.Symm Reorder := ⟨fun _ _ => Reorder.symm⟩

theorem SameUpToOrder.symm (h : SameUpToOrder v w) : SameUpToOrder w v :=
  Relation.ReflTransGen.stdSymm.symm v w h

theorem Reorder.nodupKeys (h : Reorder v w) (hv : v.nodupKeys = true) : w.nodupKeys = true := by
  induction h with
  | here h =>
    rw [nodupKeys_object] at hv ⊢
    exact ⟨(Assoc.keys_perm h).nodup_iff.1 hv.1, fun f hf => hv.2 f (h.mem_iff.2 hf)⟩
  | item before after h ih =>
    simp only [nodupKeys_array, List.mem_append, List.mem_cons] at hv ⊢
    rintro x (hx | rfl | hx)
    · exact hv x (.inl hx)
    · exact ih (hv _ (.inr (.inl rfl)))
    · exact hv x (.inr (.inr hx))
  | field before after k h ih =>
    rw [nodupKeys_object] at hv ⊢
    obtain ⟨hkeys, hv⟩ := hv
    refine ⟨by simpa [Assoc.keys] using hkeys, ?_⟩
    simp only [List.mem_append, List.mem_cons] at hv ⊢
    rintro x (hx | rfl | hx)
    · exact hv x (.inl hx)
    · exact ih (hv (k, _) (.inr (.inl rfl)))
    · exact hv x (.inr (.inr hx))

theorem Reorder.normalize_eq (h : Reorder v w) (hv : v.nodupKeys = true) : v.normalize = w.normalize := by
  induction h with
  | @here fields fields' h =>
    have hnodup : (Assoc.keys (normalizeFields fields)).Nodup := by
      rw [keys_normalizeFields]
      exact (nodupKeys_object.1 hv).1
    have hp : (normalizeFields fields).Perm (normalizeFields fields') := h.map _
    have hnodup' := (Assoc.keys_perm hp).nodup_iff.1 hnodup
    rw [normalize_object, normalize_object,
      (Assoc.sort_eq_iff hnodup hnodup').2 fun k => Assoc.get_perm hnodup hp k]
  | item before after h ih =>
    rw [normalize_array, normalize_array, List.map_append, List.map_append, List.map_cons,
      List.map_cons, ih (nodupKeys_array.1 hv _ (by simp))]
  | field before after k h ih =>
    rw [normalize_object, normalize_object, normalizeFields, normalizeFields, List.map_append,
      List.map_append, List.map_cons, List.map_cons, ih ((nodupKeys_object.1 hv).2 (k, _) (by simp))]

theorem SameUpToOrder.normalize_eq (h : SameUpToOrder v w) (hv : v.nodupKeys = true) : v.normalize = w.normalize := by
  have hboth : w.nodupKeys = true ∧ v.normalize = w.normalize := by
    induction h with
    | refl => exact ⟨hv, rfl⟩
    | tail _ hstep ih => exact ⟨hstep.nodupKeys ih.1, ih.2.trans (hstep.normalize_eq ih.1)⟩
  exact hboth.2

theorem SameUpToOrder.congr {c : Json → Json} (h : SameUpToOrder v w)
    (hc : ∀ v w, Reorder v w → Reorder (c v) (c w)) : SameUpToOrder (c v) (c w) :=
  Relation.ReflTransGen.lift c hc v w h

theorem sameUpToOrder_items (before : List Json) {items : List Json} {g : Json → Json}
    (h : ∀ v ∈ items, SameUpToOrder v (g v)) :
    SameUpToOrder (.array (before ++ items)) (.array (before ++ items.map g)) := by
  induction items generalizing before with
  | nil => exact .refl
  | cons v items ih =>
    have hhead : SameUpToOrder (.array (before ++ v :: items)) (.array (before ++ g v :: items)) :=
      (h v List.mem_cons_self).congr fun _ _ hstep => .item before items hstep
    have htail := ih (before ++ [g v]) fun w hw => h w (List.mem_cons_of_mem _ hw)
    rw [List.append_assoc, List.append_assoc] at htail
    exact hhead.trans htail

theorem sameUpToOrder_fields (before : Map) {fields : Map} {g : Json → Json} (h : ∀ f ∈ fields, SameUpToOrder f.2 (g f.2)) :
    SameUpToOrder (.object (before ++ fields))
      (.object (before ++ fields.map fun f => (f.1, g f.2))) := by
  induction fields generalizing before with
  | nil => exact .refl
  | cons f fields ih =>
    obtain ⟨k, v⟩ := f
    have hhead : SameUpToOrder (.object (before ++ (k, v) :: fields))
        (.object (before ++ (k, g v) :: fields)) :=
      (h (k, v) List.mem_cons_self).congr fun _ _ hstep => .field before fields k hstep
    have htail := ih (before ++ [(k, g v)]) fun w hw => h w (List.mem_cons_of_mem _ hw)
    rw [List.append_assoc, List.append_assoc] at htail
    exact hhead.trans htail

theorem sameUpToOrder_normalize (v : Json) : SameUpToOrder v v.normalize := by
  induction v with
  | null | bool | number | string => exact .refl
  | array items ih =>
    rw [normalize_array]
    exact sameUpToOrder_items [] ih
  | object fields ih =>
    rw [normalize_object]
    exact (sameUpToOrder_fields [] ih).tail (.here Assoc.sort_perm.symm)

theorem sameUpToOrder_iff (hv : v.nodupKeys = true) : SameUpToOrder v w ↔ v.normalize = w.normalize := by
  constructor
  · exact fun h => h.normalize_eq hv
  · intro h
    have hw := (sameUpToOrder_normalize w).symm
    rw [← h] at hw
    exact (sameUpToOrder_normalize v).trans hw

theorem normalize_object_eq_iff {fields fields' : Map} (h : (Assoc.keys fields).Nodup) (h' : (Assoc.keys fields').Nodup) :
    normalize (.object fields) = normalize (.object fields') ↔
      ∀ k, (Assoc.get fields k).map normalize = (Assoc.get fields' k).map normalize := by
  rw [normalize_object, normalize_object, object.injEq, Assoc.sort_eq_iff]
  · simp only [normalizeFields, Assoc.get_map]
  · rwa [keys_normalizeFields]
  · rwa [keys_normalizeFields]

end Json
