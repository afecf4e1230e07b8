import Mathlib.Algebra.GroupWithZero.Nat
import Mathlib.Algebra.Order.BigOperators.Group.List
import ObeyGateway.Lib.Json

/-!
# Rewriting walks

A walk that edits the fields of an object and then goes on into every value that is there now. It does not
follow the structure of the value it started with, since an edit may bring in values from further down, so
it is given the size of the value as fuel; if edits bring in nothing larger (`Shrinks`) that is enough.
-/

namespace Json

def sizeAlg : Alg Nat where
  null := 0
  bool _ := 0
  number _ := 0
  string _ := 0
  array items := items.sum + 1
  object fields := (fields.map (·.2)).sum + 1

def size : Json → Nat := fold sizeAlg

theorem size_array (items : List Json) : size (.array items) = (items.map size).sum + 1 := by
  rw [size, fold_array]
  rfl

theorem size_object (fields : Map) : size (.object fields) = (fields.map (size ·.2)).sum + 1 := by
  rw [size, fold_object]
  show ((fields.map _).map _).sum + 1 = _
  rw [List.map_map]
  rfl

theorem size_item {v : Json} {items : List Json} (h : v ∈ items) : size v < size (.array items) := by
  rw [size_array]
  exact Nat.lt_succ_of_le (List.le_sum_of_mem (List.mem_map_of_mem h))

theorem size_field {f : String × Json} {fields : Map} (h : f ∈ fields) : size f.2 < size (.object fields) := by
  rw [size_object]
  have hle : size f.2 ≤ (fields.map (size ·.2)).sum :=
    List.le_sum_of_mem (List.mem_map.2 ⟨f, h, rfl⟩)
  omega

def rewriteFuel (edit : Map → Map) : Nat → Json → Json
  | fuel + 1, .object fields => .object ((edit fields).map fun f => (f.1, rewriteFuel edit fuel f.2))
  | fuel + 1, .array items => .array (items.map (rewriteFuel edit fuel))
  | _, value => value

def rewrite (edit : Map → Map) (value : Json) : Json := rewriteFuel edit (size value) value

def Shrinks (edit : Map → Map) : Prop :=
  ∀ (fields : Map), ∀ f ∈ edit fields, size f.2 < size (.object fields)

section
variable {edit : Map → Map} (he : Shrinks edit)
include he

theorem rewriteFuel_eq {n k : Nat} {v : Json} (hn : size v ≤ n) (hk : size v ≤ k) :
    rewriteFuel edit n v = rewriteFuel edit k v := by
  induction n generalizing k v with
  | zero =>
    cases v with
    | array items => exact absurd hn (by rw [size_array]; omega)
    | object fields => exact absurd hn (by rw [size_object]; omega)
    | _ => cases k <;> rfl
  | succ n ih =>
    cases k with
    | zero =>
      cases v with
      | array items => exact absurd hk (by rw [size_array]; omega)
      | object fields => exact absurd hk (by rw [size_object]; omega)
      | _ => rfl
    | succ k =>
      cases v with
      | array items =>
        have hitems : items.map (rewriteFuel edit n) = items.map (rewriteFuel edit k) := by
          refine List.map_congr_left fun w hw => ?_
          have := size_item hw
          exact ih (by omega) (by omega)
        rw [rewriteFuel, rewriteFuel, hitems]
      | object fields =>
        have hfields : (edit fields).map (fun f => (f.1, rewriteFuel edit n f.2)) =
            (edit fields).map fun f => (f.1, rewriteFuel edit k f.2) := by
          refine List.map_congr_left fun f hf => ?_
          have := he fields f hf
          exact Prod.ext rfl (ih (by omega) (by omega))
        rw [rewriteFuel, rewriteFuel, hfields]
      | _ => rfl

theorem rewrite_object (fields : Map) :
    rewrite edit (.object fields) = .object ((edit fields).map fun f => (f.1, rewrite edit f.2)) := by
  obtain ⟨n, hn⟩ : ∃ n, size (.object fields) = n + 1 := ⟨_, size_object fields⟩
  rw [rewrite, hn, rewriteFuel]
  have hfields : (edit fields).map (fun f => (f.1, rewriteFuel edit n f.2)) =
      (edit fields).map fun f => (f.1, rewrite edit f.2) := by
    refine List.map_congr_left fun f hf => ?_
    have := he fields f hf
    rw [rewriteFuel_eq he (by omega) le_rfl, rewrite]
  rw [hfields]

theorem rewrite_array (items : List Json) : rewrite edit (.array items) = .array (items.map (rewrite edit)) := by
  obtain ⟨n, hn⟩ : ∃ n, size (.array items) = n + 1 := ⟨_, size_array items⟩
  rw [rewrite, hn, rewriteFuel]
  have hitems : items.map (rewriteFuel edit n) = items.map (rewrite edit) := by
    refine List.map_congr_left fun v hv => ?_
    have := size_item hv
    rw [rewriteFuel_eq he (by omega) le_rfl, rewrite]
  rw [hitems]

end

end Json
