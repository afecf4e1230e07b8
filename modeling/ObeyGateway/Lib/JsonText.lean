import ObeyGateway.Lib.JsonPrint
import ObeyGateway.Lib.Text

/-!
# Values inside texts

A text can hold a value, whose texts can hold values again. A `Codec` is what is known of a reader and a printer: what
is printed is read back but for the precision of numbers, arrays and objects are written as JSON has it, and the texts
of a value are shorter than the text it is read from, so that a recursion through texts ends.
-/

namespace Json

def rereadAlg (number : Number → Number) : Alg Json where
  null := .null
  bool := .bool
  number n := .number (number n)
  string := .string
  array := .array
  object := .object

def reread (number : Number → Number) : Json → Json := fold (rereadAlg number)

def keysAlg (K : List String → Prop) : Alg Prop where
  null := True
  bool _ := True
  number _ := True
  string _ := True
  array items := ∀ p ∈ items, p
  object fields := K (Assoc.keys fields) ∧ ∀ f ∈ fields, f.2

def KeysAll (K : List String → Prop) : Json → Prop := fold (keysAlg K)

/-- The maps of `serde_json` keep their keys in order. -/
def Ordered : Json → Prop := KeysAll (List.Pairwise (· < ·))

def textsAlg : Alg (List String) where
  null := []
  bool _ := []
  number _ := []
  string s := [s]
  array items := items.flatten
  object fields := fields.flatMap (·.2)

def texts : Json → List String := fold textsAlg

def isContainer : Json → Bool
  | .array _ | .object _ => true
  | _ => false

def valueStarts : List Char := quote :: openBrace :: "[tfn".toList ++ numberChars

def opensContainer (text : List Char) : Bool :=
  match Text.trimStart text with
  | [] => false
  | c :: rest =>
    (c = '[' && (Text.trimStart rest).head?.any fun d => d = ']' || d ∈ valueStarts) ||
      (c = openBrace && (Text.trimStart rest).head?.any fun d => d = quote || d = closeBrace)

/-- `serde_json::from_str` and `to_string`, as far as texts and containers go. -/
structure Codec where
  numbers : NumberText
  rereadNumber : Number → Number
  fromStr : List Char → Option Json
  fromStr_print : ∀ v, Ordered v → fromStr (print numbers v) = some (v.reread rereadNumber)
  ordered : ∀ text v, fromStr text = some v → v.Ordered
  opens : ∀ text v, fromStr text = some v → v.isContainer = true → opensContainer text = true
  shorter : ∀ text v, fromStr text = some v → ∀ t ∈ v.texts, t.toList.length < text.length

def Codec.toStr (codec : Codec) (v : Json) : String := String.ofList (v.print codec.numbers)

variable {number : Number → Number} {items : List Json} {fields : Map} {v : Json} {key : String}

@[simp] theorem reread_array : reread number (.array items) = .array (items.map (reread number)) := fold_array _ _

@[simp] theorem reread_object :
    reread number (.object fields) = .object (fields.map fun f => (f.1, reread number f.2)) := fold_object _ _

@[simp] theorem reread_string (s : String) : reread number (.string s) = .string s := rfl

theorem keysAll_array {K : List String → Prop} : KeysAll K (.array items) ↔ ∀ v ∈ items, KeysAll K v := by
  rw [KeysAll, fold_array]
  exact List.forall_mem_map

theorem keysAll_object {K : List String → Prop} :
    KeysAll K (.object fields) ↔ K (Assoc.keys fields) ∧ ∀ f ∈ fields, KeysAll K f.2 := by
  rw [KeysAll, fold_object]
  show K (Assoc.keys (fields.map _)) ∧ _ ↔ _
  rw [Assoc.keys_map (fun f : String × Json => fold (keysAlg K) f.2)]
  exact and_congr_right fun _ => List.forall_mem_map

theorem nodupKeys_iff (v : Json) : v.nodupKeys = true ↔ KeysAll List.Nodup v := by
  induction v with
  | null | bool | number | string => exact ⟨fun _ => trivial, fun _ => rfl⟩
  | array items ih =>
    rw [nodupKeys_array, keysAll_array]
    exact forall₂_congr ih
  | object fields ih =>
    rw [nodupKeys_object, keysAll_object]
    exact and_congr_right fun _ => forall₂_congr ih

@[simp] theorem texts_array : texts (.array items) = items.flatMap texts := by
  rw [texts, fold_array]
  rfl

@[simp] theorem texts_object : texts (.object fields) = fields.flatMap fun f => texts f.2 := by
  rw [texts, fold_object]
  show (fields.map _).flatMap _ = _
  rw [List.flatMap_map]

@[simp] theorem texts_string (s : String) : texts (.string s) = [s] := rfl

theorem asObject_reread : (reread number v).asObject = v.asObject.map fun fields => fields.map fun f => (f.1, reread number f.2) := by
  cases v with
  | object | array => simp [asObject]
  | _ => rfl

theorem asStr_reread : (reread number v).asStr = v.asStr := by
  cases v with
  | object | array => simp [asStr]
  | _ => rfl

theorem get_reread : (reread number v).get key = (v.get key).map (reread number) := by
  cases v with
  | object fields =>
    rw [reread_object]
    exact Assoc.get_map _
  | array items => simp [get]
  | _ => rfl

/-! ### A reader of what is printed -/

variable {numbers : NumberText}

theorem reread_id (v : Json) : v.reread id = v := by
  induction v with
  | array items ih =>
    rw [reread_array]
    exact congrArg array ((List.map_congr_left ih).trans (List.map_id _))
  | object fields ih =>
    rw [reread_object]
    have hfields : (fields.map fun f => (f.1, reread id f.2)) = fields.map id :=
      List.map_congr_left fun f hf => Prod.ext rfl (ih f hf)
    exact congrArg object (hfields.trans (List.map_id _))
  | _ => rfl

theorem length_flatMap_escape (cs : List Char) : cs.length ≤ (cs.flatMap escapeChar).length := by
  induction cs with
  | nil => exact Nat.le_refl 0
  | cons c cs ih =>
    obtain ⟨a, t, hescape, -⟩ := escapeChar_ne_quote c
    rw [List.flatMap_cons, List.length_append, List.length_cons, hescape, List.length_cons]
    omega

variable {text : List Char}

theorem length_le_commaJoin {texts : List (List Char)} (h : text ∈ texts) : text.length ≤ (commaJoin texts).length := by
  rcases texts with _ | ⟨first, texts⟩
  · cases h
  rw [commaJoin, List.length_append]
  rcases List.mem_cons.1 h with rfl | h
  · omega
  · obtain ⟨front, back, rfl⟩ := List.append_of_mem h
    simp only [List.flatMap_append, List.flatMap_cons, List.length_append, List.length_cons]
    omega

/-- A text of a value is shorter than what the value is printed as. -/
theorem length_lt_print {t : String} (h : t ∈ v.texts) : t.toList.length < (v.print numbers).length := by
  induction v with
  | null | bool | number => cases h
  | string s =>
    obtain rfl := List.mem_singleton.1 h
    have hle := length_flatMap_escape t.toList
    show _ < (quote :: t.toList.flatMap escapeChar ++ [quote]).length
    simp only [List.length_append, List.length_cons, List.length_nil]
    omega
  | array items ih =>
    rw [texts_array] at h
    obtain ⟨v, hv, ht⟩ := List.mem_flatMap.1 h
    have hlt := ih v hv ht
    have hle := length_le_commaJoin (List.mem_map_of_mem (f := print numbers) hv)
    rw [print_array]
    simp only [List.length_append, List.length_cons]
    omega
  | object fields ih =>
    rw [texts_object] at h
    obtain ⟨f, hf, ht⟩ := List.mem_flatMap.1 h
    have hlt := ih f hf ht
    have hle := length_le_commaJoin (List.mem_map_of_mem (f := fieldText numbers) hf)
    have hfield : (f.2.print numbers).length ≤ (fieldText numbers f).length := by
      show _ ≤ (printString f.1 ++ ':' :: print numbers f.2).length
      simp only [List.length_append, List.length_cons]
      omega
    rw [print_object]
    simp only [List.length_append, List.length_cons]
    omega

theorem print_starts (numbers : NumberText) (v : Json) : ∃ c t, print numbers v = c :: t ∧ c ∈ valueStarts := by
  obtain ⟨c, t, hprint, hkind⟩ := @print_head numbers v
  refine ⟨c, t, hprint, ?_⟩
  by_contra hc
  have hne : ∀ d ∈ valueStarts, c ≠ d := fun d hd h => hc (h ▸ hd)
  have hother : kindOf c = 7 := by
    have hnumber : c ∉ numberChars := fun h => hc (List.mem_append_right _ h)
    rw [kindOf, if_neg (hne 'n' (by decide)), if_neg (hne 't' (by decide)), if_neg (hne 'f' (by decide)),
      if_neg (hne quote (by decide)), if_neg (hne '[' (by decide)), if_neg (hne openBrace (by decide)), if_neg hnumber]
  rw [hother] at hkind
  cases v with
  | bool b => cases b <;> cases hkind
  | _ => cases hkind

variable {c : Char}

theorem isWhitespace_valueStarts (hc : c ∈ ']' :: closeBrace :: valueStarts) : Text.isWhitespace c = false := by
  have hall : ((']' :: closeBrace :: valueStarts).all fun c => !Text.isWhitespace c) = true := by decide
  simpa using List.all_eq_true.1 hall c hc

theorem trimStart_starts (hc : c ∈ ']' :: closeBrace :: valueStarts) : Text.trimStart (c :: text) = c :: text :=
  Text.trimStart_eq_self fun d hd => by
    obtain rfl := Option.some.inj hd
    exact isWhitespace_valueStarts hc

theorem opens_array (hc : c ∈ ']' :: valueStarts) : opensContainer ('[' :: c :: text) = true := by
  have hstart : c ∈ ']' :: closeBrace :: valueStarts :=
    (List.mem_cons.1 hc).elim (fun h => h ▸ List.mem_cons_self) fun h => List.mem_cons_of_mem _ (List.mem_cons_of_mem _ h)
  have hany : (decide (c = ']') || decide (c ∈ valueStarts)) = true := by
    rw [Bool.or_eq_true, decide_eq_true_eq, decide_eq_true_eq]
    exact List.mem_cons.1 hc
  unfold opensContainer
  rw [trimStart_starts (c := '[') (by decide)]
  dsimp only
  rw [trimStart_starts hstart]
  exact Bool.or_eq_true_iff.2 (.inl hany)

theorem opens_object (hc : c ∈ [quote, closeBrace]) : opensContainer (openBrace :: c :: text) = true := by
  have hstart : c ∈ ']' :: closeBrace :: valueStarts := by
    rcases List.mem_cons.1 hc with rfl | hc
    · decide
    · obtain rfl := List.mem_singleton.1 hc
      decide
  have hany : (decide (c = quote) || decide (c = closeBrace)) = true := by
    rw [Bool.or_eq_true, decide_eq_true_eq, decide_eq_true_eq]
    exact (List.mem_cons.1 hc).imp id List.mem_singleton.1
  unfold opensContainer
  rw [trimStart_starts (c := openBrace) (by decide)]
  dsimp only
  rw [trimStart_starts hstart]
  exact Bool.or_eq_true_iff.2 (.inr hany)

theorem opens_print (h : v.isContainer = true) : opensContainer (v.print numbers) = true := by
  cases v with
  | array items =>
    rw [print_array]
    rcases items with _ | ⟨v, items⟩
    · exact opens_array List.mem_cons_self
    obtain ⟨c, t, hprint, hc⟩ := print_starts numbers v
    rw [List.map_cons, commaJoin, hprint]
    exact opens_array (List.mem_cons_of_mem _ hc)
  | object fields =>
    rw [print_object]
    cases fields with
    | nil => exact opens_object (List.mem_cons_of_mem _ List.mem_cons_self)
    | cons f fields => exact opens_object List.mem_cons_self
  | _ => cases h

open Classical in
noncomputable def Codec.printed : Codec where
  numbers := wireNumbers
  rereadNumber := id
  fromStr text := if h : ∃ v, Ordered v ∧ print wireNumbers v = text then some h.choose else none
  fromStr_print v hv := by
    have h : ∃ w, Ordered w ∧ print wireNumbers w = print wireNumbers v := ⟨v, hv, rfl⟩
    rw [dif_pos h, reread_id, print_injective h.choose_spec.2]
  ordered text v hv := by
    split at hv
    · rename_i h
      cases hv
      exact h.choose_spec.1
    · cases hv
  opens text v hv hcontainer := by
    split at hv
    · rename_i h
      cases hv
      rw [← h.choose_spec.2]
      exact opens_print hcontainer
    · cases hv
  shorter text v hv t ht := by
    split at hv
    · rename_i h
      cases hv
      rw [← h.choose_spec.2]
      exact length_lt_print ht
    · cases hv

end Json
