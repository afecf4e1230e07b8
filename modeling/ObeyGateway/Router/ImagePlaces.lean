import ObeyGateway.Router.ImageStrip

/-!
# Where image stripping comes to

The places of a content are the values that the walk does not enter and the texts that it comes to. After the walk no
image is left and a second walk changes nothing exactly if that is so of each place (`free_stripContent`,
`settles_stripContent`), that is if it is clear (`Place.clear_iff`): a value that is not entered if it holds no image, a
text if no JSON with images comes out of it.
-/

namespace ObeyGateway

open Text

variable {serde : Json.Codec} {here : Json → Prop} {v w : Json} {items parts : List Json} {fields : Json.Map} {s t : String}

inductive Holds (serde : Json.Codec) (here : Json → Prop) : Json → Prop
  | here {v : Json} : here v → Holds serde here v
  | item {items : List Json} {v : Json} : v ∈ items → Holds serde here v → Holds serde here (.array items)
  | field {fields : Json.Map} {f : String × Json} : f ∈ fields → Holds serde here f.2 → Holds serde here (.object fields)
  | encoded {s : String} {v : Json} : serde.fromStr s.toList = some v → v.isContainer = true → Holds serde here v →
      Holds serde here (.string s)

def HoldsImage (serde : Json.Codec) : Json → Prop := Holds serde (contentValueIsImage · = true)

def IsImageContent (v : Json) : Prop :=
  contentValueIsImage v = true ∨ ∃ s, v = .string s ∧ (looksLikeImageDataUrl s = true ∨ (redactText s).2 ≠ 0)

def HoldsImageContent (serde : Json.Codec) : Json → Prop := Holds serde IsImageContent

theorem holds_array : Holds serde here (.array items) ↔ here (.array items) ∨ ∃ v ∈ items, Holds serde here v := by
  constructor
  · intro h
    cases h with
    | here h => exact .inl h
    | item hv h => exact .inr ⟨_, hv, h⟩
  · rintro (h | ⟨v, hv, h⟩)
    · exact .here h
    · exact .item hv h

theorem holds_object : Holds serde here (.object fields) ↔ here (.object fields) ∨ ∃ f ∈ fields, Holds serde here f.2 := by
  constructor
  · intro h
    cases h with
    | here h => exact .inl h
    | field hf h => exact .inr ⟨_, hf, h⟩
  · rintro (h | ⟨f, hf, h⟩)
    · exact .here h
    · exact .field hf h

theorem holds_string : Holds serde here (.string s) ↔
    here (.string s) ∨ ∃ v, serde.fromStr s.toList = some v ∧ v.isContainer = true ∧ Holds serde here v := by
  constructor
  · intro h
    cases h with
    | here h => exact .inl h
    | encoded hread hcontainer h => exact .inr ⟨_, hread, hcontainer, h⟩
  · rintro (h | ⟨v, hread, hcontainer, h⟩)
    · exact .here h
    · exact .encoded hread hcontainer h

theorem holdsImage_array : HoldsImage serde (.array items) ↔ ∃ v ∈ items, HoldsImage serde v := by
  rw [HoldsImage, holds_array]
  exact or_iff_right (by simp [contentValueIsImage, Json.asObject])

theorem holdsImage_object : HoldsImage serde (.object fields) ↔
    contentValueIsImage (.object fields) = true ∨ ∃ f ∈ fields, HoldsImage serde f.2 := holds_object

theorem holdsImage_string : HoldsImage serde (.string s) ↔
    ∃ v, serde.fromStr s.toList = some v ∧ v.isContainer = true ∧ HoldsImage serde v := by
  rw [HoldsImage, holds_string]
  exact or_iff_right (by simp [contentValueIsImage, Json.asObject])

theorem not_holdsImage_string (h : Json.opensContainer s.toList = false) : ¬ HoldsImage serde (.string s) := by
  rw [holdsImage_string]
  rintro ⟨v, hread, hcontainer, -⟩
  rw [serde.opens _ _ hread hcontainer] at h
  cases h

theorem not_holdsImage_placeholder : ¬ HoldsImage serde imageRemovedPlaceholder := by
  rw [imageRemovedPlaceholder, holdsImage_object]
  rintro (h | ⟨f, hf, h⟩)
  · revert h
    decide +kernel
  · rcases List.mem_cons.1 hf with rfl | hf
    · exact not_holdsImage_string (by decide +kernel) h
    · obtain rfl := List.mem_singleton.1 hf
      exact not_holdsImage_string (by decide +kernel) h

theorem contentValueIsImage_congr {fields' : Json.Map} (hstr : ∀ key, ((Assoc.get fields key).bind (·.asStr)) =
      (Assoc.get fields' key).bind (·.asStr)) (hsome : ∀ key, (Assoc.get fields key).isSome = (Assoc.get fields' key).isSome)
    (hsource : (Assoc.get fields "source").any isImageSource = (Assoc.get fields' "source").any isImageSource) :
    contentValueIsImage (.object fields) = contentValueIsImage (.object fields') := by
  have htype : typeStr fields = typeStr fields' := hstr "type"
  have htext : isImageText fields = isImageText fields' := congrArg (Option.any looksLikeImageDataUrl) (hstr "text")
  have hfield : hasImageField fields = hasImageField fields' := by simp only [hasImageField, hsome, hsource]
  show ((typeStr fields).any _ || if typeStr fields = some "text" then isImageText fields else hasImageField fields) = _
  rw [htype, htext, hfield]
  rfl

variable (number : Number → Number)

theorem contentValueIsImage_reread (v : Json) :
    contentValueIsImage (v.reread number) = contentValueIsImage v := by
  cases v with
  | object fields =>
    have hget (key : String) : Assoc.get (fields.map fun f => (f.1, Json.reread number f.2)) key =
        (Assoc.get fields key).map (Json.reread number) := Assoc.get_map _
    rw [Json.reread_object]
    refine contentValueIsImage_congr (fun key => ?_) (fun key => ?_) ?_
    · rw [hget, Option.bind_map]
      exact congrArg _ (funext fun w => Json.asStr_reread)
    · rw [hget, Option.isSome_map]
    · rw [hget]
      rcases Assoc.get fields "source" with _ | source
      · rfl
      show isImageSource (Json.reread number source) = isImageSource source
      rw [isImageSource, Json.get_reread, Option.bind_map, isImageSource]
      exact congrArg (Option.any _) (congrArg _ (funext fun w => Json.asStr_reread))
  | array items => rw [Json.reread_array]; rfl
  | _ => rfl

theorem holdsImage_reread (v : Json) : HoldsImage serde (v.reread number) ↔ HoldsImage serde v := by
  induction v with
  | array items ih =>
    rw [Json.reread_array, holdsImage_array, holdsImage_array]
    constructor
    · rintro ⟨w, hw, h⟩
      obtain ⟨v, hv, rfl⟩ := List.mem_map.1 hw
      exact ⟨v, hv, (ih v hv).1 h⟩
    · rintro ⟨v, hv, h⟩
      exact ⟨_, List.mem_map_of_mem hv, (ih v hv).2 h⟩
  | object fields ih =>
    have hhere := contentValueIsImage_reread number (.object fields)
    rw [Json.reread_object] at hhere
    rw [Json.reread_object, holdsImage_object, holdsImage_object, hhere]
    refine or_congr_right ⟨?_, ?_⟩
    · rintro ⟨g, hg, h⟩
      obtain ⟨f, hf, rfl⟩ := List.mem_map.1 hg
      exact ⟨f, hf, (ih f hf).1 h⟩
    · rintro ⟨f, hf, h⟩
      exact ⟨_, List.mem_map_of_mem hf, (ih f hf).2 h⟩
  | number n =>
    have hnone (k : Number) : ¬ HoldsImage serde (.number k) := by
      rintro ⟨h⟩
      cases h
    exact iff_of_false (hnone _) (hnone _)
  | _ => exact Iff.rfl

/-! ### Texts -/

theorem redactText_scans (s : String) : ∃ out n, redactText s = (String.ofList out, n) ∧ Scans s.toList out n := by
  obtain ⟨out, n, hredact, hscans⟩ := redact_scans s.toList
  exact ⟨out, n, by rw [redactText, hredact]; rfl, hscans⟩

theorem redactText_unchanged (h : (redactText s).2 = 0) : (redactText s).1 = s := by
  obtain ⟨out, n, hredact, hscans⟩ := redactText_scans s
  rw [hredact] at h ⊢
  subst h
  rw [hscans.unchanged, String.ofList_toList]

theorem redactText_again (s : String) : (redactText (redactText s).1).2 = 0 := by
  obtain ⟨out, n, hredact, hscans⟩ := redactText_scans s
  obtain ⟨out', n', hredact', hscans'⟩ := redactText_scans (redactText s).1
  rw [hredact', hredact] at *
  rw [String.toList_ofList] at hscans'
  exact hscans.again hscans'

theorem not_looksLike_of_opens (h : Json.opensContainer s.toList = true) : looksLikeImageDataUrl s = false := by
  unfold Json.opensContainer at h
  unfold looksLikeImageDataUrl
  rcases htrim : trimStart s.toList with _ | ⟨c, rest⟩
  · rfl
  rw [htrim] at h
  rcases Bool.or_eq_true _ _ ▸ h with h | h
  · obtain rfl : c = '[' := of_decide_eq_true (Bool.and_eq_true _ _ ▸ h).1
    rfl
  · obtain rfl : c = Json.openBrace := of_decide_eq_true (Bool.and_eq_true _ _ ▸ h).1
    rfl

theorem looksLike_redactText :
    looksLikeImageDataUrl (redactText s).1 = true ↔ looksLikeImageDataUrl s = true ∧ (redactText s).2 = 0 := by
  obtain ⟨out, n, hredact, hscans⟩ := redactText_scans s
  by_cases hn : n = 0
  · subst hn
    rw [hredact, hscans.unchanged, String.ofList_toList]
    exact (and_iff_left rfl).symm
  · rw [hredact]
    refine iff_of_false ?_ fun h => hn h.2
    have hout : (String.ofList out).toList = out := String.toList_ofList
    rw [looksLikeImageDataUrl, List.isPrefixOf_iff_prefix, hout]
    exact hscans.not_begins hn

theorem stripDecoded_container {onText : String → String × Nat} (h : (stripDecoded onText v).2 ≠ 0) :
    v.isContainer = true ∧ (stripDecoded onText v).1.isContainer = true := by
  unfold stripDecoded at h ⊢
  split at h
  · rename_i himage
    rw [if_pos himage]
    cases v with
    | object fields => exact ⟨rfl, rfl⟩
    | _ => cases himage
  · rename_i himage
    rw [if_neg himage]
    cases v with
    | object | array => exact ⟨rfl, rfl⟩
    | _ => exact absurd rfl h

theorem stripJson_eq_some {r : String × Nat} : stripImageFromJsonString serde s = some r ↔
    ∃ v, serde.fromStr s.toList = some v ∧ (stripDecoded (stripText serde) v).2 ≠ 0 ∧
      r = (serde.toStr (stripDecoded (stripText serde) v).1, (stripDecoded (stripText serde) v).2) := by
  rw [stripImageFromJsonString_eq]
  rcases hread : serde.fromStr s.toList with _ | v
  · simp
  rw [Option.bind_some]
  by_cases hn : (stripDecoded (stripText serde) v).2 = 0
  · rw [if_pos hn]
    refine iff_of_false (by simp) ?_
    rintro ⟨w, hw, hne, -⟩
    cases hw
    exact hne hn
  · rw [if_neg hn]
    constructor
    · intro h
      cases h
      exact ⟨v, rfl, hn, rfl⟩
    · rintro ⟨w, hw, -, rfl⟩
      cases hw
      rfl

theorem stripJson_eq_none : stripImageFromJsonString serde s = none ↔
    ∀ v, serde.fromStr s.toList = some v → (stripDecoded (stripText serde) v).2 = 0 := by
  rw [stripImageFromJsonString_eq]
  rcases hread : serde.fromStr s.toList with _ | v
  · simp
  rw [Option.bind_some]
  split
  · rename_i hn
    exact iff_of_true rfl fun w hw => by cases hw; exact hn
  · rename_i hn
    exact iff_of_false (by simp) fun h => hn (h v rfl)

theorem toStr_brackets (serde : Json.Codec) (h : v.isContainer = true) :
    ∃ c rest, (serde.toStr v).toList = c :: rest ∧ (c = '[' ∨ c = Json.openBrace) := by
  rw [Json.Codec.toStr, String.toList_ofList]
  cases v with
  | array items => exact ⟨_, _, Json.print_array items, .inl rfl⟩
  | object fields => exact ⟨_, _, Json.print_object fields, .inr rfl⟩
  | _ => cases h

theorem stripText_of_none (h : stripImageFromJsonString serde s = none) : stripText serde s = redactText s := by
  rw [stripText, h, Option.getD_none]

theorem stripText_of_some {r : String × Nat} (h : stripImageFromJsonString serde s = some r) : stripText serde s = r := by
  rw [stripText, h, Option.getD_some]

theorem stripText_eq_zero : (stripText serde s).2 = 0 ↔ stripImageFromJsonString serde s = none ∧ (redactText s).2 = 0 := by
  rcases h : stripImageFromJsonString serde s with _ | r
  · rw [stripText_of_none h, eq_self, true_and]
  obtain ⟨v, -, hn, rfl⟩ := stripJson_eq_some.1 h
  rw [stripText_of_some h]
  exact iff_of_false hn (by simp)

theorem stripText_unchanged (h : (stripText serde s).2 = 0) : (stripText serde s).1 = s := by
  obtain ⟨hnone, hn⟩ := stripText_eq_zero.1 h
  rw [stripText_of_none hnone, redactText_unchanged hn]

theorem stripText_cases (serde : Json.Codec) (s : String) :
    (stripText serde s).1 = s ∨ '[' ∈ (stripText serde s).1.toList ∨ Json.openBrace ∈ (stripText serde s).1.toList := by
  cases h : stripImageFromJsonString serde s with
  | some r =>
    obtain ⟨v, -, hn, rfl⟩ := stripJson_eq_some.1 h
    obtain ⟨c, rest, heq, hc⟩ := toStr_brackets serde (stripDecoded_container hn).2
    rw [stripText_of_some h, heq]
    rcases hc with rfl | rfl
    · exact .inr (.inl List.mem_cons_self)
    · exact .inr (.inr List.mem_cons_self)
  | none =>
    obtain ⟨out, n, hredact, hscans⟩ := redactText_scans s
    rw [stripText_of_none h, hredact]
    by_cases hn : n = 0
    · subst hn
      exact .inl (by rw [hscans.unchanged, String.ofList_toList])
    · exact .inr (.inl (by rw [String.toList_ofList]; exact hscans.bracket_mem hn))

theorem stripText_plain (hopens : Json.opensContainer s.toList = false) (hredact : (redactText s).2 = 0) :
    (stripText serde s).2 = 0 := by
  refine stripText_eq_zero.2 ⟨stripJson_eq_none.2 fun v hread => ?_, hredact⟩
  by_contra hn
  rw [serde.opens _ _ hread (stripDecoded_container hn).1] at hopens
  cases hopens

def contentWords : List String := "text" :: imageTypes

theorem stripText_word (serde : Json.Codec) {word : String} (hword : word ∈ contentWords) :
    (stripText serde t).1 = word ↔ t = word := by
  have hplain : ∀ w ∈ contentWords, Json.opensContainer w.toList = false ∧ (redactText w).2 = 0 ∧ '[' ∉ w.toList ∧
      Json.openBrace ∉ w.toList := by decide +kernel
  obtain ⟨hopens, hredact, hbracket, hbrace⟩ := hplain word hword
  constructor
  · intro h
    rcases stripText_cases serde t with heq | hmem | hmem
    · exact heq.symm.trans h
    · exact absurd (h ▸ hmem) hbracket
    · exact absurd (h ▸ hmem) hbrace
  · rintro rfl
    exact stripText_unchanged (stripText_plain hopens hredact)

theorem looksLike_stripText : looksLikeImageDataUrl (stripText serde s).1 = true ↔
    looksLikeImageDataUrl s = true ∧ (redactText s).2 = 0 := by
  rcases h : stripImageFromJsonString serde s with _ | r
  · rw [stripText_of_none h, looksLike_redactText]
  obtain ⟨v, hread, hn, rfl⟩ := stripJson_eq_some.1 h
  obtain ⟨hv, hleft⟩ := stripDecoded_container hn
  obtain ⟨c, rest, heq, hc⟩ := toStr_brackets serde hleft
  rw [stripText_of_some h, not_looksLike_of_opens (serde.opens _ _ hread hv)]
  refine iff_of_false ?_ fun h => by cases h.1
  rw [looksLikeImageDataUrl, heq]
  rcases hc with rfl | rfl
  · exact Bool.false_ne_true
  · exact Bool.false_ne_true

/-- The text of a text part has data URLs that are redacted, so that it is no image afterwards. -/
def redactedPart (obj : Json.Map) : Bool :=
  typeStr obj = some "text" && ((Assoc.get obj "text").bind (·.asStr)).any fun t => (redactText t).2 ≠ 0

def removedPart (part : Json) : Bool := contentValueIsImage part && !part.asObject.any redactedPart

theorem get_stripFields (onField : String → Json → Json × Nat) (fields : Json.Map) (key : String) :
    Assoc.get (stripFields onField fields).1 key = (Assoc.get fields key).map fun w => (onField key w).1 := by
  rw [stripFields, Tally.tally_fst]
  exact Assoc.get_mapKeyed fun key w => (onField key w).1

variable (onText : String → String × Nat)

theorem asStr_stripField (w : Json) :
    (stripField onText w).1.asStr = w.asStr.map fun s => (onText s).1 := by
  cases w with
  | array items => rw [stripField_array]; rfl
  | object fields => rw [stripField_object]; rfl
  | _ => rfl

theorem isImageSource_stripField (w : Json) :
    isImageSource (stripField onText w).1 = isImageSource w := by
  cases w with
  | array items => rw [stripField_array]; rfl
  | object fields => rw [stripField_object]
  | _ => rfl

/-- The walk through its fields leaves a part an image, but for a text part that is redacted. -/
theorem image_stripPart (serde : Json.Codec) (part : Json) :
    contentValueIsImage (stripPart (stripText serde) part).1 = removedPart part := by
  cases part with
  | object fields =>
    rw [stripPart_object]
    have hget (key : String) := get_stripFields (fun _ => stripField (stripText serde)) fields key
    have hstr (key : String) : (Assoc.get (stripFields (fun _ => stripField (stripText serde)) fields).1 key).bind (·.asStr) =
        ((Assoc.get fields key).bind (·.asStr)).map fun s => (stripText serde s).1 := by
      rw [hget, Option.bind_map, Option.map_bind]
      exact congrArg _ (funext fun w => asStr_stripField _ w)
    have hfield : hasImageField (stripFields (fun _ => stripField (stripText serde)) fields).1 = hasImageField fields := by
      rw [hasImageField, hget, hget, hget, hget, Option.isSome_map, Option.isSome_map, Option.isSome_map, Option.any_map,
        funext (isImageSource_stripField (stripText serde)), hasImageField]
    have htype : (typeStr (stripFields (fun _ => stripField (stripText serde)) fields).1).any (imageTypes.contains ·) =
        (typeStr fields).any (imageTypes.contains ·) := by
      rw [typeStr, hstr, Option.any_map]
      refine congrArg (Option.any · _) (funext fun t => ?_)
      rw [Bool.eq_iff_iff, List.contains_iff_mem, List.contains_iff_mem]
      constructor
      · intro h
        rwa [← (stripText_word serde (List.mem_cons_of_mem _ h)).1 rfl] at h
      · intro h
        rwa [(stripText_word serde (List.mem_cons_of_mem _ h)).2 rfl]
    have htext : typeStr (stripFields (fun _ => stripField (stripText serde)) fields).1 = some "text" ↔
        typeStr fields = some "text" := by
      rw [typeStr, hstr, ← typeStr]
      rcases typeStr fields with _ | t
      · simp
      rw [Option.map_some, Option.some_inj, Option.some_inj]
      exact stripText_word serde List.mem_cons_self
    have hlooks : isImageText (stripFields (fun _ => stripField (stripText serde)) fields).1 =
        ((Assoc.get fields "text").bind (·.asStr)).any fun s => looksLikeImageDataUrl s && (redactText s).2 = 0 := by
      rw [isImageText, hstr, Option.any_map]
      refine congrArg (Option.any · _) (funext fun t => ?_)
      rw [Bool.eq_iff_iff, looksLike_stripText, Bool.and_eq_true, decide_eq_true_eq]
    show ((typeStr _).any _ || if typeStr _ = some "text" then isImageText _ else hasImageField _) =
      (((typeStr fields).any _ || if typeStr fields = some "text" then isImageText fields else hasImageField fields) &&
        !redactedPart fields)
    rw [htype, hlooks, hfield, redactedPart]
    by_cases htext' : typeStr fields = some "text"
    · rw [if_pos (htext.2 htext'), if_pos htext', htext', isImageText]
      have hnone : "text" ∉ imageTypes := by decide
      cases (Assoc.get fields "text").bind (·.asStr) with
      | none => simp
      | some t => simp [hnone]
    · rw [if_neg fun h => htext' (htext.1 h), if_neg htext', decide_eq_false htext', Bool.false_and, Bool.not_false, Bool.and_true]
  | array parts => rw [stripPart_array]; rfl
  | _ => rfl

theorem get_rereadFields (fields : Json.Map) (key : String) :
    (Assoc.get (fields.map fun f => (f.1, Json.reread number f.2)) key).bind (·.asStr) =
      (Assoc.get fields key).bind (·.asStr) := by
  have hget : Assoc.get (fields.map fun f => (f.1, Json.reread number f.2)) key =
      (Assoc.get fields key).map (Json.reread number) := Assoc.get_map _
  rw [hget, Option.bind_map]
  exact congrArg _ (funext fun w => Json.asStr_reread)

theorem removedPart_reread (v : Json) : removedPart (v.reread number) = removedPart v := by
  rw [removedPart, removedPart, contentValueIsImage_reread, Json.asObject_reread, Option.any_map]
  rcases v.asObject with _ | obj
  · rfl
  show (_ && !redactedPart (obj.map _)) = (_ && !redactedPart obj)
  rw [redactedPart, redactedPart, typeStr, get_rereadFields, get_rereadFields, ← typeStr]

theorem stripParts_count (serde : Json.Codec) (parts : List Json) : (stripImagePartsRecursive (stripText serde) parts).2 =
      (Tally.tally (stripPart (stripText serde)) parts).2 + parts.countP removedPart := by
  rw [stripImagePartsRecursive, retainParts, Tally.tally_fst]
  refine congrArg (_ + ·) ?_
  have hcount := List.length_eq_countP_add_countP (fun part => !contentValueIsImage part)
    (l := parts.map fun v => (stripPart (stripText serde) v).1)
  rw [← List.countP_eq_length_filter, hcount, Nat.add_sub_cancel_left, List.countP_map]
  refine List.countP_congr fun v _ => ?_
  rw [← image_stripPart serde v]
  simp

theorem stripParts_eq_zero : (stripImagePartsRecursive (stripText serde) parts).2 = 0 ↔
    ∀ v ∈ parts, (stripPart (stripText serde) v).2 = 0 ∧ removedPart v = false := by
  rw [stripParts_count, Nat.add_eq_zero_iff, Tally.tally_eq_zero, List.countP_eq_zero, ← forall₂_and]
  simp only [Bool.not_eq_true]

theorem stripArray_eq_zero : (stripArray (stripText serde) (.array parts)).2 = 0 ↔
    ∀ v ∈ parts, (stripPart (stripText serde) v).2 = 0 ∧ removedPart v = false := stripParts_eq_zero

variable {onField : String → Json → Json × Nat}

theorem stripFields_eq_zero :
    (stripFields onField fields).2 = 0 ↔ ∀ f ∈ fields, (onField f.1 f.2).2 = 0 := Tally.tally_eq_zero

theorem stripFields_unchanged (h : ∀ f ∈ fields, (onField f.1 f.2).1 = f.2) : (stripFields onField fields).1 = fields := by
  rw [stripFields, Tally.tally_fst]
  have hmap : fields.map (fun f => (f.1, (onField f.1 f.2).1)) = fields.map id :=
    List.map_congr_left fun f hf => Prod.ext rfl (h f hf)
  exact hmap.trans (List.map_id _)

theorem strip_unchanged (serde : Json.Codec) (v : Json) :
    ((stripField (stripText serde) v).2 = 0 → (stripField (stripText serde) v).1 = v) ∧
      ((stripPart (stripText serde) v).2 = 0 → (stripPart (stripText serde) v).1 = v) := by
  induction v with
  | null | bool | number => exact ⟨fun _ => rfl, fun _ => rfl⟩
  | string s => exact ⟨fun h => congrArg Json.string (stripText_unchanged h), fun _ => rfl⟩
  | array parts ih =>
    rw [stripField_array, stripPart_array]
    refine ⟨fun h => ?_, fun _ => rfl⟩
    have hzero := stripArray_eq_zero.1 h
    have hkept : (stripImagePartsRecursive (stripText serde) parts).1 = parts := by
      have hmap : parts.map (fun v => (stripPart (stripText serde) v).1) = parts :=
        (List.map_congr_left fun v hv => (ih v hv).2 (hzero v hv).1).trans (List.map_id _)
      rw [stripImagePartsRecursive, retainParts, Tally.tally_fst, hmap]
      refine List.filter_eq_self.2 fun v hv => ?_
      rw [← (ih v hv).2 (hzero v hv).1, image_stripPart, (hzero v hv).2]
      rfl
    have hnone : ¬ (0 < (stripImagePartsRecursive (stripText serde) parts).2 ∧
        (stripImagePartsRecursive (stripText serde) parts).1 = []) := fun hlost => Nat.ne_of_gt hlost.1 h
    show Json.array (if _ then _ else _) = _
    rw [if_neg hnone, hkept]
  | object fields ih =>
    rw [stripField_object, stripPart_object]
    refine ⟨fun _ => rfl, fun h => congrArg Json.object (stripFields_unchanged fun f hf => ?_)⟩
    exact (ih f hf).1 (stripFields_eq_zero.1 h f hf)

theorem stripArray_unchanged (h : (stripArray (stripText serde) v).2 = 0) : (stripArray (stripText serde) v).1 = v := by
  cases v with
  | array parts =>
    rw [← stripField_array] at h ⊢
    exact (strip_unchanged serde _).1 h
  | _ => rfl

theorem strip_reread_eq_zero (serde : Json.Codec) (number : Number → Number) (v : Json) :
    ((stripField (stripText serde) (v.reread number)).2 = 0 ↔ (stripField (stripText serde) v).2 = 0) ∧
      ((stripPart (stripText serde) (v.reread number)).2 = 0 ↔ (stripPart (stripText serde) v).2 = 0) := by
  induction v with
  | array parts ih =>
    rw [Json.reread_array, stripField_array, stripField_array, stripPart_array, stripPart_array, stripArray_eq_zero,
      stripArray_eq_zero, List.forall_mem_map]
    refine ⟨forall₂_congr fun v hv => ?_, Iff.rfl⟩
    rw [(ih v hv).2, removedPart_reread]
  | object fields ih =>
    rw [Json.reread_object, stripField_object, stripField_object, stripPart_object, stripPart_object]
    refine ⟨Iff.rfl, ?_⟩
    rw [stripFields_eq_zero, stripFields_eq_zero, List.forall_mem_map]
    exact forall₂_congr fun f hf => (ih f hf).1
  | _ => exact ⟨Iff.rfl, Iff.rfl⟩

/-! ### Places -/

/-- Where the walk comes to and what stays: a value that it does not enter, or a text. -/
inductive Place
  | unseen (v : Json)
  | text (s : String)

def placesAlg : Json.ParaAlg (List Place × List Place) where
  null := ([], [])
  bool _ := ([], [])
  number _ := ([], [])
  string s := ([.text s], [.unseen (.string s)])
  array parts :=
    (parts.flatMap fun p => if removedPart p.1 then [] else p.2.2, [.unseen (.array (parts.map (·.1)))])
  object fields := ([.unseen (.object (fields.map fun f => (f.1, f.2.1)))], fields.flatMap fun f => f.2.2.1)

def valuePlaces (v : Json) : List Place := (Json.para placesAlg v).1

def partPlaces (v : Json) : List Place := (Json.para placesAlg v).2

def partsPlaces (parts : List Json) : List Place := parts.flatMap fun v => if removedPart v then [] else partPlaces v

def arrayPlaces : Json → List Place
  | .array parts => partsPlaces parts
  | v => [.unseen v]

/-- Of a value that was read from a text: an object's fields that are no arrays are not entered. -/
def decodedPlaces (v : Json) : List Place :=
  if contentValueIsImage v then []
  else
    match v with
    | .object fields => fields.flatMap fun f => arrayPlaces f.2
    | v => arrayPlaces v

def contentPlaces (content : Json) : List Place :=
  match content with
  | .array parts => partsPlaces parts
  | .object fields =>
    if contentValueIsImage content then []
    else fields.flatMap fun f => if f.1 = "content" then arrayPlaces f.2 else [.unseen f.2]
  | .string s => if looksLikeImageDataUrl s then [] else [.text s]
  | _ => []

theorem valuePlaces_array : valuePlaces (.array parts) = partsPlaces parts := by
  rw [valuePlaces, Json.para_array]
  show (parts.map _).flatMap _ = _
  rw [List.flatMap_map]
  rfl

theorem partPlaces_array : partPlaces (.array parts) = [.unseen (.array parts)] := by
  rw [partPlaces, Json.para_array]
  simp [placesAlg, Function.comp_def]

theorem valuePlaces_object : valuePlaces (.object fields) = [.unseen (.object fields)] := by
  rw [valuePlaces, Json.para_object]
  simp [placesAlg, Function.comp_def]

theorem partPlaces_object : partPlaces (.object fields) = fields.flatMap fun f => valuePlaces f.2 := by
  rw [partPlaces, Json.para_object]
  show (fields.map _).flatMap _ = _
  rw [List.flatMap_map]
  rfl

theorem forall_partsPlaces {P : Place → Prop} :
    (∀ p ∈ partsPlaces parts, P p) ↔ ∀ v ∈ parts, removedPart v = false → ∀ p ∈ partPlaces v, P p := by
  rw [partsPlaces, List.forall_mem_flatMap]
  refine forall₂_congr fun v _ => ?_
  by_cases hremoved : removedPart v = true
  · rw [if_pos hremoved, hremoved]
    simp
  · rw [if_neg hremoved, Bool.eq_false_iff.2 hremoved]
    simp

def Place.HoldsImage (serde : Json.Codec) : Place → Prop
  | .unseen v => ObeyGateway.HoldsImage serde v
  | .text s => ObeyGateway.HoldsImage serde (.string (stripText serde s).1)

def Place.Settles (serde : Json.Codec) : Place → Prop
  | .unseen _ => True
  | .text s => (stripText serde (stripText serde s).1).2 = 0

theorem forall_orPlaceholder {P : Json → Prop} (hplaceholder : P imageRemovedPlaceholder) (stripped : List Json × Nat) :
    (∀ part ∈ (orPlaceholder stripped).1, P part) ↔ ∀ part ∈ stripped.1, P part := by
  unfold orPlaceholder
  split
  · rename_i hlost
    rw [hlost.2]
    exact iff_of_true (List.forall_mem_singleton.2 hplaceholder) (List.forall_mem_nil _)
  · exact Iff.rfl

theorem forall_stripParts {P : Json → Prop} : (∀ part ∈ (stripImagePartsRecursive (stripText serde) parts).1, P part) ↔
    ∀ v ∈ parts, removedPart v = false → P (stripPart (stripText serde) v).1 := by
  constructor
  · intro h v hv hkept
    exact h _ (mem_stripParts.2 ⟨by rwa [image_stripPart], v, hv, rfl⟩)
  · intro h part hpart
    obtain ⟨hkept, v, hv, rfl⟩ := mem_stripParts.1 hpart
    exact h v hv (by rwa [image_stripPart] at hkept)

theorem not_holdsImage_array : ¬ HoldsImage serde (.array items) ↔ ∀ v ∈ items, ¬ HoldsImage serde v := by
  rw [holdsImage_array]
  simp

theorem not_holdsImage_object : ¬ HoldsImage serde (.object fields) ↔
    contentValueIsImage (.object fields) = false ∧ ∀ f ∈ fields, ¬ HoldsImage serde f.2 := by
  rw [holdsImage_object, not_or, Bool.not_eq_true]
  simp

theorem free_parts (h : ∀ v ∈ parts, ¬ HoldsImage serde (stripPart (stripText serde) v).1 ↔
      removedPart v = false ∧ ∀ p ∈ partPlaces v, ¬ p.HoldsImage serde) :
    ¬ HoldsImage serde (stripArray (stripText serde) (.array parts)).1 ↔ ∀ p ∈ partsPlaces parts, ¬ p.HoldsImage serde := by
  rw [stripArray, not_holdsImage_array, forall_orPlaceholder not_holdsImage_placeholder, forall_stripParts, forall_partsPlaces]
  refine forall₂_congr fun v hv => forall_congr' fun hkept => ?_
  rw [h v hv]
  exact and_iff_right hkept

theorem free_unseen : (∀ p ∈ [Place.unseen v], ¬ p.HoldsImage serde) ↔ ¬ HoldsImage serde v := List.forall_mem_singleton

theorem free_text : (∀ p ∈ [Place.text s], ¬ p.HoldsImage serde) ↔ ¬ HoldsImage serde (.string (stripText serde s).1) :=
  List.forall_mem_singleton

theorem settles_text : (∀ p ∈ [Place.text s], p.Settles serde) ↔ (stripText serde (stripText serde s).1).2 = 0 :=
  List.forall_mem_singleton

theorem not_holdsImage_scalar (hcontainer : v.isContainer = false) (hstr : v.asStr = none) : ¬ HoldsImage serde v := by
  rintro (h | h | h | h)
  · cases v with
    | object fields => cases hcontainer
    | _ => cases h
  · cases hcontainer
  · cases hcontainer
  · cases hstr

theorem free_strip (serde : Json.Codec) (v : Json) :
    (¬ HoldsImage serde (stripField (stripText serde) v).1 ↔ ∀ p ∈ valuePlaces v, ¬ p.HoldsImage serde) ∧
      (¬ HoldsImage serde (stripPart (stripText serde) v).1 ↔
        removedPart v = false ∧ ∀ p ∈ partPlaces v, ¬ p.HoldsImage serde) := by
  have hscalar {w : Json} (h : ¬ HoldsImage serde w) : (¬ HoldsImage serde w ↔ ∀ p ∈ ([] : List Place), ¬ p.HoldsImage serde) ∧
      (¬ HoldsImage serde w ↔ false = false ∧ ∀ p ∈ ([] : List Place), ¬ p.HoldsImage serde) :=
    ⟨iff_of_true h (List.forall_mem_nil _), iff_of_true h ⟨rfl, List.forall_mem_nil _⟩⟩
  induction v with
  | null | bool | number => exact hscalar (not_holdsImage_scalar rfl rfl)
  | string s =>
    have hpart : ¬ HoldsImage serde (.string s) ↔ false = false ∧ ∀ p ∈ [Place.unseen (.string s)], ¬ p.HoldsImage serde := by
      rw [free_unseen, eq_self, true_and]
    exact ⟨free_text.symm, hpart⟩
  | array parts ih =>
    rw [stripField_array, stripPart_array, valuePlaces_array, partPlaces_array]
    refine ⟨free_parts fun v hv => (ih v hv).2, ?_⟩
    rw [free_unseen]
    exact (and_iff_right rfl).symm
  | object fields ih =>
    rw [valuePlaces_object, partPlaces_object, ← image_stripPart serde, stripField_object, stripPart_object]
    refine ⟨free_unseen.symm, ?_⟩
    rw [not_holdsImage_object, List.forall_mem_flatMap]
    refine and_congr_right fun _ => ?_
    constructor
    · intro h f hf
      exact (ih f hf).1.1 (h _ (mem_stripFields.2 ⟨f, hf, rfl⟩))
    · intro h g hg
      obtain ⟨f, hf, rfl⟩ := mem_stripFields.1 hg
      exact (ih f hf).1.2 (h f hf)

theorem free_stripArray (serde : Json.Codec) (v : Json) :
    ¬ HoldsImage serde (stripArray (stripText serde) v).1 ↔ ∀ p ∈ arrayPlaces v, ¬ p.HoldsImage serde := by
  cases v with
  | array parts => exact free_parts fun v _ => (free_strip serde v).2
  | _ => exact free_unseen.symm

theorem removedPart_of_unchanged (hkept : contentValueIsImage v = false) (h : (stripPart (stripText serde) v).2 = 0) :
    removedPart v = false := by
  rwa [← image_stripPart serde, (strip_unchanged serde v).2 h]

theorem placeholder_settled : (stripPart (stripText serde) imageRemovedPlaceholder).2 = 0 ∧
    removedPart imageRemovedPlaceholder = false := by
  refine ⟨?_, by decide +kernel⟩
  rw [imageRemovedPlaceholder, stripPart_object, stripFields_eq_zero]
  intro f hf
  rcases List.mem_cons.1 hf with rfl | hf
  · exact stripText_plain (by decide +kernel) (by decide +kernel)
  · obtain rfl := List.mem_singleton.1 hf
    exact stripText_plain (by decide +kernel) (by decide +kernel)

theorem settles_parts (h : ∀ v ∈ parts, (stripPart (stripText serde) (stripPart (stripText serde) v).1).2 = 0 ↔
      ∀ p ∈ partPlaces v, p.Settles serde) :
    (stripArray (stripText serde) (stripArray (stripText serde) (.array parts)).1).2 = 0 ↔
      ∀ p ∈ partsPlaces parts, p.Settles serde := by
  rw [show (stripArray (stripText serde) (.array parts)).1 =
      .array (orPlaceholder (stripImagePartsRecursive (stripText serde) parts)).1 from rfl,
    stripArray_eq_zero, forall_orPlaceholder placeholder_settled, forall_stripParts, forall_partsPlaces]
  refine forall₂_congr fun v hv => forall_congr' fun hkept => ?_
  rw [← h v hv]
  refine and_iff_left_of_imp fun hzero => removedPart_of_unchanged ?_ hzero
  rwa [image_stripPart]

theorem settles_strip (serde : Json.Codec) (v : Json) :
    ((stripField (stripText serde) (stripField (stripText serde) v).1).2 = 0 ↔ ∀ p ∈ valuePlaces v, p.Settles serde) ∧
      ((stripPart (stripText serde) (stripPart (stripText serde) v).1).2 = 0 ↔ ∀ p ∈ partPlaces v, p.Settles serde) := by
  have hscalar : ((0 : Nat) = 0 ↔ ∀ p ∈ ([] : List Place), p.Settles serde) := iff_of_true rfl (List.forall_mem_nil _)
  have hunseen {w : Json} : ((0 : Nat) = 0 ↔ ∀ p ∈ [Place.unseen w], p.Settles serde) :=
    iff_of_true rfl (List.forall_mem_singleton.2 trivial)
  induction v with
  | null | bool | number => exact ⟨hscalar, hscalar⟩
  | string s => exact ⟨settles_text.symm, hunseen⟩
  | array parts ih =>
    rw [stripField_array, stripPart_array, valuePlaces_array, partPlaces_array]
    refine ⟨?_, by rw [stripPart_array]; exact hunseen⟩
    show (stripField (stripText serde) (.array _)).2 = 0 ↔ _
    rw [stripField_array]
    exact settles_parts fun v hv => (ih v hv).2
  | object fields ih =>
    rw [valuePlaces_object, partPlaces_object, stripField_object, stripPart_object]
    refine ⟨by rw [stripField_object]; exact hunseen, ?_⟩
    rw [stripPart_object, stripFields_eq_zero, List.forall_mem_flatMap]
    constructor
    · intro h f hf
      exact (ih f hf).1.1 (h _ (mem_stripFields.2 ⟨f, hf, rfl⟩))
    · intro h g hg
      obtain ⟨f, hf, rfl⟩ := mem_stripFields.1 hg
      exact (ih f hf).1.2 (h f hf)

theorem settles_stripArray (serde : Json.Codec) (v : Json) :
    (stripArray (stripText serde) (stripArray (stripText serde) v).1).2 = 0 ↔ ∀ p ∈ arrayPlaces v, p.Settles serde := by
  cases v with
  | array parts => exact settles_parts fun v _ => (settles_strip serde v).2
  | _ => exact iff_of_true rfl (List.forall_mem_singleton.2 trivial)

theorem settled_placeholder : (stripArray (stripText serde) (.array [imageRemovedPlaceholder])).2 = 0 :=
  stripArray_eq_zero.2 (List.forall_mem_singleton.2 placeholder_settled)

/-! ### Values from texts, and contents -/

theorem stripArray_reread_eq_zero (v : Json) :
    (stripArray (stripText serde) (v.reread number)).2 = 0 ↔ (stripArray (stripText serde) v).2 = 0 := by
  cases v with
  | array parts =>
    have h := (strip_reread_eq_zero serde number (.array parts)).1
    rw [Json.reread_array] at h ⊢
    rwa [stripField_array, stripField_array] at h
  | object fields =>
    rw [Json.reread_object]
    exact Iff.rfl
  | _ => exact Iff.rfl

theorem isImageSource_stripArray (w : Json) :
    isImageSource (stripArray onText w).1 = isImageSource w := by
  cases w with
  | array items => rfl
  | _ => rfl

theorem image_stripFields
    (h : ∀ key w, onField key w = (w, 0) ∨ onField key w = stripArray onText w) :
    contentValueIsImage (.object (stripFields onField fields).1) = contentValueIsImage (.object fields) := by
  have hstr (key : String) (w : Json) : (onField key w).1.asStr = w.asStr := by
    rcases h key w with heq | heq
    · rw [heq]
    · rw [heq]
      cases w with
      | array items => rfl
      | _ => rfl
  refine contentValueIsImage_congr (fun key => ?_) (fun key => ?_) ?_
  · rw [get_stripFields, Option.bind_map]
    exact congrArg _ (funext fun w => hstr key w)
  · rw [get_stripFields, Option.isSome_map]
  · rw [get_stripFields, Option.any_map]
    refine congrArg (Option.any · _) (funext fun w => ?_)
    rcases h "source" w with heq | heq
    · exact congrArg (isImageSource ·.1) heq
    · show isImageSource (onField "source" w).1 = _
      rw [heq, isImageSource_stripArray]

theorem free_stripFields {places : String × Json → List Place}
    (himage : contentValueIsImage (.object (stripFields onField fields).1) = false)
    (h : ∀ f : String × Json, ¬ HoldsImage serde (onField f.1 f.2).1 ↔ ∀ p ∈ places f, ¬ p.HoldsImage serde) :
    ¬ HoldsImage serde (.object (stripFields onField fields).1) ↔ ∀ p ∈ fields.flatMap places, ¬ p.HoldsImage serde := by
  rw [not_holdsImage_object, List.forall_mem_flatMap, himage]
  constructor
  · intro hfree f hf
    exact (h f).1 (hfree.2 _ (mem_stripFields.2 ⟨f, hf, rfl⟩))
  · intro hfree
    refine ⟨rfl, fun g hg => ?_⟩
    obtain ⟨f, hf, rfl⟩ := mem_stripFields.1 hg
    exact (h f).2 (hfree f hf)

theorem settles_stripFields {places : String × Json → List Place}
    (h : ∀ f : String × Json, (onField f.1 (onField f.1 f.2).1).2 = 0 ↔ ∀ p ∈ places f, p.Settles serde) :
    (stripFields onField (stripFields onField fields).1).2 = 0 ↔ ∀ p ∈ fields.flatMap places, p.Settles serde := by
  rw [stripFields_eq_zero, List.forall_mem_flatMap]
  constructor
  · intro hzero f hf
    exact (h f).1 (hzero _ (mem_stripFields.2 ⟨f, hf, rfl⟩))
  · intro hsettles g hg
    obtain ⟨f, hf, rfl⟩ := mem_stripFields.1 hg
    exact (h f).2 (hsettles f hf)

section
variable {onText : String → String × Nat}

theorem stripDecoded_image (h : contentValueIsImage v = true) :
    stripDecoded onText v = (.array [imageRemovedPlaceholder], 1) := if_pos h

theorem stripDecoded_object (h : contentValueIsImage (.object fields) = false) : stripDecoded onText (.object fields) =
      (.object (stripFields (fun _ => stripArray onText) fields).1, (stripFields (fun _ => stripArray onText) fields).2) :=
  if_neg (by rw [h]; exact Bool.false_ne_true)

theorem stripDecoded_other (h : v.asObject = none) : stripDecoded onText v = stripArray onText v := by
  cases v with
  | object fields => cases h
  | _ => rfl

theorem decodedPlaces_image (h : contentValueIsImage v = true) : decodedPlaces v = [] := if_pos h

theorem decodedPlaces_object (h : contentValueIsImage (.object fields) = false) :
    decodedPlaces (.object fields) = fields.flatMap fun f => arrayPlaces f.2 :=
  if_neg (by rw [h]; exact Bool.false_ne_true)

theorem decodedPlaces_other (h : v.asObject = none) : decodedPlaces v = arrayPlaces v := by
  cases v with
  | object fields => cases h
  | _ => rfl

theorem decoded_cases (v : Json) : contentValueIsImage v = true ∨
    (∃ fields, v = .object fields ∧ contentValueIsImage (.object fields) = false) ∨ v.asObject = none := by
  cases himage : contentValueIsImage v with
  | true => exact .inl rfl
  | false =>
    cases v with
    | object fields => exact .inr (.inl ⟨fields, rfl, himage⟩)
    | _ => exact .inr (.inr rfl)

end

theorem asObject_stripArray {onText : String → String × Nat} (h : v.asObject = none) : (stripArray onText v).1.asObject = none := by
  cases v with
  | object fields => cases h
  | _ => rfl

theorem free_stripDecoded (serde : Json.Codec) (v : Json) :
    ¬ HoldsImage serde (stripDecoded (stripText serde) v).1 ↔ ∀ p ∈ decodedPlaces v, ¬ p.HoldsImage serde := by
  rcases decoded_cases v with himage | ⟨fields, rfl, hfields⟩ | hother
  · rw [stripDecoded_image himage, decodedPlaces_image himage, not_holdsImage_array]
    exact iff_of_true (List.forall_mem_singleton.2 not_holdsImage_placeholder) (List.forall_mem_nil _)
  · rw [stripDecoded_object hfields, decodedPlaces_object hfields]
    refine free_stripFields ?_ fun f => free_stripArray serde f.2
    rw [image_stripFields (stripText serde) fun _ _ => .inr rfl, hfields]
  · rw [stripDecoded_other hother, decodedPlaces_other hother]
    exact free_stripArray serde v

theorem settles_stripDecoded (serde : Json.Codec) (v : Json) :
    (stripDecoded (stripText serde) (stripDecoded (stripText serde) v).1).2 = 0 ↔ ∀ p ∈ decodedPlaces v, p.Settles serde := by
  rcases decoded_cases v with himage | ⟨fields, rfl, hfields⟩ | hother
  · rw [stripDecoded_image himage, decodedPlaces_image himage, stripDecoded_other rfl]
    exact iff_of_true settled_placeholder (List.forall_mem_nil _)
  · have hleft : contentValueIsImage (.object (stripFields (fun _ => stripArray (stripText serde)) fields).1) = false := by
      rw [image_stripFields (stripText serde) fun _ _ => .inr rfl, hfields]
    rw [stripDecoded_object hfields, decodedPlaces_object hfields, stripDecoded_object hleft]
    exact settles_stripFields fun f => settles_stripArray serde f.2
  · rw [stripDecoded_other hother, decodedPlaces_other hother, stripDecoded_other (asObject_stripArray hother)]
    exact settles_stripArray serde v

theorem stripDecoded_reread_eq_zero (v : Json) :
    (stripDecoded (stripText serde) (v.reread number)).2 = 0 ↔ (stripDecoded (stripText serde) v).2 = 0 := by
  have hread := contentValueIsImage_reread number v
  rcases decoded_cases v with himage | ⟨fields, rfl, hfields⟩ | hother
  · rw [stripDecoded_image himage, stripDecoded_image (hread.trans himage)]
  · rw [hfields, Json.reread_object] at hread
    rw [Json.reread_object, stripDecoded_object hfields, stripDecoded_object hread]
    dsimp only
    rw [stripFields_eq_zero, stripFields_eq_zero, List.forall_mem_map]
    exact forall₂_congr fun f _ => stripArray_reread_eq_zero number f.2
  · have hother' : (v.reread number).asObject = none := by rw [Json.asObject_reread, hother, Option.map_none]
    rw [stripDecoded_other hother, stripDecoded_other hother']
    exact stripArray_reread_eq_zero number v

def onContent (serde : Json.Codec) (key : String) (v : Json) : Json × Nat :=
  if key = "content" then stripArray (stripText serde) v else (v, 0)

theorem onContent_cases (serde : Json.Codec) (key : String) (w : Json) :
    onContent serde key w = (w, 0) ∨ onContent serde key w = stripArray (stripText serde) w := by
  unfold onContent
  split
  · exact .inr rfl
  · exact .inl rfl

theorem stripContent_image (h : contentValueIsImage (.object fields) = true) :
    stripContent serde (.object fields) = (.array [imageRemovedPlaceholder], 1) := if_pos h

theorem stripContent_object (h : contentValueIsImage (.object fields) = false) : stripContent serde (.object fields) =
    (.object (stripFields (onContent serde) fields).1, (stripFields (onContent serde) fields).2) :=
  if_neg (by rw [h]; exact Bool.false_ne_true)

theorem stripContent_looks (h : looksLikeImageDataUrl s = true) :
    stripContent serde (.string s) = (.array [imageRemovedPlaceholder], 1) := if_pos h

theorem stripContent_string (h : ¬ looksLikeImageDataUrl s = true) :
    stripContent serde (.string s) = (.string (stripText serde s).1, (stripText serde s).2) := if_neg h

theorem free_stripContent (serde : Json.Codec) (content : Json) :
    ¬ HoldsImage serde (stripContent serde content).1 ↔ ∀ p ∈ contentPlaces content, ¬ p.HoldsImage serde := by
  have hplaceholder : ¬ HoldsImage serde (.array [imageRemovedPlaceholder]) :=
    not_holdsImage_array.2 (List.forall_mem_singleton.2 not_holdsImage_placeholder)
  cases content with
  | array parts => exact free_stripArray serde (.array parts)
  | object fields =>
    cases himage : contentValueIsImage (.object fields) with
    | true =>
      rw [stripContent_image himage, contentPlaces, if_pos himage]
      exact iff_of_true hplaceholder (List.forall_mem_nil _)
    | false =>
      rw [stripContent_object himage, contentPlaces, if_neg (by rw [himage]; exact Bool.false_ne_true)]
      refine free_stripFields (by rw [image_stripFields _ (onContent_cases serde), himage]) fun f => ?_
      unfold onContent
      split
      · exact free_stripArray serde f.2
      · exact free_unseen.symm
  | string s =>
    rw [contentPlaces]
    split
    · rename_i hlooks
      rw [stripContent_looks hlooks]
      exact iff_of_true hplaceholder (List.forall_mem_nil _)
    · rename_i hlooks
      rw [stripContent_string hlooks]
      exact free_text.symm
  | null | bool | number => exact iff_of_true (not_holdsImage_scalar rfl rfl) (List.forall_mem_nil _)

theorem settles_stripContent (serde : Json.Codec) (content : Json) :
    (stripContent serde (stripContent serde content).1).2 = 0 ↔ ∀ p ∈ contentPlaces content, p.Settles serde := by
  cases content with
  | array parts => exact settles_stripArray serde (.array parts)
  | object fields =>
    cases himage : contentValueIsImage (.object fields) with
    | true =>
      rw [stripContent_image himage, contentPlaces, if_pos himage]
      exact iff_of_true settled_placeholder (List.forall_mem_nil _)
    | false =>
      have hleft : contentValueIsImage (.object (stripFields (onContent serde) fields).1) = false := by
        rw [image_stripFields _ (onContent_cases serde), himage]
      rw [stripContent_object himage, stripContent_object hleft, contentPlaces,
        if_neg (by rw [himage]; exact Bool.false_ne_true)]
      refine settles_stripFields fun f => ?_
      unfold onContent
      split
      · exact settles_stripArray serde f.2
      · exact iff_of_true rfl (List.forall_mem_singleton.2 trivial)
  | string s =>
    rw [contentPlaces]
    split
    · rename_i hlooks
      rw [stripContent_looks hlooks]
      exact iff_of_true settled_placeholder (List.forall_mem_nil _)
    · rename_i hlooks
      have hleft : ¬ looksLikeImageDataUrl (stripText serde s).1 = true := fun h => hlooks (looksLike_stripText.1 h).1
      rw [stripContent_string hlooks, stripContent_string hleft]
      exact settles_text.symm
  | _ => exact iff_of_true rfl (List.forall_mem_nil _)

theorem stripContent_unchanged {content : Json} (h : (stripContent serde content).2 = 0) :
    (stripContent serde content).1 = content := by
  cases content with
  | array parts => exact stripArray_unchanged h
  | object fields =>
    cases himage : contentValueIsImage (.object fields) with
    | true =>
      rw [stripContent_image himage] at h
      cases h
    | false =>
      rw [stripContent_object himage] at h ⊢
      refine congrArg Json.object (stripFields_unchanged fun f hf => ?_)
      have hzero := stripFields_eq_zero.1 h f hf
      unfold onContent at hzero ⊢
      split at hzero
      · rename_i hkey
        rw [if_pos hkey]
        exact stripArray_unchanged hzero
      · rename_i hkey
        rw [if_neg hkey]
  | string s =>
    by_cases hlooks : looksLikeImageDataUrl s = true
    · rw [stripContent_looks hlooks] at h
      cases h
    · rw [stripContent_string hlooks] at h ⊢
      exact congrArg Json.string (stripText_unchanged h)
  | _ => rfl

/-! ### Clear places -/

/-- A JSON text that is stripped has clear places and leaves no data URL; any other text has no images once it is
redacted. -/
inductive TextClear (serde : Json.Codec) : String → Prop
  | stripped {s left : String} {n : Nat} {v : Json} : stripImageFromJsonString serde s = some (left, n) →
      serde.fromStr s.toList = some v → (∀ w, Place.unseen w ∈ decodedPlaces v → ¬ HoldsImage serde w) →
      (∀ t, Place.text t ∈ decodedPlaces v → TextClear serde t) → (redactText left).2 = 0 → TextClear serde s
  | plain {s : String} : stripImageFromJsonString serde s = none → ¬ HoldsImage serde (.string (redactText s).1) →
      ((redactText s).2 ≠ 0 → stripImageFromJsonString serde (redactText s).1 = none) → TextClear serde s

def Place.Clear (serde : Json.Codec) : Place → Prop
  | .unseen v => ¬ ObeyGateway.HoldsImage serde v
  | .text s => TextClear serde s

theorem texts_places (v : Json) : (∀ t, Place.text t ∈ valuePlaces v → t ∈ v.texts) ∧
    (∀ t, Place.text t ∈ partPlaces v → t ∈ v.texts) := by
  have hunseen {w u : Json} (t : String) (h : Place.text t ∈ [Place.unseen w]) : t ∈ u.texts := by
    cases List.mem_singleton.1 h
  induction v with
  | null | bool | number => exact ⟨fun t h => absurd h List.not_mem_nil, fun t h => absurd h List.not_mem_nil⟩
  | string s =>
    refine ⟨fun t h => ?_, hunseen⟩
    cases List.mem_singleton.1 h
    exact List.mem_singleton_self _
  | array parts ih =>
    rw [valuePlaces_array, partPlaces_array]
    refine ⟨fun t h => ?_, hunseen⟩
    obtain ⟨v, hv, hplace⟩ := List.mem_flatMap.1 h
    rw [Json.texts_array]
    refine List.mem_flatMap.2 ⟨v, hv, (ih v hv).2 t ?_⟩
    split at hplace
    · cases hplace
    · exact hplace
  | object fields ih =>
    rw [valuePlaces_object, partPlaces_object]
    refine ⟨hunseen, fun t h => ?_⟩
    obtain ⟨f, hf, hplace⟩ := List.mem_flatMap.1 h
    rw [Json.texts_object]
    exact List.mem_flatMap.2 ⟨f, hf, (ih f hf).1 t hplace⟩

theorem texts_arrayPlaces (h : Place.text t ∈ arrayPlaces v) : t ∈ v.texts := by
  cases v with
  | array parts =>
    rw [arrayPlaces, ← valuePlaces_array] at h
    exact (texts_places _).1 t h
  | _ => cases List.mem_singleton.1 h

theorem texts_decodedPlaces (h : Place.text t ∈ decodedPlaces v) : t ∈ v.texts := by
  rcases decoded_cases v with himage | ⟨fields, rfl, hfields⟩ | hother
  · rw [decodedPlaces_image himage] at h
    cases h
  · rw [decodedPlaces_object hfields] at h
    obtain ⟨f, hf, hplace⟩ := List.mem_flatMap.1 h
    rw [Json.texts_object]
    exact List.mem_flatMap.2 ⟨f, hf, texts_arrayPlaces hplace⟩
  · rw [decodedPlaces_other hother] at h
    exact texts_arrayPlaces h

theorem fromStr_left (hread : serde.fromStr s.toList = some v) : serde.fromStr
    (serde.toStr (stripDecoded (stripText serde) v).1).toList =
      some ((stripDecoded (stripText serde) v).1.reread serde.rereadNumber) := by
  rw [Json.Codec.toStr, String.toList_ofList]
  exact serde.fromStr_print _ (keysAll_stripDecoded (by decide) _ (serde.ordered _ _ hread))

theorem isContainer_reread (v : Json) : (v.reread number).isContainer = v.isContainer := by
  cases v with
  | array items => rw [Json.reread_array]; rfl
  | object fields => rw [Json.reread_object]; rfl
  | _ => rfl

theorem free_left (hread : serde.fromStr s.toList = some v) (hn : (stripDecoded (stripText serde) v).2 ≠ 0) :
    ¬ HoldsImage serde (.string (serde.toStr (stripDecoded (stripText serde) v).1)) ↔
      ∀ p ∈ decodedPlaces v, ¬ p.HoldsImage serde := by
  have hcontainer := (stripDecoded_container hn).2
  rw [← free_stripDecoded, holdsImage_string, fromStr_left hread]
  refine not_congr ⟨?_, fun h => ⟨_, rfl, ?_, (holdsImage_reread _ _).2 h⟩⟩
  · rintro ⟨w, hw, -, h⟩
    cases hw
    exact (holdsImage_reread _ _).1 h
  · rwa [isContainer_reread]

theorem settles_left (hread : serde.fromStr s.toList = some v) :
    stripImageFromJsonString serde (serde.toStr (stripDecoded (stripText serde) v).1) = none ↔
      ∀ p ∈ decodedPlaces v, p.Settles serde := by
  rw [← settles_stripDecoded, stripJson_eq_none, fromStr_left hread]
  refine ⟨fun h => (stripDecoded_reread_eq_zero _ _).1 (h _ rfl), fun h w hw => ?_⟩
  cases hw
  exact (stripDecoded_reread_eq_zero _ _).2 h

/-- A text is clear exactly if it holds no image afterwards and a second walk leaves it alone. -/
theorem textClear_iff (serde : Json.Codec) (s : String) : TextClear serde s ↔
    ¬ HoldsImage serde (.string (stripText serde s).1) ∧ (stripText serde (stripText serde s).1).2 = 0 := by
  induction hn : s.toList.length using Nat.strong_induction_on generalizing s with
  | _ n ih =>
    subst hn
    rcases hstrip : stripImageFromJsonString serde s with _ | r
    · rw [stripText_of_none hstrip, stripText_eq_zero]
      constructor
      · intro h
        cases h with
        | stripped hsome => rw [hstrip] at hsome; cases hsome
        | plain _ hfree hagain =>
          refine ⟨hfree, ?_, redactText_again s⟩
          by_cases hredact : (redactText s).2 = 0
          · rwa [redactText_unchanged hredact]
          · exact hagain hredact
      · rintro ⟨hfree, hnone, -⟩
        exact .plain hstrip hfree fun _ => hnone
    obtain ⟨v, hread, hcount, rfl⟩ := stripJson_eq_some.1 hstrip
    have hplace : ∀ p ∈ decodedPlaces v, p.Clear serde ↔ ¬ p.HoldsImage serde ∧ p.Settles serde := by
      intro p hp
      cases p with
      | unseen w => exact (and_iff_left trivial).symm
      | text t => exact ih _ (serde.shorter _ _ hread t (texts_decodedPlaces hp)) t rfl
    rw [stripText_of_some hstrip, free_left hread hcount, stripText_eq_zero, settles_left hread]
    constructor
    · intro h
      cases h with
      | plain hnone => rw [hstrip] at hnone; cases hnone
      | @stripped _ left k w hsome hread' hunseen htexts hredact =>
        rw [hstrip] at hsome
        cases hsome
        rw [hread] at hread'
        cases hread'
        have hclear : ∀ p ∈ decodedPlaces v, p.Clear serde := by
          intro p hp
          cases p with
          | unseen w => exact hunseen w hp
          | text t => exact htexts t hp
        exact ⟨fun p hp => ((hplace p hp).1 (hclear p hp)).1, fun p hp => ((hplace p hp).1 (hclear p hp)).2, hredact⟩
    · rintro ⟨hfree, hsettles, hredact⟩
      have hclear : ∀ p ∈ decodedPlaces v, p.Clear serde := fun p hp => (hplace p hp).2 ⟨hfree p hp, hsettles p hp⟩
      exact .stripped hstrip hread (fun w hw => hclear _ hw) (fun t ht => hclear _ ht) hredact

theorem Place.clear_iff (serde : Json.Codec) (p : Place) : p.Clear serde ↔ ¬ p.HoldsImage serde ∧ p.Settles serde := by
  cases p with
  | unseen v => exact (and_iff_left trivial).symm
  | text s => exact textClear_iff serde s

end ObeyGateway
