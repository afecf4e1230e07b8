import ObeyGateway.Lib.JsonText
import ObeyGateway.Lib.Tally
import ObeyGateway.Models.OpenAI
import ObeyGateway.Router.DataUrls

/-!
# Images of a request (`strip_image_content_if_unsupported`)

A model without vision gets no image parts. The walk goes into the arrays and texts that are fields of a part, and into
texts that are themselves JSON. Not seen are an object in a field, an array or a text that is itself a part, and in a
JSON text the fields of an object that are no arrays. `serde_json` on texts is a parameter.
-/

namespace ObeyGateway

open Text

def imageRemovedPlaceholder : Json :=
  .object [("text", .string "[image content removed: model does not support image inputs]"), ("type", .string "text")]

def looksLikeImageDataUrl (value : String) : Bool :=
  "data:image/".toList.isPrefixOf (toAsciiLowercase (trimStart value.toList))

def imageTypes : List String := ["image_url", "image", "input_image", "image_file", "input_image_url"]

def typeStr (obj : Json.Map) : Option String := (Assoc.get obj "type").bind (·.asStr)

def isImageSource (source : Json) : Bool :=
  ((source.get "type").bind (·.asStr)).any fun t =>
    toAsciiLowercase t.toList = "base64".toList || toAsciiLowercase t.toList = "url".toList

def hasImageField (obj : Json.Map) : Bool :=
  (Assoc.get obj "image_url").isSome || (Assoc.get obj "image_file").isSome || (Assoc.get obj "input_image").isSome ||
    (Assoc.get obj "source").any isImageSource

def isImageText (obj : Json.Map) : Bool := ((Assoc.get obj "text").bind (·.asStr)).any looksLikeImageDataUrl

def contentValueIsImage (part : Json) : Bool :=
  match part.asObject with
  | none => false
  | some obj =>
    (typeStr obj).any (imageTypes.contains ·) ||
      if typeStr obj = some "text" then isImageText obj else hasImageField obj

/-- `redact_data_urls_in_value`, of a text. -/
def redactText (text : String) : String × Nat :=
  let (out, n) := (redactEmbeddedImageDataUrls text.toList).getD (text.toList, 0)
  (String.ofList out, n)

def orPlaceholder (stripped : List Json × Nat) : List Json × Nat :=
  (if 0 < stripped.2 ∧ stripped.1 = [] then [imageRemovedPlaceholder] else stripped.1, stripped.2)

def retainParts (walked : List Json × Nat) : List Json × Nat :=
  (walked.1.filter fun part => !contentValueIsImage part,
    walked.2 + (walked.1.length - (walked.1.filter fun part => !contentValueIsImage part).length))

section
variable (onText : String → String × Nat)

/-- What is done to a value that is a field of a part, and to one that is a part. -/
def walkAlg : Json.ParaAlg ((Json × Nat) × (Json × Nat)) where
  null := ((.null, 0), (.null, 0))
  bool b := ((.bool b, 0), (.bool b, 0))
  number n := ((.number n, 0), (.number n, 0))
  string s := ((.string (onText s).1, (onText s).2), (.string s, 0))
  array parts :=
    let stripped := orPlaceholder (retainParts (Tally.tally (fun p => p.2.2) parts))
    ((.array stripped.1, stripped.2), (.array (parts.map (·.1)), 0))
  object fields :=
    let walked := Tally.tally (fun f => ((f.1, f.2.2.1.1), f.2.2.1.2)) fields
    ((.object (fields.map fun f => (f.1, f.2.1)), 0), (.object walked.1, walked.2))

def stripField (v : Json) : Json × Nat := (Json.para (walkAlg onText) v).1

def stripPart (v : Json) : Json × Nat := (Json.para (walkAlg onText) v).2

def stripImagePartsRecursive (parts : List Json) : List Json × Nat := retainParts (Tally.tally (stripPart onText) parts)

def stripArray (v : Json) : Json × Nat :=
  match v with
  | .array parts =>
    let stripped := orPlaceholder (stripImagePartsRecursive onText parts)
    (.array stripped.1, stripped.2)
  | v => (v, 0)

def stripFields (onField : String → Json → Json × Nat) (fields : Json.Map) : Json.Map × Nat :=
  Tally.tally (fun f => ((f.1, (onField f.1 f.2).1), (onField f.1 f.2).2)) fields

/-- A value that was read from a text: an image becomes the placeholder, and of an object the arrays are walked. -/
def stripDecoded (parsed : Json) : Json × Nat :=
  if contentValueIsImage parsed then (.array [imageRemovedPlaceholder], 1)
  else
    match parsed with
    | .object map =>
      let walked := stripFields (fun _ => stripArray onText) map
      (.object walked.1, walked.2)
    | parsed => stripArray onText parsed

end

variable (serde : Json.Codec)

def stripJsonText : Nat → String → Option (String × Nat)
  | 0, _ => none
  | fuel + 1, raw =>
    (serde.fromStr raw.toList).bind fun parsed =>
      let stripped := stripDecoded (fun text => (stripJsonText fuel text).getD (redactText text)) parsed
      if stripped.2 = 0 then none else some (serde.toStr stripped.1, stripped.2)

def stripImageFromJsonString (raw : String) : Option (String × Nat) := stripJsonText serde (raw.toList.length + 1) raw

def stripText (text : String) : String × Nat := (stripImageFromJsonString serde text).getD (redactText text)

def stripContent (content : Json) : Json × Nat :=
  match content with
  | .array _ => stripArray (stripText serde) content
  | .object fields =>
    if contentValueIsImage content then (.array [imageRemovedPlaceholder], 1)
    else
      let walked := stripFields (fun key v => if key = "content" then stripArray (stripText serde) v else (v, 0)) fields
      (.object walked.1, walked.2)
  | .string text =>
    if looksLikeImageDataUrl text then (.array [imageRemovedPlaceholder], 1)
    else (.string (stripText serde text).1, (stripText serde text).2)
  | content => (content, 0)

section
variable {onText onText' : String → String × Nat} {parts : List Json} {fields : Json.Map}

theorem stripPart_array : stripPart onText (.array parts) = (.array parts, 0) := by
  rw [stripPart, Json.para_array]
  simp [walkAlg, Function.comp_def]

theorem stripPart_object : stripPart onText (.object fields) =
      (.object (stripFields (fun _ => stripField onText) fields).1, (stripFields (fun _ => stripField onText) fields).2) := by
  rw [stripPart, Json.para_object]
  simp only [walkAlg, Tally.tally_map]
  rfl

theorem stripField_array : stripField onText (.array parts) = stripArray onText (.array parts) := by
  rw [stripField, Json.para_array]
  simp only [walkAlg, Tally.tally_map]
  rfl

theorem stripField_object : stripField onText (.object fields) = (.object fields, 0) := by
  rw [stripField, Json.para_object]
  simp [walkAlg, Function.comp_def]

theorem stripField_string (s : String) : stripField onText (.string s) = (.string (onText s).1, (onText s).2) := rfl

theorem stripParts_congr (h : ∀ v ∈ parts, stripPart onText v = stripPart onText' v) :
    stripImagePartsRecursive onText parts = stripImagePartsRecursive onText' parts := by
  rw [stripImagePartsRecursive, stripImagePartsRecursive, Tally.tally_congr h]

variable {onField : String → Json → Json × Nat}

theorem stripFields_congr {onField' : String → Json → Json × Nat} (h : ∀ f ∈ fields, onField f.1 f.2 = onField' f.1 f.2) :
    stripFields onField fields = stripFields onField' fields :=
  Tally.tally_congr fun f hf => by rw [h f hf]

theorem strip_congr (v : Json) (h : ∀ t ∈ v.texts, onText t = onText' t) :
    stripField onText v = stripField onText' v ∧ stripPart onText v = stripPart onText' v := by
  induction v with
  | null | bool | number => exact ⟨rfl, rfl⟩
  | string s =>
    refine ⟨?_, rfl⟩
    rw [stripField_string, stripField_string, h s (by simp)]
  | array parts ih =>
    have hparts : stripImagePartsRecursive onText parts = stripImagePartsRecursive onText' parts :=
      stripParts_congr fun v hv => (ih v hv fun t ht => h t (by rw [Json.texts_array]; exact List.mem_flatMap.2 ⟨v, hv, ht⟩)).2
    refine ⟨?_, by rw [stripPart_array, stripPart_array]⟩
    rw [stripField_array, stripField_array, stripArray, stripArray, hparts]
  | object fields ih =>
    have hfields : stripFields (fun _ => stripField onText) fields = stripFields (fun _ => stripField onText') fields :=
      stripFields_congr fun f hf =>
        (ih f hf fun t ht => h t (by rw [Json.texts_object]; exact List.mem_flatMap.2 ⟨f, hf, ht⟩)).1
    refine ⟨by rw [stripField_object, stripField_object], ?_⟩
    rw [stripPart_object, stripPart_object, hfields]

theorem stripArray_congr (v : Json) (h : ∀ t ∈ v.texts, onText t = onText' t) : stripArray onText v = stripArray onText' v := by
  cases v with
  | array parts => rw [← stripField_array, ← stripField_array, (strip_congr _ h).1]
  | _ => rfl

theorem stripDecoded_congr (v : Json) (h : ∀ t ∈ v.texts, onText t = onText' t) :
    stripDecoded onText v = stripDecoded onText' v := by
  unfold stripDecoded
  split
  · rfl
  · cases v with
    | object map =>
      have hmap : stripFields (fun _ => stripArray onText) map = stripFields (fun _ => stripArray onText') map :=
        stripFields_congr fun f hf =>
          stripArray_congr f.2 fun t ht => h t (by rw [Json.texts_object]; exact List.mem_flatMap.2 ⟨f, hf, ht⟩)
      dsimp only
      rw [hmap]
    | _ => exact stripArray_congr _ h

theorem stripJsonText_eq {serde : Json.Codec} {fuel : Nat} {raw : String} (hfuel : raw.toList.length < fuel) :
    stripJsonText serde fuel raw = stripImageFromJsonString serde raw := by
  rw [stripImageFromJsonString]
  induction hn : raw.toList.length using Nat.strong_induction_on generalizing fuel raw with
  | _ n ih =>
    obtain ⟨fuel, rfl⟩ : ∃ k, fuel = k + 1 := Nat.exists_eq_add_one.2 (Nat.zero_lt_of_lt hfuel)
    rw [stripJsonText, stripJsonText]
    rcases hread : serde.fromStr raw.toList with _ | parsed
    · rw [Option.bind_none, Option.bind_none]
    have htexts : ∀ t ∈ parsed.texts, (stripJsonText serde fuel t).getD (redactText t) =
        (stripJsonText serde n t).getD (redactText t) := by
      intro t ht
      have hshort := serde.shorter _ _ hread t ht
      have hshort : t.toList.length < n := hn ▸ hshort
      have hfuel : t.toList.length < fuel := by omega
      rw [ih _ hshort hfuel rfl, ih _ hshort hshort rfl]
    rw [Option.bind_some, Option.bind_some]
    dsimp only
    rw [stripDecoded_congr parsed htexts]

theorem stripImageFromJsonString_eq (serde : Json.Codec) (raw : String) : stripImageFromJsonString serde raw =
    (serde.fromStr raw.toList).bind fun parsed =>
      if (stripDecoded (stripText serde) parsed).2 = 0 then none
      else some (serde.toStr (stripDecoded (stripText serde) parsed).1, (stripDecoded (stripText serde) parsed).2) := by
  rw [stripImageFromJsonString, stripJsonText]
  rcases hread : serde.fromStr raw.toList with _ | parsed
  · rw [Option.bind_none, Option.bind_none]
  have htexts : ∀ t ∈ parsed.texts, (stripJsonText serde raw.toList.length t).getD (redactText t) = stripText serde t := by
    intro t ht
    rw [stripText, stripJsonText_eq (serde.shorter _ _ hread t ht)]
  rw [Option.bind_some, Option.bind_some]
  dsimp only
  rw [stripDecoded_congr parsed htexts]

theorem mem_stripFields {f : String × Json} :
    f ∈ (stripFields onField fields).1 ↔ ∃ e ∈ fields, f = (e.1, (onField e.1 e.2).1) := by
  rw [stripFields, Tally.tally_fst, List.mem_map]
  exact exists_congr fun e => and_congr_right fun _ => eq_comm

theorem keys_stripFields (onField : String → Json → Json × Nat) (fields : Json.Map) :
    Assoc.keys (stripFields onField fields).1 = Assoc.keys fields := by
  rw [stripFields, Tally.tally_fst, Assoc.keys, List.map_map]
  rfl

theorem mem_stripParts {part : Json} : part ∈ (stripImagePartsRecursive onText parts).1 ↔
    contentValueIsImage part = false ∧ ∃ v ∈ parts, part = (stripPart onText v).1 := by
  rw [stripImagePartsRecursive, retainParts, Tally.tally_fst, List.mem_filter, List.mem_map, Bool.not_eq_true', and_comm]
  exact and_congr_right fun _ => exists_congr fun v => and_congr_right fun _ => eq_comm

theorem mem_orPlaceholder {stripped : List Json × Nat} {part : Json} (h : part ∈ (orPlaceholder stripped).1) :
    part = imageRemovedPlaceholder ∨ part ∈ stripped.1 := by
  unfold orPlaceholder at h
  split at h
  · exact .inl (List.mem_singleton.1 h)
  · exact .inr h

variable {K : List String → Prop}

theorem keysAll_stripFields (h : Json.KeysAll K (.object fields))
    (hfield : ∀ f ∈ fields, Json.KeysAll K f.2 → Json.KeysAll K (onField f.1 f.2).1) :
    Json.KeysAll K (.object (stripFields onField fields).1) := by
  obtain ⟨hkeys, hfields⟩ := Json.keysAll_object.1 h
  refine Json.keysAll_object.2 ⟨by rwa [keys_stripFields], fun f hf => ?_⟩
  obtain ⟨e, he, rfl⟩ := mem_stripFields.1 hf
  exact hfield e he (hfields e he)

variable (hK : K ["text", "type"])
include hK

theorem keysAll_placeholder : Json.KeysAll K imageRemovedPlaceholder :=
  Json.keysAll_object.2 ⟨hK, fun f hf => by
    rcases List.mem_cons.1 hf with rfl | hf
    · trivial
    · obtain rfl := List.mem_singleton.1 hf
      trivial⟩

variable (onText : String → String × Nat)

theorem keysAll_strip (v : Json) (h : Json.KeysAll K v) :
    Json.KeysAll K (stripField onText v).1 ∧ Json.KeysAll K (stripPart onText v).1 := by
  induction v with
  | null | bool | number | string => exact ⟨trivial, trivial⟩
  | array parts ih =>
    rw [stripField_array, stripPart_array]
    refine ⟨Json.keysAll_array.2 fun part hpart => ?_, h⟩
    rcases mem_orPlaceholder hpart with rfl | hpart
    · exact keysAll_placeholder hK
    · obtain ⟨-, v, hv, rfl⟩ := mem_stripParts.1 hpart
      exact (ih v hv (Json.keysAll_array.1 h v hv)).2
  | object fields ih =>
    rw [stripField_object, stripPart_object]
    exact ⟨h, keysAll_stripFields h fun f hf hkeys => (ih f hf hkeys).1⟩

theorem keysAll_stripArray {v : Json} (h : Json.KeysAll K v) :
    Json.KeysAll K (stripArray onText v).1 := by
  cases v with
  | array parts =>
    rw [← stripField_array]
    exact (keysAll_strip hK onText _ h).1
  | _ => exact h

theorem keysAll_stripDecoded {v : Json} (h : Json.KeysAll K v) :
    Json.KeysAll K (stripDecoded onText v).1 := by
  unfold stripDecoded
  split
  · exact Json.keysAll_array.2 fun part hpart => by
      obtain rfl := List.mem_singleton.1 hpart
      exact keysAll_placeholder hK
  · cases v with
    | object map => exact keysAll_stripFields h fun f hf hkeys => keysAll_stripArray hK onText hkeys
    | _ => exact keysAll_stripArray hK onText h

theorem keysAll_stripContent (serde : Json.Codec) {content : Json} (h : Json.KeysAll K content) :
    Json.KeysAll K (stripContent serde content).1 := by
  have hplaceholder : Json.KeysAll K (.array [imageRemovedPlaceholder]) := Json.keysAll_array.2 fun part hpart => by
    obtain rfl := List.mem_singleton.1 hpart
    exact keysAll_placeholder hK
  cases content with
  | array parts => exact keysAll_stripArray hK _ h
  | object fields =>
    unfold stripContent
    dsimp only
    split
    · exact hplaceholder
    · refine keysAll_stripFields h fun f hf hkeys => ?_
      split
      · exact keysAll_stripArray hK _ hkeys
      · exact hkeys
  | string text =>
    unfold stripContent
    dsimp only
    split
    · exact hplaceholder
    · trivial
  | _ => exact h

end

theorem nodup_stripContent {content : Json} (h : content.nodupKeys = true) : (stripContent serde content).1.nodupKeys = true :=
  (Json.nodupKeys_iff _).2 (keysAll_stripContent (by decide) serde ((Json.nodupKeys_iff _).1 h))

def stripMessage (m : Models.Message) : Models.Message × Nat :=
  ({ m with content := (stripContent serde m.content).1, content_nodup := nodup_stripContent serde m.content_nodup },
    (stripContent serde m.content).2)

def stripImageContentIfUnsupported (request : Models.OpenAIRequest) (supportsVision : Bool) : Models.OpenAIRequest × Nat :=
  if supportsVision then (request, 0)
  else
    let stripped := Tally.tally (stripMessage serde) request.messages
    ({ request with messages := stripped.1 }, stripped.2)

end ObeyGateway
