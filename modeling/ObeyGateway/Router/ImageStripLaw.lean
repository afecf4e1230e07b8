import ObeyGateway.Router.ImagePlaces

/-!
# What image stripping leaves

For a model without vision no image is left in a request, a second application changes nothing, and what is no image
content stays as it was, exactly if each place that the walk comes to is clear (`image_law_iff`). The source promises a
walk through every nesting depth; the walk does not enter an object in a field of a part (`content_object_unseen`).
-/

namespace ObeyGateway

variable {serde : Json.Codec} {v w : Json} {parts : List Json} {fields : Json.Map}

/-! ### What stays as it was -/

mutual

/-- Only image content goes, and an array that loses all its parts gets the placeholder. -/
inductive Frame (serde : Json.Codec) : Json → Json → Prop
  | same (v : Json) : Frame serde v v
  | image {v : Json} : contentValueIsImage v = true → Frame serde v (.array [imageRemovedPlaceholder])
  | imageText {s : String} : looksLikeImageDataUrl s = true → Frame serde (.string s) (.array [imageRemovedPlaceholder])
  | redacted {s : String} : (redactText s).2 ≠ 0 → Frame serde (.string s) (.string (redactText s).1)
  | encoded {s : String} {v w : Json} : serde.fromStr s.toList = some v → v.isContainer = true → HoldsImageContent serde v →
      Frame serde v w → Frame serde (.string s) (.string (serde.toStr w))
  | array {parts parts' : List Json} : FrameParts serde parts parts' → (parts' = [] → parts = []) →
      Frame serde (.array parts) (.array parts')
  | emptied {parts : List Json} : parts ≠ [] → FrameParts serde parts [] →
      Frame serde (.array parts) (.array [imageRemovedPlaceholder])
  | object {fields fields' : Json.Map} : FrameFields serde fields fields' → Frame serde (.object fields) (.object fields')

inductive FrameParts (serde : Json.Codec) : List Json → List Json → Prop
  | nil : FrameParts serde [] []
  | drop {v : Json} {vs ws : List Json} : contentValueIsImage v = true → FrameParts serde vs ws → FrameParts serde (v :: vs) ws
  | keep {v w : Json} {vs ws : List Json} : Frame serde v w → FrameParts serde vs ws → FrameParts serde (v :: vs) (w :: ws)

inductive FrameFields (serde : Json.Codec) : Json.Map → Json.Map → Prop
  | nil : FrameFields serde [] []
  | cons {key : String} {v w : Json} {vs ws : Json.Map} : Frame serde v w → FrameFields serde vs ws →
      FrameFields serde ((key, v) :: vs) ((key, w) :: ws)

end

mutual

theorem Frame.eq_of_pure {v w : Json} : Frame serde v w → ¬ HoldsImageContent serde v → w = v
  | .same _, _ => rfl
  | .image h, hpure => absurd (.here (.inl h)) hpure
  | .imageText h, hpure => absurd (.here (.inr ⟨_, rfl, .inl h⟩)) hpure
  | .redacted h, hpure => absurd (.here (.inr ⟨_, rfl, .inr h⟩)) hpure
  | .encoded hread hcontainer h _, hpure => absurd (.encoded hread hcontainer h) hpure
  | .array h _, hpure => congrArg Json.array (h.eq_of_pure fun _ hv h => hpure (.item hv h))
  | .emptied hne h, hpure => absurd (h.eq_of_pure fun _ hv h => hpure (.item hv h)).symm hne
  | .object h, hpure => congrArg Json.object (h.eq_of_pure fun _ hf h => hpure (.field hf h))

theorem FrameParts.eq_of_pure {vs ws : List Json} : FrameParts serde vs ws → (∀ v ∈ vs, ¬ HoldsImageContent serde v) → ws = vs
  | .nil, _ => rfl
  | .drop h _, hpure => absurd (.here (.inl h)) (hpure _ List.mem_cons_self)
  | .keep h hs, hpure => by
    rw [h.eq_of_pure (hpure _ List.mem_cons_self), hs.eq_of_pure fun v hv => hpure v (List.mem_cons_of_mem _ hv)]

theorem FrameFields.eq_of_pure {vs ws : Json.Map} : FrameFields serde vs ws → (∀ f ∈ vs, ¬ HoldsImageContent serde f.2) → ws = vs
  | .nil, _ => rfl
  | .cons h hs, hpure => by
    rw [h.eq_of_pure (hpure _ List.mem_cons_self), hs.eq_of_pure fun f hf => hpure f (List.mem_cons_of_mem _ hf)]

end

theorem image_of_removedPart (h : removedPart v = true) : contentValueIsImage v = true := (Bool.and_eq_true _ _ ▸ h).1

theorem stripParts_eq (serde : Json.Codec) (parts : List Json) : (stripImagePartsRecursive (stripText serde) parts).1 =
    (parts.filter fun v => !removedPart v).map fun v => (stripPart (stripText serde) v).1 := by
  rw [stripImagePartsRecursive, retainParts, Tally.tally_fst, List.filter_map]
  refine congrArg (List.map _) (List.filter_congr fun v _ => ?_)
  rw [← image_stripPart serde]
  rfl

theorem frame_parts (h : ∀ v ∈ parts, Frame serde v (stripPart (stripText serde) v).1) :
    FrameParts serde parts (stripImagePartsRecursive (stripText serde) parts).1 := by
  rw [stripParts_eq]
  induction parts with
  | nil => exact .nil
  | cons v vs ih =>
    obtain ⟨hv, hvs⟩ := List.forall_mem_cons.1 h
    cases hremoved : removedPart v with
    | true =>
      rw [List.filter_cons_of_neg (by simp [hremoved])]
      exact .drop (image_of_removedPart hremoved) (ih hvs)
    | false =>
      rw [List.filter_cons_of_pos (by simp [hremoved])]
      exact .keep hv (ih hvs)

theorem frame_array (h : ∀ v ∈ parts, Frame serde v (stripPart (stripText serde) v).1) :
    Frame serde (.array parts) (stripArray (stripText serde) (.array parts)).1 := by
  have hparts := frame_parts h
  show Frame serde (.array parts) (.array (if _ then _ else _))
  split
  · rename_i hlost
    rw [hlost.2] at hparts
    refine .emptied ?_ hparts
    rintro rfl
    exact absurd hlost.1 (Nat.lt_irrefl 0)
  · rename_i hkept
    refine .array hparts fun hnil => ?_
    have hzero : (stripArray (stripText serde) (.array parts)).2 = 0 := by
      by_contra hne
      exact hkept ⟨Nat.pos_of_ne_zero hne, hnil⟩
    have hsame := stripArray_unchanged hzero
    rw [stripArray, orPlaceholder, if_neg hkept, hnil] at hsame
    exact (Json.array.inj hsame).symm

theorem frame_fields {onField : String → Json → Json × Nat} (h : ∀ f ∈ fields, Frame serde f.2 (onField f.1 f.2).1) :
    FrameFields serde fields (stripFields onField fields).1 := by
  rw [stripFields, Tally.tally_fst]
  induction fields with
  | nil => exact .nil
  | cons f fs ih =>
    obtain ⟨hf, hfs⟩ := List.forall_mem_cons.1 h
    exact .cons hf (ih hfs)

variable (v : Json)

theorem frame_strip (h : ∀ t ∈ v.texts, Frame serde (.string t) (.string (stripText serde t).1)) :
    Frame serde v (stripField (stripText serde) v).1 ∧ Frame serde v (stripPart (stripText serde) v).1 := by
  induction v with
  | null | bool | number => exact ⟨.same _, .same _⟩
  | string s => exact ⟨h s (List.mem_singleton_self _), .same _⟩
  | array parts ih =>
    rw [stripField_array, stripPart_array]
    refine ⟨frame_array fun v hv => (ih v hv fun t ht => h t ?_).2, .same _⟩
    rw [Json.texts_array]
    exact List.mem_flatMap.2 ⟨v, hv, ht⟩
  | object fields ih =>
    rw [stripField_object, stripPart_object]
    refine ⟨.same _, .object (frame_fields fun f hf => (ih f hf fun t ht => h t ?_).1)⟩
    rw [Json.texts_object]
    exact List.mem_flatMap.2 ⟨f, hf, ht⟩

theorem frame_stripArray (h : ∀ t ∈ v.texts, Frame serde (.string t) (.string (stripText serde t).1)) :
    Frame serde v (stripArray (stripText serde) v).1 := by
  cases v with
  | array parts =>
    rw [← stripField_array]
    exact (frame_strip _ h).1
  | _ => exact .same _

theorem frame_stripDecoded (h : ∀ t ∈ v.texts, Frame serde (.string t) (.string (stripText serde t).1)) :
    Frame serde v (stripDecoded (stripText serde) v).1 := by
  rcases decoded_cases v with himage | ⟨fields, rfl, hfields⟩ | hother
  · rw [stripDecoded_image himage]
    exact .image himage
  · rw [stripDecoded_object hfields]
    refine .object (frame_fields fun f hf => frame_stripArray f.2 fun t ht => h t ?_)
    rw [Json.texts_object]
    exact List.mem_flatMap.2 ⟨f, hf, ht⟩
  · rw [stripDecoded_other hother]
    exact frame_stripArray v h

theorem pure_strip (h : ∀ t ∈ v.texts, ¬ HoldsImageContent serde (.string t) → (stripText serde t).2 = 0)
    (hpure : ¬ HoldsImageContent serde v) : (stripField (stripText serde) v).2 = 0 ∧ (stripPart (stripText serde) v).2 = 0 := by
  induction v with
  | null | bool | number => exact ⟨rfl, rfl⟩
  | string s => exact ⟨h s (List.mem_singleton_self _) hpure, rfl⟩
  | array parts ih =>
    rw [stripField_array, stripPart_array]
    refine ⟨stripArray_eq_zero.2 fun v hv => ⟨(ih v hv (fun t ht => h t ?_) fun hv' => hpure (.item hv hv')).2, ?_⟩, rfl⟩
    · rw [Json.texts_array]
      exact List.mem_flatMap.2 ⟨v, hv, ht⟩
    · by_contra hremoved
      exact hpure (.item hv (.here (.inl (image_of_removedPart (Bool.not_eq_false _ ▸ hremoved)))))
  | object fields ih =>
    rw [stripField_object, stripPart_object]
    refine ⟨rfl, stripFields_eq_zero.2 fun f hf => (ih f hf (fun t ht => h t ?_) fun hf' => hpure (.field hf hf')).1⟩
    rw [Json.texts_object]
    exact List.mem_flatMap.2 ⟨f, hf, ht⟩

theorem pure_stripArray (h : ∀ t ∈ v.texts, ¬ HoldsImageContent serde (.string t) → (stripText serde t).2 = 0)
    (hpure : ¬ HoldsImageContent serde v) : (stripArray (stripText serde) v).2 = 0 := by
  cases v with
  | array parts =>
    rw [← stripField_array]
    exact (pure_strip _ h hpure).1
  | _ => rfl

theorem pure_stripDecoded (h : ∀ t ∈ v.texts, ¬ HoldsImageContent serde (.string t) → (stripText serde t).2 = 0)
    (hpure : ¬ HoldsImageContent serde v) : (stripDecoded (stripText serde) v).2 = 0 := by
  rcases decoded_cases v with himage | ⟨fields, rfl, hfields⟩ | hother
  · exact absurd (.here (.inl himage)) hpure
  · rw [stripDecoded_object hfields]
    refine stripFields_eq_zero.2 fun f hf => pure_stripArray f.2 (fun t ht => h t ?_) fun hf' => hpure (.field hf hf')
    rw [Json.texts_object]
    exact List.mem_flatMap.2 ⟨f, hf, ht⟩
  · rw [stripDecoded_other hother]
    exact pure_stripArray v h hpure

theorem frame_stripText (serde : Json.Codec) (s : String) : Frame serde (.string s) (.string (stripText serde s).1) ∧
    (¬ HoldsImageContent serde (.string s) → (stripText serde s).2 = 0) := by
  induction hn : s.toList.length using Nat.strong_induction_on generalizing s with
  | _ n ih =>
    subst hn
    have hcount {v : Json} (hread : serde.fromStr s.toList = some v) (hpure : ¬ HoldsImageContent serde v) :
        (stripDecoded (stripText serde) v).2 = 0 :=
      pure_stripDecoded v (fun t ht => (ih _ (serde.shorter _ _ hread t ht) t rfl).2) hpure
    constructor
    · rcases hstrip : stripImageFromJsonString serde s with _ | r
      · rw [stripText_of_none hstrip]
        by_cases hredact : (redactText s).2 = 0
        · rw [redactText_unchanged hredact]
          exact .same _
        · exact .redacted hredact
      obtain ⟨v, hread, hn, rfl⟩ := stripJson_eq_some.1 hstrip
      rw [stripText_of_some hstrip]
      refine .encoded hread (stripDecoded_container hn).1 ?_
        (frame_stripDecoded v fun t ht => (ih _ (serde.shorter _ _ hread t ht) t rfl).1)
      by_contra hpure
      exact hn (hcount hread hpure)
    · intro hpure
      refine stripText_eq_zero.2 ⟨stripJson_eq_none.2 fun v hread => ?_, ?_⟩
      · by_contra hn
        exact hn (hcount hread fun hv => hpure (.encoded hread (stripDecoded_container hn).1 hv))
      · by_contra hredact
        exact hpure (.here (.inr ⟨s, rfl, .inr hredact⟩))

theorem frame_stripContent (serde : Json.Codec) (content : Json) : Frame serde content (stripContent serde content).1 := by
  have htexts (t : String) : Frame serde (.string t) (.string (stripText serde t).1) := (frame_stripText serde t).1
  cases content with
  | array parts => exact frame_stripArray _ fun t _ => htexts t
  | object fields =>
    cases himage : contentValueIsImage (.object fields) with
    | true =>
      rw [stripContent_image himage]
      exact .image himage
    | false =>
      rw [stripContent_object himage]
      refine .object (frame_fields fun f hf => ?_)
      rcases onContent_cases serde f.1 f.2 with heq | heq
      · rw [heq]
        exact .same _
      · rw [heq]
        exact frame_stripArray _ fun t _ => htexts t
  | string s =>
    by_cases hlooks : looksLikeImageDataUrl s = true
    · rw [stripContent_looks hlooks]
      exact .imageText hlooks
    · rw [stripContent_string hlooks]
      exact htexts s
  | _ => exact .same _

/-- No image is left, a second application changes nothing, and only image content is gone. -/
structure ImageLaw (serde : Json.Codec) (request after : Models.OpenAIRequest) : Prop where
  complete : ∀ m ∈ after.messages, ¬ HoldsImage serde m.content
  stable : stripImageContentIfUnsupported serde after false = (after, 0)
  messages : List.Forall₂ (fun m m' : Models.Message => m'.role = m.role ∧ m'.extra = m.extra ∧
    Frame serde m.content m'.content) request.messages after.messages
  rest : after = { request with messages := after.messages }

theorem stripMessage_unchanged {m : Models.Message} (h : (stripMessage serde m).2 = 0) : (stripMessage serde m).1 = m := by
  have hcontent := stripContent_unchanged h
  obtain ⟨role, content, extra, _, _, _, _⟩ := m
  rw [stripMessage]
  simp only [Models.Message.mk.injEq]
  exact ⟨trivial, hcontent, trivial⟩

theorem messages_strip (serde : Json.Codec) (request : Models.OpenAIRequest) :
    (stripImageContentIfUnsupported serde request false).1.messages = request.messages.map fun m => (stripMessage serde m).1 :=
  Tally.tally_fst _ _

theorem stripRequest_eq_self {request : Models.OpenAIRequest} :
    stripImageContentIfUnsupported serde request false = (request, 0) ↔
      ∀ m ∈ request.messages, (stripContent serde m.content).2 = 0 := by
  constructor
  · intro h
    exact (Tally.tally_eq_zero (f := stripMessage serde)).1 (congrArg Prod.snd h)
  · intro h
    refine Prod.ext ?_ (Tally.tally_eq_zero.2 h)
    have hmessages : (Tally.tally (stripMessage serde) request.messages).1 = request.messages := by
      rw [Tally.tally_fst]
      exact (List.map_congr_left fun m hm => stripMessage_unchanged (h m hm)).trans (List.map_id _)
    show ({ request with messages := (Tally.tally (stripMessage serde) request.messages).1 } : Models.OpenAIRequest) = request
    rw [hmessages]

/-- For a model without vision the images of a request are stripped as they should be exactly if every place that the
walk comes to in its contents is clear. -/
theorem image_law_iff (serde : Json.Codec) (request : Models.OpenAIRequest) :
    ImageLaw serde request (stripImageContentIfUnsupported serde request false).1 ↔
      ∀ m ∈ request.messages, ∀ p ∈ contentPlaces m.content, p.Clear serde := by
  have hclear (m : Models.Message) : (∀ p ∈ contentPlaces m.content, p.Clear serde) ↔
      ¬ HoldsImage serde (stripMessage serde m).1.content ∧ (stripContent serde (stripMessage serde m).1.content).2 = 0 := by
    show _ ↔ ¬ HoldsImage serde (stripContent serde m.content).1 ∧ (stripContent serde (stripContent serde m.content).1).2 = 0
    rw [free_stripContent, settles_stripContent, ← forall₂_and]
    exact forall₂_congr fun p _ => p.clear_iff serde
  constructor
  · intro law m hm
    have hmem : (stripMessage serde m).1 ∈ (stripImageContentIfUnsupported serde request false).1.messages := by
      rw [messages_strip]
      exact List.mem_map_of_mem hm
    exact (hclear m).2 ⟨law.complete _ hmem, stripRequest_eq_self.1 law.stable _ hmem⟩
  · intro h
    refine ⟨fun m' hm' => ?_, stripRequest_eq_self.2 fun m' hm' => ?_, ?_, rfl⟩
    · rw [messages_strip] at hm'
      obtain ⟨m, hm, rfl⟩ := List.mem_map.1 hm'
      exact ((hclear m).1 (h m hm)).1
    · rw [messages_strip] at hm'
      obtain ⟨m, hm, rfl⟩ := List.mem_map.1 hm'
      exact ((hclear m).1 (h m hm)).2
    · rw [messages_strip, List.forall₂_map_right_iff]
      exact List.forall₂_same.2 fun m _ => ⟨rfl, rfl, frame_stripContent serde m.content⟩

def imageResult : Models.OpenAIRequest where
  model := "text-only"
  messages := [
    { role := "user"
      content := .array [.object [
        ("content", .object [("image_url", .object [("url", .string "https://example.com/a.png")]), ("type", .string "image_url")]),
        ("type", .string "tool_result")]]
      extra := []
      content_nodup := by decide +kernel
      extra_nodup := Json.nodupKeys_object_nil
      extra_role := List.not_mem_nil
      extra_content := List.not_mem_nil }]
  stream := false
  temperature := none
  maxTokens := none
  extra := []
  extra_nodup := Json.nodupKeys_object_nil

theorem content_object_unseen :
    ¬ ImageLaw Json.Codec.printed imageResult (stripImageContentIfUnsupported Json.Codec.printed imageResult false).1 := by
  intro law
  have hunchanged : stripImageContentIfUnsupported Json.Codec.printed imageResult false = (imageResult, 0) := by
    refine stripRequest_eq_self.2 fun m hm => ?_
    obtain rfl := List.mem_singleton.1 hm
    refine stripArray_eq_zero.2 fun part hpart => ?_
    obtain rfl := List.mem_singleton.1 hpart
    refine ⟨?_, by decide +kernel⟩
    rw [stripPart_object]
    refine stripFields_eq_zero.2 fun f hf => ?_
    rcases List.mem_cons.1 hf with rfl | hf
    · rw [stripField_object]
    · obtain rfl := List.mem_singleton.1 hf
      exact stripText_plain (by decide +kernel) (by decide +kernel)
  rw [hunchanged] at law
  refine law.complete _ List.mem_cons_self ?_
  exact .item List.mem_cons_self (.field List.mem_cons_self (.here (by decide +kernel)))

/-- Each message keeps its role and its other fields and changes in the texts of its content only; one without an image
stays as it is. -/
theorem strip_spares_imageless (serde : Json.Codec) (request : Models.OpenAIRequest) (supportsVision : Bool) :
    List.Forall₂ (fun m m' : Models.Message => m'.role = m.role ∧ m'.extra = m.extra ∧ Frame serde m.content m'.content ∧
        (¬ HoldsImageContent serde m.content → m' = m))
      request.messages (stripImageContentIfUnsupported serde request supportsVision).1.messages := by
  cases supportsVision with
  | true => exact List.forall₂_same.2 fun m _ => ⟨rfl, rfl, .same _, fun _ => rfl⟩
  | false =>
    rw [messages_strip, List.forall₂_map_right_iff]
    refine List.forall₂_same.2 fun m _ => ⟨rfl, rfl, frame_stripContent serde m.content, fun hpure => ?_⟩
    have hcontent := (frame_stripContent serde m.content).eq_of_pure hpure
    obtain ⟨role, content, extra, _, _, _, _⟩ := m
    simp only [stripMessage, Models.Message.mk.injEq]
    exact ⟨trivial, hcontent, trivial⟩

end ObeyGateway
