import ObeyGateway.Responses.StreamInv

/-!
# What a response stream says

The events of a stream are read three times: as they open and extend the items, as they close them, and in
the response at the end. What the invariant says of the fields before the end makes the three agree
(`stream_consistent`).
-/

namespace ObeyGateway.Responses

def ResponseObject.texts (response : ResponseObject) (kind : PartKind) : List String :=
  response.output.flatMap fun
    | .message item => item.content.filterMap (·.textOf kind)
    | _ => []

def oneText (text : String) : List String := if text = "" then [] else [text]

/-- The events of a stream agree with each other and with the response at its end. -/
structure StreamLaw (events : List ResponsesSseEvent) (response : ResponseObject) : Prop where
  numbered : events.map (·.sequenceNumber) = List.range events.length
  framed : ∃ r r' inner last, events.map (·.body) = .created r :: .inProgress r' :: (inner ++ [last]) ∧
    last.response = some response ∧ ∀ b ∈ inner, b.phase = .opening ∨ b.phase = .closing
  items : ∀ front outputIndex item back, events.map (·.body) = front ++ .outputItemAdded outputIndex item :: back →
    ∃ out, response.output[outputIndex]? = some out ∧ out.id = item.id ∧
      (front.filterMap (·.closed)).filter (·.2.id = item.id) = [] ∧
      (back.filterMap (·.closed)).filter (·.2.id = item.id) = [(outputIndex, out)]
  parts : ∀ front itemId outputIndex contentIndex part back,
    events.map (·.body) = front ++ .contentPartAdded itemId outputIndex contentIndex part :: back →
    ∃ message out, response.output[outputIndex]? = some (.message message) ∧ message.id = itemId ∧
      message.content[contentIndex]? = some out ∧ out.kind = part.kind ∧
      (front.filterMap (·.partClosed)).filter (·.1 = (itemId, outputIndex, contentIndex)) = [] ∧
      (back.filterMap (·.partClosed)).filter (·.1 = (itemId, outputIndex, contentIndex)) =
        [((itemId, outputIndex, contentIndex), out)]
  texts : ∀ kind, (events.map (·.body)).filterMap (·.doneOf kind) =
      oneText (concat ((events.map (·.body)).filterMap (·.deltaOf kind))) ∧
    response.texts kind = oneText (concat ((events.map (·.body)).filterMap (·.deltaOf kind)))
  arguments : ∀ (outputIndex : Nat) (call : OutputFunctionCall), response.output[outputIndex]? = some (.functionCall call) →
    (events.map (·.body)).filterMap (·.argumentsDone call.id) = [call.arguments] ∧
      concat ((events.map (·.body)).filterMap (·.argumentsDelta call.id)) = call.arguments

theorem flatMap_eq_of_nodup {α β : Type} {l : List α} {a : α} {g : α → List β} (hnodup : l.Nodup) (ha : a ∈ l)
    (hothers : ∀ x ∈ l, x ≠ a → g x = []) : l.flatMap g = g a := by
  induction l with
  | nil => cases ha
  | cons x l ih =>
    obtain ⟨hx, hnodup⟩ := List.nodup_cons.1 hnodup
    rw [List.flatMap_cons]
    rcases List.mem_cons.1 ha with rfl | ha
    · have hnil : l.flatMap g = [] := List.flatMap_eq_nil_iff.2 fun y hy =>
        hothers y (List.mem_cons_of_mem _ hy) (by rintro rfl; exact hx hy)
      rw [hnil, List.append_nil]
    · rw [hothers x List.mem_cons_self (by rintro rfl; exact hx ha), List.nil_append]
      exact ih hnodup ha fun y hy => hothers y (List.mem_cons_of_mem _ hy)

theorem flatMap_filterMap {α β γ : Type} (l : List α) (f : α → Option β) (g : β → List γ) :
    (l.filterMap f).flatMap g = l.flatMap fun a => (f a).elim [] g := by
  induction l with
  | nil => rfl
  | cons a l ih =>
    rw [List.flatMap_cons, ← ih]
    cases hf : f a with
    | none => rw [List.filterMap_cons_none hf]; rfl
    | some b => rw [List.filterMap_cons_some hf, List.flatMap_cons]; rfl

theorem getElem?_filterMap_of_isSome {α β : Type} {l : List α} {f : α → Option β}
    (h : ∀ a ∈ l, (f a).isSome = true) (i : Nat) : (l.filterMap f)[i]? = l[i]?.bind f := by
  induction l generalizing i with
  | nil => simp
  | cons a l ih =>
    obtain ⟨ha, hl⟩ := List.forall_mem_cons.1 h
    obtain ⟨b, hb⟩ := Option.isSome_iff_exists.1 ha
    rw [List.filterMap_cons_some hb]
    cases i with
    | zero => simp [hb]
    | succ i => simpa using ih hl i

theorem foldl_push {n : Nat} (bodies : List EventBody) {s : Feed} (hn : s.1.sequenceNumber = n)
    (hnumber : n = s.2.length) (hnumbered : s.2.map (·.sequenceNumber) = List.range s.2.length) :
    (bodies.foldl Feed.push s).bodies = s.bodies ++ bodies ∧
      (bodies.foldl Feed.push s).2.map (·.sequenceNumber) = List.range (bodies.foldl Feed.push s).2.length := by
  induction bodies generalizing s n with
  | nil => exact ⟨(List.append_nil _).symm, hnumbered⟩
  | cons body bodies ih =>
    subst hn
    obtain ⟨hlength, hpushed⟩ := numbered_push hnumber hnumbered body
    have hnext := ih (s := s.push body) rfl hlength hpushed
    rwa [Feed.bodies_push, List.append_assoc] at hnext

section
variable {uuid : Nat → String} {s : Feed}

theorem slot_closed {t : ResponsesStreamTranslator} {slot : ItemSlot} {i : Nat} {id : String}
    (hkey : t.slotKey slot = some (i, id)) : ∃ out, t.slotItem slot = some out ∧ out.id = id ∧
      (t.slotDone slot).filterMap (·.closed) = [(i, out)] := by
  cases slot with
  | reasoning =>
    obtain ⟨j, hj, hmap⟩ := Option.bind_eq_some_iff.1 hkey
    obtain ⟨id', hid, heq⟩ := Option.map_eq_some_iff.1 hmap
    cases heq
    refine ⟨.reasoning (t.buildReasoningItem id), by rw [ResponsesStreamTranslator.slotItem, hid]; rfl, rfl, ?_⟩
    rw [ResponsesStreamTranslator.slotDone, hid, hj]
    rfl
  | message =>
    obtain ⟨j, hj, hmap⟩ := Option.bind_eq_some_iff.1 hkey
    obtain ⟨id', hid, heq⟩ := Option.map_eq_some_iff.1 hmap
    cases heq
    refine ⟨.message (t.buildMessageItem id), by rw [ResponsesStreamTranslator.slotItem, hid]; rfl, rfl, ?_⟩
    rw [ResponsesStreamTranslator.slotDone, hid, hj]
    rfl
  | functionCall k =>
    obtain ⟨state, hstate, heq⟩ := Option.map_eq_some_iff.1 hkey
    cases heq
    refine ⟨.functionCall (ResponsesStreamTranslator.buildFunctionCall state), ?_, rfl, ?_⟩
    · rw [ResponsesStreamTranslator.slotItem, hstate]
      rfl
    · rw [ResponsesStreamTranslator.slotDone, hstate]
      rfl

theorem FeedInv.slot_key (h : FeedInv uuid s) {slot : ItemSlot} (hslot : slot ∈ s.1.orderedItems) :
    ∃ i id, s.1.orderedItems[i]? = some slot ∧ s.1.slotKey slot = some (i, id) := by
  obtain ⟨i, hi⟩ := List.mem_iff_getElem?.1 hslot
  obtain ⟨id, hid⟩ := (h.items.slots i slot).1 hi
  exact ⟨i, id, hi, hid⟩

theorem FeedInv.getElem?_output (h : FeedInv uuid s) (i : Nat) :
    (s.1.orderedItems.filterMap s.1.slotItem)[i]? = s.1.orderedItems[i]?.bind s.1.slotItem := by
  refine getElem?_filterMap_of_isSome (fun slot hslot => ?_) i
  obtain ⟨j, id, -, hkey⟩ := h.slot_key hslot
  obtain ⟨out, hout, -⟩ := slot_closed hkey
  rw [hout]
  rfl

theorem partDone_of_empty {t : ResponsesStreamTranslator} {kind : PartKind} (hempty : t.buffer kind = "") :
    t.partDone kind = [] := by
  unfold ResponsesStreamTranslator.partDone
  split
  · rw [if_neg (fun hne => hne hempty)]
  · rfl

theorem FeedInv.partDone_eq (h : FeedInv uuid s) {kind : PartKind} (hne : s.1.buffer kind ≠ "") :
    ∃ itemId outputIndex contentIndex, s.1.currentMessageItemId = some itemId ∧
      s.1.messageOutputIndex = some outputIndex ∧ (partsOf s.bodies).idxOf? kind = some contentIndex ∧
      s.1.partDone kind = [kind.done itemId outputIndex contentIndex (s.1.buffer kind),
        .contentPartDone itemId outputIndex contentIndex (kind.part (s.1.buffer kind))] := by
  have hmem := h.parts.known kind hne
  obtain ⟨hitem, houtput⟩ := h.parts.opened (List.ne_nil_of_mem hmem)
  obtain ⟨itemId, hitem⟩ := Option.isSome_iff_exists.1 hitem
  obtain ⟨outputIndex, houtput⟩ := Option.isSome_iff_exists.1 houtput
  obtain ⟨contentIndex, hindex⟩ := Option.isSome_iff_exists.1 (List.isSome_idxOf?.2 hmem)
  refine ⟨itemId, outputIndex, contentIndex, hitem, houtput, hindex, ?_⟩
  rw [ResponsesStreamTranslator.partDone, hitem, houtput, h.parts.index kind, hindex]
  exact if_pos hne

theorem nodup_parts {parts : List PartKind} (h : parts.Nodup) : parts = [] ∨ parts = [.text] ∨ parts = [.refusal] ∨
    parts = [.text, .refusal] ∨ parts = [.refusal, .text] := by
  match parts with
  | [] => exact .inl rfl
  | [kind] => cases kind <;> simp
  | [kind, kind'] =>
    cases kind <;> cases kind' <;> simp at h ⊢
  | kind :: kind' :: kind'' :: rest =>
    cases kind <;> cases kind' <;> cases kind'' <;> simp at h

theorem FilledInv.content_eq (h : FilledInv uuid s) (itemId : String) : (s.1.buildMessageItem itemId).content =
    (partsOf s.bodies).map fun kind => kind.part (s.1.buffer kind) := by
  have htext : s.1.textPartIndex = (partsOf s.bodies).idxOf? .text := h.parts.index .text
  have hrefusal : s.1.refusalPartIndex = (partsOf s.bodies).idxOf? .refusal := h.parts.index .refusal
  have hfilled := h.filled
  unfold Filled at hfilled
  unfold ResponsesStreamTranslator.buildMessageItem
  rcases nodup_parts h.parts.nodup with hparts | hparts | hparts | hparts | hparts <;>
    rw [hparts] at htext hrefusal hfilled <;>
    simp [hparts, htext, hrefusal, ResponsesStreamTranslator.buffer, List.idxOf?_cons] at hfilled ⊢ <;>
    simp [hfilled, List.insertionSort, List.orderedInsert]

theorem filterMap_textOf (kind kind' : PartKind) (text : String) :
    (kind.part text).textOf kind' = if kind' = kind then some text else none := by
  cases kind <;> cases kind' <;> rfl

def ResponsesStreamTranslator.closing (t : ResponsesStreamTranslator) : List EventBody :=
  t.partDone .text ++ t.partDone .refusal ++ t.orderedItems.flatMap t.slotDone

section
variable {t : ResponsesStreamTranslator} {b : EventBody}

theorem partDone_phase {kind : PartKind} (hb : b ∈ t.partDone kind) : b.phase = .closing ∧ b.closed = none ∧
    ∀ itemId, b.argumentsDone itemId = none := by
  unfold ResponsesStreamTranslator.partDone at hb
  split at hb
  · split at hb
    · rcases List.mem_cons.1 hb with rfl | hb
      · cases kind <;> exact ⟨rfl, rfl, fun _ => rfl⟩
      · rw [List.mem_singleton.1 hb]
        exact ⟨rfl, rfl, fun _ => rfl⟩
    · cases hb
  · cases hb

theorem slotDone_phase {slot : ItemSlot} (hb : b ∈ t.slotDone slot) : b.phase = .closing ∧ b.partClosed = none ∧
    ∀ kind, b.doneOf kind = none := by
  unfold ResponsesStreamTranslator.slotDone at hb
  split at hb
  · split at hb
    · rw [List.mem_singleton.1 hb]
      exact ⟨rfl, rfl, fun _ => rfl⟩
    · cases hb
  · split at hb
    · rw [List.mem_singleton.1 hb]
      exact ⟨rfl, rfl, fun _ => rfl⟩
    · cases hb
  · split at hb
    · rcases List.mem_cons.1 hb with rfl | hb
      · exact ⟨rfl, rfl, fun _ => rfl⟩
      · rw [List.mem_singleton.1 hb]
        exact ⟨rfl, rfl, fun _ => rfl⟩
    · cases hb

theorem closing_phase (hb : b ∈ t.closing) : b.phase = .closing := by
  rcases List.mem_append.1 hb with hb | hb
  · rcases List.mem_append.1 hb with hb | hb <;> exact (partDone_phase hb).1
  · obtain ⟨slot, -, hb⟩ := List.mem_flatMap.1 hb
    exact (slotDone_phase hb).1

theorem terminal_phase (usage : Option ResponsesUsage) : (t.terminal usage).phase = .terminal ∧
    ∃ response, (t.terminal usage).response = some response ∧
      response.output = t.orderedItems.filterMap t.slotItem := by
  unfold ResponsesStreamTranslator.terminal
  dsimp only
  split <;> exact ⟨rfl, _, rfl, rfl⟩

theorem closed_closing : t.closing.filterMap (·.closed) =
    t.orderedItems.flatMap fun slot => (t.slotDone slot).filterMap (·.closed) := by
  have hparts (kind : PartKind) : (t.partDone kind).filterMap (·.closed) = [] :=
    List.filterMap_eq_nil_iff.2 fun b hb => (partDone_phase hb).2.1
  rw [ResponsesStreamTranslator.closing, List.filterMap_append, List.filterMap_append, hparts, hparts,
    List.filterMap_flatMap]
  rfl

theorem argumentsDone_closing (itemId : String) : t.closing.filterMap (·.argumentsDone itemId) =
    t.orderedItems.flatMap fun slot => (t.slotDone slot).filterMap (·.argumentsDone itemId) := by
  have hparts (kind : PartKind) : (t.partDone kind).filterMap (·.argumentsDone itemId) = [] :=
    List.filterMap_eq_nil_iff.2 fun b hb => (partDone_phase hb).2.2 itemId
  rw [ResponsesStreamTranslator.closing, List.filterMap_append, List.filterMap_append, hparts, hparts,
    List.filterMap_flatMap]
  rfl

theorem partClosed_closing : t.closing.filterMap (·.partClosed) =
    (t.partDone .text).filterMap (·.partClosed) ++ (t.partDone .refusal).filterMap (·.partClosed) := by
  have hslots : (t.orderedItems.flatMap t.slotDone).filterMap (·.partClosed) = [] := by
    refine List.filterMap_eq_nil_iff.2 fun b hb => ?_
    obtain ⟨slot, -, hb⟩ := List.mem_flatMap.1 hb
    exact (slotDone_phase hb).2.1
  rw [ResponsesStreamTranslator.closing, List.filterMap_append, List.filterMap_append, hslots, List.append_nil]

theorem doneOf_closing (kind : PartKind) : t.closing.filterMap (·.doneOf kind) =
    (t.partDone .text).filterMap (·.doneOf kind) ++ (t.partDone .refusal).filterMap (·.doneOf kind) := by
  have hslots : (t.orderedItems.flatMap t.slotDone).filterMap (·.doneOf kind) = [] := by
    refine List.filterMap_eq_nil_iff.2 fun b hb => ?_
    obtain ⟨slot, -, hb⟩ := List.mem_flatMap.1 hb
    exact (slotDone_phase hb).2.2 kind
  rw [ResponsesStreamTranslator.closing, List.filterMap_append, List.filterMap_append, hslots, List.append_nil]

end

theorem Running.phase (h : Running uuid s) : ∀ b ∈ s.bodies, b.phase = .frame ∨ b.phase = .opening := by
  obtain ⟨r, r', inner, hbodies, hinner⟩ := (h.1.log_started h.2).shape
  intro b hb
  rw [Feed.bodies, hbodies] at hb
  rcases List.mem_cons.1 hb with rfl | hb
  · exact .inl rfl
  · rcases List.mem_cons.1 hb with rfl | hb
    · exact .inl rfl
    · exact .inr (hinner b hb)

theorem filterMap_bodies {β : Type} {f : EventBody → Option β} (h : Running uuid s)
    (hf : ∀ b : EventBody, b.phase = .frame ∨ b.phase = .opening → f b = none) : s.bodies.filterMap f = [] :=
  List.filterMap_eq_nil_iff.2 fun b hb => hf b (h.phase b hb)

section
variable {usage : Option ResponsesUsage} {x : EventBody} {front back : List EventBody}

theorem ending_phase {b : EventBody} (hb : b ∈ s.1.closing ++ [s.1.terminal usage]) :
    b.phase = .closing ∨ b.phase = .terminal := by
  rcases List.mem_append.1 hb with hb | hb
  · exact .inl (closing_phase hb)
  · rw [List.mem_singleton.1 hb]
    exact .inr (terminal_phase usage).1

theorem filterMap_ending {β : Type} {f : EventBody → Option β}
    (hf : ∀ b : EventBody, b.phase = .closing ∨ b.phase = .terminal → f b = none) :
    (s.1.closing ++ [s.1.terminal usage]).filterMap f = [] :=
  List.filterMap_eq_nil_iff.2 fun _ hb => hf _ (ending_phase hb)

theorem opening_split (hx : x.phase = .opening)
    (hall : s.bodies ++ (s.1.closing ++ [s.1.terminal usage]) = front ++ x :: back) :
    ∃ w, s.bodies = front ++ x :: w ∧ back = w ++ (s.1.closing ++ [s.1.terminal usage]) := by
  have hout : x ∉ s.1.closing ++ [s.1.terminal usage] := by
    intro hmem
    rcases ending_phase hmem with h | h <;> rw [hx] at h <;> cases h
  rcases List.append_eq_append_iff.1 hall with ⟨w, -, hend⟩ | ⟨w, hfront, hend⟩
  · exact absurd (hend ▸ List.mem_append_right _ List.mem_cons_self) hout
  · rcases w with _ | ⟨y, w⟩
    · exact absurd (hend ▸ List.mem_cons_self) hout
    obtain ⟨rfl, rfl⟩ := List.cons.inj hend
    exact ⟨w, hfront, rfl⟩

theorem closers_split {β : Type} {f : EventBody → Option β} (h : Running uuid s) (hx : x.phase = .opening)
    (hall : s.bodies ++ (s.1.closing ++ [s.1.terminal usage]) = front ++ x :: back)
    (hf : ∀ b : EventBody, b.phase = .frame ∨ b.phase = .opening → f b = none)
    (hterminal : f (s.1.terminal usage) = none) :
    x ∈ s.bodies ∧ front.filterMap f = [] ∧ back.filterMap f = s.1.closing.filterMap f := by
  obtain ⟨w, hbodies, rfl⟩ := opening_split hx hall
  have hnone := filterMap_bodies h hf
  rw [hbodies, List.filterMap_append] at hnone
  obtain ⟨hfront, hrest⟩ := List.append_eq_nil_iff.1 hnone
  have hw : w.filterMap f = [] := by
    rw [List.filterMap_cons_none (hf x (.inr hx))] at hrest
    exact hrest
  refine ⟨by rw [hbodies]; exact List.mem_append_right _ List.mem_cons_self, hfront, ?_⟩
  rw [List.filterMap_append, hw, List.nil_append, List.filterMap_append, List.filterMap_cons_none hterminal,
    List.filterMap_nil, List.append_nil]

theorem terminal_none : (s.1.terminal usage).closed = none ∧ (s.1.terminal usage).partClosed = none ∧
    (∀ kind, (s.1.terminal usage).doneOf kind = none) ∧
    ∀ itemId, (s.1.terminal usage).argumentsDone itemId = none := by
  unfold ResponsesStreamTranslator.terminal
  dsimp only
  split <;> exact ⟨rfl, rfl, fun _ => rfl, fun _ => rfl⟩

/-! ### The clauses of the law -/

theorem items_law (h : Running uuid s) {outputIndex : Nat} {item : OutputItem}
    (hall : s.bodies ++ (s.1.closing ++ [s.1.terminal usage]) = front ++ .outputItemAdded outputIndex item :: back) :
    ∃ out, (s.1.orderedItems.filterMap s.1.slotItem)[outputIndex]? = some out ∧ out.id = item.id ∧
      (front.filterMap (·.closed)).filter (·.2.id = item.id) = [] ∧
      (back.filterMap (·.closed)).filter (·.2.id = item.id) = [(outputIndex, out)] := by
  obtain ⟨hmem, hfront, hback⟩ := closers_split h rfl hall (fun b hb => (EventBody.closed_of_opening hb).1) terminal_none.1
  have hadded : (outputIndex, item.id) ∈ s.bodies.filterMap (·.added) := List.mem_filterMap.2 ⟨_, hmem, rfl⟩
  rw [h.1.items.added] at hadded
  obtain ⟨slot, hslot, hkey⟩ := List.mem_filterMap.1 hadded
  obtain ⟨out, hitem, hid, hclosed⟩ := slot_closed hkey
  have hindex := (h.1.items.slots outputIndex slot).2 ⟨_, hkey⟩
  refine ⟨out, by rw [h.1.getElem?_output, hindex]; exact hitem, hid, by rw [hfront]; rfl, ?_⟩
  rw [hback, closed_closing, List.filter_flatMap, flatMap_eq_of_nodup h.1.items.nodup hslot]
  · rw [hclosed]
    simp [hid]
  · intro slot' hslot' hne
    obtain ⟨i', id', -, hkey'⟩ := h.1.slot_key hslot'
    obtain ⟨out', -, hid', hclosed'⟩ := slot_closed hkey'
    have hids : id' ≠ item.id := by
      rintro rfl
      exact hne (h.1.items.distinct _ _ _ _ _ hkey' hkey)
    rw [hclosed']
    simp [hid', hids]

theorem doneOf_partDone (h : Running uuid s) (kind kind' : PartKind) : (s.1.partDone kind').filterMap (·.doneOf kind) =
    if kind = kind' then oneText (s.1.buffer kind') else [] := by
  by_cases hempty : s.1.buffer kind' = ""
  · rw [partDone_of_empty hempty, oneText, if_pos hempty, ite_self]
    rfl
  · obtain ⟨itemId, outputIndex, contentIndex, -, -, -, hdone⟩ := h.1.partDone_eq hempty
    rw [hdone, oneText, if_neg hempty]
    cases kind <;> cases kind' <;> rfl

theorem textOf_content (h : Running uuid s) (kind : PartKind) (itemId : String) :
    (s.1.buildMessageItem itemId).content.filterMap (·.textOf kind) = oneText (s.1.buffer kind) := by
  have hfilled := h.1.filled kind
  have hknown := h.1.parts.known kind
  rw [h.1.content_eq, List.filterMap_map]
  unfold oneText
  rcases nodup_parts h.1.parts.nodup with hparts | hparts | hparts | hparts | hparts <;>
    rw [hparts] at hfilled hknown ⊢ <;>
    cases kind <;>
    simp [filterMap_textOf] at hfilled hknown ⊢ <;>
    assumption

theorem texts_law (h : Running uuid s) (kind : PartKind) :
    s.1.closing.filterMap (·.doneOf kind) = oneText (s.1.buffer kind) ∧
      (s.1.orderedItems.filterMap s.1.slotItem).flatMap (fun
        | .message item => item.content.filterMap (·.textOf kind)
        | _ => []) = oneText (s.1.buffer kind) := by
  constructor
  · rw [doneOf_closing, doneOf_partDone h, doneOf_partDone h]
    cases kind
    · exact List.append_nil _
    · rfl
  · rw [flatMap_filterMap]
    have hothers (slot : ItemSlot) (hne : slot ≠ .message) : ((s.1.slotItem slot).elim [] fun
        | .message item => item.content.filterMap (·.textOf kind)
        | _ => []) = [] := by
      cases slot with
      | message => exact absurd rfl hne
      | reasoning =>
        rw [ResponsesStreamTranslator.slotItem]
        cases s.1.reasoningItemId <;> rfl
      | functionCall k =>
        rw [ResponsesStreamTranslator.slotItem]
        cases s.1.currentFunctionCallItems k <;> rfl
    by_cases hmessage : ItemSlot.message ∈ s.1.orderedItems
    · obtain ⟨i, id, -, hkey⟩ := h.1.slot_key hmessage
      obtain ⟨j, -, hmap⟩ := Option.bind_eq_some_iff.1 hkey
      obtain ⟨id', hid, -⟩ := Option.map_eq_some_iff.1 hmap
      rw [flatMap_eq_of_nodup h.1.items.nodup hmessage fun slot _ => hothers slot, ResponsesStreamTranslator.slotItem, hid]
      exact textOf_content h kind id'
    · -- without a message nothing was said
      have hempty : s.1.buffer kind = "" := by
        by_contra hne
        obtain ⟨itemId, outputIndex, -, hitem, houtput, -⟩ := h.1.partDone_eq hne
        have hkey : s.1.slotKey .message = some (outputIndex, itemId) := by
          rw [ResponsesStreamTranslator.slotKey, houtput, hitem]
          rfl
        exact hmessage (List.mem_of_getElem? ((h.1.items.slots outputIndex _).2 ⟨itemId, hkey⟩))
      rw [oneText, if_pos hempty, List.flatMap_eq_nil_iff]
      intro slot hslot
      exact hothers slot (by rintro rfl; exact hmessage hslot)

theorem arguments_law (h : Running uuid s) {outputIndex : Nat} {call : OutputFunctionCall}
    (hcall : (s.1.orderedItems.filterMap s.1.slotItem)[outputIndex]? = some (.functionCall call)) :
    s.1.closing.filterMap (·.argumentsDone call.id) = [call.arguments] ∧
      concat (s.bodies.filterMap (·.argumentsDelta call.id)) = call.arguments := by
  rw [h.1.getElem?_output] at hcall
  obtain ⟨slot, hindex, hitem⟩ := Option.bind_eq_some_iff.1 hcall
  obtain ⟨id, hkey⟩ := (h.1.items.slots outputIndex slot).1 hindex
  cases slot with
  | reasoning | message =>
    obtain ⟨_, -, heq⟩ := Option.map_eq_some_iff.1 hitem
    cases heq
  | functionCall k =>
    obtain ⟨state, hstate, heq⟩ := Option.map_eq_some_iff.1 hitem
    cases heq
    refine ⟨?_, h.1.calls.arguments k state hstate⟩
    show _ = [state.arguments]
    rw [argumentsDone_closing, flatMap_eq_of_nodup h.1.items.nodup (List.mem_of_getElem? hindex)]
    · rw [ResponsesStreamTranslator.slotDone, hstate]
      simp [EventBody.argumentsDone, ResponsesStreamTranslator.buildFunctionCall]
    · intro slot' hslot' hne
      cases slot' with
      | reasoning | message =>
        rw [ResponsesStreamTranslator.slotDone]
        split <;> rfl
      | functionCall k' =>
        rw [ResponsesStreamTranslator.slotDone]
        rcases hstate' : s.1.currentFunctionCallItems k' with _ | state'
        · rfl
        have hids : state'.itemId ≠ state.itemId := by
          intro hsame
          have hkey' := slotKey_functionCall hstate'
          rw [hsame] at hkey'
          exact hne (h.1.items.distinct _ _ _ _ _ hkey' (slotKey_functionCall hstate))
        simp [EventBody.argumentsDone, ResponsesStreamTranslator.buildFunctionCall, hids]

theorem partClosed_partDone (h : Running uuid s) {kind kind' : PartKind} {itemId : String} {outputIndex contentIndex : Nat}
    (hitem : s.1.currentMessageItemId = some itemId) (houtput : s.1.messageOutputIndex = some outputIndex)
    (hindex : (partsOf s.bodies).idxOf? kind = some contentIndex) :
    ((s.1.partDone kind').filterMap (·.partClosed)).filter (·.1 = (itemId, outputIndex, contentIndex)) =
      if kind = kind' then [((itemId, outputIndex, contentIndex), kind.part (s.1.buffer kind))] else [] := by
  have hmem : kind ∈ partsOf s.bodies := List.isSome_idxOf?.1 (by rw [hindex]; rfl)
  by_cases hempty : s.1.buffer kind' = ""
  · have hne : kind ≠ kind' := by
      rintro rfl
      exact h.1.filled kind hmem hempty
    rw [partDone_of_empty hempty, if_neg hne]
    rfl
  · obtain ⟨itemId', outputIndex', contentIndex', hitem', houtput', hindex', hdone⟩ := h.1.partDone_eq hempty
    cases hitem.symm.trans hitem'
    cases houtput.symm.trans houtput'
    have hclosed : (s.1.partDone kind').filterMap (·.partClosed) =
        [((itemId, outputIndex, contentIndex'), kind'.part (s.1.buffer kind'))] := by
      rw [hdone]
      cases kind' <;> rfl
    rw [hclosed]
    by_cases hsame : kind = kind'
    · subst hsame
      cases hindex.symm.trans hindex'
      simp
    · have hother : contentIndex' ≠ contentIndex := by
        rintro rfl
        obtain ⟨hlt, hget, -⟩ := List.idxOf?_eq_some_iff.1 hindex
        obtain ⟨hlt', hget', -⟩ := List.idxOf?_eq_some_iff.1 hindex'
        exact hsame (hget.symm.trans hget')
      simp [hsame, hother]

theorem parts_law (h : Running uuid s) {itemId : String} {outputIndex contentIndex : Nat} {part : OutputContentPart}
    (hall : s.bodies ++ (s.1.closing ++ [s.1.terminal usage]) =
      front ++ .contentPartAdded itemId outputIndex contentIndex part :: back) :
    ∃ message out, (s.1.orderedItems.filterMap s.1.slotItem)[outputIndex]? = some (.message message) ∧
      message.id = itemId ∧ message.content[contentIndex]? = some out ∧ out.kind = part.kind ∧
      (front.filterMap (·.partClosed)).filter (·.1 = (itemId, outputIndex, contentIndex)) = [] ∧
      (back.filterMap (·.partClosed)).filter (·.1 = (itemId, outputIndex, contentIndex)) =
        [((itemId, outputIndex, contentIndex), out)] := by
  obtain ⟨hmem, hfront, hback⟩ :=
    closers_split h rfl hall (fun b hb => (EventBody.closed_of_opening hb).2.1) terminal_none.2.1
  have hadded : ((itemId, outputIndex, contentIndex), part.kind) ∈ s.bodies.filterMap (·.partAdded) :=
    List.mem_filterMap.2 ⟨_, hmem, rfl⟩
  rw [h.1.parts.added] at hadded
  obtain ⟨⟨kind, index⟩, hzip, heq⟩ := List.mem_map.1 hadded
  simp only [Prod.mk.injEq] at heq
  obtain ⟨⟨hitem, houtput, rfl⟩, hkind⟩ := heq
  have hget : (partsOf s.bodies)[index]? = some kind := List.mk_mem_zipIdx_iff_getElem?.1 hzip
  have hin : kind ∈ partsOf s.bodies := List.mem_of_getElem? hget
  -- the part is in the message, at its index
  obtain ⟨hsome, hsome'⟩ := h.1.parts.opened (List.ne_nil_of_mem hin)
  obtain ⟨id, hid⟩ := Option.isSome_iff_exists.1 hsome
  obtain ⟨i, hi⟩ := Option.isSome_iff_exists.1 hsome'
  rw [hid, Option.getD_some] at hitem
  rw [hi, Option.getD_some] at houtput
  subst hitem houtput
  have hindex : (partsOf s.bodies).idxOf? kind = some index := by
    obtain ⟨hlt, hgetElem⟩ := List.getElem?_eq_some_iff.1 hget
    refine List.idxOf?_eq_some_iff.2 ⟨hlt, hgetElem, fun j hj hsame => ?_⟩
    have := h.1.parts.nodup.getElem_inj_iff.1 (hsame.trans hgetElem.symm)
    omega
  have hkey : s.1.slotKey .message = some (i, id) := by
    rw [ResponsesStreamTranslator.slotKey, hi, hid]
    rfl
  refine ⟨s.1.buildMessageItem id, kind.part (s.1.buffer kind), ?_, rfl, ?_, ?_, by rw [hfront]; rfl, ?_⟩
  · rw [h.1.getElem?_output, (h.1.items.slots i _).2 ⟨id, hkey⟩, Option.bind_some, ResponsesStreamTranslator.slotItem, hid]
    rfl
  · rw [h.1.content_eq, List.getElem?_map, hget]
    rfl
  · rw [← hkind]
    cases kind <;> rfl
  · rw [hback, partClosed_closing, List.filter_append, partClosed_partDone h hid hi hindex,
      partClosed_partDone h hid hi hindex]
    cases kind <;> rfl

theorem Running.streamLaw (h : Running uuid s) (usage : Option ResponsesUsage) :
    ∃ response, StreamLaw ((s.1.closing ++ [s.1.terminal usage]).foldl Feed.push s).2 response := by
  obtain ⟨-, response, hresponse, houtput⟩ := terminal_phase (t := s.1) usage
  obtain ⟨hbodies, hnumbered⟩ := foldl_push (s.1.closing ++ [s.1.terminal usage]) rfl h.1.log.number h.1.log.numbered
  have hall : (((s.1.closing ++ [s.1.terminal usage]).foldl Feed.push s).2.map (·.body)) =
      s.bodies ++ (s.1.closing ++ [s.1.terminal usage]) := hbodies
  have hdeltas (kind : PartKind) : concat ((s.bodies ++ (s.1.closing ++ [s.1.terminal usage])).filterMap (·.deltaOf kind)) =
      s.1.buffer kind := by
    rw [List.filterMap_append, filterMap_ending fun b hb => (EventBody.opened_of_closing hb).2.2.1 kind,
      List.append_nil, h.1.parts.deltas]
  refine ⟨response, hnumbered, ?_, ?_, ?_, ?_, ?_⟩
  · obtain ⟨r, r', inner, hlog, hinner⟩ := (h.1.log_started h.2).shape
    refine ⟨r, r', inner ++ s.1.closing, s.1.terminal usage, ?_, hresponse, ?_⟩
    · rw [hall, Feed.bodies, hlog]
      simp
    · intro b hb
      rcases List.mem_append.1 hb with hb | hb
      · exact .inl (hinner b hb)
      · exact .inr (closing_phase hb)
  · intro front outputIndex item back hsplit
    rw [houtput]
    exact items_law h (hall.symm.trans hsplit)
  · intro front itemId outputIndex contentIndex part back hsplit
    rw [houtput]
    exact parts_law h (hall.symm.trans hsplit)
  · intro kind
    obtain ⟨hdone, htexts⟩ := texts_law h kind
    rw [hall, hdeltas, ResponseObject.texts, houtput, List.filterMap_append,
      filterMap_bodies h fun b hb => (EventBody.closed_of_opening hb).2.2.1 kind, List.nil_append,
      List.filterMap_append, hdone, List.filterMap_cons_none (terminal_none.2.2.1 kind)]
    exact ⟨List.append_nil _, htexts⟩
  · intro outputIndex call hcall
    rw [houtput] at hcall
    obtain ⟨hdone, harguments⟩ := arguments_law h hcall
    rw [hall, List.filterMap_append, filterMap_bodies h fun b hb => (EventBody.closed_of_opening hb).2.2.2 call.id,
      List.nil_append, List.filterMap_append, hdone, List.filterMap_cons_none (terminal_none.2.2.2 call.id),
      List.filterMap_append, filterMap_ending fun b hb => (EventBody.opened_of_closing hb).2.2.2 call.id,
      List.append_nil]
    exact ⟨rfl, harguments⟩

end

end

theorem stream_consistent {uuid : Nat → String} (huuid : Function.Injective uuid) (createdTs : Int) (model : String)
    (instructions : Option String) (chunks : List Json) (usage : Option ResponsesUsage) :
    ∃ response, StreamLaw (streamEvents uuid createdTs model instructions chunks usage) response := by
  have hrunning := (filledInv_foldl huuid createdTs model instructions chunks).start
  exact hrunning.streamLaw usage

def unaryId (n : Nat) : String := String.ofList (List.replicate n 'x')

theorem unaryId_injective : Function.Injective unaryId := by
  intro n m h
  have hlength := congrArg (·.toList.length) h
  simpa [unaryId] using hlength

def chunkJson (delta : Json) : Json := .object [("choices", .array [.object [("delta", delta)]])]

def helloChunk : Json := chunkJson (.object [("content", .string "hello")])

def callChunk : Json := chunkJson (.object [("tool_calls", .array [.object [("function",
  .object [("arguments", .string "[]"), ("name", .string "read")])]])])

theorem stream_consistent_hello : (streamEvents unaryId 0 "gpt" none [helloChunk, callChunk] none).length = 13 ∧
      ∃ response, StreamLaw (streamEvents unaryId 0 "gpt" none [helloChunk, callChunk] none) response :=
  ⟨by decide, stream_consistent unaryId_injective 0 "gpt" none [helloChunk, callChunk] none⟩

end ObeyGateway.Responses
