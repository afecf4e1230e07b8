import ObeyGateway.Responses.SynthesizeStream

/-!
# The invariant of response streams

`FeedInv` ties the fields of the translator to the events that are pushed so far, in four parts that a step
changes one at a time: the log (`LogInv`), the items (`ItemsInv`), the parts of the message (`PartsInv`) and
the arguments of the calls (`CallsInv`).
-/

namespace ObeyGateway.Responses

/-- An event comes before the items, while they are built, when they are closed, or at the end. -/
inductive Phase
  | frame
  | opening
  | closing
  | terminal
deriving DecidableEq

def OutputItem.id : OutputItem → String
  | .message item => item.id
  | .functionCall item => item.id
  | .reasoning item => item.id

def OutputContentPart.kind : OutputContentPart → PartKind
  | .outputText _ _ => .text
  | .refusal _ => .refusal

def OutputContentPart.textOf (part : OutputContentPart) (kind : PartKind) : Option String :=
  match part, kind with
  | .outputText content _, .text => some content
  | .refusal content, .refusal => some content
  | _, _ => none

abbrev PartKey := String × Nat × Nat

namespace EventBody

def phase : EventBody → Phase
  | .created _ | .inProgress _ => .frame
  | .completed _ | .incomplete _ => .terminal
  | .outputItemDone _ _ | .contentPartDone _ _ _ _ | .outputTextDone _ _ _ _ | .refusalDone _ _ _ _
  | .functionCallArgumentsDone _ _ _ => .closing
  | _ => .opening

def added : EventBody → Option (Nat × String)
  | .outputItemAdded outputIndex item => some (outputIndex, item.id)
  | _ => none

def closed : EventBody → Option (Nat × OutputItem)
  | .outputItemDone outputIndex item => some (outputIndex, item)
  | _ => none

def partAdded : EventBody → Option (PartKey × PartKind)
  | .contentPartAdded itemId outputIndex contentIndex part => some ((itemId, outputIndex, contentIndex), part.kind)
  | _ => none

def partClosed : EventBody → Option (PartKey × OutputContentPart)
  | .contentPartDone itemId outputIndex contentIndex part => some ((itemId, outputIndex, contentIndex), part)
  | _ => none

def deltaOf (kind : PartKind) : EventBody → Option String
  | .outputTextDelta _ _ _ delta => if kind = .text then some delta else none
  | .refusalDelta _ _ _ delta => if kind = .refusal then some delta else none
  | _ => none

def doneOf (kind : PartKind) : EventBody → Option String
  | .outputTextDone _ _ _ text => if kind = .text then some text else none
  | .refusalDone _ _ _ refusal => if kind = .refusal then some refusal else none
  | _ => none

def argumentsDelta (itemId : String) : EventBody → Option String
  | .functionCallArgumentsDelta id _ delta => if id = itemId then some delta else none
  | _ => none

def argumentsDone (itemId : String) : EventBody → Option String
  | .functionCallArgumentsDone id _ arguments => if id = itemId then some arguments else none
  | _ => none

def response : EventBody → Option ResponseObject
  | .completed response | .incomplete response => some response
  | _ => none

theorem closed_of_opening {b : EventBody} (h : b.phase = .frame ∨ b.phase = .opening) : b.closed = none ∧ b.partClosed = none ∧
    (∀ kind, b.doneOf kind = none) ∧ ∀ itemId, b.argumentsDone itemId = none := by
  cases b <;> first | exact ⟨rfl, rfl, fun _ => rfl, fun _ => rfl⟩ | (rcases h with h | h <;> cases h)

theorem opened_of_closing {b : EventBody} (h : b.phase = .closing ∨ b.phase = .terminal) : b.added = none ∧
    b.partAdded = none ∧ (∀ kind, b.deltaOf kind = none) ∧ ∀ itemId, b.argumentsDelta itemId = none := by
  cases b <;> first | exact ⟨rfl, rfl, fun _ => rfl, fun _ => rfl⟩ | (rcases h with h | h <;> cases h)

end EventBody

def concat (texts : List String) : String := texts.foldl (· ++ ·) ""

theorem concat_concat (texts : List String) (text : String) : concat (texts ++ [text]) = concat texts ++ text := by
  rw [concat, List.foldl_append]
  rfl

/-- The events are numbered in order, and from the first chunk on they begin with the frame and what is opened. -/
structure LogInv (sequenceNumber : Nat) (started : Bool) (events : List ResponsesSseEvent) : Prop where
  number : sequenceNumber = events.length
  numbered : events.map (·.sequenceNumber) = List.range events.length
  shape : if started then
      ∃ r r' inner, events.map (·.body) = .created r :: .inProgress r' :: inner ∧ ∀ b ∈ inner, b.phase = .opening
    else events = []

section
variable {started : Bool} {n : Nat} {events : List ResponsesSseEvent} {body : EventBody}

theorem numbered_push (hnumber : n = events.length)
    (hnumbered : events.map (·.sequenceNumber) = List.range events.length) (body : EventBody) :
    n + 1 = (events ++ [ResponsesSseEvent.mk n body]).length ∧
      (events ++ [ResponsesSseEvent.mk n body]).map (·.sequenceNumber) =
        List.range (events ++ [ResponsesSseEvent.mk n body]).length := by
  have hlength : (events ++ [ResponsesSseEvent.mk n body]).length = events.length + 1 := List.length_append
  rw [hlength]
  refine ⟨by rw [hnumber], ?_⟩
  rw [List.map_append, hnumbered, List.range_succ, List.map_singleton, hnumber]

theorem LogInv.push (h : LogInv n true events) (hbody : body.phase = .opening) :
    LogInv (n + 1) true (events ++ [⟨n, body⟩]) := by
  obtain ⟨hnumber, hnumbered⟩ := numbered_push h.number h.numbered body
  refine ⟨hnumber, hnumbered, ?_⟩
  obtain ⟨r, r', inner, hevents, hinner⟩ := h.shape
  refine ⟨r, r', inner ++ [body], by rw [List.map_append, hevents]; rfl, ?_⟩
  intro b hb
  rcases List.mem_append.1 hb with hb | hb
  · exact hinner b hb
  · rw [List.mem_singleton.1 hb]
    exact hbody

theorem LogInv.start (h : LogInv n false events) (r r' : ResponseObject) :
    LogInv (n + 1 + 1) true (events ++ [⟨n, .created r⟩] ++ [⟨n + 1, .inProgress r'⟩]) := by
  have hfirst := numbered_push h.number h.numbered (.created r)
  obtain ⟨hnumber, hnumbered⟩ := numbered_push hfirst.1 hfirst.2 (.inProgress r')
  have hempty : events = [] := h.shape
  refine ⟨hnumber, hnumbered, r, r', [], by rw [hempty]; rfl, ?_⟩
  exact fun b hb => absurd hb List.not_mem_nil

end

/-! ### The items -/

def ItemSlot.idPrefix : ItemSlot → String
  | .reasoning => "rs_"
  | .message => "msg_"
  | .functionCall _ => "fc_"

def ResponsesStreamTranslator.slotKey (t : ResponsesStreamTranslator) : ItemSlot → Option (Nat × String)
  | .reasoning => t.reasoningOutputIndex.bind fun outputIndex => t.reasoningItemId.map (outputIndex, ·)
  | .message => t.messageOutputIndex.bind fun outputIndex => t.currentMessageItemId.map (outputIndex, ·)
  | .functionCall toolIndex => (t.currentFunctionCallItems toolIndex).map fun state => (state.outputIndex, state.itemId)

theorem idPrefix_append_inj {slot slot' : ItemSlot} {id id' : String}
    (h : slot.idPrefix ++ id = slot'.idPrefix ++ id') : slot.idPrefix = slot'.idPrefix ∧ id = id' := by
  have hhead := congrArg (·.toList.head?) h
  simp only [String.toList_append] at hhead
  cases slot <;> cases slot' <;> first
    | exact ⟨rfl, (String.append_right_inj _).1 h⟩
    | (revert hhead; simp [ItemSlot.idPrefix])

section
variable (uuid : Nat → String)

/-- The slots that have an item are those in the order, each at its index; its id was drawn; and the items were
announced in that order. -/
structure ItemsInv (drawn : Nat) (ordered : List ItemSlot) (key : ItemSlot → Option (Nat × String))
    (bodies : List EventBody) : Prop where
  slots : ∀ i slot, ordered[i]? = some slot ↔ ∃ id, key slot = some (i, id)
  ids : ∀ slot i id, key slot = some (i, id) → ∃ n < drawn, id = slot.idPrefix ++ uuid n
  distinct : ∀ slot slot' i i' id, key slot = some (i, id) → key slot' = some (i', id) → slot = slot'
  added : bodies.filterMap (·.added) = ordered.filterMap key

variable {uuid} {drawn : Nat} {ordered : List ItemSlot} {key : ItemSlot → Option (Nat × String)}
  {bodies : List EventBody}

namespace ItemsInv

theorem push (h : ItemsInv uuid drawn ordered key bodies) {body : EventBody} (hbody : body.added = none) :
    ItemsInv uuid drawn ordered key (bodies ++ [body]) where
  slots := h.slots
  ids := h.ids
  distinct := h.distinct
  added := by
    rw [List.filterMap_append, h.added, List.filterMap_cons_none hbody, List.filterMap_nil, List.append_nil]

variable {slot : ItemSlot}

theorem notMem (h : ItemsInv uuid drawn ordered key bodies) (hslot : key slot = none) : slot ∉ ordered := by
  intro hmem
  obtain ⟨i, hi⟩ := List.mem_iff_getElem?.1 hmem
  obtain ⟨id, hid⟩ := (h.slots i slot).1 hi
  rw [hslot] at hid
  cases hid

theorem nodup (h : ItemsInv uuid drawn ordered key bodies) : ordered.Nodup := by
  rw [List.nodup_iff_getElem?_ne_getElem?]
  intro i j hij hj heq
  obtain ⟨slot, hslot⟩ : ∃ slot, ordered[j]? = some slot := ⟨_, List.getElem?_eq_getElem hj⟩
  obtain ⟨id, hid⟩ := (h.slots j slot).1 hslot
  obtain ⟨id', hid'⟩ := (h.slots i slot).1 (heq.trans hslot)
  rw [hid] at hid'
  cases hid'
  omega

theorem fresh (h : ItemsInv uuid drawn ordered key bodies) (huuid : Function.Injective uuid) (slot : ItemSlot)
    {slot' : ItemSlot} {i : Nat} {id : String} (hkey : key slot' = some (i, id)) :
    id ≠ slot.idPrefix ++ uuid drawn := by
  rintro rfl
  obtain ⟨n, hn, hid⟩ := h.ids slot' i _ hkey
  have := huuid (idPrefix_append_inj hid).2
  omega

theorem getElem?_concat_eq_some {slots : List ItemSlot} {slot' : ItemSlot} {i : Nat} :
    (slots ++ [slot])[i]? = some slot' ↔ slots[i]? = some slot' ∨ i = slots.length ∧ slot = slot' := by
  rw [List.getElem?_append]
  split
  · rename_i hlt
    exact (or_iff_left fun hend => absurd hend.1 hlt.ne).symm
  · rename_i hge
    rw [List.getElem?_eq_none (Nat.le_of_not_lt hge), List.getElem?_singleton]
    split
    · rename_i hzero
      obtain rfl : i = slots.length := by omega
      simp
    · rename_i hpos
      simp
      omega

theorem add (h : ItemsInv uuid drawn ordered key bodies) (huuid : Function.Injective uuid)
    (hslot : key slot = none) {drawn' : Nat} (hdrawn : drawn < drawn') {body : EventBody}
    (hbody : body.added = some (ordered.length, slot.idPrefix ++ uuid drawn)) :
    ItemsInv uuid drawn' (ordered ++ [slot])
      (Function.update key slot (some (ordered.length, slot.idPrefix ++ uuid drawn))) (bodies ++ [body]) := by
  have hnew := h.notMem hslot
  constructor
  case slots =>
    intro i slot'
    rw [getElem?_concat_eq_some]
    by_cases hsame : slot' = slot
    · subst hsame
      rw [Function.update_self]
      constructor
      · rintro (hi | ⟨rfl, -⟩)
        · exact absurd (List.mem_of_getElem? hi) hnew
        · exact ⟨_, rfl⟩
      · rintro ⟨id, hid⟩
        cases hid
        exact .inr ⟨rfl, rfl⟩
    · rw [Function.update_of_ne hsame, ← h.slots i slot']
      exact or_iff_left fun hend => hsame hend.2.symm
  case ids =>
    intro slot' i id hkey
    by_cases hsame : slot' = slot
    · subst hsame
      rw [Function.update_self] at hkey
      cases hkey
      exact ⟨drawn, hdrawn, rfl⟩
    · rw [Function.update_of_ne hsame] at hkey
      obtain ⟨n, hn, hid⟩ := h.ids slot' i id hkey
      exact ⟨n, by omega, hid⟩
  case distinct =>
    intro s s' i i' id hs hs'
    by_cases hsame : s = slot
    · subst hsame
      rw [Function.update_self] at hs
      cases hs
      by_contra hne
      rw [Function.update_of_ne (Ne.symm hne)] at hs'
      exact h.fresh huuid s hs' rfl
    · rw [Function.update_of_ne hsame] at hs
      by_cases hsame' : s' = slot
      · subst hsame'
        rw [Function.update_self] at hs'
        cases hs'
        exact absurd rfl (h.fresh huuid s' hs)
      · rw [Function.update_of_ne hsame'] at hs'
        exact h.distinct s s' i i' id hs hs'
  case added =>
    have hold : ordered.filterMap (Function.update key slot (some (ordered.length, slot.idPrefix ++ uuid drawn))) =
        ordered.filterMap key := by
      refine List.filterMap_congr fun s hs => ?_
      rw [Function.update_of_ne]
      rintro rfl
      exact hnew hs
    rw [List.filterMap_append, List.filterMap_append, h.added, hold, List.filterMap_cons_some hbody,
      List.filterMap_cons_some (Function.update_self ..), List.filterMap_nil, List.filterMap_nil]

end ItemsInv

end

/-! ### The parts of the message -/

def partsOf (bodies : List EventBody) : List PartKind := (bodies.filterMap (·.partAdded)).map (·.2)

/-- The parts are numbered in that order, and the buffers have what was announced of them. -/
structure PartsInv (itemId : Option String) (outputIndex : Option Nat) (index : PartKind → Option Nat) (next : Nat)
    (buffer : PartKind → String) (bodies : List EventBody) : Prop where
  added : bodies.filterMap (·.partAdded) =
    (partsOf bodies).zipIdx.map fun p => ((itemId.getD "", outputIndex.getD 0, p.2), p.1)
  index : ∀ kind, index kind = (partsOf bodies).idxOf? kind
  next : next = (partsOf bodies).length
  nodup : (partsOf bodies).Nodup
  opened : partsOf bodies ≠ [] → itemId.isSome = true ∧ outputIndex.isSome = true
  deltas : ∀ kind, concat (bodies.filterMap (·.deltaOf kind)) = buffer kind
  known : ∀ kind, buffer kind ≠ "" → kind ∈ partsOf bodies

def Filled (buffer : PartKind → String) (bodies : List EventBody) : Prop := ∀ kind ∈ partsOf bodies, buffer kind ≠ ""

section
variable {itemId : Option String} {outputIndex : Option Nat} {index : PartKind → Option Nat} {next : Nat}
  {buffer : PartKind → String} {bodies : List EventBody} {body : EventBody} {kind : PartKind}

theorem partsOf_push (hbody : body.partAdded = none) : partsOf (bodies ++ [body]) = partsOf bodies := by
  rw [partsOf, List.filterMap_append, List.filterMap_cons_none hbody, List.filterMap_nil, List.append_nil]
  rfl

theorem partsOf_add {key : PartKey} (hbody : body.partAdded = some (key, kind)) :
    partsOf (bodies ++ [body]) = partsOf bodies ++ [kind] := by
  rw [partsOf, List.filterMap_append, List.filterMap_cons_some hbody, List.filterMap_nil, List.map_append]
  rfl

theorem deltas_push (hbody : body.deltaOf kind = none) :
    (bodies ++ [body]).filterMap (·.deltaOf kind) = bodies.filterMap (·.deltaOf kind) := by
  rw [List.filterMap_append, List.filterMap_cons_none hbody, List.filterMap_nil, List.append_nil]

namespace PartsInv

theorem push (h : PartsInv itemId outputIndex index next buffer bodies) (hadded : body.partAdded = none)
    (hdelta : ∀ kind, body.deltaOf kind = none) :
    PartsInv itemId outputIndex index next buffer (bodies ++ [body]) := by
  have hparts := (partsOf_push hadded : partsOf (bodies ++ [body]) = _)
  refine ⟨?_, ?_, ?_, ?_, ?_, ?_, ?_⟩
  · rw [List.filterMap_append, List.filterMap_cons_none hadded, List.filterMap_nil, List.append_nil, hparts, h.added]
  · rw [hparts]; exact h.index
  · rw [hparts]; exact h.next
  · rw [hparts]; exact h.nodup
  · rw [hparts]; exact h.opened
  · intro kind
    rw [deltas_push (hdelta kind), h.deltas]
  · rw [hparts]; exact h.known

theorem setItem (h : PartsInv none outputIndex index next buffer bodies) (itemId' : Option String)
    (outputIndex' : Option Nat) : PartsInv itemId' outputIndex' index next buffer bodies := by
  have hempty : partsOf bodies = [] := by
    by_contra hne
    exact absurd (h.opened hne).1 Bool.false_ne_true
  refine ⟨?_, h.index, h.next, h.nodup, fun hne => absurd hempty hne, h.deltas, h.known⟩
  rw [h.added, hempty]
  rfl

theorem add (h : PartsInv itemId outputIndex index next buffer bodies) (hindex : index kind = none)
    (hopen : itemId.isSome = true ∧ outputIndex.isSome = true)
    (hadded : body.partAdded = some ((itemId.getD "", outputIndex.getD 0, next), kind))
    (hdelta : ∀ kind, body.deltaOf kind = none) :
    PartsInv itemId outputIndex (Function.update index kind (some next)) (next + 1) buffer (bodies ++ [body]) := by
  have hnew : kind ∉ partsOf bodies := List.idxOf?_eq_none_iff.1 (h.index kind ▸ hindex)
  have hparts := (partsOf_add hadded : partsOf (bodies ++ [body]) = _)
  refine ⟨?_, ?_, ?_, ?_, fun _ => hopen, ?_, ?_⟩
  · rw [List.filterMap_append, List.filterMap_cons_some hadded, List.filterMap_nil, hparts, List.zipIdx_append,
      List.map_append, ← h.added, h.next, Nat.zero_add]
    rfl
  · intro kind'
    rw [hparts, List.idxOf?, List.findIdx?_append, ← List.idxOf?]
    by_cases hsame : kind' = kind
    · subst hsame
      rw [Function.update_self, List.idxOf?_eq_none_iff.2 hnew, h.next]
      simp
    · rw [Function.update_of_ne hsame, h.index]
      simp [Ne.symm hsame]
  · rw [hparts, List.length_append, h.next]
    rfl
  · rw [hparts]
    exact List.nodup_append.2 ⟨h.nodup, List.nodup_singleton _, by
      rintro a ha b hb rfl
      exact hnew (List.mem_singleton.1 hb ▸ ha)⟩
  · intro kind'
    rw [deltas_push (hdelta kind'), h.deltas]
  · rw [hparts]
    exact fun kind' hne => List.mem_append_left _ (h.known kind' hne)

theorem delta (h : PartsInv itemId outputIndex index next buffer bodies) (hkind : kind ∈ partsOf bodies)
    (hadded : body.partAdded = none) {text : String}
    (hdelta : ∀ kind', body.deltaOf kind' = if kind' = kind then some text else none) :
    PartsInv itemId outputIndex index next (Function.update buffer kind (buffer kind ++ text)) (bodies ++ [body]) := by
  have hparts := (partsOf_push hadded : partsOf (bodies ++ [body]) = _)
  refine ⟨?_, ?_, ?_, ?_, ?_, ?_, ?_⟩
  · rw [List.filterMap_append, List.filterMap_cons_none hadded, List.filterMap_nil, List.append_nil, hparts, h.added]
  · rw [hparts]; exact h.index
  · rw [hparts]; exact h.next
  · rw [hparts]; exact h.nodup
  · rw [hparts]; exact h.opened
  · intro kind'
    by_cases hsame : kind' = kind
    · subst hsame
      rw [List.filterMap_append, List.filterMap_cons_some (by rw [hdelta, if_pos rfl]), List.filterMap_nil,
        concat_concat, h.deltas, Function.update_self]
    · rw [deltas_push (by rw [hdelta, if_neg hsame]), h.deltas, Function.update_of_ne hsame]
  · intro kind' hne
    rw [hparts]
    by_cases hsame : kind' = kind
    · exact hsame ▸ hkind
    · rw [Function.update_of_ne hsame] at hne
      exact h.known kind' hne

end PartsInv

end

section
variable (uuid : Nat → String)

/-- The arguments of a call are what was announced of them, and nothing is announced of calls to come. -/
structure CallsInv (drawn : Nat) (calls : Nat → Option FunctionCallState) (bodies : List EventBody) : Prop where
  arguments : ∀ k state, calls k = some state →
    concat (bodies.filterMap (·.argumentsDelta state.itemId)) = state.arguments
  fresh : ∀ n, drawn ≤ n → bodies.filterMap (·.argumentsDelta ("fc_" ++ uuid n)) = []

variable {uuid} {drawn : Nat} {calls : Nat → Option FunctionCallState} {bodies : List EventBody} {body : EventBody}
  {k : Nat} {state state' : FunctionCallState}

theorem argumentsDelta_push {itemId : String} (hbody : body.argumentsDelta itemId = none) :
    (bodies ++ [body]).filterMap (·.argumentsDelta itemId) = bodies.filterMap (·.argumentsDelta itemId) := by
  rw [List.filterMap_append, List.filterMap_cons_none hbody, List.filterMap_nil, List.append_nil]

namespace CallsInv

theorem push (h : CallsInv uuid drawn calls bodies) (hbody : ∀ itemId, body.argumentsDelta itemId = none) :
    CallsInv uuid drawn calls (bodies ++ [body]) where
  arguments := fun k state hk => by rw [argumentsDelta_push (hbody _), h.arguments k state hk]
  fresh := fun n hn => by rw [argumentsDelta_push (hbody _), h.fresh n hn]

theorem draw (h : CallsInv uuid drawn calls bodies) {drawn' : Nat} (hle : drawn ≤ drawn') :
    CallsInv uuid drawn' calls bodies where
  arguments := h.arguments
  fresh := fun n hn => h.fresh n (hle.trans hn)

theorem set (h : CallsInv uuid drawn calls bodies)
    (hstate : concat (bodies.filterMap (·.argumentsDelta state.itemId)) = state.arguments) (k : Nat) :
    CallsInv uuid drawn (Function.update calls k (some state)) bodies where
  arguments := fun k' state' hk => by
    by_cases hsame : k' = k
    · subst hsame
      rw [Function.update_self] at hk
      cases hk
      exact hstate
    · rw [Function.update_of_ne hsame] at hk
      exact h.arguments k' state' hk
  fresh := h.fresh

theorem delta (h : CallsInv uuid drawn calls bodies) (hk : calls k = some state)
    (hdistinct : ∀ k' state', calls k' = some state' → state'.itemId = state.itemId → k' = k)
    (hdrawn : ∀ n, drawn ≤ n → state.itemId ≠ "fc_" ++ uuid n) {fragment : String}
    (hbody : ∀ itemId, body.argumentsDelta itemId = if state.itemId = itemId then some fragment else none) :
    CallsInv uuid drawn (Function.update calls k (some { state with arguments := state.arguments ++ fragment }))
      (bodies ++ [body]) where
  arguments := fun k' state' hk' => by
    by_cases hsame : k' = k
    · subst hsame
      rw [Function.update_self] at hk'
      cases hk'
      rw [List.filterMap_append, List.filterMap_cons_some (by rw [hbody, if_pos rfl]), List.filterMap_nil,
        concat_concat, h.arguments _ _ hk]
    · rw [Function.update_of_ne hsame] at hk'
      rw [argumentsDelta_push, h.arguments _ _ hk']
      rw [hbody, if_neg fun heq => hsame (hdistinct k' state' hk' heq.symm)]
  fresh := fun n hn => by
    rw [argumentsDelta_push, h.fresh n hn]
    rw [hbody, if_neg (hdrawn n hn)]

end CallsInv

end

/-! ### The translator -/

def Feed.bodies (s : Feed) : List EventBody := s.2.map (·.body)

section
variable (uuid : Nat → String)

structure FeedInv (s : Feed) : Prop where
  log : LogInv s.1.sequenceNumber s.1.firstChunkProcessed s.2
  items : ItemsInv uuid s.1.drawn s.1.orderedItems s.1.slotKey s.bodies
  parts : PartsInv s.1.currentMessageItemId s.1.messageOutputIndex s.1.partIndex s.1.nextContentIndex s.1.buffer s.bodies
  calls : CallsInv uuid s.1.drawn s.1.currentFunctionCallItems s.bodies
  message : s.1.currentMessageItemId.isSome = s.1.messageOutputIndex.isSome
  reasoning : s.1.reasoningEmitted = false → s.1.reasoningItemId = none

structure FilledInv (s : Feed) : Prop extends FeedInv uuid s where
  filled : Filled s.1.buffer s.bodies

variable {uuid} {s : Feed} {body : EventBody}

/-- An event that opens no item and no part, and extends no text and no arguments. -/
structure EventBody.Plain (b : EventBody) : Prop where
  phase : b.phase = .opening
  added : b.added = none
  partAdded : b.partAdded = none
  deltaOf : ∀ kind, b.deltaOf kind = none
  argumentsDelta : ∀ itemId, b.argumentsDelta itemId = none

theorem Feed.bodies_push (s : Feed) (body : EventBody) : (s.push body).bodies = s.bodies ++ [body] :=
  List.map_append

theorem FeedInv.log_started (h : FeedInv uuid s) (hstarted : s.1.firstChunkProcessed = true) :
    LogInv s.1.sequenceNumber true s.2 := hstarted ▸ h.log

theorem FeedInv.log_push (h : FeedInv uuid s) (hstarted : s.1.firstChunkProcessed = true) (hbody : body.phase = .opening) :
    LogInv (s.1.sequenceNumber + 1) s.1.firstChunkProcessed (s.2 ++ [⟨s.1.sequenceNumber, body⟩]) := by
  rw [hstarted]
  exact (h.log_started hstarted).push hbody

theorem FilledInv.filled_push (h : FilledInv uuid s) (hbody : body.partAdded = none) :
    Filled s.1.buffer (s.bodies ++ [body]) := by
  unfold Filled
  rw [partsOf_push hbody]
  exact h.filled

theorem FeedInv.push (h : FeedInv uuid s) (hstarted : s.1.firstChunkProcessed = true) (hbody : body.Plain) :
    FeedInv uuid (s.push body) where
  log := h.log_push hstarted hbody.phase
  items := by
    rw [Feed.bodies_push]
    exact h.items.push hbody.added
  parts := by
    rw [Feed.bodies_push]
    exact h.parts.push hbody.partAdded hbody.deltaOf
  calls := by
    rw [Feed.bodies_push]
    exact h.calls.push hbody.argumentsDelta
  message := h.message
  reasoning := h.reasoning

theorem FilledInv.push (h : FilledInv uuid s) (hstarted : s.1.firstChunkProcessed = true) (hbody : body.Plain) :
    FilledInv uuid (s.push body) where
  toFeedInv := h.toFeedInv.push hstarted hbody
  filled := by
    rw [Feed.bodies_push]
    exact h.filled_push hbody.partAdded

theorem plain_reasoning (itemId : String) (outputIndex : Nat) (text : String) (part : ReasoningSummaryPart) :
    EventBody.Plain (.reasoningTextDelta itemId outputIndex text) ∧
      EventBody.Plain (.reasoningSummaryTextDelta itemId outputIndex 0 text) ∧
      EventBody.Plain (.reasoningSummaryPartAdded itemId outputIndex 0 part) :=
  ⟨⟨rfl, rfl, rfl, fun _ => rfl, fun _ => rfl⟩, ⟨rfl, rfl, rfl, fun _ => rfl, fun _ => rfl⟩,
    ⟨rfl, rfl, rfl, fun _ => rfl, fun _ => rfl⟩⟩

variable {t : ResponsesStreamTranslator}

/-- A slot without an item gets one. What else there is of the state is to be in order already. -/
theorem FilledInv.add (huuid : Function.Injective uuid) (h : FilledInv uuid s)
    {slot : ItemSlot} {item : OutputItem} (hslot : s.1.slotKey slot = none)
    (hid : item.id = slot.idPrefix ++ uuid s.1.drawn) (hlog : LogInv t.sequenceNumber true s.2)
    (hstarted : t.firstChunkProcessed = true) (hordered : t.orderedItems = s.1.orderedItems ++ [slot])
    (hkey : t.slotKey = Function.update s.1.slotKey slot (some (s.1.orderedItems.length, item.id)))
    (hdrawn : s.1.drawn < t.drawn) (hbuffer : t.buffer = s.1.buffer)
    (hparts : PartsInv t.currentMessageItemId t.messageOutputIndex t.partIndex t.nextContentIndex s.1.buffer s.bodies)
    (hcalls : CallsInv uuid t.drawn t.currentFunctionCallItems s.bodies)
    (hmessage : t.currentMessageItemId.isSome = t.messageOutputIndex.isSome)
    (hreasoning : t.reasoningEmitted = false → t.reasoningItemId = none) :
    FilledInv uuid (Feed.push (t, s.2) (.outputItemAdded s.1.orderedItems.length item)) where
  log := by
    show LogInv (t.sequenceNumber + 1) t.firstChunkProcessed _
    rw [hstarted]
    exact hlog.push rfl
  items := by
    show ItemsInv uuid t.drawn t.orderedItems t.slotKey _
    rw [Feed.bodies_push, hordered, hkey, hid]
    exact h.items.add huuid hslot hdrawn (by rw [EventBody.added, hid])
  parts := by
    show PartsInv _ _ _ _ t.buffer _
    rw [Feed.bodies_push, hbuffer]
    exact hparts.push rfl fun _ => rfl
  calls := by
    rw [Feed.bodies_push]
    exact hcalls.push fun _ => rfl
  message := hmessage
  reasoning := hreasoning
  filled := by
    show Filled t.buffer _
    rw [Feed.bodies_push, hbuffer]
    exact h.filled_push rfl

theorem FilledInv.ensureReasoningItem (huuid : Function.Injective uuid) (h : FilledInv uuid s)
    (hstarted : s.1.firstChunkProcessed = true) :
    FilledInv uuid (s.ensureReasoningItem uuid) ∧ (s.ensureReasoningItem uuid).1.firstChunkProcessed = true := by
  unfold Feed.ensureReasoningItem
  split
  · exact ⟨h, hstarted⟩
  · rename_i hemitted
    have hnone := h.reasoning (Bool.eq_false_iff.2 hemitted)
    have hslot : s.1.slotKey .reasoning = none := by
      rw [ResponsesStreamTranslator.slotKey, hnone]
      cases s.1.reasoningOutputIndex <;> rfl
    refine ⟨FilledInv.push (FilledInv.add huuid h hslot rfl (h.log_started hstarted) hstarted rfl ?_
      (Nat.lt_succ_self _) rfl h.parts (h.calls.draw (Nat.le_succ _)) h.message fun hfalse => by cases hfalse) hstarted
      (plain_reasoning _ _ "" _).2.2, hstarted⟩
    funext slot
    cases slot <;> rfl

theorem FilledInv.handleReasoning (huuid : Function.Injective uuid) (h : FilledInv uuid s)
    (hstarted : s.1.firstChunkProcessed = true) (text : String) :
    FilledInv uuid (s.handleReasoning uuid text) ∧ (s.handleReasoning uuid text).1.firstChunkProcessed = true := by
  obtain ⟨hitem, hstarted⟩ := h.ensureReasoningItem huuid hstarted
  have hbuffer : FilledInv uuid
      ({ (s.ensureReasoningItem uuid).1 with
        reasoningBuffer := (s.ensureReasoningItem uuid).1.reasoningBuffer ++ text }, (s.ensureReasoningItem uuid).2) :=
    ⟨⟨hitem.log, hitem.items, hitem.parts, hitem.calls, hitem.message, hitem.reasoning⟩, hitem.filled⟩
  exact ⟨(hbuffer.push hstarted (plain_reasoning _ _ _ ⟨none, none, []⟩).1).push hstarted
    (plain_reasoning _ _ _ ⟨none, none, []⟩).2.1, hstarted⟩

theorem FilledInv.ensureMessageItem (huuid : Function.Injective uuid) (h : FilledInv uuid s)
    (hstarted : s.1.firstChunkProcessed = true) :
    FilledInv uuid (s.ensureMessageItem uuid) ∧ (s.ensureMessageItem uuid).1.firstChunkProcessed = true ∧
      (s.ensureMessageItem uuid).1.currentMessageItemId.isSome = true := by
  unfold Feed.ensureMessageItem
  split
  · rename_i id hid
    exact ⟨h, hstarted, by rw [hid]; rfl⟩
  · rename_i hnone
    have hparts := h.parts
    rw [hnone] at hparts
    have hslot : s.1.slotKey .message = none := by
      rw [ResponsesStreamTranslator.slotKey, hnone]
      cases s.1.messageOutputIndex <;> rfl
    refine ⟨FilledInv.add huuid h hslot rfl (h.log_started hstarted) hstarted rfl ?_ (Nat.lt_succ_self _) rfl
      (hparts.setItem _ _) (h.calls.draw (Nat.le_succ _)) rfl h.reasoning, hstarted, rfl⟩
    funext slot
    cases slot <;> rfl

section
variable {t : ResponsesStreamTranslator} {kind : PartKind} {contentIndex : Nat} {text : String}

theorem partIndex_setPartIndex :
    (t.setPartIndex contentIndex kind).partIndex = Function.update t.partIndex kind (some contentIndex) := by
  funext kind'
  cases kind <;> cases kind' <;> rfl

theorem buffer_pushBuffer : (t.pushBuffer text kind).buffer = Function.update t.buffer kind (t.buffer kind ++ text) := by
  funext kind'
  cases kind <;> cases kind' <;> rfl

theorem deltaOf_delta (kind : PartKind) (itemId : String) (outputIndex contentIndex : Nat) (text : String)
    (kind' : PartKind) :
    (kind.delta itemId outputIndex contentIndex text).deltaOf kind' = if kind' = kind then some text else none := by
  cases kind <;> rfl

end

/-- A part that is not there yet is opened; it is empty until the fragment is in. -/
theorem FilledInv.ensurePart (h : FilledInv uuid s) (hstarted : s.1.firstChunkProcessed = true)
    (hitem : s.1.currentMessageItemId.isSome = true) (kind : PartKind) :
    FeedInv uuid (s.ensurePart kind) ∧ (s.ensurePart kind).1.firstChunkProcessed = true ∧
      kind ∈ partsOf (s.ensurePart kind).bodies ∧
      ∀ kind' ∈ partsOf (s.ensurePart kind).bodies, kind' ≠ kind → (s.ensurePart kind).1.buffer kind' ≠ "" := by
  unfold Feed.ensurePart
  split
  · rename_i contentIndex hindex
    refine ⟨h.toFeedInv, hstarted, ?_, fun kind' hkind' _ => h.filled kind' hkind'⟩
    rw [← List.isSome_idxOf?, ← h.parts.index kind, hindex]
    rfl
  · rename_i hindex
    -- the event, and the state that has the index of the part
    set added : EventBody := .contentPartAdded (s.1.currentMessageItemId.getD "") (s.1.messageOutputIndex.getD 0)
      s.1.nextContentIndex (kind.part "")
    have hpart : added.partAdded = some ((s.1.currentMessageItemId.getD "", s.1.messageOutputIndex.getD 0,
        s.1.nextContentIndex), kind) := by
      cases kind <;> rfl
    have hpushed : (s.2 ++ [ResponsesSseEvent.mk s.1.sequenceNumber added]).map (·.body) = s.bodies ++ [added] :=
      List.map_append
    have hlog := h.log_push hstarted (rfl : added.phase = _)
    have hitems : ItemsInv uuid s.1.drawn s.1.orderedItems s.1.slotKey (s.bodies ++ [added]) := h.items.push rfl
    have hparts := h.parts.add hindex ⟨hitem, h.message ▸ hitem⟩ hpart fun _ => rfl
    have hcalls : CallsInv uuid s.1.drawn s.1.currentFunctionCallItems (s.bodies ++ [added]) :=
      h.calls.push fun _ => rfl
    have hmem : partsOf (s.bodies ++ [added]) = partsOf s.bodies ++ [kind] := partsOf_add hpart
    rw [← hpushed] at hitems hparts hcalls hmem
    rw [← partIndex_setPartIndex] at hparts
    refine ⟨?_, by cases kind <;> exact hstarted, ?_, ?_⟩
    · cases kind <;> exact ⟨hlog, hitems, hparts, hcalls, h.message, h.reasoning⟩
    · show kind ∈ partsOf _
      rw [Feed.bodies]
      dsimp only [Feed.push]
      rw [hmem]
      exact List.mem_append_right _ (List.mem_singleton_self kind)
    · intro kind' hkind' hne
      have hold : kind' ∈ partsOf s.bodies := by
        rw [Feed.bodies] at hkind'
        dsimp only [Feed.push] at hkind'
        rw [hmem] at hkind'
        exact (List.mem_append.1 hkind').resolve_right fun hmem => hne (List.mem_singleton.1 hmem)
      have := h.filled kind' hold
      cases kind <;> exact this

theorem FilledInv.handlePart (huuid : Function.Injective uuid) (h : FilledInv uuid s)
    (hstarted : s.1.firstChunkProcessed = true) (kind : PartKind) {text : String} (htext : text ≠ "") :
    FilledInv uuid (s.handlePart uuid kind text) ∧ (s.handlePart uuid kind text).1.firstChunkProcessed = true := by
  obtain ⟨hmessage, hstarted, hitem⟩ := h.ensureMessageItem huuid hstarted
  obtain ⟨hinv, hstarted, hkind, hothers⟩ := hmessage.ensurePart hstarted hitem kind
  unfold Feed.handlePart
  generalize (s.ensureMessageItem uuid).ensurePart kind = s' at hinv hstarted hkind hothers
  dsimp only
  set delta : EventBody := kind.delta ((s'.1.pushBuffer text kind).currentMessageItemId.getD "")
    ((s'.1.pushBuffer text kind).messageOutputIndex.getD 0) (((s'.1.pushBuffer text kind).partIndex kind).getD 0) text
  have hpart : delta.partAdded = none := by cases kind <;> rfl
  have hpushed : (s'.2 ++ [ResponsesSseEvent.mk s'.1.sequenceNumber delta]).map (·.body) = s'.bodies ++ [delta] :=
    List.map_append
  have hphase : delta.phase = .opening := by cases kind <;> rfl
  have hlog := hinv.log_push hstarted hphase
  have hitems : ItemsInv uuid s'.1.drawn s'.1.orderedItems s'.1.slotKey (s'.bodies ++ [delta]) :=
    hinv.items.push (by cases kind <;> rfl)
  have hparts := hinv.parts.delta hkind hpart (deltaOf_delta kind _ _ _ text)
  have hcalls : CallsInv uuid s'.1.drawn s'.1.currentFunctionCallItems (s'.bodies ++ [delta]) :=
    hinv.calls.push (by cases kind <;> exact fun _ => rfl)
  have hfilled : Filled (Function.update s'.1.buffer kind (s'.1.buffer kind ++ text)) (s'.bodies ++ [delta]) := by
    intro kind' hkind'
    rw [partsOf_push hpart] at hkind'
    by_cases hsame : kind' = kind
    · subst hsame
      rw [Function.update_self]
      exact fun hempty => htext (String.append_eq_empty_iff.1 hempty).2
    · rw [Function.update_of_ne hsame]
      exact hothers kind' hkind' hsame
  rw [← hpushed] at hitems hparts hcalls hfilled
  rw [← buffer_pushBuffer] at hparts hfilled
  refine ⟨?_, by cases kind <;> exact hstarted⟩
  cases kind <;> exact ⟨⟨hlog, hitems, hparts, hcalls, hinv.message, hinv.reasoning⟩, hfilled⟩

variable {state : FunctionCallState}

theorem slotKey_functionCall {k : Nat} (hk : t.currentFunctionCallItems k = some state) :
    t.slotKey (.functionCall k) = some (state.outputIndex, state.itemId) := by
  rw [ResponsesStreamTranslator.slotKey, hk]
  rfl

theorem slotKey_update {k : Nat} {state' : FunctionCallState}
    (hk : t.currentFunctionCallItems k = some state) (hindex : state'.outputIndex = state.outputIndex)
    (hid : state'.itemId = state.itemId) :
    ResponsesStreamTranslator.slotKey
        { t with currentFunctionCallItems := Function.update t.currentFunctionCallItems k (some state') } = t.slotKey := by
  funext slot
  cases slot with
  | functionCall k' =>
    by_cases hsame : k' = k
    · subst hsame
      simp [ResponsesStreamTranslator.slotKey, hk, hindex, hid]
    · simp [ResponsesStreamTranslator.slotKey, Function.update_of_ne hsame]
  | _ => rfl

theorem FilledInv.setCall (h : FilledInv uuid s) {k : Nat} {state' : FunctionCallState}
    (hk : s.1.currentFunctionCallItems k = some state) (hindex : state'.outputIndex = state.outputIndex)
    (hid : state'.itemId = state.itemId) (harguments : state'.arguments = state.arguments) :
    FilledInv uuid ({ s.1 with
      currentFunctionCallItems := Function.update s.1.currentFunctionCallItems k (some state') }, s.2) := by
  refine ⟨⟨h.log, ?_, h.parts, h.calls.set ?_ k, h.message, h.reasoning⟩, h.filled⟩
  · dsimp only
    rw [slotKey_update hk hindex hid]
    exact h.items
  · rw [hid, harguments]
    exact h.calls.arguments k state hk

theorem FilledInv.ensureFunctionCall (huuid : Function.Injective uuid) (h : FilledInv uuid s)
    (hstarted : s.1.firstChunkProcessed = true) (index : Nat) (id name : Option String) :
    FilledInv uuid (s.ensureFunctionCall uuid index id name) ∧
      (s.ensureFunctionCall uuid index id name).1.firstChunkProcessed = true := by
  unfold Feed.ensureFunctionCall
  split
  · rename_i hnone
    have hslot : s.1.slotKey (.functionCall index) = none := by
      rw [ResponsesStreamTranslator.slotKey, hnone]
      rfl
    have hdrawn : s.1.drawn < s.1.drawn + (if id.isSome then 1 else 2) := by split <;> omega
    refine ⟨FilledInv.add huuid h hslot rfl (h.log_started hstarted) hstarted rfl ?_ hdrawn rfl h.parts
      ((h.calls.set ?_ index).draw hdrawn.le) h.message h.reasoning, hstarted⟩
    · funext slot
      cases slot with
      | functionCall k =>
        by_cases hsame : k = index
        · subst hsame
          simp [ResponsesStreamTranslator.slotKey]
          rfl
        · rw [Function.update_of_ne (by simpa using hsame)]
          simp [ResponsesStreamTranslator.slotKey, Function.update_of_ne hsame]
      | _ => rfl
    · rw [h.calls.fresh _ (Nat.le_refl _)]
      rfl
  · rename_i state hk
    split
    · exact ⟨h.setCall hk rfl rfl rfl, hstarted⟩
    · exact ⟨h, hstarted⟩

theorem FilledInv.pushArguments (huuid : Function.Injective uuid) (h : FilledInv uuid s)
    (hstarted : s.1.firstChunkProcessed = true) (index : Nat) (fragment : String) :
    FilledInv uuid (s.pushArguments index fragment) ∧
      (s.pushArguments index fragment).1.firstChunkProcessed = true := by
  unfold Feed.pushArguments
  split
  · rename_i state hk
    have hdistinct : ∀ k' state', s.1.currentFunctionCallItems k' = some state' → state'.itemId = state.itemId →
        k' = index := by
      intro k' state' hk' hid
      have hkey' := slotKey_functionCall hk'
      rw [hid] at hkey'
      exact ItemSlot.functionCall.inj (h.items.distinct _ _ _ _ _ hkey' (slotKey_functionCall hk))
    have hdrawn : ∀ n, s.1.drawn ≤ n → state.itemId ≠ "fc_" ++ uuid n := by
      intro n hn hid
      obtain ⟨m, hm, hdrawn⟩ := h.items.ids _ _ _ (slotKey_functionCall hk)
      have := huuid ((String.append_right_inj "fc_").1 (hid.symm.trans hdrawn))
      omega
    set delta : EventBody := .functionCallArgumentsDelta state.itemId state.outputIndex fragment
    have hpushed : (s.2 ++ [ResponsesSseEvent.mk s.1.sequenceNumber delta]).map (·.body) = s.bodies ++ [delta] :=
      List.map_append
    have hlog := h.log_push hstarted (rfl : delta.phase = _)
    have hitems : ItemsInv uuid s.1.drawn s.1.orderedItems s.1.slotKey (s.bodies ++ [delta]) := h.items.push rfl
    have hparts := h.parts.push (rfl : delta.partAdded = none) fun _ => rfl
    have hcalls := h.calls.delta hk hdistinct hdrawn fun _ => (rfl : delta.argumentsDelta _ = _)
    have hfilled := h.filled_push (rfl : delta.partAdded = none)
    rw [← hpushed] at hitems hparts hcalls hfilled
    have hkey : ResponsesStreamTranslator.slotKey { s.1 with
        currentFunctionCallItems := Function.update s.1.currentFunctionCallItems index
          (some { state with arguments := state.arguments ++ fragment }) } = s.1.slotKey := slotKey_update hk rfl rfl
    rw [← hkey] at hitems
    exact ⟨⟨⟨hlog, hitems, hparts, hcalls, h.message, h.reasoning⟩, hfilled⟩, hstarted⟩
  · exact ⟨h, hstarted⟩

/-! ### Chunks -/

def Running (uuid : Nat → String) (s : Feed) : Prop := FilledInv uuid s ∧ s.1.firstChunkProcessed = true

section
variable (huuid : Function.Injective uuid)
include huuid

theorem Running.handlePart (h : Running uuid s) (kind : PartKind) {text : Option String} {value : String}
    (hvalue : Feed.nonempty text = some value) : Running uuid (s.handlePart uuid kind value) := by
  have hne := (Option.filter_eq_some_iff.1 hvalue).2
  exact h.1.handlePart huuid h.2 kind (of_decide_eq_true hne)

theorem Running.handleToolCall (h : Running uuid s) (toolCall : Json) : Running uuid (s.handleToolCall uuid toolCall) := by
  unfold Feed.handleToolCall
  have hcall := h.1.ensureFunctionCall huuid h.2
  dsimp only
  split
  · exact (hcall _ _ _).1.pushArguments huuid (hcall _ _ _).2 _ _
  · exact hcall _ _ _

theorem Running.feedContentPart (h : Running uuid s) (part : Json) : Running uuid (s.feedContentPart uuid part) := by
  unfold Feed.feedContentPart
  split
  · split
    · rename_i hvalue
      exact h.handlePart huuid .refusal hvalue
    · exact h
  · split
    · rename_i hvalue
      exact h.handlePart huuid .text hvalue
    · exact h

omit huuid in
theorem Running.foldl {step : Feed → Json → Feed} (hstep : ∀ s, Running uuid s → ∀ v, Running uuid (step s v))
    (h : Running uuid s) (values : List Json) : Running uuid (values.foldl step s) := by
  induction values generalizing s with
  | nil => exact h
  | cons v values ih => exact ih (hstep s h v)

theorem Running.feedContent (h : Running uuid s) (content : Option Json) : Running uuid (s.feedContent uuid content) := by
  unfold Feed.feedContent
  split
  · split
    · exact h
    · rename_i hne
      exact h.1.handlePart huuid h.2 .text hne
  · exact Running.foldl (fun s hs => hs.feedContentPart huuid) h _
  · exact h

theorem Running.feedReasoning (h : Running uuid s) (delta : Json) : Running uuid (s.feedReasoning uuid delta) := by
  unfold Feed.feedReasoning
  split
  · exact h.1.handleReasoning huuid h.2 _
  · exact h

theorem Running.feedRefusal (h : Running uuid s) (delta : Json) : Running uuid (s.feedRefusal uuid delta) := by
  unfold Feed.feedRefusal
  split
  · rename_i hvalue
    exact h.handlePart huuid .refusal hvalue
  · exact h

theorem Running.feedToolCalls (h : Running uuid s) (delta : Json) : Running uuid (s.feedToolCalls uuid delta) := by
  unfold Feed.feedToolCalls
  split
  · exact Running.foldl (fun s hs => hs.handleToolCall huuid) h _
  · exact h

theorem Running.feedDelta (h : Running uuid s) (delta : Json) : Running uuid (s.feedDelta uuid delta) :=
  (((h.feedReasoning huuid delta).feedContent huuid (delta.get "content")).feedRefusal huuid delta).feedToolCalls
    huuid delta

omit huuid in
theorem FilledInv.start (h : FilledInv uuid s) : Running uuid s.start := by
  unfold Feed.start
  split
  · rename_i hstarted
    exact ⟨h, hstarted⟩
  · rename_i hnot
    have hlog : LogInv s.1.sequenceNumber false s.2 := Bool.eq_false_iff.2 hnot ▸ h.log
    dsimp only
    set created : EventBody :=
      .created (ResponsesStreamTranslator.baseResponse { s.1 with firstChunkProcessed := true } "in_progress")
    set inProgress : EventBody :=
      .inProgress (ResponsesStreamTranslator.baseResponse { s.1 with firstChunkProcessed := true } "in_progress")
    have hpushed : (s.2 ++ [ResponsesSseEvent.mk s.1.sequenceNumber created] ++
        [ResponsesSseEvent.mk (s.1.sequenceNumber + 1) inProgress]).map (·.body) =
        s.bodies ++ [created] ++ [inProgress] := by
      rw [List.map_append, List.map_append]
      rfl
    have hitems : ItemsInv uuid s.1.drawn s.1.orderedItems s.1.slotKey (s.bodies ++ [created] ++ [inProgress]) :=
      (h.items.push rfl).push rfl
    have hparts := (h.parts.push (rfl : created.partAdded = none) fun _ => rfl).push
      (rfl : inProgress.partAdded = none) fun _ => rfl
    have hcalls : CallsInv uuid s.1.drawn s.1.currentFunctionCallItems (s.bodies ++ [created] ++ [inProgress]) :=
      (h.calls.push fun _ => rfl).push fun _ => rfl
    have hfilled : Filled s.1.buffer (s.bodies ++ [created] ++ [inProgress]) := by
      intro kind hkind
      rw [partsOf_push rfl, partsOf_push rfl] at hkind
      exact h.filled kind hkind
    rw [← hpushed] at hitems hparts hcalls hfilled
    exact ⟨⟨⟨hlog.start _ _, hitems, hparts, hcalls, h.message, h.reasoning⟩, hfilled⟩, rfl⟩

omit huuid in
theorem FilledInv.noteFinishReason (h : FilledInv uuid s) (choice : Json) :
    FilledInv uuid (Feed.noteFinishReason s.1 choice, s.2) := by
  unfold Feed.noteFinishReason
  split
  · exact ⟨⟨h.log, h.items, h.parts, h.calls, h.message, h.reasoning⟩, h.filled⟩
  · exact h

theorem FilledInv.feedChunk (h : FilledInv uuid s) (chunk : Json) : FilledInv uuid (s.feedChunk uuid chunk) := by
  unfold Feed.feedChunk
  split
  · exact h
  · rename_i choice _
    have hstart := (h.noteFinishReason choice).start
    dsimp only
    split
    · exact (hstart.feedDelta huuid _).1
    · exact hstart.1

omit huuid in
theorem FilledInv.new (createdTs : Int) (model : String) (instructions : Option String) :
    FilledInv uuid (.new uuid createdTs model instructions, []) := by
  refine ⟨⟨⟨rfl, rfl, rfl⟩, ⟨?_, ?_, ?_, rfl⟩, ⟨rfl, ?_, rfl, List.nodup_nil, ?_, ?_, ?_⟩, ⟨?_, fun _ _ => rfl⟩, rfl,
    fun _ => rfl⟩, ?_⟩
  · intro i slot
    cases slot <;> simp [ResponsesStreamTranslator.new, ResponsesStreamTranslator.slotKey]
  · intro slot i id hkey
    cases slot <;> cases hkey
  · intro slot slot' i i' id hkey
    cases slot <;> cases hkey
  · intro kind
    cases kind <;> rfl
  · exact fun hne => absurd rfl hne
  · intro kind
    cases kind <;> rfl
  · intro kind hne
    cases kind <;> exact absurd rfl hne
  · intro k state hk
    cases hk
  · exact fun kind hkind => absurd hkind List.not_mem_nil

theorem filledInv_foldl (createdTs : Int) (model : String) (instructions : Option String) (chunks : List Json) :
    FilledInv uuid (chunks.foldl (Feed.feedChunk uuid) (.new uuid createdTs model instructions, [])) := by
  have hrun (s : Feed) (h : FilledInv uuid s) : FilledInv uuid (chunks.foldl (Feed.feedChunk uuid) s) := by
    induction chunks generalizing s with
    | nil => exact h
    | cons chunk chunks ih => exact ih _ (h.feedChunk huuid chunk)
  exact hrun _ (FilledInv.new createdTs model instructions)

end

end

end ObeyGateway.Responses
