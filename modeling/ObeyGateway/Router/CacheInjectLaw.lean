import ObeyGateway.Router.CacheInject

/-!
# The law of cache breakpoints

Markers are counted wherever one can be: at every tool definition, at every content block and among the
extension fields of every message. What is placed is the list of `Marker`s that the code keeps, and that
list says where the markers are (`Placed`).
-/

namespace ObeyGateway.Router.CacheInject

open Models
open Json (NumberText)
open Compression (rposition rposition_some)

def blocksOf : Json → List Json
  | .array blocks => blocks
  | _ => []

def messageMarkers (message : Message) : Nat :=
  (blocksOf message.content).countP hasMarker + if (Assoc.get message.extra cacheControlKey).isSome then 1 else 0

def requestMarkers (request : OpenAIRequest) : Nat :=
  (tools request).countP hasMarker + (request.messages.map messageMarkers).sum

/-- The same fields; their order is that of the keys. -/
def SameMap (map map' : Json.Map) : Prop := ∀ k, Assoc.get map k = Assoc.get map' k

inductive SameBlock : Json → Json → Prop
  | refl (block : Json) : SameBlock block block
  | map {map map' : Json.Map} : SameMap map map' → SameBlock (.object map) (.object map')

inductive SameItems : Json → Json → Prop
  | refl (value : Json) : SameItems value value
  | array {items items' : List Json} : List.Forall₂ SameBlock items items' → SameItems (.array items) (.array items')

/-- The same content, or the single text block that the text has been wrapped in. -/
inductive SameContent : Json → Json → Prop
  | same {content content' : Json} : SameItems content content' → SameContent content content'
  | unwrap {block : Json} {text : String} :
      SameBlock block (.object [("text", .string text), ("type", .string "text")]) →
      SameContent (.array [block]) (.string text)

structure SameMessage (message message' : Message) : Prop where
  role : message.role = message'.role
  content : SameContent message.content message'.content
  extra : SameMap message.extra message'.extra

structure SameRequest (request request' : OpenAIRequest) : Prop where
  model : request.model = request'.model
  stream : request.stream = request'.stream
  temperature : request.temperature = request'.temperature
  maxTokens : request.maxTokens = request'.maxTokens
  extra : ∀ k, k ≠ "tools" → Assoc.get request.extra k = Assoc.get request'.extra k
  tools : Option.Rel SameItems (Assoc.get request.extra "tools") (Assoc.get request'.extra "tools")
  length : request.messages.length = request'.messages.length
  messages : ∀ {i : Nat} {m m' : Message}, request.messages[i]? = some m → request'.messages[i]? = some m' → SameMessage m m'

/-- Few markers, each behind enough tokens, none on a user message, and else what stripping alone leaves. -/
structure Injected (numbers : NumberText) (cfg : CacheInjectorConfig) (request r : OpenAIRequest) : Prop where
  budget : requestMarkers r ≤ cfg.maxBreakpoints.toNat - 1
  tool : ∀ {i : Nat} {t : Json}, (tools r)[i]? = some t → hasMarker t = true →
    i + 1 = (tools r).length ∧ 11 * cfg.cacheMinTokens.toNat ≤ 10 * toolsTokens numbers (stripClientMarkers request)
  message : ∀ {i : Nat} {m : Message}, r.messages[i]? = some m → 0 < messageMarkers m →
    m.role ≠ "user" ∧ ∃ e, (prefixInclusive numbers (stripClientMarkers request))[i]? = some e ∧
      11 * cfg.cacheMinTokens.toNat ≤ 10 * e
  erased : SameRequest (stripClientMarkers r) (stripClientMarkers request)

section
variable {a b c : Json}

theorem SameBlock.trans (h : SameBlock a b) (h' : SameBlock b c) : SameBlock a c := by
  cases h with
  | refl => exact h'
  | map h =>
    cases h' with
    | refl => exact .map h
    | map h' => exact .map fun k => (h k).trans (h' k)

theorem forall₂_refl (items : List Json) : List.Forall₂ SameBlock items items :=
  List.forall₂_same.2 fun block _ => .refl block

theorem forall₂_trans {xs ys zs : List Json} (h : List.Forall₂ SameBlock xs ys) (h' : List.Forall₂ SameBlock ys zs) :
    List.Forall₂ SameBlock xs zs := by
  induction h generalizing zs with
  | nil => exact h'
  | cons hab _ ih =>
    cases h' with
    | cons hbc h' => exact .cons (hab.trans hbc) (ih h')

theorem SameItems.trans (h : SameItems a b) (h' : SameItems b c) : SameItems a c := by
  cases h with
  | refl => exact h'
  | array h =>
    cases h' with
    | refl => exact .array h
    | array h' => exact .array (forall₂_trans h h')

theorem SameContent.trans (h : SameContent a b) (h' : SameContent b c) : SameContent a c := by
  cases h with
  | unwrap h =>
    cases h' with
    | same h' =>
      cases h'
      exact .unwrap h
  | same h =>
    cases h' with
    | same h' => exact .same (h.trans h')
    | unwrap h' =>
      cases h with
      | refl => exact .unwrap h'
      | array h =>
        cases h with
        | cons hab hnil =>
          cases hnil
          exact .unwrap (hab.trans h')

end

theorem SameMessage.refl (m : Message) : SameMessage m m := ⟨rfl, .same (.refl _), fun _ => rfl⟩

theorem SameMessage.trans {m m' m'' : Message} (h : SameMessage m m') (h' : SameMessage m' m'') : SameMessage m m'' :=
  ⟨h.role.trans h'.role, h.content.trans h'.content, fun k => (h.extra k).trans (h'.extra k)⟩

theorem rel_refl (o : Option Json) : Option.Rel SameItems o o := by
  cases o with
  | none => exact .none
  | some v => exact .some (.refl v)

theorem rel_trans {o o' o'' : Option Json} (h : Option.Rel SameItems o o') (h' : Option.Rel SameItems o' o'') :
    Option.Rel SameItems o o'' := by
  cases h with
  | none => exact h'
  | some h =>
    cases h' with
    | some h' => exact .some (h.trans h')

theorem SameRequest.trans {r r' r'' : OpenAIRequest} (h : SameRequest r r') (h' : SameRequest r' r'') :
    SameRequest r r'' where
  model := h.model.trans h'.model
  stream := h.stream.trans h'.stream
  temperature := h.temperature.trans h'.temperature
  maxTokens := h.maxTokens.trans h'.maxTokens
  extra k hk := (h.extra k hk).trans (h'.extra k hk)
  tools := rel_trans h.tools h'.tools
  length := h.length.trans h'.length
  messages := by
    intro i m m'' hm hm''
    have hlt : i < r'.messages.length := h.length ▸ (List.getElem?_eq_some_iff.1 hm).1
    have hm' := List.getElem?_eq_getElem hlt
    exact (h.messages hm hm').trans (h'.messages hm' hm'')

section
variable {v v' : Json}

theorem get_unmarkValue : (unmarkValue v).get cacheControlKey = none := by
  cases v with
  | object map => exact Assoc.get_erase_self
  | _ => rfl

@[simp] theorem hasMarker_unmarkValue : hasMarker (unmarkValue v) = false := by
  rw [hasMarker, get_unmarkValue]
  rfl

theorem unmarkValue_eq_self (h : hasMarker v = false) : unmarkValue v = v := by
  cases v with
  | object map =>
    rw [hasMarker, Option.isSome_eq_false_iff, Option.isNone_iff_eq_none] at h
    exact congrArg Json.object (Assoc.erase_eq_self h)
  | _ => rfl

theorem sameMap_erase_insert (map : Json.Map) :
    SameMap (Assoc.erase (Assoc.insert map cacheControlKey ephemeralMarker) cacheControlKey)
      (Assoc.erase map cacheControlKey) := by
  intro k
  by_cases hk : k = cacheControlKey
  · rw [hk, Assoc.get_erase_self, Assoc.get_erase_self]
  · rw [Assoc.get_erase_of_ne hk, Assoc.get_erase_of_ne hk, Assoc.get_insert_of_ne hk]

theorem hasMarker_markValue (h : markValue v = some v') : hasMarker v' = true := by
  cases v with
  | object map =>
    cases h
    simp [hasMarker, Json.get, Assoc.get_insert_self]
  | _ => cases h

theorem sameBlock_unmark_mark (h : markValue v = some v') : SameBlock (unmarkValue v') (unmarkValue v) := by
  cases v with
  | object map =>
    cases h
    exact .map (sameMap_erase_insert map)
  | _ => cases h

end

section
variable {blocks blocks' : List Json}

theorem countP_map_unmarkValue : (blocks.map unmarkValue).countP hasMarker = 0 := by
  rw [List.countP_eq_zero]
  intro b hb
  obtain ⟨v, -, rfl⟩ := List.mem_map.1 hb
  simp

theorem markLastBlock_spec (h : markLastBlock blocks = some blocks') (hno : blocks.countP hasMarker = 0) :
    blocks'.countP hasMarker = 1 ∧ List.Forall₂ SameBlock (blocks'.map unmarkValue) (blocks.map unmarkValue) := by
  induction blocks generalizing blocks' with
  | nil => cases h
  | cons block blocks ih =>
    rw [List.countP_cons] at hno
    have hrest : blocks.countP hasMarker = 0 := by omega
    have hblock : hasMarker block = false := by
      by_contra hb
      simp [Bool.not_eq_false] at hb
      simp [hb] at hno
    rw [markLastBlock] at h
    split at h
    · rename_i rest hmark
      cases h
      obtain ⟨hcount, hsame⟩ := ih hmark hrest
      exact ⟨by simp [hblock, hcount], .cons (.refl _) hsame⟩
    · obtain ⟨b, hb, rfl⟩ := Option.map_eq_some_iff.1 h
      refine ⟨?_, .cons (sameBlock_unmark_mark hb) (forall₂_refl _)⟩
      rw [List.countP_cons, if_pos (hasMarker_markValue hb), hrest]

theorem length_modifyLast (f : Json → Json) : (modifyLast f blocks).length = blocks.length := by
  induction blocks with
  | nil => rfl
  | cons b blocks ih =>
    cases blocks with
    | nil => rfl
    | cons b' blocks => exact congrArg (· + 1) ih

theorem getElem?_modifyLast (f : Json → Json) (i : Nat) :
    (modifyLast f blocks)[i]? = if i + 1 = blocks.length then blocks[i]?.map f else blocks[i]? := by
  induction blocks generalizing i with
  | nil => simp [modifyLast]
  | cons b blocks ih =>
    cases blocks with
    | nil => cases i <;> simp [modifyLast]
    | cons b' blocks =>
      cases i with
      | zero => simp [modifyLast]
      | succ i => simpa [modifyLast] using ih i

theorem forall₂_modifyLast {f : Json → Json} (hf : ∀ v, SameBlock (unmarkValue (f v)) (unmarkValue v)) :
    List.Forall₂ SameBlock ((modifyLast f blocks).map unmarkValue) (blocks.map unmarkValue) := by
  induction blocks with
  | nil => exact .nil
  | cons b blocks ih =>
    cases blocks with
    | nil => exact .cons (hf b) .nil
    | cons b' blocks => exact .cons (.refl _) ih

end

/-! ### Marks on a message -/

section
variable {m : Message}

theorem messageMarkers_unmarkMessage : messageMarkers (unmarkMessage m) = 0 := by
  have hextra : (Assoc.get (unmarkMessage m).extra cacheControlKey).isSome = false := by
    simp [unmarkMessage, withParts]
  have hblocks : (blocksOf (unmarkMessage m).content).countP hasMarker = 0 := by
    show (blocksOf (unmarkContent m.content)).countP hasMarker = 0
    cases m.content with
    | array blocks => exact countP_map_unmarkValue
    | _ => rfl
  rw [messageMarkers, hextra, hblocks]
  rfl

theorem messageHasMarker_iff : messageHasMarker m = true ↔ 0 < messageMarkers m := by
  unfold messageHasMarker messageMarkers
  split
  · simp
  · rw [Nat.add_zero, List.countP_pos_iff]
    cases m.content with
    | array blocks => simp [blocksOf]
    | _ => simp [blocksOf]

theorem markMessage_content {content : Json} (h : markContent m.content = some content) :
    (markMessage m).role = m.role ∧ (markMessage m).content = content ∧ (markMessage m).extra = m.extra := by
  unfold markMessage
  split
  · rename_i content' h'
    cases h.symm.trans h'
    exact ⟨rfl, rfl, rfl⟩
  · rename_i h'
    cases h.symm.trans h'

theorem markMessage_extra (h : markContent m.content = none) :
    (markMessage m).role = m.role ∧ (markMessage m).content = m.content ∧
      (markMessage m).extra = Assoc.insert m.extra cacheControlKey ephemeralMarker := by
  unfold markMessage
  split
  · rename_i content' h'
    cases h.symm.trans h'
  · exact ⟨rfl, rfl, rfl⟩

theorem role_markMessage : (markMessage m).role = m.role := by
  cases h : markContent m.content with
  | none => exact (markMessage_extra h).1
  | some content => exact (markMessage_content h).1

theorem messageMarkers_markMessage (h : messageMarkers m = 0) : messageMarkers (markMessage m) = 1 := by
  obtain ⟨hblocks, hextra⟩ := Nat.add_eq_zero_iff.1 h
  rcases hm : markContent m.content with _ | content
  · obtain ⟨-, hc, he⟩ := markMessage_extra hm
    rw [messageMarkers, hc, he, hblocks, Assoc.get_insert_self]
    rfl
  obtain ⟨-, hc, he⟩ := markMessage_content hm
  rw [messageMarkers, hc, he, hextra]
  cases hcontent : m.content with
  | string text =>
    rw [hcontent] at hm
    cases hm
    rfl
  | array blocks =>
    rw [hcontent] at hm hblocks
    obtain ⟨blocks', hb, rfl⟩ := Option.map_eq_some_iff.1 hm
    exact (markLastBlock_spec hb hblocks).1
  | _ =>
    rw [hcontent] at hm
    cases hm

/-- Erased, a message says what it said without its marker. -/
theorem sameMessage_markMessage (h : messageMarkers m = 0) : SameMessage (unmarkMessage (markMessage m)) (unmarkMessage m) := by
  obtain ⟨hblocks, hextra⟩ := Nat.add_eq_zero_iff.1 h
  refine ⟨role_markMessage, ?_, ?_⟩
  · show SameContent (unmarkContent (markMessage m).content) (unmarkContent m.content)
    rcases hm : markContent m.content with _ | content
    · rw [(markMessage_extra hm).2.1]
      exact .same (.refl _)
    rw [(markMessage_content hm).2.1]
    cases hcontent : m.content with
    | string text =>
      rw [hcontent] at hm
      cases hm
      exact .unwrap (.refl _)
    | array blocks =>
      rw [hcontent] at hm hblocks
      obtain ⟨blocks', hb, rfl⟩ := Option.map_eq_some_iff.1 hm
      exact .same (.array (markLastBlock_spec hb hblocks).2)
    | _ =>
      rw [hcontent] at hm
      cases hm
  · show SameMap (Assoc.erase (markMessage m).extra _) (Assoc.erase m.extra _)
    rcases hm : markContent m.content with _ | content
    · rw [(markMessage_extra hm).2.2]
      exact sameMap_erase_insert _
    rw [(markMessage_content hm).2.2]
    exact fun _ => rfl

theorem unmarkContent_idem (content : Json) : unmarkContent (unmarkContent content) = unmarkContent content := by
  cases content with
  | array blocks =>
    show Json.array _ = Json.array _
    rw [List.map_map]
    exact congrArg Json.array (List.map_congr_left fun b _ => unmarkValue_eq_self hasMarker_unmarkValue)
  | _ => rfl

theorem sameMessage_unmarkMessage : SameMessage (unmarkMessage (unmarkMessage m)) (unmarkMessage m) where
  role := rfl
  content := .same <| by
    show SameItems (unmarkContent (unmarkContent m.content)) (unmarkContent m.content)
    rw [unmarkContent_idem]
    exact .refl _
  extra _ := congrArg (Assoc.get · _) (Assoc.erase_eq_self Assoc.get_erase_self)

end

/-! ### Marks on a request -/

section
variable {r : OpenAIRequest} {f : List Json → List Json}
  (hf : ∀ tools, (∀ t ∈ tools, t.nodupKeys = true) → ∀ t ∈ f tools, t.nodupKeys = true)

theorem get_modifyToolsField (extra : Json.Map) (k : String) : Assoc.get (modifyToolsField f extra) k =
      (Assoc.get extra k).map fun v => if k = "tools" then modifyTools f v else v :=
  Assoc.get_mapKeyed fun k v => if k = "tools" then modifyTools f v else v

theorem tools_withTools (hnil : f [] = []) : tools (withTools r f hf) = f (tools r) := by
  show ((Assoc.get (modifyToolsField f r.extra) "tools").bind Json.asArray).getD [] = _
  rw [get_modifyToolsField, tools]
  cases Assoc.get r.extra "tools" with
  | none => exact hnil.symm
  | some v =>
    cases v with
    | array items => rfl
    | _ => exact hnil.symm

theorem tools_strip : tools (stripClientMarkers r) = (tools r).map unmarkValue :=
  tools_withTools (fun _ => nodupKeys_map_unmarkValue) rfl

theorem sameRequest_withTools (h : ∀ items, List.Forall₂ SameBlock ((f items).map unmarkValue) (items.map unmarkValue)) :
    SameRequest (stripClientMarkers (withTools r f hf)) (stripClientMarkers r) where
  model := rfl
  stream := rfl
  temperature := rfl
  maxTokens := rfl
  extra k hk := by
    show Assoc.get (modifyToolsField _ (modifyToolsField f r.extra)) k = Assoc.get (modifyToolsField _ r.extra) k
    rw [get_modifyToolsField, get_modifyToolsField, get_modifyToolsField]
    simp [hk]
  tools := by
    show Option.Rel SameItems (Assoc.get (modifyToolsField _ (modifyToolsField f r.extra)) "tools")
      (Assoc.get (modifyToolsField _ r.extra) "tools")
    rw [get_modifyToolsField, get_modifyToolsField, get_modifyToolsField]
    cases Assoc.get r.extra "tools" with
    | none => exact .none
    | some v =>
      cases v with
      | array items => exact .some (.array (h items))
      | _ => exact .some (.refl _)
  length := rfl
  messages h h' := by
    cases h.symm.trans h'
    exact .refl _

theorem tools_modifyMessage (g : Message → Message) (index : Nat) : tools (modifyMessage g index r) = tools r := rfl

theorem getElem?_modifyMessage (g : Message → Message) (index i : Nat) :
    (modifyMessage g index r).messages[i]? = if index = i then r.messages[i]?.map g else r.messages[i]? := by
  show (r.messages.modify index g)[i]? = _
  rw [List.getElem?_modify]
  split
  · rfl
  · exact Option.map_id'

theorem sameRequest_modifyMessage {g : Message → Message} {index : Nat}
    (h : ∀ m, r.messages[index]? = some m → SameMessage (unmarkMessage (g m)) (unmarkMessage m)) :
    SameRequest (stripClientMarkers (modifyMessage g index r)) (stripClientMarkers r) where
  model := rfl
  stream := rfl
  temperature := rfl
  maxTokens := rfl
  extra _ _ := rfl
  tools := rel_refl _
  length := by
    show ((r.messages.modify index g).map _).length = (r.messages.map _).length
    simp
  messages := by
    intro i m m' hm hm'
    obtain ⟨a, ha, rfl⟩ := List.getElem?_map ▸ hm |> Option.map_eq_some_iff.1
    obtain ⟨b, hb, rfl⟩ := List.getElem?_map ▸ hm' |> Option.map_eq_some_iff.1
    rw [getElem?_modifyMessage] at ha
    split at ha
    · rename_i hi
      subst hi
      rw [show r.messages[index]? = some b from hb] at ha
      cases ha
      exact h b hb
    · cases ha.symm.trans hb
      exact .refl _

theorem sameRequest_strip : SameRequest (stripClientMarkers (stripClientMarkers r)) (stripClientMarkers r) where
  model := rfl
  stream := rfl
  temperature := rfl
  maxTokens := rfl
  extra k hk := by
    show Assoc.get (modifyToolsField _ (modifyToolsField _ r.extra)) k = Assoc.get (modifyToolsField _ r.extra) k
    rw [get_modifyToolsField, get_modifyToolsField]
    simp [hk]
  tools := by
    show Option.Rel SameItems (Assoc.get (modifyToolsField _ (modifyToolsField _ r.extra)) "tools")
      (Assoc.get (modifyToolsField _ r.extra) "tools")
    rw [get_modifyToolsField, get_modifyToolsField]
    cases Assoc.get r.extra "tools" with
    | none => exact .none
    | some v =>
      refine .some ?_
      show SameItems (modifyTools _ (modifyTools _ v)) (modifyTools _ v)
      cases v with
      | array items =>
        have hidem : modifyTools (·.map unmarkValue) (modifyTools (·.map unmarkValue) (.array items)) =
            modifyTools (·.map unmarkValue) (.array items) := unmarkContent_idem (.array items)
        rw [hidem]
        exact .refl _
      | _ => exact .refl _
  length := by
    show ((r.messages.map _).map _).length = (r.messages.map _).length
    simp
  messages := by
    intro i m m' hm hm'
    obtain ⟨a, ha, rfl⟩ := List.getElem?_map ▸ hm |> Option.map_eq_some_iff.1
    cases ha.symm.trans hm'
    obtain ⟨b, -, rfl⟩ := List.getElem?_map ▸ ha |> Option.map_eq_some_iff.1
    exact sameMessage_unmarkMessage

end

/-! ### What has been placed -/

def Worth (b : Budget) (r₀ : OpenAIRequest) : Marker → Prop
  | .lastToolDefinition => b.threshold ≤ b.toolsTokens
  | .message i => b.threshold ≤ b.prefixInclusive.getD i 0 ∧ ∃ m, r₀.messages[i]? = some m ∧ m.role ≠ "user"

/-- The markers on `r` are those of the list, and apart from them it is the stripped request. -/
structure Placed (b : Budget) (r₀ r : OpenAIRequest) (markers : List Marker) : Prop where
  same : SameRequest (stripClientMarkers r) r₀
  nodup : markers.Nodup
  worth : ∀ marker ∈ markers, Worth b r₀ marker
  tools : ∀ {i : Nat} {t : Json}, (tools r)[i]? = some t →
    (hasMarker t = true ↔ i + 1 = (CacheInject.tools r).length ∧ .lastToolDefinition ∈ markers)
  messages : ∀ {i : Nat} {m : Message}, r.messages[i]? = some m →
    messageMarkers m = if .message i ∈ markers then 1 else 0

namespace Placed
variable {b : Budget} {r₀ r : OpenAIRequest} {markers : List Marker} {marker : Marker} {index : Nat}

theorem strip (request : OpenAIRequest) : Placed b (stripClientMarkers request) (stripClientMarkers request) [] where
  same := sameRequest_strip
  nodup := List.nodup_nil
  worth := by simp
  tools := by
    intro i t ht
    rw [tools_strip, List.getElem?_map] at ht
    obtain ⟨v, -, rfl⟩ := Option.map_eq_some_iff.1 ht
    simp
  messages := by
    intro i m hm
    obtain ⟨a, -, rfl⟩ := List.getElem?_map ▸ hm |> Option.map_eq_some_iff.1
    simp [messageMarkers_unmarkMessage]

theorem markTools (h : Placed b r₀ r []) (hlast : hasLastToolDefinition r = true) (hw : b.threshold ≤ b.toolsTokens) :
    Placed b r₀ (markLastToolDefinition r) [.lastToolDefinition] where
  same := by
    refine (sameRequest_withTools _ fun items => forall₂_modifyLast fun v => ?_).trans h.same
    cases hm : markValue v with
    | none => exact .refl _
    | some v' => exact sameBlock_unmark_mark hm
  nodup := List.nodup_singleton _
  worth := by
    intro marker hmem
    rw [List.mem_singleton.1 hmem]
    exact hw
  tools := by
    intro i t ht
    have htools : CacheInject.tools (markLastToolDefinition r) = modifyLast (fun t => (markValue t).getD t) (CacheInject.tools r) :=
      tools_withTools _ rfl
    rw [htools, length_modifyLast]
    rw [htools, getElem?_modifyLast] at ht
    split at ht
    · rename_i hi
      obtain ⟨v, hv, rfl⟩ := Option.map_eq_some_iff.1 ht
      have hobj : (v.asObject).isSome = true := by
        rw [hasLastToolDefinition, List.getLast?_eq_getElem?, ← hi, Nat.add_sub_cancel, hv] at hlast
        exact hlast
      cases v with
      | object map => simp [hi, hasMarker_markValue (v := .object map) rfl, markValue]
      | _ => cases hobj
    · rename_i hi
      have hno := (h.tools ht).not.2 (by simp)
      simp [hi, hno]
  messages := by
    intro i m hm
    simpa using h.messages (r := r) hm

theorem markMessage (h : Placed b r₀ r markers) (hno : .message index ∉ markers) (hw : Worth b r₀ (.message index)) :
    Placed b r₀ (modifyMessage markMessage index r) (markers ++ [.message index]) where
  same := by
    refine (sameRequest_modifyMessage fun m hm => ?_).trans h.same
    have hzero := h.messages hm
    rw [if_neg hno] at hzero
    exact sameMessage_markMessage hzero
  nodup := by
    rw [List.nodup_append]
    refine ⟨h.nodup, List.nodup_singleton _, ?_⟩
    rintro a ha b hb rfl
    exact hno (List.mem_singleton.1 hb ▸ ha)
  worth := by
    intro marker hmem
    rcases List.mem_append.1 hmem with hmem | hmem
    · exact h.worth marker hmem
    · rw [List.mem_singleton.1 hmem]
      exact hw
  tools := by
    intro i t ht
    simpa [tools_modifyMessage] using h.tools (r := r) ht
  messages := by
    intro i m hm
    rw [getElem?_modifyMessage] at hm
    split at hm
    · rename_i hi
      subst hi
      obtain ⟨a, ha, rfl⟩ := Option.map_eq_some_iff.1 hm
      have hzero := h.messages ha
      rw [if_neg hno] at hzero
      simp [messageMarkers_markMessage hzero]
    · rename_i hi
      have hne : ¬ i = index := fun h => hi h.symm
      simpa [hne] using h.messages hm

theorem unmark (h : Placed b r₀ r (marker :: markers)) : Placed b r₀ (unmark r marker) markers := by
  obtain ⟨hno, hnodup⟩ := List.nodup_cons.1 h.nodup
  have hworth : ∀ marker ∈ markers, Worth b r₀ marker := fun marker hm => h.worth marker (List.mem_cons_of_mem _ hm)
  cases marker with
  | lastToolDefinition =>
    refine ⟨?_, hnodup, hworth, ?_, ?_⟩
    · refine (sameRequest_withTools (fun _ => nodupKeys_modifyLast fun _ => nodupKeys_unmarkValue) fun items =>
        forall₂_modifyLast fun v => ?_).trans h.same
      rw [unmarkValue_eq_self hasMarker_unmarkValue]
      exact .refl _
    · intro i t ht
      have htools : CacheInject.tools (unmarkLastToolDefinition r) = modifyLast unmarkValue (CacheInject.tools r) :=
        tools_withTools _ rfl
      change (CacheInject.tools (unmarkLastToolDefinition r))[i]? = some t at ht
      rw [htools, getElem?_modifyLast] at ht
      split at ht
      · obtain ⟨v, hv, rfl⟩ := Option.map_eq_some_iff.1 ht
        simp [hno]
      · rename_i hi
        have hfree := (h.tools ht).not.2 fun hc => hi hc.1
        simp [hno, hfree]
    · intro i m hm
      simpa using h.messages (r := r) hm
  | message index =>
    refine ⟨?_, hnodup, hworth, ?_, ?_⟩
    · exact (sameRequest_modifyMessage fun m _ => sameMessage_unmarkMessage).trans h.same
    · intro i t ht
      simpa [CacheInject.unmark, tools_modifyMessage] using h.tools (r := r) ht
    · intro i m hm
      change (modifyMessage unmarkMessage index r).messages[i]? = some m at hm
      rw [getElem?_modifyMessage] at hm
      split at hm
      · rename_i hi
        subst hi
        obtain ⟨a, -, rfl⟩ := Option.map_eq_some_iff.1 hm
        simp [hno, messageMarkers_unmarkMessage]
      · rename_i hi
        have hne : ¬ i = index := fun h => hi h.symm
        simpa [hne] using h.messages hm

theorem role_eq {i : Nat} {m : Message} (h : Placed b r₀ r markers) (hm : r.messages[i]? = some m) :
    ∃ m₀, r₀.messages[i]? = some m₀ ∧ m₀.role = m.role := by
  have hstrip : (stripClientMarkers r).messages[i]? = some (unmarkMessage m) := by
    show (r.messages.map unmarkMessage)[i]? = _
    rw [List.getElem?_map, hm]
    rfl
  have hlt : i < r₀.messages.length := h.same.length ▸ (List.getElem?_eq_some_iff.1 hstrip).1
  have hm₀ := List.getElem?_eq_getElem hlt
  exact ⟨_, hm₀, (h.same.messages hstrip hm₀).role.symm⟩

end Placed

theorem sum_map_ite {α : Type} (p : α → Prop) [DecidablePred p] (l : List α) :
    (l.map fun a => if p a then 1 else 0).sum = l.countP p := by
  induction l with
  | nil => rfl
  | cons a l ih =>
    rw [List.map_cons, List.sum_cons, ih, List.countP_cons]
    simp [Nat.add_comm]

theorem countP_le_one {α : Type} {p : α → Bool} {l : List α} (h : ∀ i a, l[i]? = some a → p a = true → i + 1 = l.length) :
    l.countP p ≤ 1 := by
  induction l with
  | nil => simp
  | cons a l ih =>
    have hrest : ∀ i b, l[i]? = some b → p b = true → i + 1 = l.length := fun i b hb hp => by
      have := h (i + 1) b hb hp
      simpa using this
    rw [List.countP_cons]
    split
    · rename_i hp
      have hlen := h 0 a rfl hp
      have hnil : l = [] := List.length_eq_zero_iff.1 (by simpa using hlen.symm)
      simp [hnil]
    · exact ih hrest

namespace Placed
variable {b : Budget} {r₀ r : OpenAIRequest} {markers : List Marker}

theorem countP_tools_le (h : Placed b r₀ r markers) :
    (CacheInject.tools r).countP hasMarker ≤ if .lastToolDefinition ∈ markers then 1 else 0 := by
  split
  · exact countP_le_one fun i t ht hmark => ((h.tools ht).1 hmark).1
  · rename_i hno
    refine (List.countP_eq_zero.2 fun t ht hmark => ?_).le
    obtain ⟨i, hi⟩ := List.mem_iff_getElem?.1 ht
    exact hno ((h.tools hi).1 hmark).2

theorem sum_messages (h : Placed b r₀ r markers) :
    (r.messages.map messageMarkers).sum = (List.range r.messages.length).countP fun i => .message i ∈ markers := by
  rw [← sum_map_ite]
  refine congrArg List.sum (List.ext_getElem (by simp) fun i hi hi' => ?_)
  rw [List.length_map] at hi
  simp only [List.getElem_map, List.getElem_range]
  exact h.messages (List.getElem?_eq_getElem hi)

theorem requestMarkers_le (h : Placed b r₀ r markers) : requestMarkers r ≤ markers.length := by
  let positions := Marker.lastToolDefinition :: (List.range r.messages.length).map Marker.message
  have hnodup : positions.Nodup := by
    refine List.nodup_cons.2 ⟨by simp, List.nodup_range.map ?_⟩
    exact fun i j hij => Marker.message.inj hij
  have hsub : positions.filter (· ∈ markers) ⊆ markers := fun marker hm => by simpa using (List.mem_filter.1 hm).2
  have hlen := ((hnodup.filter _).subperm hsub).length_le
  rw [← List.countP_eq_length_filter, List.countP_cons, List.countP_map] at hlen
  have htools := h.countP_tools_le
  have hmessages := h.sum_messages
  simp only [Function.comp_def, decide_eq_true_eq] at hlen
  rw [requestMarkers]
  omega

end Placed

theorem countMarkers_le (r : OpenAIRequest) : countMarkers r ≤ requestMarkers r := by
  refine Nat.add_le_add ?_ ?_
  · split
    · rename_i h
      obtain ⟨t, ht, hmark⟩ := (Option.any_eq_true _ _).1 h
      exact List.countP_pos_iff.2 ⟨t, List.mem_of_getLast? ht, hmark⟩
    · exact Nat.zero_le _
  · induction r.messages with
    | nil => exact le_rfl
    | cons m messages ih =>
      rw [List.countP_cons, List.map_cons, List.sum_cons]
      split
      · rename_i h
        have := messageHasMarker_iff.1 h
        omega
      · omega

theorem length_prefixInclusiveFrom (numbers : NumberText) (cumulative : Nat) (messages : List Message) :
    (prefixInclusiveFrom numbers cumulative messages).length = messages.length := by
  induction messages generalizing cumulative with
  | nil => rfl
  | cons m messages ih => exact congrArg (· + 1) (ih _)

structure Within (b : Budget) (r₀ : OpenAIRequest) (p : Placement) : Prop where
  on : Placed b r₀ p.request p.markers
  counted : p.placed = p.markers.length
  le : p.markers.length ≤ b.explicitBudget

section
variable {b : Budget} {r₀ : OpenAIRequest} {p : Placement} {index : Nat}

theorem placeOnTools_spec (h : Placed b r₀ r₀ []) (hb : 0 < b.explicitBudget) :
    Within b r₀ (placeOnTools b r₀) ∧ ∀ i, .message i ∉ (placeOnTools b r₀).markers := by
  unfold placeOnTools
  split
  · rename_i hc
    simp only [Bool.and_eq_true, decide_eq_true_eq] at hc
    exact ⟨⟨h.markTools hc.2 hc.1, rfl, hb⟩, by simp⟩
  · exact ⟨⟨h, rfl, Nat.zero_le _⟩, by simp⟩

theorem placeOnSystem_spec (h : Within b r₀ p) (hno : ∀ i, .message i ∉ p.markers) : Within b r₀ (placeOnSystem b p) := by
  unfold placeOnSystem
  split
  · rename_i hfree
    split
    · rename_i index hindex
      split
      · rename_i hle
        obtain ⟨hlt, hrole, -⟩ := List.findIdx?_eq_some_iff_getElem.1 hindex
        obtain ⟨m₀, hm₀, hsame⟩ := h.on.role_eq (List.getElem?_eq_getElem hlt)
        have hworth : Worth b r₀ (.message index) := by
          refine ⟨hle, m₀, hm₀, ?_⟩
          rw [hsame, beq_iff_eq.1 hrole]
          decide
        refine ⟨h.on.markMessage (hno index) hworth, ?_, ?_⟩
        · simp [h.counted]
        · have := h.counted
          simp only [List.length_append, List.length_singleton]
          omega
      · exact h
    · exact h
  · exact h

theorem newestCacheableMessageIndex_spec {messages : List Message} (h : newestCacheableMessageIndex messages = some index) :
    ∃ m, messages[index]? = some m ∧ messageHasMarker m = false ∧ m.role ≠ "user" := by
  have key : ∀ p : Message → Bool, (∀ m, p m = true → messageHasMarker m = false ∧ m.role ≠ "user") →
      rposition p messages = some index → ∃ m, messages[index]? = some m ∧ messageHasMarker m = false ∧ m.role ≠ "user" := by
    intro p hp hpos
    obtain ⟨⟨m, hm, hpm⟩, -⟩ := rposition_some hpos
    exact ⟨m, hm, hp m hpm⟩
  simp only [newestCacheableMessageIndex, Option.or_eq_some_iff] at h
  rcases h with h | ⟨-, h | ⟨-, h⟩⟩
  · exact key _ (by simp +contextual) h
  · exact key _ (by simp +contextual) h
  · exact key _ (by simp +contextual) h

theorem advance_spec (h : Within b r₀ p) :
    ∃ markers, Placed b r₀ (advance b p).request markers ∧ markers.length ≤ b.explicitBudget := by
  unfold advance
  split
  · rename_i index hindex
    split
    · rename_i hle
      obtain ⟨m, hm, hfree, huser⟩ := newestCacheableMessageIndex_spec hindex
      have hno : .message index ∉ p.markers := by
        intro hmem
        have hone := h.on.messages hm
        rw [if_pos hmem] at hone
        have hpos := messageHasMarker_iff.2 (hone ▸ Nat.one_pos)
        rw [hfree] at hpos
        cases hpos
      obtain ⟨m₀, hm₀, hsame⟩ := h.on.role_eq hm
      have hworth : Worth b r₀ (.message index) := ⟨hle, m₀, hm₀, hsame ▸ huser⟩
      have hcounted := h.counted
      split
      · refine ⟨_, h.on.markMessage hno hworth, ?_⟩
        simp only [List.length_append, List.length_singleton]
        omega
      · split
        · rename_i oldest markers hmarkers
          have hon := h.on
          rw [hmarkers] at hon hno
          refine ⟨_, hon.unmark.markMessage (fun hmem => hno (List.mem_cons_of_mem _ hmem)) hworth, ?_⟩
          have hle := h.le
          rw [hmarkers] at hle
          simpa using hle
        · exact ⟨_, h.on, h.le⟩
    · exact ⟨_, h.on, h.le⟩
  · exact ⟨_, h.on, h.le⟩

end

theorem injected_of_placed {numbers : NumberText} {cfg : CacheInjectorConfig} {request r : OpenAIRequest}
    {b : Budget} {markers : List Marker} (h : Placed b (stripClientMarkers request) r markers)
    (hthreshold : b.threshold = (cfg.cacheMinTokens.toNat * 11 + 9) / 10)
    (htools : b.toolsTokens = toolsTokens numbers (stripClientMarkers request))
    (hestimates : b.prefixInclusive = prefixInclusive numbers (stripClientMarkers request))
    (hlen : markers.length ≤ cfg.maxBreakpoints.toNat - 1) : Injected numbers cfg request r where
  budget := h.requestMarkers_le.trans hlen
  tool := by
    intro i t ht hmark
    obtain ⟨hlast, hmem⟩ := (h.tools ht).1 hmark
    have hworth : b.threshold ≤ b.toolsTokens := h.worth _ hmem
    exact ⟨hlast, by omega⟩
  message := by
    intro i m hm hmark
    have hcount := h.messages hm
    have hmem : .message i ∈ markers := by
      by_contra hno
      rw [if_neg hno] at hcount
      omega
    obtain ⟨hle, m₀, hm₀, huser⟩ := h.worth _ hmem
    obtain ⟨m₁, hm₁, hsame⟩ := h.role_eq hm
    cases hm₀.symm.trans hm₁
    refine ⟨hsame ▸ huser, b.prefixInclusive.getD i 0, ?_, by omega⟩
    have hlt : i < b.prefixInclusive.length := by
      rw [hestimates, prefixInclusive, length_prefixInclusiveFrom]
      exact (List.getElem?_eq_some_iff.1 hm₀).1
    rw [← hestimates, List.getD_eq_getElem?_getD, List.getElem?_eq_getElem hlt]
    rfl
  erased := h.same

/-- A call answers with success, whatever the request, the limits and the prior usage, and what it leaves
is as promised. -/
theorem inject_law (numbers : NumberText) (request : OpenAIRequest) (cfg : CacheInjectorConfig)
    (priorUsage : Option CacheUsage) :
    (injectExplicitCacheBreakpoints numbers request cfg priorUsage).2 = .ok () ∧
      Injected numbers cfg request (injectExplicitCacheBreakpoints numbers request cfg priorUsage).1 := by
  set r₀ := stripClientMarkers request with hr₀
  set b : Budget :=
    { threshold := (cfg.cacheMinTokens.toNat * 11 + 9) / 10, explicitBudget := cfg.maxBreakpoints.toNat - 1
      toolsTokens := toolsTokens numbers r₀, prefixInclusive := prefixInclusive numbers r₀ } with hb
  have hstrip : Placed b r₀ r₀ [] := .strip request
  by_cases hzero : cfg.maxBreakpoints.toNat - 1 = 0
  · rw [injectExplicitCacheBreakpoints, if_pos hzero]
    exact ⟨rfl, injected_of_placed hstrip rfl rfl rfl (Nat.zero_le _)⟩
  · obtain ⟨htools, hno⟩ := placeOnTools_spec hstrip (Nat.pos_of_ne_zero hzero)
    have hsystem := placeOnSystem_spec htools hno
    -- with or without the third rule, the markers are within the budget
    obtain ⟨markers, hplaced, hlen⟩ : ∃ markers, Placed b r₀
        (if priorUsage.any (0 < ·.cacheCreationInputTokens) then advance b (placeOnSystem b (placeOnTools b r₀))
          else placeOnSystem b (placeOnTools b r₀)).request markers ∧ markers.length ≤ b.explicitBudget := by
      split
      · exact advance_spec hsystem
      · exact ⟨_, hsystem.on, hsystem.le⟩
    have htotal := (countMarkers_le _).trans (hplaced.requestMarkers_le.trans hlen)
    rw [injectExplicitCacheBreakpoints, if_neg hzero]
    dsimp only
    rw [← hr₀, ← hb, if_neg (Nat.not_lt.2 (htotal.trans (Nat.sub_le _ _)))]
    exact ⟨rfl, injected_of_placed hplaced rfl rfl rfl hlen⟩

end ObeyGateway.Router.CacheInject
