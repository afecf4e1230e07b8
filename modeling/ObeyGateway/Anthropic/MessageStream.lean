import Mathlib.Data.List.Induction
import ObeyGateway.Anthropic.Models

/-!
# The assembler of message streams

`anthropic/synthesize_stream.rs`. Chat deltas come in, Anthropic events go out, and one content block is open at a time.
A run is described by the blocks it has opened (`Trace`): every delta closes the block of another kind, opens its own,
or goes into the open one.
-/

namespace ObeyGateway.Anthropic

open AnthropicSseEvent

/-! ### The state machine -/

inductive ChatDelta
  | text (text : String)
  | toolCall (index : Nat) (id name : Option String) (arguments : String)
  | thinking (thinking : String) (signature : Option String)

inductive BlockKey
  | text
  | tool (index : Nat)
  | thinking
deriving DecidableEq

def ChatDelta.blockKey : ChatDelta → BlockKey
  | .text _ => .text
  | .toolCall index _ _ _ => .tool index
  | .thinking _ _ => .thinking

inductive OpenBlock
  | text (index : Nat)
  | toolUse (index chatIndex : Nat)
  | thinking (index : Nat)

namespace OpenBlock

def index : OpenBlock → Nat
  | text index => index
  | toolUse index _ => index
  | thinking index => index

def key : OpenBlock → BlockKey
  | text _ => .text
  | toolUse _ chatIndex => .tool chatIndex
  | thinking _ => .thinking

end OpenBlock

structure ToolIdentity where
  id : String := ""
  name : String := ""

structure MessageStreamAssembler where
  message : AnthropicResponse
  started : Bool
  openBlock : Option OpenBlock
  nextIndex : Nat
  toolIdentity : List (Nat × ToolIdentity)
  toolArguments : List (Nat × String)

def nonempty (fragment : Option String) : Option String := fragment.filter (· ≠ "")

namespace MessageStreamAssembler

/-- `generated` is the fresh id that is used if none is given. -/
def new (generated : String) (model : String) (id : Option String) (initialUsage : Usage) :
    MessageStreamAssembler where
  message :=
    { kind := "message"
      id := id.getD generated
      role := "assistant"
      content := []
      model
      stopReason := none
      stopSequence := none
      usage := initialUsage }
  started := false
  openBlock := none
  nextIndex := 0
  toolIdentity := []
  toolArguments := []

variable (s : MessageStreamAssembler)

def start : List AnthropicSseEvent × MessageStreamAssembler :=
  if s.started then ([], s) else ([messageStart s.message], { s with started := true })

def openBlockKey : Option BlockKey := s.openBlock.map (·.key)

def closeOpenBlock : List AnthropicSseEvent × MessageStreamAssembler :=
  match s.openBlock with
  | some o => ([contentBlockStop o.index], { s with openBlock := none })
  | none => ([], s)

/-- The index of the block of the key; another one is opened with the content, unless it is open. -/
def ensureBlock (key : BlockKey) (block : Nat → OpenBlock) (content : ContentBlock) :
    Nat × List AnthropicSseEvent × MessageStreamAssembler :=
  let opened := (s.nextIndex, [contentBlockStart s.nextIndex content],
    { s with openBlock := some (block s.nextIndex), nextIndex := s.nextIndex + 1 })
  match s.openBlock with
  | some o => if o.key = key then (o.index, [], s) else opened
  | none => opened

def ensureTextBlock : Nat × List AnthropicSseEvent × MessageStreamAssembler :=
  s.ensureBlock .text .text (.text "")

def ensureToolBlock (chatIndex : Nat) : Nat × List AnthropicSseEvent × MessageStreamAssembler :=
  let identity := (Assoc.get s.toolIdentity chatIndex).getD {}
  s.ensureBlock (.tool chatIndex) (.toolUse · chatIndex) (.toolUse identity.id identity.name (.object []))

def ensureThinkingBlock : Nat × List AnthropicSseEvent × MessageStreamAssembler :=
  s.ensureBlock .thinking .thinking (.thinking "" "")

def identify (chatIndex : Nat) (id name : Option String) : MessageStreamAssembler :=
  let identity := (Assoc.get s.toolIdentity chatIndex).getD {}
  { s with
    toolIdentity := Assoc.put s.toolIdentity chatIndex
      { id := (nonempty id).getD identity.id, name := (nonempty name).getD identity.name } }

def addArguments (chatIndex : Nat) (arguments : String) : MessageStreamAssembler :=
  { s with
    toolArguments := Assoc.put s.toolArguments chatIndex
      ((Assoc.get s.toolArguments chatIndex).getD "" ++ arguments) }

def feedBlock : ChatDelta → List AnthropicSseEvent × MessageStreamAssembler
  | .text text =>
    if text = "" then ([], s)
    else
      let (index, events, s) := s.ensureTextBlock
      (events ++ [contentBlockDelta index (.textDelta text)], s)
  | .toolCall chatIndex id name arguments =>
    let (index, events, s) := (s.identify chatIndex id name).ensureToolBlock chatIndex
    if arguments = "" then (events, s)
    else (events ++ [contentBlockDelta index (.inputJsonDelta arguments)], s.addArguments chatIndex arguments)
  | .thinking thinking signature =>
    let (thought, s) :=
      if thinking = "" then ([], s)
      else
        let (index, events, s) := s.ensureThinkingBlock
        (events ++ [contentBlockDelta index (.thinkingDelta thinking)], s)
    match nonempty signature with
    | none => (thought, s)
    | some signature =>
      -- a signature without a thought opens a block, too
      let (index, events, s) := s.ensureThinkingBlock
      (thought ++ events ++ [contentBlockDelta index (.signatureDelta signature)], s)

def feed (delta : ChatDelta) : List AnthropicSseEvent × MessageStreamAssembler :=
  let (frame, s) := s.start
  let (closed, s) := if s.openBlockKey ≠ some delta.blockKey then s.closeOpenBlock else ([], s)
  let (events, s) := s.feedBlock delta
  (frame ++ closed ++ events, s)

def finish (stopReason : StopReason) (stopSequence : Option String) (cumulativeUsage : Usage) :
    List AnthropicSseEvent :=
  let (frame, s) := s.start
  frame ++ s.closeOpenBlock.1 ++
    [messageDelta ⟨some stopReason, stopSequence⟩ (some cumulativeUsage), messageStop]

def error (body : ErrorBody) : List AnthropicSseEvent :=
  s.closeOpenBlock.1 ++ [AnthropicSseEvent.error body]

def feedAll (deltas : List ChatDelta) : List AnthropicSseEvent × MessageStreamAssembler :=
  deltas.foldl (fun (events, s) delta => (events ++ (s.feed delta).1, (s.feed delta).2)) ([], s)

inductive Closing
  | finish (stopReason : StopReason) (stopSequence : Option String) (cumulativeUsage : Usage)
  | error (body : ErrorBody)

def Closing.events : Closing → List AnthropicSseEvent
  | .finish stopReason stopSequence usage =>
    [messageDelta ⟨some stopReason, stopSequence⟩ (some usage), messageStop]
  | .error body => [AnthropicSseEvent.error body]

def close : Closing → List AnthropicSseEvent
  | .finish stopReason stopSequence usage => s.finish stopReason stopSequence usage
  | .error body => s.error body

def stream (deltas : List ChatDelta) (closing : Closing) : List AnthropicSseEvent :=
  (s.feedAll deltas).1 ++ (s.feedAll deltas).2.close closing

end MessageStreamAssembler

/-! ### Blocks -/

def AnthropicSseEvent.delta? : AnthropicSseEvent → Option ContentBlockDelta
  | .contentBlockDelta _ delta => some delta
  | _ => none

/-- A content block with the deltas that went into it, and the kind of chat delta it is open for. -/
structure Block where
  key : BlockKey
  content : ContentBlock
  deltas : List ContentBlockDelta

def ContentBlockDelta.fits : ContentBlockDelta → ContentBlock → Bool
  | .textDelta _, .text _ => true
  | .inputJsonDelta _, .toolUse _ _ _ => true
  | .thinkingDelta _, .thinking _ _ => true
  | .signatureDelta _, .thinking _ _ => true
  | _, _ => false

namespace Block

def opened (b : Block) (index : Nat) : List AnthropicSseEvent :=
  contentBlockStart index b.content :: b.deltas.map (contentBlockDelta index)

def add (b : Block) (pieces : List ContentBlockDelta) : Block := { b with deltas := b.deltas ++ pieces }

theorem opened_add (b : Block) (pieces : List ContentBlockDelta) (index : Nat) :
    (b.add pieces).opened index = b.opened index ++ pieces.map (contentBlockDelta index) := by
  rw [opened, add, List.map_append]
  rfl

def Fits (b : Block) : Prop := ∀ d ∈ b.deltas, d.fits b.content = true

end Block

def blockEvents : Nat → List Block → List AnthropicSseEvent
  | _, [] => []
  | index, b :: blocks => b.opened index ++ contentBlockStop index :: blockEvents (index + 1) blocks

theorem blockEvents_append (index : Nat) (blocks blocks' : List Block) : blockEvents index (blocks ++ blocks') =
      blockEvents index blocks ++ blockEvents (index + blocks.length) blocks' := by
  induction blocks generalizing index with
  | nil => rfl
  | cons b blocks ih =>
    rw [List.cons_append, blockEvents, ih, blockEvents, List.append_assoc, List.cons_append,
      List.length_cons, Nat.add_comm blocks.length, ← Nat.add_assoc]

structure Trace where
  closed : List Block
  current : Option Block

namespace Trace

def empty : Trace := ⟨[], none⟩

def blocks (t : Trace) : List Block := t.closed ++ t.current.toList

def events (t : Trace) : List AnthropicSseEvent :=
  blockEvents 0 t.closed ++ (t.current.map (·.opened t.closed.length)).getD []

def close (t : Trace) : Trace := ⟨t.blocks, none⟩

def turn (t : Trace) (key : BlockKey) : Trace := if t.current.map (·.key) = some key then t else t.close

def put (t : Trace) (key : BlockKey) (content : ContentBlock) (pieces : List ContentBlockDelta) : Trace :=
  match t.current with
  | some b => { t with current := some (b.add pieces) }
  | none => { t with current := some ⟨key, content, pieces⟩ }

theorem key_put {t : Trace} {key : BlockKey} (h : ∀ b, t.current = some b → b.key = key)
    {content : ContentBlock} {pieces : List ContentBlockDelta} (b : Block)
    (hb : (t.put key content pieces).current = some b) : b.key = key := by
  unfold put at hb
  split at hb
  · rename_i b' hb'
    cases hb
    exact h b' hb'
  · cases hb
    rfl

theorem key_turn (t : Trace) (key : BlockKey) (b : Block) (hb : (t.turn key).current = some b) : b.key = key := by
  unfold turn at hb
  split at hb
  · rename_i hsame
    rw [hb] at hsame
    exact Option.some.inj hsame
  · cases hb

theorem put_put (t : Trace) (key key' : BlockKey) (content content' : ContentBlock)
    (pieces pieces' : List ContentBlockDelta) :
    (t.put key content pieces).put key' content' pieces' = t.put key content (pieces ++ pieces') := by
  cases h : t.current with
  | none | some => simp [put, h, Block.add]

theorem blocks_close (t : Trace) : t.close.blocks = t.blocks := List.append_nil _

theorem close_of_none {t : Trace} (h : t.current = none) : t.close = t := by
  cases t
  cases h
  simp [close, blocks]

theorem events_close {t : Trace} {b : Block} (h : t.current = some b) :
    t.close.events = t.events ++ [contentBlockStop t.closed.length] := by
  rw [close, events, events, blocks, h]
  show blockEvents 0 (t.closed ++ [b]) ++ [] = blockEvents 0 t.closed ++ b.opened t.closed.length ++ [_]
  rw [List.append_nil, blockEvents_append, Nat.zero_add, List.append_assoc]
  rfl

theorem events_put_open {t : Trace} {b : Block} (h : t.current = some b) (key : BlockKey)
    (content : ContentBlock) (pieces : List ContentBlockDelta) :
    (t.put key content pieces).events = t.events ++ pieces.map (contentBlockDelta t.closed.length) := by
  simp only [put, h, events, Option.map_some, Option.getD_some, Block.opened_add, List.append_assoc]

end Trace

/-! ### What a delta does to the blocks -/

namespace ChatDelta

def pieces : ChatDelta → List ContentBlockDelta
  | .text fragment => if fragment = "" then [] else [.textDelta fragment]
  | .toolCall _ _ _ fragment => if fragment = "" then [] else [.inputJsonDelta fragment]
  | .thinking fragment signature => (if fragment = "" then [] else [.thinkingDelta fragment]) ++
      (nonempty signature).toList.map .signatureDelta

def opens : ChatDelta → Bool
  | .toolCall _ _ _ _ => true
  | delta => !delta.pieces.isEmpty

def content (identity : ToolIdentity) : ChatDelta → ContentBlock
  | .text _ => .text ""
  | .toolCall _ _ _ _ => .toolUse identity.id identity.name (.object [])
  | .thinking _ _ => .thinking "" ""

end ChatDelta

def Trace.feed (t : Trace) (identity : ToolIdentity) (delta : ChatDelta) : Trace :=
  let t := t.turn delta.blockKey
  if delta.opens then t.put delta.blockKey (delta.content identity) delta.pieces else t

structure Emits (s : MessageStreamAssembler) (emitted : List AnthropicSseEvent) (t : Trace) : Prop where
  events : emitted = (if s.started then [messageStart s.message] else []) ++ t.events
  isOpen : s.openBlock.map (fun o => (o.index, o.key)) = t.current.map fun b => (t.closed.length, b.key)
  next : s.nextIndex = t.blocks.length
  idle : s.started = false → t = .empty

namespace Emits
variable {s : MessageStreamAssembler} {emitted : List AnthropicSseEvent} {t : Trace}

theorem start (h : Emits s emitted t) : Emits s.start.2 (emitted ++ s.start.1) t := by
  cases hstarted : s.started with
  | true =>
    rw [MessageStreamAssembler.start, if_pos hstarted, List.append_nil]
    exact h
  | false =>
    obtain rfl := h.idle hstarted
    have hevents := h.events
    rw [hstarted] at hevents
    rw [MessageStreamAssembler.start, if_neg (by simp [hstarted]), hevents]
    exact ⟨rfl, h.isOpen, h.next, nofun⟩

theorem open_cases (h : Emits s emitted t) : (s.openBlock = none ∧ t.current = none) ∨
    ∃ o b, s.openBlock = some o ∧ t.current = some b ∧ o.index = t.closed.length ∧ o.key = b.key := by
  have hopen := h.isOpen
  rcases hs : s.openBlock with _ | o
  · rw [hs] at hopen
    exact .inl ⟨rfl, Option.map_eq_none_iff.1 hopen.symm⟩
  rw [hs] at hopen
  obtain ⟨b, hb, heq⟩ := Option.map_eq_some_iff.1 hopen.symm
  obtain ⟨hindex, hkey⟩ := Prod.mk.inj heq
  exact .inr ⟨o, b, rfl, hb, hindex.symm, hkey.symm⟩

theorem close (h : Emits s emitted t) : Emits s.closeOpenBlock.2 (emitted ++ s.closeOpenBlock.1) t.close := by
  rcases h.open_cases with ⟨hs, ht⟩ | ⟨o, b, hs, ht, hindex, -⟩
  · rw [MessageStreamAssembler.closeOpenBlock, hs, List.append_nil, Trace.close_of_none ht]
    exact h
  · have hclose : s.closeOpenBlock = ([contentBlockStop o.index], { s with openBlock := none }) := by
      rw [MessageStreamAssembler.closeOpenBlock, hs]
    rw [hclose]
    refine ⟨?_, rfl, ?_, fun hstarted => ?_⟩
    · rw [h.events, Trace.events_close ht, hindex, List.append_assoc]
    · rw [Trace.blocks_close]
      exact h.next
    · have hempty := h.idle hstarted
      rw [hempty] at ht
      cases ht

theorem turn (h : Emits s emitted t) (key : BlockKey) :
    let closed := if s.openBlockKey ≠ some key then s.closeOpenBlock else ([], s)
    Emits closed.2 (emitted ++ closed.1) (t.turn key) := by
  have hkeys : s.openBlockKey = t.current.map (·.key) := by
    rcases h.open_cases with ⟨hs, ht⟩ | ⟨o, b, hs, ht, -, hkey⟩
    · rw [MessageStreamAssembler.openBlockKey, hs, ht]
      rfl
    · rw [MessageStreamAssembler.openBlockKey, hs, ht, Option.map_some, hkey]
      rfl
  rw [Trace.turn, hkeys]
  by_cases heq : t.current.map (·.key) = some key
  · rw [if_neg (not_not.2 heq), if_pos heq]
    dsimp only
    rw [List.append_nil]
    exact h
  · rw [if_pos heq, if_neg heq]
    exact h.close

theorem put_open (h : Emits s emitted t) {b : Block} (hb : t.current = some b) (key : BlockKey)
    (content : ContentBlock) (pieces : List ContentBlockDelta) :
    Emits s (emitted ++ pieces.map (contentBlockDelta t.closed.length)) (t.put key content pieces) := by
  refine ⟨?_, ?_, ?_, fun hstarted => ?_⟩
  · rw [h.events, Trace.events_put_open hb, List.append_assoc]
  · rw [h.isOpen, Trace.put, hb]
    rfl
  · rw [h.next, Trace.put, hb, Trace.blocks, hb]
    simp [Trace.blocks]
  · have hempty := h.idle hstarted
    rw [hempty] at hb
    cases hb

theorem ensureBlock (h : Emits s emitted t) (hstarted : s.started = true) {key : BlockKey}
    (hkey : ∀ b, t.current = some b → b.key = key) {block : Nat → OpenBlock}
    (hblock : ∀ n, (block n).index = n ∧ (block n).key = key) (content : ContentBlock) :
    let out := s.ensureBlock key block content
    Emits out.2.2 (emitted ++ out.2.1) (t.put key content []) ∧ out.1 = t.closed.length ∧
      out.2.2.started = true := by
  rcases h.open_cases with ⟨hs, ht⟩ | ⟨o, b, hs, ht, hindex, hsame⟩
  · have hnext : s.nextIndex = t.closed.length := by
      rw [h.next, Trace.blocks, ht]
      simp
    rw [MessageStreamAssembler.ensureBlock, hs]
    refine ⟨⟨?_, ?_, ?_, ?_⟩, hnext, hstarted⟩
    · rw [h.events, Trace.put, ht, Trace.events, Trace.events, ht]
      simp [hnext, Block.opened]
    · rw [Trace.put, ht]
      simp [hblock, hnext]
    · rw [Trace.put, ht]
      simp [hnext, Trace.blocks]
    · intro hnot
      rw [hstarted] at hnot
      cases hnot
  · rw [MessageStreamAssembler.ensureBlock, hs]
    dsimp only
    rw [if_pos (hsame.trans (hkey b ht))]
    refine ⟨?_, hindex, hstarted⟩
    exact h.put_open ht key content []

theorem write (h : Emits s emitted t) (hstarted : s.started = true) {key : BlockKey}
    (hkey : ∀ b, t.current = some b → b.key = key) (block : Nat → OpenBlock)
    (hblock : ∀ n, (block n).index = n ∧ (block n).key = key) (content : ContentBlock)
    (pieces : List ContentBlockDelta) :
    let out := s.ensureBlock key block content
    Emits out.2.2 (emitted ++ (out.2.1 ++ pieces.map (contentBlockDelta out.1))) (t.put key content pieces) ∧
      out.2.2.started = true := by
  obtain ⟨hemits, hindex, hstill⟩ := h.ensureBlock hstarted hkey hblock content
  obtain ⟨b, hb⟩ : ∃ b, (t.put key content []).current = some b := by
    unfold Trace.put
    split
    · exact ⟨_, rfl⟩
    · exact ⟨_, rfl⟩
  have hclosed : (t.put key content []).closed = t.closed := by
    unfold Trace.put
    split <;> rfl
  have hput := hemits.put_open hb key content pieces
  rw [Trace.put_put, List.nil_append, hclosed, ← hindex, List.append_assoc] at hput
  exact ⟨hput, hstill⟩

theorem identify (h : Emits s emitted t) (chatIndex : Nat) (id name : Option String) :
    Emits (s.identify chatIndex id name) emitted t := ⟨h.events, h.isOpen, h.next, h.idle⟩

theorem addArguments (h : Emits s emitted t) (chatIndex : Nat) (arguments : String) :
    Emits (s.addArguments chatIndex arguments) emitted t := ⟨h.events, h.isOpen, h.next, h.idle⟩

end Emits

namespace MessageStreamAssembler
variable (s : MessageStreamAssembler)

def record : ChatDelta → MessageStreamAssembler
  | .toolCall index id name arguments =>
    if arguments = "" then s.identify index id name
    else (s.identify index id name).addArguments index arguments
  | _ => s

structure SameButBlocks (s s' : MessageStreamAssembler) : Prop where
  message : s'.message = s.message
  started : s'.started = s.started
  toolIdentity : s'.toolIdentity = s.toolIdentity
  toolArguments : s'.toolArguments = s.toolArguments

namespace SameButBlocks

theorem refl : s.SameButBlocks s := ⟨rfl, rfl, rfl, rfl⟩

theorem trans {s s' s'' : MessageStreamAssembler} (h : s.SameButBlocks s') (h' : s'.SameButBlocks s'') :
    s.SameButBlocks s'' :=
  ⟨h'.message.trans h.message, h'.started.trans h.started, h'.toolIdentity.trans h.toolIdentity,
    h'.toolArguments.trans h.toolArguments⟩

theorem closeOpenBlock : s.SameButBlocks s.closeOpenBlock.2 := by
  unfold MessageStreamAssembler.closeOpenBlock
  split
  · exact ⟨rfl, rfl, rfl, rfl⟩
  · exact .refl s

theorem turn (key : BlockKey) : s.SameButBlocks (if s.openBlockKey ≠ some key then s.closeOpenBlock else ([], s)).2 := by
  split
  · exact .closeOpenBlock s
  · exact .refl s

theorem ensureBlock (key : BlockKey) (block : Nat → OpenBlock) (content : ContentBlock) :
    s.SameButBlocks (s.ensureBlock key block content).2.2 := by
  unfold MessageStreamAssembler.ensureBlock
  split
  · split
    · exact .refl s
    · exact ⟨rfl, rfl, rfl, rfl⟩
  · exact ⟨rfl, rfl, rfl, rfl⟩

theorem feedBlock (delta : ChatDelta) : (s.record delta).SameButBlocks (s.feedBlock delta).2 := by
  cases delta with
  | text fragment =>
    rw [MessageStreamAssembler.feedBlock]
    split
    · exact .refl s
    · exact .ensureBlock s _ _ _
  | toolCall chatIndex id name fragment =>
    have hsame := ensureBlock (s.identify chatIndex id name) (.tool chatIndex) (.toolUse · chatIndex)
    rw [MessageStreamAssembler.feedBlock, record]
    dsimp only
    split
    · exact hsame _
    · refine ⟨(hsame _).message, (hsame _).started, (hsame _).toolIdentity, ?_⟩
      exact congrArg (fun table => Assoc.put table chatIndex ((Assoc.get table chatIndex).getD "" ++ fragment))
        (hsame _).toolArguments
  | thinking fragment signature =>
    have hthought : s.SameButBlocks (if fragment = "" then ([], s) else
        (s.ensureThinkingBlock.2.1 ++ [contentBlockDelta s.ensureThinkingBlock.1 (.thinkingDelta fragment)],
          s.ensureThinkingBlock.2.2)).2 := by
      split
      · exact .refl s
      · exact .ensureBlock s _ _ _
    rw [MessageStreamAssembler.feedBlock]
    cases nonempty signature with
    | none => exact hthought
    | some mark => exact hthought.trans (.ensureBlock _ _ _ _)

end SameButBlocks

theorem start_eq : s.start.2 = { s with started := true } := by
  cases s with
  | mk message started openBlock nextIndex toolIdentity toolArguments => cases started <;> rfl

end MessageStreamAssembler

def MessageStreamAssembler.identityFor (s : MessageStreamAssembler) : ChatDelta → ToolIdentity
  | .toolCall chatIndex id name _ =>
    (Assoc.get (s.identify chatIndex id name).toolIdentity chatIndex).getD {}
  | _ => {}

namespace Emits
variable {s : MessageStreamAssembler} {emitted : List AnthropicSseEvent} {t : Trace}

theorem feedBlock (h : Emits s emitted t) (hstarted : s.started = true) (delta : ChatDelta)
    (hkey : ∀ b, t.current = some b → b.key = delta.blockKey) :
    Emits (s.feedBlock delta).2 (emitted ++ (s.feedBlock delta).1)
      (if delta.opens then t.put delta.blockKey (delta.content (s.identityFor delta)) delta.pieces else t) := by
  cases delta with
  | text fragment =>
    by_cases hempty : fragment = ""
    · simpa [MessageStreamAssembler.feedBlock, hempty, ChatDelta.opens, ChatDelta.pieces] using h
    · have hpieces : (ChatDelta.text fragment).pieces = [.textDelta fragment] := if_neg hempty
      have hopens : (ChatDelta.text fragment).opens = true := by simp [ChatDelta.opens, hpieces]
      rw [if_pos hopens, hpieces, MessageStreamAssembler.feedBlock, if_neg hempty]
      exact (h.write hstarted hkey .text (fun _ => ⟨rfl, rfl⟩) (.text "") [.textDelta fragment]).1
  | toolCall chatIndex id name fragment =>
    have hopens : (ChatDelta.toolCall chatIndex id name fragment).opens = true := rfl
    have hwrite := fun content pieces => ((h.identify chatIndex id name).write hstarted hkey
      (.toolUse · chatIndex) (fun _ => ⟨rfl, rfl⟩) content pieces).1
    rw [if_pos hopens]
    by_cases hempty : fragment = ""
    · have hpieces : (ChatDelta.toolCall chatIndex id name fragment).pieces = [] := if_pos hempty
      have hnothing := hwrite (ChatDelta.content (s.identityFor (.toolCall chatIndex id name fragment))
        (.toolCall chatIndex id name fragment)) []
      rw [List.map_nil, List.append_nil] at hnothing
      rw [MessageStreamAssembler.feedBlock, hpieces, hempty] at *
      exact hnothing
    · have hpieces : (ChatDelta.toolCall chatIndex id name fragment).pieces = [.inputJsonDelta fragment] :=
        if_neg hempty
      have hsome := hwrite (ChatDelta.content (s.identityFor (.toolCall chatIndex id name fragment))
        (.toolCall chatIndex id name fragment)) [.inputJsonDelta fragment]
      rw [hpieces, MessageStreamAssembler.feedBlock]
      dsimp only
      rw [if_neg hempty]
      exact hsome.addArguments chatIndex fragment
  | thinking fragment signature =>
    have hwrite := fun pieces => (h.write hstarted hkey .thinking (fun _ => ⟨rfl, rfl⟩) (.thinking "" "") pieces)
    have hpieces : (ChatDelta.thinking fragment signature).pieces =
      (if fragment = "" then [] else [.thinkingDelta fragment]) ++
        (nonempty signature).toList.map .signatureDelta := rfl
    rw [MessageStreamAssembler.feedBlock]
    rcases hsig : nonempty signature with _ | mark
    · by_cases hempty : fragment = ""
      · rw [hsig, if_pos hempty] at hpieces
        have hopens : ¬(ChatDelta.thinking fragment signature).opens = true := by
          simp [ChatDelta.opens, hpieces]
        rw [if_neg hopens, if_pos hempty]
        dsimp only
        rw [List.append_nil]
        exact h
      · rw [hsig, if_neg hempty] at hpieces
        have hopens : (ChatDelta.thinking fragment signature).opens = true := by
          simp [ChatDelta.opens, hpieces]
        rw [if_pos hopens, hpieces, if_neg hempty]
        exact (hwrite [.thinkingDelta fragment]).1
    have hopens : (ChatDelta.thinking fragment signature).opens = true := by
      simp [ChatDelta.opens, hpieces, hsig]
    rw [if_pos hopens]
    by_cases hempty : fragment = ""
    · rw [hsig, if_pos hempty] at hpieces
      rw [hpieces, if_pos hempty]
      exact (hwrite [.signatureDelta mark]).1
    · -- the thought has opened the block by the time the signature comes
      rw [hsig, if_neg hempty] at hpieces
      rw [hpieces, if_neg hempty]
      obtain ⟨hthought, hstill⟩ := hwrite [.thinkingDelta fragment]
      have hmark := (hthought.write hstill (Trace.key_put hkey) .thinking (fun _ => ⟨rfl, rfl⟩)
        (.thinking "" "") [.signatureDelta mark]).1
      rw [Trace.put_put, List.append_assoc] at hmark
      dsimp only
      rw [List.append_assoc]
      exact hmark

theorem identityFor_congr {s' : MessageStreamAssembler} (h : s.toolIdentity = s'.toolIdentity)
    (delta : ChatDelta) : s.identityFor delta = s'.identityFor delta := by
  cases delta with
  | toolCall chatIndex id name fragment =>
    rw [MessageStreamAssembler.identityFor, MessageStreamAssembler.identityFor,
      MessageStreamAssembler.identify, MessageStreamAssembler.identify, h]
  | text _ | thinking _ _ => rfl

theorem feed (h : Emits s emitted t) (delta : ChatDelta) :
    Emits (s.feed delta).2 (emitted ++ (s.feed delta).1) (t.feed (s.identityFor delta) delta) := by
  have hturn := h.start.turn delta.blockKey
  have hsame := MessageStreamAssembler.SameButBlocks.turn s.start.2 delta.blockKey
  have hblock := hturn.feedBlock (by rw [hsame.started, MessageStreamAssembler.start_eq]) delta
    (Trace.key_turn t delta.blockKey)
  have hidentity : (if s.start.2.openBlockKey ≠ some delta.blockKey then s.start.2.closeOpenBlock
      else ([], s.start.2)).2.identityFor delta = s.identityFor delta :=
    identityFor_congr (by rw [hsame.toolIdentity, MessageStreamAssembler.start_eq]) delta
  rw [hidentity] at hblock
  simp only [List.append_assoc] at hblock
  simp only [MessageStreamAssembler.feed, List.append_assoc]
  exact hblock

end Emits

namespace MessageStreamAssembler
variable (s : MessageStreamAssembler)

def trace (s : MessageStreamAssembler) : List ChatDelta → Trace → Trace
  | [], t => t
  | delta :: deltas, t => (s.feed delta).2.trace deltas (t.feed (s.identityFor delta) delta)

variable (deltas : List ChatDelta)

theorem feedAll_append (emitted : List AnthropicSseEvent) :
    deltas.foldl (fun (events, s) delta => (events ++ (s.feed delta).1, (s.feed delta).2)) (emitted, s) =
      (emitted ++ (s.feedAll deltas).1, (s.feedAll deltas).2) := by
  induction deltas generalizing s emitted with
  | nil => rw [feedAll, List.foldl_nil, List.foldl_nil, List.append_nil]
  | cons delta deltas ih =>
    rw [feedAll, List.foldl_cons, List.foldl_cons, ih, ih, List.nil_append, List.append_assoc]

theorem feedAll_cons (delta : ChatDelta) (deltas : List ChatDelta) : s.feedAll (delta :: deltas) =
      ((s.feed delta).1 ++ ((s.feed delta).2.feedAll deltas).1, ((s.feed delta).2.feedAll deltas).2) :=
  feedAll_append (s.feed delta).2 deltas (s.feed delta).1

end MessageStreamAssembler

theorem Emits.feedAll {s : MessageStreamAssembler} {emitted : List AnthropicSseEvent} {t : Trace}
    (h : Emits s emitted t) (deltas : List ChatDelta) :
    Emits (s.feedAll deltas).2 (emitted ++ (s.feedAll deltas).1) (s.trace deltas t) := by
  induction deltas generalizing s emitted t with
  | nil =>
    rw [MessageStreamAssembler.feedAll, List.foldl_nil, List.append_nil]
    exact h
  | cons delta deltas ih =>
    rw [MessageStreamAssembler.feedAll_cons, ← List.append_assoc]
    exact ih (h.feed delta)

/-! ### The grammar -/

def BlockKey.admits : BlockKey → ContentBlock → Bool
  | .text, .text _ => true
  | .tool _, .toolUse _ _ _ => true
  | .thinking, .thinking _ _ => true
  | _, _ => false

theorem ChatDelta.admits_content (delta : ChatDelta) (identity : ToolIdentity) :
    delta.blockKey.admits (delta.content identity) = true := by
  cases delta <;> rfl

theorem ChatDelta.fits_pieces {delta : ChatDelta} {content : ContentBlock}
    (h : delta.blockKey.admits content = true) {d : ContentBlockDelta} (hd : d ∈ delta.pieces) :
    d.fits content = true := by
  cases delta with
  | text fragment =>
    cases content with
    | text _ =>
      obtain ⟨-, rfl⟩ : fragment ≠ "" ∧ d = .textDelta fragment := by simpa [pieces] using hd
      rfl
    | _ => cases h
  | toolCall chatIndex id name fragment =>
    cases content with
    | toolUse _ _ _ =>
      obtain ⟨-, rfl⟩ : fragment ≠ "" ∧ d = .inputJsonDelta fragment := by simpa [pieces] using hd
      rfl
    | _ => cases h
  | thinking fragment signature =>
    cases content with
    | thinking _ _ =>
      rcases List.mem_append.1 hd with hd | hd
      · obtain ⟨-, rfl⟩ : fragment ≠ "" ∧ d = .thinkingDelta fragment := by simpa using hd
        rfl
      · obtain ⟨mark, -, rfl⟩ := List.mem_map.1 hd
        rfl
    | _ => cases h

def Block.WellKinded (b : Block) : Prop := b.key.admits b.content = true ∧ b.Fits

namespace Trace

def WellKinded (t : Trace) : Prop := ∀ b ∈ t.blocks, b.WellKinded

def pieces (t : Trace) : List ContentBlockDelta := t.blocks.flatMap (·.deltas)

theorem blocks_turn (t : Trace) (key : BlockKey) : (t.turn key).blocks = t.blocks := by
  unfold turn
  split
  · rfl
  · exact t.blocks_close

theorem WellKinded.feed {t : Trace} (h : t.WellKinded) (identity : ToolIdentity) (delta : ChatDelta) :
    (t.feed identity delta).WellKinded := by
  have hturn : (t.turn delta.blockKey).WellKinded := by
    intro b hb
    rw [blocks_turn] at hb
    exact h b hb
  unfold Trace.feed
  split
  · intro b hb
    unfold put at hb
    dsimp only at hb
    rcases hcurrent : (t.turn delta.blockKey).current with _ | b'
    · rw [hcurrent] at hb
      rcases List.mem_append.1 hb with hb | hb
      · exact hturn b (List.mem_append_left _ hb)
      · obtain rfl := List.mem_singleton.1 hb
        exact ⟨delta.admits_content identity,
          fun d hd => ChatDelta.fits_pieces (delta.admits_content identity) hd⟩
    rw [hcurrent] at hb
    have hb' := hturn b' (List.mem_append_right _ (by rw [hcurrent]; exact List.mem_singleton_self b'))
    rcases List.mem_append.1 hb with hb | hb
    · exact hturn b (List.mem_append_left _ hb)
    · obtain rfl := List.mem_singleton.1 hb
      have hadmits := hb'.1
      rw [key_turn t _ b' hcurrent] at hadmits
      refine ⟨hb'.1, fun d hd => ?_⟩
      rcases List.mem_append.1 hd with hd | hd
      · exact hb'.2 d hd
      · exact ChatDelta.fits_pieces hadmits hd
  · exact hturn

end Trace

namespace MessageStreamAssembler
variable (s : MessageStreamAssembler)

end MessageStreamAssembler

/-! ### The law of a stream -/

namespace ContentBlockDelta

def textFragment : ContentBlockDelta → String
  | textDelta fragment => fragment
  | _ => ""

def thinkingFragment : ContentBlockDelta → String
  | thinkingDelta fragment => fragment
  | _ => ""

def signatureFragment : ContentBlockDelta → String
  | signatureDelta fragment => fragment
  | _ => ""

end ContentBlockDelta

namespace ChatDelta

def textFragment : ChatDelta → String
  | .text fragment => fragment
  | _ => ""

def thinkingFragment : ChatDelta → String
  | .thinking fragment _ => fragment
  | _ => ""

def signatureFragment : ChatDelta → String
  | .thinking _ signature => signature.getD ""
  | _ => ""

end ChatDelta

def carried (fragment : ContentBlockDelta → String) (events : List AnthropicSseEvent) : String :=
  String.join ((events.filterMap delta?).map fragment)

/-- Blocks numbered from zero, between the frame and the closing events, each with deltas of its kind; nothing fed is
lost. -/
structure StreamLaw (message : AnthropicResponse) (deltas : List ChatDelta)
    (closing : MessageStreamAssembler.Closing) (events : List AnthropicSseEvent) : Prop where
  grammar : ∃ blocks : List Block, (∀ b ∈ blocks, b.Fits) ∧
    events = messageStart message :: blockEvents 0 blocks ++ closing.events
  text : carried ContentBlockDelta.textFragment events = String.join (deltas.map (·.textFragment))
  thinking : carried ContentBlockDelta.thinkingFragment events =
    String.join (deltas.map (·.thinkingFragment))
  signature : carried ContentBlockDelta.signatureFragment events =
    String.join (deltas.map (·.signatureFragment))

end ObeyGateway.Anthropic
