import ObeyGateway.Anthropic.MessageStream

/-!
# Tool calls of a message stream

Every block of a tool call that a stream opens is a tool call to a client, which assembles each block on
its own. A call whose fragments are not next to each other is opened again, with the same id, at every
fragment that follows something else: a call is one block if and only if it is `Unbroken`.
-/

namespace ObeyGateway.Anthropic

open AnthropicSseEvent

/-! ### What a client assembles -/

structure ToolUse where
  id : String
  name : String
  arguments : String
deriving DecidableEq

def ContentBlockDelta.partialJson? : ContentBlockDelta → Option String
  | .inputJsonDelta fragment => some fragment
  | _ => none

def partials (index : Nat) (events : List AnthropicSseEvent) : List String :=
  events.filterMap fun
    | contentBlockDelta i delta => if i = index then delta.partialJson? else none
    | _ => none

namespace Block

def partials (b : Block) : List String := b.deltas.filterMap (·.partialJson?)

def toolUse? (b : Block) : Option ToolUse :=
  match b.content with
  | .toolUse id name _ => some ⟨id, name, String.join b.partials⟩
  | _ => none

end Block

namespace ChatDelta

def chatIndex? : ChatDelta → Option Nat
  | .toolCall index _ _ _ => some index
  | _ => none

def id? : ChatDelta → Option String
  | .toolCall _ id _ _ => id
  | _ => none

def name? : ChatDelta → Option String
  | .toolCall _ _ name _ => name
  | _ => none

def argumentsOf (index : Nat) : ChatDelta → String
  | .toolCall i _ _ arguments => if i = index then arguments else ""
  | _ => ""

end ChatDelta

def chatIndices (deltas : List ChatDelta) : List Nat := (deltas.filterMap (·.chatIndex?)).eraseDups

def firstFragment? (deltas : List ChatDelta) (index : Nat) : Option ChatDelta :=
  deltas.find? (·.chatIndex? = some index)

def callOf (deltas : List ChatDelta) (index : Nat) : ToolUse where
  id := ((firstFragment? deltas index).bind (·.id?)).getD ""
  name := ((firstFragment? deltas index).bind (·.name?)).getD ""
  arguments := String.join (deltas.map (·.argumentsOf index))

def calls (deltas : List ChatDelta) : List ToolUse := (chatIndices deltas).map (callOf deltas)

section
variable {deltas : List ChatDelta} {delta : ChatDelta} {index : Nat}

end

/-! ### Blocks of calls -/

def Block.call? (b : Block) : Option (Nat × ToolUse) :=
  match b.key with
  | .tool index => b.toolUse?.map (index, ·)
  | _ => none

namespace Trace

def calls (t : Trace) : List (Nat × ToolUse) := t.blocks.filterMap (·.call?)

variable (t : Trace)

variable {delta : ChatDelta}

end Trace

/-! ### Runs -/

namespace MessageStreamAssembler
variable (s : MessageStreamAssembler)

variable (deltas : List ChatDelta)

end MessageStreamAssembler

end ObeyGateway.Anthropic
