import Mathlib.Algebra.GroupWithZero.Nat
import ObeyGateway.Models.OpenAI

/-!
# Reasoning carriers

`reasoning_compat/detect.rs`. A request replays the reasoning of earlier turns in content blocks and in extra fields
of its messages, in the shapes of several model families. `detect` scans the assistant messages once and infers the
family they come from.
-/

namespace ObeyGateway.Reasoning
open Models

inductive ReasoningFamily
  | anthropicManual | anthropicAdaptive | openAIReasoning | deepSeek | openRouter | gemini | xai | none
deriving DecidableEq

structure ReasoningFootprint where
  hasThinkingBlocks : Bool := false
  hasRedactedThinking : Bool := false
  reasoningFieldMsgs : List Nat := []
  reasoningContentMsgs : List Nat := []
  responsesItems : List Nat := []
  sourceFamily : ReasoningFamily := .none
  blockCounts : Nat := 0
  approxReasoningTokens : Option Nat := none
deriving DecidableEq

def ReasoningFootprint.isEmpty (footprint : ReasoningFootprint) : Bool :=
  !footprint.hasThinkingBlocks && !footprint.hasRedactedThinking && footprint.reasoningFieldMsgs.isEmpty &&
    footprint.reasoningContentMsgs.isEmpty && footprint.responsesItems.isEmpty

def inferSourceFamily (footprint : ReasoningFootprint) (signedThinking : Bool) : ReasoningFamily :=
  if footprint.hasThinkingBlocks || footprint.hasRedactedThinking then
    if footprint.hasThinkingBlocks && !signedThinking then .anthropicAdaptive else .anthropicManual
  else if !footprint.responsesItems.isEmpty then .openRouter
  else if !footprint.reasoningContentMsgs.isEmpty && !footprint.reasoningFieldMsgs.isEmpty then .none
  else if !footprint.reasoningContentMsgs.isEmpty then .deepSeek
  else if !footprint.reasoningFieldMsgs.isEmpty then .openRouter
  else .none

/-- The locals of `detect`. -/
structure Scan where
  footprint : ReasoningFootprint := {}
  signedThinking : Bool := false
  reasoningChars : Nat := 0
  hasTextLength : Bool := false

namespace Scan

def accumulate (s : Scan) (text : Option String) : Scan :=
  match text with
  | some text => { s with reasoningChars := s.reasoningChars + text.length, hasTextLength := true }
  | none => s

def thinking (s : Scan) (block : Json) : Scan :=
  { s with
    footprint := { s.footprint with hasThinkingBlocks := true, blockCounts := s.footprint.blockCounts + 1 }
    signedThinking := s.signedThinking || (block.get "signature").isSome }.accumulate
      ((block.get "thinking").bind Json.asStr)

def redactedThinking (s : Scan) : Scan :=
  { s with
    footprint := { s.footprint with hasRedactedThinking := true, blockCounts := s.footprint.blockCounts + 1 } }

def reasoning (s : Scan) (block : Json) : Scan :=
  { s with footprint := { s.footprint with blockCounts := s.footprint.blockCounts + 1 } }.accumulate
    (((block.get "text").bind Json.asStr).or ((block.get "reasoning").bind Json.asStr))

end Scan

/-- The `type` of a content block. -/
def blockType (block : Json) : Option String := (block.get "type").bind Json.asStr

def scanBlock (s : Scan × Bool) (block : Json) : Scan × Bool :=
  match blockType block with
  | some "thinking" => (s.1.thinking block, s.2)
  | some "redacted_thinking" => (s.1.redactedThinking, s.2)
  | some "reasoning" => (s.1.reasoning block, true)
  | _ => s

def contentBlocks (content : Json) : List Json := content.asArray.getD []

def Scan.responsesItem (s : Scan) (index : Nat) (hasReasoningBlock : Bool) : Scan :=
  if hasReasoningBlock then
    { s with footprint := { s.footprint with responsesItems := s.footprint.responsesItems ++ [index] } }
  else s

def Scan.reasoningContent (s : Scan) (index : Nat) (value : Option Json) : Scan :=
  match value with
  | some value =>
    { s with
      footprint := { s.footprint with
        reasoningContentMsgs := s.footprint.reasoningContentMsgs ++ [index] } }.accumulate value.asStr
  | none => s

def Scan.reasoningField (s : Scan) (index : Nat) (value : Option Json) : Scan :=
  match value with
  | some value =>
    { s with
      footprint := { s.footprint with
        reasoningFieldMsgs := s.footprint.reasoningFieldMsgs ++ [index] } }.accumulate value.asStr
  | none => s

/-- `role.eq_ignore_ascii_case("assistant")` -/
def isAssistant (m : Message) : Bool := m.role.toList.map Char.toLower = "assistant".toList

def scanMessage (s : Scan) (m : Message × Nat) : Scan :=
  if isAssistant m.1 then
    let blocks := (contentBlocks m.1.content).foldl scanBlock (s, false)
    let s := blocks.1.responsesItem m.2 blocks.2
    let s := s.reasoningContent m.2 (Assoc.get m.1.extra "reasoning_content")
    s.reasoningField m.2 (Assoc.get m.1.extra "reasoning")
  else s

def charsPerToken : Nat := 4

def detect (messages : List Message) : ReasoningFootprint :=
  let s := messages.zipIdx.foldl scanMessage {}
  { s.footprint with
    sourceFamily := inferSourceFamily s.footprint s.signedThinking
    approxReasoningTokens :=
      if s.hasTextLength then some (min (s.reasoningChars / charsPerToken) (2 ^ 32 - 1)) else none }

/-! ### What the scan has seen -/

inductive Carrier
  | thinking (signed : Bool) | redactedThinking | reasoningBlock | reasoningContent | reasoningField
deriving DecidableEq

def Carrier.families : Carrier → List ReasoningFamily
  | .thinking _ | .redactedThinking => [.anthropicManual, .anthropicAdaptive]
  | .reasoningBlock | .reasoningField => [.openRouter]
  | .reasoningContent => [.deepSeek]

def blockCarrier (block : Json) : Option Carrier :=
  match blockType block with
  | some "thinking" => some (.thinking (block.get "signature").isSome)
  | some "redacted_thinking" => some .redactedThinking
  | some "reasoning" => some .reasoningBlock
  | _ => none

def carriers (m : Message) : List Carrier :=
  (contentBlocks m.content).filterMap blockCarrier ++
    ((Assoc.get m.extra "reasoning_content").toList.map (fun _ => .reasoningContent) ++
      (Assoc.get m.extra "reasoning").toList.map fun _ => .reasoningField)

/-- The carriers `detect` looks at. -/
def assistantCarriers (messages : List Message) : List Carrier := (messages.filter isAssistant).flatMap carriers

/-- The family a list of carriers is taken to come from: thinking dominates, then reasoning blocks, then the one field
that is there. -/
def dominant (cs : List Carrier) : ReasoningFamily :=
  if .thinking true ∈ cs then .anthropicManual
  else if .thinking false ∈ cs then .anthropicAdaptive
  else if .redactedThinking ∈ cs then .anthropicManual
  else if .reasoningBlock ∈ cs then .openRouter
  else if .reasoningContent ∈ cs ∧ .reasoningField ∈ cs then .none
  else if .reasoningContent ∈ cs then .deepSeek
  else if .reasoningField ∈ cs then .openRouter
  else .none

namespace Scan
variable {s : Scan} {cs : List Carrier} {pending : Bool}

@[simp] theorem footprint_accumulate (text : Option String) : (s.accumulate text).footprint = s.footprint := by
  cases text <;> rfl

@[simp] theorem signedThinking_accumulate (text : Option String) :
    (s.accumulate text).signedThinking = s.signedThinking := by
  cases text <;> rfl

/-- The flags say which carriers are in `cs`; a reasoning block of the message at hand may still be pending. -/
structure Sees (s : Scan) (pending : Bool) (cs : List Carrier) : Prop where
  thinking : s.footprint.hasThinkingBlocks = true ↔ .thinking true ∈ cs ∨ .thinking false ∈ cs
  signed : s.signedThinking = true ↔ .thinking true ∈ cs
  redacted : s.footprint.hasRedactedThinking = true ↔ .redactedThinking ∈ cs
  items : s.footprint.responsesItems ≠ [] ∨ pending = true ↔ .reasoningBlock ∈ cs
  content : s.footprint.reasoningContentMsgs ≠ [] ↔ .reasoningContent ∈ cs
  field : s.footprint.reasoningFieldMsgs ≠ [] ↔ .reasoningField ∈ cs

theorem sees_nil : Sees {} false [] := by constructor <;> simp

theorem Sees.scanBlock (h : s.Sees pending cs) (block : Json) :
    (scanBlock (s, pending) block).1.Sees (scanBlock (s, pending) block).2 (cs ++ (blockCarrier block).toList) := by
  unfold Reasoning.scanBlock blockCarrier
  split
  · cases hsig : (block.get "signature").isSome <;>
      constructor <;> simp [Scan.thinking, hsig, h.signed, h.redacted, h.items, h.content, h.field]
  · constructor <;> simp [Scan.redactedThinking, h.thinking, h.signed, h.items, h.content, h.field]
  · constructor <;> simp [Scan.reasoning, h.thinking, h.signed, h.redacted, h.content, h.field]
  · simpa using h

theorem Sees.scanBlocks (h : s.Sees pending cs) (blocks : List Json) :
    (blocks.foldl Reasoning.scanBlock (s, pending)).1.Sees (blocks.foldl Reasoning.scanBlock (s, pending)).2
      (cs ++ blocks.filterMap blockCarrier) := by
  induction blocks generalizing s pending cs with
  | nil => simpa using h
  | cons block blocks ih =>
    have hcons : (block :: blocks).filterMap blockCarrier =
        (blockCarrier block).toList ++ blocks.filterMap blockCarrier := by
      cases hb : blockCarrier block <;> simp [hb]
    rw [hcons, ← List.append_assoc]
    exact ih (h.scanBlock block)

theorem Sees.responsesItem (h : s.Sees pending cs) (index : Nat) : (s.responsesItem index pending).Sees false cs := by
  rcases pending with _ | _
  · exact h
  constructor <;> simp [Scan.responsesItem, h.thinking, h.signed, h.redacted, h.content, h.field]
  simpa using h.items

theorem Sees.reasoningContent (h : s.Sees pending cs) (index : Nat) (value : Option Json) :
    (s.reasoningContent index value).Sees pending (cs ++ value.toList.map fun _ => .reasoningContent) := by
  rcases value with _ | value
  · simpa [Scan.reasoningContent] using h
  constructor <;> simp [Scan.reasoningContent, h.thinking, h.signed, h.redacted, h.items, h.field]

theorem Sees.reasoningField (h : s.Sees pending cs) (index : Nat) (value : Option Json) :
    (s.reasoningField index value).Sees pending (cs ++ value.toList.map fun _ => .reasoningField) := by
  rcases value with _ | value
  · simpa [Scan.reasoningField] using h
  constructor <;> simp [Scan.reasoningField, h.thinking, h.signed, h.redacted, h.items, h.content]

theorem Sees.scanMessage (h : s.Sees false cs) (m : Message) (index : Nat) :
    (scanMessage s (m, index)).Sees false (cs ++ assistantCarriers [m]) := by
  unfold Reasoning.scanMessage assistantCarriers
  by_cases hrole : isAssistant m = true
  · simp only [hrole, if_true, List.filter_cons, List.filter_nil, List.flatMap_cons, List.flatMap_nil,
      List.append_nil, carriers, ← List.append_assoc]
    exact (((h.scanBlocks _).responsesItem index).reasoningContent index _).reasoningField index _
  · simpa [hrole] using h

theorem Sees.foldl_scanMessage (h : s.Sees false cs) (messages : List Message) (n : Nat) :
    ((messages.zipIdx n).foldl Reasoning.scanMessage s).Sees false (cs ++ assistantCarriers messages) := by
  induction messages generalizing s cs n with
  | nil => simpa [assistantCarriers] using h
  | cons m messages ih =>
    have hcons : assistantCarriers (m :: messages) = assistantCarriers [m] ++ assistantCarriers messages := by
      unfold assistantCarriers
      by_cases hrole : isAssistant m = true <;> simp [hrole]
    rw [hcons, ← List.append_assoc]
    exact ih (h.scanMessage m n) (n + 1)

end Scan

variable (messages : List Message)

theorem sees_detect :
    (messages.zipIdx.foldl scanMessage {}).Sees false (assistantCarriers messages) :=
  Scan.sees_nil.foldl_scanMessage messages 0

theorem inferSourceFamily_eq {s : Scan} {cs : List Carrier} (h : s.Sees false cs) :
    inferSourceFamily s.footprint s.signedThinking = dominant cs := by
  have hitems : s.footprint.responsesItems ≠ [] ↔ .reasoningBlock ∈ cs := by simpa using h.items
  unfold inferSourceFamily dominant
  by_cases hsigned : .thinking true ∈ cs
  · simp [hsigned, h.signed.2 hsigned, h.thinking.2 (.inl hsigned)]
  have hs : s.signedThinking = false := by simpa using h.signed.not.2 hsigned
  by_cases hunsigned : .thinking false ∈ cs
  · simp [hsigned, hunsigned, hs, h.thinking.2 (.inr hunsigned)]
  have ht : s.footprint.hasThinkingBlocks = false := by
    simpa using h.thinking.not.2 (not_or.2 ⟨hsigned, hunsigned⟩)
  by_cases hredacted : .redactedThinking ∈ cs
  · simp [hsigned, hunsigned, hredacted, ht, h.redacted.2 hredacted]
  have hr : s.footprint.hasRedactedThinking = false := by simpa using h.redacted.not.2 hredacted
  simp [hsigned, hunsigned, hredacted, ht, hr, ← hitems, ← h.content, ← h.field]

theorem sourceFamily_detect :
    (detect messages).sourceFamily = dominant (assistantCarriers messages) :=
  inferSourceFamily_eq (sees_detect messages)

theorem isEmpty_detect : (detect messages).isEmpty = true ↔ assistantCarriers messages = [] := by
  have h := sees_detect messages
  have hempty : (detect messages).isEmpty = (messages.zipIdx.foldl scanMessage {}).footprint.isEmpty := rfl
  rw [hempty, List.eq_nil_iff_forall_not_mem]
  generalize messages.zipIdx.foldl scanMessage {} = s at h
  have hitems : s.footprint.responsesItems ≠ [] ↔ .reasoningBlock ∈ assistantCarriers messages := by
    simpa using h.items
  simp only [ReasoningFootprint.isEmpty, Bool.and_eq_true, Bool.not_eq_true', List.isEmpty_iff]
  constructor
  · rintro ⟨⟨⟨⟨ht, hr⟩, hf⟩, hc⟩, hi⟩ c hmem
    cases c with
    | thinking signed =>
      have hseen : s.footprint.hasThinkingBlocks = true := by
        cases signed
        · exact h.thinking.2 (.inr hmem)
        · exact h.thinking.2 (.inl hmem)
      simp [ht] at hseen
    | redactedThinking => simp [h.redacted.2 hmem] at hr
    | reasoningBlock => exact hitems.2 hmem hi
    | reasoningContent => exact h.content.2 hmem hc
    | reasoningField => exact h.field.2 hmem hf
  · intro hnone
    refine ⟨⟨⟨⟨?_, ?_⟩, ?_⟩, ?_⟩, ?_⟩
    · simpa using h.thinking.not.2 (not_or.2 ⟨hnone _, hnone _⟩)
    · simpa using h.redacted.not.2 (hnone _)
    · simpa using h.field.not.2 (hnone _)
    · simpa using h.content.not.2 (hnone _)
    · simpa using hitems.not.2 (hnone _)

end ObeyGateway.Reasoning
