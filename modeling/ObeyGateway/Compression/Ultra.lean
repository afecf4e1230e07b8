import Mathlib.Algebra.Order.Ring.Rat
import ObeyGateway.Compression.Links
import ObeyGateway.Compression.Pipeline
import ObeyGateway.Lib.Components
import ObeyGateway.Lib.Text

/-!
# The ultra engine

`compression/engines/ultra.rs`: messages of low relevance are pruned, long code blocks are thinned, and if
the result is still over the target the oldest messages are cut. The arithmetic of `f32`, the pattern for
file paths and the letters of Unicode are parameters; nothing below depends on what they are.
-/

namespace ObeyGateway.Compression

open Text

/-- The operations on `f32` that scores are made of. -/
structure Floats (F : Type) where
  lit : Rat → F
  add : F → F → F
  mul : F → F → F
  min : F → F → F
  max : F → F → F
  neg : F → F
  exp : F → F
  le : F → F → Bool
  isFinite : F → Bool

/-- `filePaths` are the matches of the path pattern in a text. -/
structure Texts where
  filePaths : String → List String
  isAlphanumeric : Char → Bool

/-- The lines of a text, each with its ending; `line` is what was read of the current one, reversed. -/
def splitLines : List Char → List Char → List (List Char)
  | line, [] => if line = [] then [] else [line.reverse]
  | line, c :: text =>
    if c = '\n' then ('\n' :: line).reverse :: splitLines [] text else splitLines (c :: line) text

def linesPreservingEndings (text : List Char) : List (List Char) := splitLines [] text

def stripSuffix (line suffix : List Char) : Option (List Char) :=
  if suffix <:+ line then some (line.take (line.length - suffix.length)) else none

def lineBody (line : List Char) : List Char :=
  ((stripSuffix line ['\r', '\n']).or (stripSuffix line ['\n'])).getD line

def backtick : Char := Char.ofNat 96

def openingFence (line : List Char) : Option (Char × Nat) :=
  match trimStart (lineBody line) with
  | [] => none
  | fence :: rest =>
    if fence ≠ backtick ∧ fence ≠ '~' then none
    else
      let width := ((fence :: rest).takeWhile (· = fence)).length
      if 3 ≤ width then some (fence, width) else none

def isClosingFence (fence : Char) (minimumWidth : Nat) (line : List Char) : Bool :=
  let trimmed := trim (lineBody line)
  let width := (trimmed.takeWhile (· = fence)).length
  minimumWidth ≤ width && (trimmed.drop width).all isWhitespace

def containsFence : List (List Char) → Bool
  | [] => false
  | line :: lines =>
    (openingFence line).any (fun (fence, width) => lines.any (isClosingFence fence width)) ||
      containsFence lines

def containsFencedCodeBlock (text : String) : Bool := containsFence (linesPreservingEndings text.toList)

def startsWith (text : List Char) (start : String) : Bool := start.toList.isPrefixOf text

def stripStart (text : List Char) (start : String) : Option (List Char) :=
  if startsWith text start then some (text.drop start.length) else none

def endsWithAny (chars text : List Char) : Bool := text.getLast?.any (· ∈ chars)

/-- The index of the last occurrence. -/
def rfind (text : List Char) (c : Char) : Option Nat := rposition (· = c) text

def keywordsBeforeParenthesis : List String :=
  ["if", "for", "while", "match", "switch", "catch", "return", "Some", "Ok"]

def looksLikeSignature (texts : Texts) (line : List Char) : Bool :=
  let trimmed := trim (lineBody line)
  if trimmed.isEmpty || startsWith trimmed "//" || startsWith trimmed "#" || startsWith trimmed "/*" then
    false
  else
    let withoutVisibility := (((stripStart trimmed "pub ").or (stripStart trimmed "pub(crate) ")).or
      (stripStart trimmed "pub(super) ")).getD trimmed
    let withoutModifiers := (stripStart withoutVisibility "async ").getD withoutVisibility
    if ["fn ", "unsafe fn ", "def ", "function ", "async function "].any (startsWith withoutModifiers) then
      true
    else
      match trimmed.idxOf? '(', rfind trimmed ')' with
      | some openParenthesis, some closeParenthesis =>
        let before := trimmed.take openParenthesis
        let after := trim (trimmed.drop (closeParenthesis + 1))
        if closeParenthesis < openParenthesis || before.contains '=' ||
            !(after.head?.any (· ∈ [Json.openBrace, ':', '-'])) then false
        else
          let named := trim before
          let firstWord := named.takeWhile (!isWhitespace ·)
          String.ofList firstWord ∉ keywordsBeforeParenthesis &&
            named.getLast?.any fun c => texts.isAlphanumeric c || c = '_' || c = '$'
      | _, _ => false

def delimiterBalance (text : List Char) (opening closing : Char) : Int :=
  text.foldl (fun balance c =>
    if c = opening then balance + 1 else if c = closing then balance - 1 else balance) 0

def signatureIsIncomplete (line : List Char) : Bool :=
  let body := trim (lineBody line)
  0 < delimiterBalance body '(' ')' || 0 < delimiterBalance body '<' '>' ||
    (!body.contains ')' && !endsWithAny [Json.openBrace, ':', ';'] body)

def signatureContinuationEnds (line : List Char) : Bool :=
  endsWithAny [Json.openBrace, ':', ';'] (trimEnd (lineBody line))

/-- The lines of signatures; `inside` says that the last one goes on. -/
def signatureLines (texts : Texts) : Bool → List (List Char) → List (List Char)
  | _, [] => []
  | true, line :: lines => line :: signatureLines texts (!signatureContinuationEnds line) lines
  | false, line :: lines =>
    if looksLikeSignature texts line then
      line :: signatureLines texts (signatureIsIncomplete line) lines
    else signatureLines texts false lines

def codeBlockLineThreshold : Nat := 50
def codeEdgeLines : Nat := 10

def preferredLineEnding (lines : List (List Char)) (opening : List Char) : List Char :=
  if (lines ++ [opening]).any (['\r', '\n'] <:+ ·) then ['\r', '\n'] else ['\n']

def thinBlock (texts : Texts) (opening : List Char) (content : List (List Char))
    (closing : List Char) : List Char :=
  let whole := opening ++ content.flatten ++ closing
  if content.length ≤ codeBlockLineThreshold then whole
  else
    let first := content.take codeEdgeLines
    let last := content.drop (content.length - codeEdgeLines)
    let signatures := signatureLines texts false
      ((content.take (content.length - codeEdgeLines)).drop codeEdgeLines)
    let omitted := content.length - (codeEdgeLines * 2 + signatures.length)
    if omitted = 0 then whole
    else opening ++ first.flatten ++ signatures.flatten ++ "[... ".toList ++ Json.digits omitted ++
      " lines omitted ...]".toList ++ preferredLineEnding content opening ++ last.flatten ++ closing

/-- Goes over the lines; each round takes at least one of them, so their number is fuel enough. -/
def thinLines (texts : Texts) : Nat → List (List Char) → List Char
  | 0, _ => []
  | _, [] => []
  | fuel + 1, line :: lines =>
    match openingFence line with
    | none => line ++ thinLines texts fuel lines
    | some (fence, width) =>
      match lines.findIdx? (isClosingFence fence width) with
      | none => line ++ thinLines texts fuel lines
      | some offset =>
        thinBlock texts line (lines.take offset) (lines.getD offset []) ++
          thinLines texts fuel (lines.drop (offset + 1))

def thinLargeCodeBlocksInText (texts : Texts) (text : String) : String :=
  let lines := linesPreservingEndings text.toList
  String.ofList (thinLines texts lines.length lines)

def thinMessage (texts : Texts) (message : CompressibleMessage) : CompressibleMessage :=
  if message.cacheProtected then message
  else { message with
    content := transformTextLeaves (thinLargeCodeBlocksInText texts) message.content }

def thinLargeCodeBlocks (texts : Texts) (payload : CompressiblePayload) : CompressiblePayload :=
  { payload with messages := payload.messages.map (thinMessage texts) }

/-- `positions_by_original_index`: of messages with one index the last counts -/
def positionOf (messages : List CompressibleMessage) (originalIndex : Nat) : Option Nat :=
  rposition (·.originalIndex = originalIndex) messages

def edges (messages : List CompressibleMessage) : List (Nat × Nat) :=
  messages.zipIdx.flatMap fun (message, position) =>
    message.relationships.relatedMessageIndices.filterMap fun originalIndex =>
      (positionOf messages originalIndex).map fun related => (position, related)

def addEdge (adjacency : List (List Nat)) (edge : Nat × Nat) : List (List Nat) :=
  (adjacency.modify edge.1 (pushUnique · edge.2)).modify edge.2 (pushUnique · edge.1)

def adjacency (messages : List CompressibleMessage) : List (List Nat) :=
  (edges messages).foldl addEdge (List.replicate messages.length [])

def relationshipGroups (messages : List CompressibleMessage) : List (List Nat) :=
  (Components.groups (fun position => (adjacency messages).getD position []) messages.length).map
    (·.insertionSort (· ≤ ·))

/-- Some message of the group meets `p`. -/
def anyInGroup (messages : List CompressibleMessage) (p : CompressibleMessage → Bool)
    (group : List Nat) : Bool :=
  group.any fun position => (messages[position]?).any p

def retainGroups (messages : List CompressibleMessage) (keep : List Nat → Bool) :
    List CompressibleMessage :=
  let groups := relationshipGroups messages
  messages.zipIdx.filterMap fun (message, position) =>
    if groups.any fun group => keep group && position ∈ group then some message else none

def latestUserOriginalIndex (messages : List CompressibleMessage) : Option Nat :=
  (messages.reverse.find? (·.role = "user")).map (·.originalIndex)

def mustPreserve (latestUser : Option Nat) (message : CompressibleMessage) : Bool :=
  message.isSystem || latestUser = some message.originalIndex || message.cacheProtected ||
    !message.relationships.unresolvedToolCallIds.isEmpty

def isToolResult (message : CompressibleMessage) : Bool :=
  message.role = "tool" || message.role = "function" || !message.relationships.toolResultForIds.isEmpty

def leavesAlg : Json.ParaAlg (List String) where
  null := []
  bool _ := []
  number _ := []
  string text := [text]
  array parts := parts.flatMap fun p => if isVisited p.1 then p.2 else []
  object fields := (fields.find? fun f => isProse (blockType fields) f.1 f.2.1).elim [] (·.2.2)

def visibleTextLeaves : Json → List String := Json.para leavesAlg

def contentHasCodeBlock (value : Json) : Bool := (visibleTextLeaves value).any containsFencedCodeBlock

/-- `trim_end_matches` of punctuation -/
def trimPath (path : String) : String :=
  String.ofList (path.toList.reverse.dropWhile (· ∈ ['.', ',', ':', ';', '!', '?'])).reverse

def messageFilePaths (texts : Texts) (message : CompressibleMessage) : List String :=
  (visibleTextLeaves message.content).flatMap fun text => (texts.filePaths text).map trimPath

def recentPathMaxAge : Nat := 2

def recentFilePaths (texts : Texts) (messages : List CompressibleMessage) : List String :=
  (messages.filter fun m => !m.isSystem && m.age ≤ recentPathMaxAge).flatMap (messageFilePaths texts)

section
variable {F : Type} (floats : Floats F) (texts : Texts) (counter : TokenCounter)

def relevanceScore (recentPaths : List String) (message : CompressibleMessage) : F :=
  if message.isSystem then floats.lit 1
  else
    let age := floats.lit (min message.age 10000)
    let recency := floats.mul (floats.lit 0.5) (floats.exp (floats.mul (floats.neg (floats.lit 0.55)) age))
    let role := floats.lit (match message.role with
      | "user" => 0.20
      | "assistant" => 0.12
      | "tool" => 0.10
      | "function" => 0.10
      | _ => 0.08)
    let code := floats.lit (if contentHasCodeBlock message.content then 0.18 else 0)
    let pathOverlap := floats.lit
      (if (messageFilePaths texts message).any (· ∈ recentPaths) then 0.22 else 0)
    floats.min (floats.add (floats.add (floats.add recency role) code) pathOverlap) (floats.lit 0.99)

def normalizeThreshold (threshold : F) : F :=
  if floats.isFinite threshold then floats.min (floats.max threshold (floats.lit 0)) (floats.lit 1)
  else floats.lit 0.3

def keepRelevant (messages : List CompressibleMessage) (threshold : F) (group : List Nat) : Bool :=
  let latestUser := latestUserOriginalIndex messages
  let recentPaths := recentFilePaths texts messages
  let guarded := anyInGroup messages (mustPreserve latestUser) group
  let orphanResult := group.length = 1 && anyInGroup messages
    (fun m => isToolResult m && m.relationships.relatedMessageIndices.isEmpty) group
  let relevant := anyInGroup messages
    (fun m => floats.le threshold (relevanceScore floats texts recentPaths m)) group
  guarded || (!orphanResult && relevant)

def pruneByRelevance (payload : CompressiblePayload) (threshold : F) : CompressiblePayload :=
  if payload.messages.isEmpty then payload
  else CompressiblePayload.refreshMetadata { payload with
    messages := retainGroups payload.messages (keepRelevant floats texts payload.messages threshold) }

def compressionTarget (context : CompressionContext) : Option Nat :=
  match context.contextWindow, context.targetTokenBudget with
  | 0, none => none
  | 0, some budget => some budget
  | window + 1, none => some (window + 1)
  | window + 1, some budget => some (min (window + 1) budget)

def refreshMessageTokenCounts (context : CompressionContext) (payload : CompressiblePayload) :
    CompressiblePayload :=
  let model := if payload.model.isEmpty then context.model else payload.model
  { payload with messages := payload.messages.map fun m =>
      { m with tokenCount := counter.countMessage model m } }

def keepNewest (messages : List CompressibleMessage) (cut : Nat) (group : List Nat) : Bool :=
  anyInGroup messages (mustPreserve (latestUserOriginalIndex messages)) group ||
    cut ≤ group.max?.getD (2 ^ 64 - 1)

def payloadForCut (source : CompressiblePayload) (cut : Nat) : CompressiblePayload :=
  CompressiblePayload.refreshMetadata { source with
    messages := retainGroups source.messages (keepNewest source.messages cut) }

/-- The binary search; a round halves the distance, so that distance is fuel enough. -/
def searchCut (source : CompressiblePayload) (target : Nat) : Nat → Nat → Nat → Nat
  | 0, low, _ => low
  | fuel + 1, low, high =>
    if low < high then
      let middle := low + (high - low) / 2
      if counter.countTokens (payloadForCut source middle) ≤ target then
        searchCut source target fuel low middle
      else searchCut source target fuel (middle + 1) high
    else low

def binarySearchOldestCut (context : CompressionContext) (payload : CompressiblePayload)
    (target : Nat) : CompressiblePayload :=
  if payload.messages.isEmpty || counter.countTokens payload ≤ target then payload
  else
    let maximumCut := payload.messages.length
    let maximallyTruncated := payloadForCut payload maximumCut
    let cut := if counter.countTokens maximallyTruncated > target then maximumCut
      else searchCut counter payload target maximumCut 1 maximumCut
    refreshMessageTokenCounts counter context (payloadForCut payload cut).refreshMetadata

def squeeze (context : CompressionContext) (relevanceThreshold : F) (payload : CompressiblePayload) :
    CompressiblePayload :=
  let payload := payload.refreshMetadata
  let payload := pruneByRelevance floats texts payload (normalizeThreshold floats relevanceThreshold)
  let payload := thinLargeCodeBlocks texts payload
  let payload := refreshMessageTokenCounts counter context payload.refreshMetadata
  let payload := match compressionTarget context with
    | some target =>
      if counter.countTokens payload > target then binarySearchOldestCut counter context payload target
      else payload
    | none => payload
  refreshMessageTokenCounts counter context payload.refreshMetadata

/-- `UltraEngine::compress` -/
def ultraCompress (context : CompressionContext) (relevanceThreshold : F)
    (payload : CompressiblePayload) : CompressiblePayload × EngineResult :=
  let tokensBefore := counter.countTokens payload
  let squeezed := squeeze floats texts counter context relevanceThreshold payload
  let after := if counter.countTokens squeezed > tokensBefore then payload else squeezed
  (after, { engineName := "ultra", tokensBefore, tokensAfter := counter.countTokens after
            applied := after ≠ payload })

end

end ObeyGateway.Compression
