import ObeyGateway.Lib.JsonPrint
import ObeyGateway.Router.SseReassembly
import Mathlib.Data.List.Forall2

/-!
# A reassembled stream is the fold of its deltas

A stream is a list of lines: chunks printed behind `data:`, the `[DONE]` line, and lines without a payload.
`sseDataPayloads_text` gives the payloads back, and `sse_reassembly_law` says when the reassembly is what the deltas
describe.
-/

namespace ObeyGateway
namespace Reassembly
open Text

/-- A chunk and its text on the wire: an object on one line, whose tool-call deltas have their index. -/
structure ChunkText (serde : SerdeText) where
  chunk : Json
  text : List Char
  parses : serde.fromStr text = some chunk
  opens : text.head? = some Json.openBrace
  closes : text.getLast? = some Json.closeBrace
  oneLine : '\n' ∉ text
  indexed : ∀ tcDelta ∈ toolCallDeltas chunk, (explicitIndex tcDelta).isSome = true

structure OtherLine where
  text : List Char
  oneLine : '\n' ∉ text
  notData : ¬ "data:".toList <+: trim text

inductive SseLine (serde : SerdeText)
  | chunk (c : ChunkText serde)
  | done
  | other (line : OtherLine)

/-- Whether a blank follows the colon. -/
def dataText (space : Bool) (payload : List Char) : List Char :=
  "data:".toList ++ (if space then [' '] else []) ++ payload

theorem dataText_eq (space : Bool) (payload : List Char) :
    dataText space payload = "data:".toList ++ (if space then [' '] else []) ++ payload := rfl

namespace SseLine
variable {serde : SerdeText}

def text (space : Bool) : SseLine serde → List Char
  | .chunk c => dataText space c.text
  | .done => dataText space "[DONE]".toList
  | .other line => line.text

def payload : SseLine serde → Option (List Char)
  | .chunk c => some c.text
  | .done => some "[DONE]".toList
  | .other _ => none

end SseLine

structure EndedLine (serde : SerdeText) where
  line : SseLine serde
  space : Bool
  crlf : Bool

def EndedLine.text {serde : SerdeText} (l : EndedLine serde) : List Char :=
  l.line.text l.space ++ if l.crlf then ['\r', '\n'] else ['\n']

structure SseStream (serde : SerdeText) where
  ended : List (EndedLine serde)
  last : Option (SseLine serde × Bool)

namespace SseStream
variable {serde : SerdeText} (stream : SseStream serde)

def text : List Char := stream.ended.flatMap EndedLine.text ++ (stream.last.map fun l => l.1.text l.2).getD []

def items : List (SseLine serde) := stream.ended.map (·.line) ++ (stream.last.map (·.1)).toList

end SseStream

/-- The chunks in front of `[DONE]`. -/
def received {serde : SerdeText} : List (SseLine serde) → List Json
  | [] => []
  | .chunk c :: more => c.chunk :: received more
  | .done :: _ => []
  | .other _ :: more => received more

def sawDone {serde : SerdeText} : List (SseLine serde) → Bool
  | [] => false
  | .done :: _ => true
  | .chunk _ :: more => sawDone more
  | .other _ :: more => sawDone more

/-- The deltas of the call with index `i`. -/
def deltasAt (chunks : List Json) (i : Nat) : List Json :=
  (chunks.flatMap toolCallDeltas).filter (explicitIndex · = some i)

def sentIds (chunks : List Json) (i : Nat) : List String := (deltasAt chunks i).filterMap (strField · "id")

/-- `id` is the one id that was sent for the index, empty ones apart. -/
def SentId (chunks : List Json) (i : Nat) (id : String) : Prop :=
  id ≠ "" ∧ id ∈ sentIds chunks i ∧ ∀ id' ∈ sentIds chunks i, id' = "" ∨ id' = id

structure CallLaw (chunks : List Json) (i : Nat) (call : ToolCall) : Prop where
  arguments : call.arguments = String.join ((deltasAt chunks i).filterMap functionArguments)
  name : call.name = (((deltasAt chunks i).filterMap functionName).filter (· ≠ "")).getLast?.getD ""
  id : ∀ id, SentId chunks i id → call.id = id

def lastUsage (chunks : List Json) : TokenUsage := (chunks.filterMap usageOf).getLast?.getD .default

def generatedTokens (chunks : List Json) : Nat :=
  if (lastUsage chunks).completionTokens = 0 then
    ((String.join (chunks.filterMap contentOf)).utf8ByteSize +
      (String.join (chunks.flatMap reasoningOf)).utf8ByteSize) / 4
  else (lastUsage chunks).completionTokens

/-- A missing total is the sum. -/
def expectedUsage (chunks : List Json) : TokenUsage :=
  if (lastUsage chunks).totalTokens = 0 then
    { lastUsage chunks with
      completionTokens := generatedTokens chunks
      totalTokens := (lastUsage chunks).promptTokens + generatedTokens chunks }
  else lastUsage chunks

def SumsFit (chunks : List Json) : Prop := (lastUsage chunks).promptTokens + generatedTokens chunks < 2 ^ 32

structure Law (chunks : List Json) (done : Bool) (out : SseReassembly) : Prop where
  content : out.response.content = String.join (chunks.filterMap contentOf)
  reasoning : out.response.reasoningContent = String.join (chunks.flatMap reasoningOf)
  calls : ∃ indexes : List Nat, indexes.Pairwise (· < ·) ∧
    (∀ i, i ∈ indexes ↔ deltasAt chunks i ≠ []) ∧ List.Forall₂ (CallLaw chunks) indexes out.response.toolCalls
  usage : out.response.usage = expectedUsage chunks
  completed : out.completed = true ↔ done = true ∨ ∃ chunk ∈ chunks, (finishReasonOf chunk).isSome = true

def Clean (chunk : Json) : Prop := chunk.get "error" = none ∧ finishReasonOf chunk ≠ some "error"

/-! ### From the text to the payloads -/

section Payloads
variable {serde : SerdeText}

theorem linePayloads_congr {line line' : List Char} (h : trim line = trim line') :
    linePayloads serde line = linePayloads serde line' := by
  rw [linePayloads, linePayloads, h]

theorem linePayloads_dataText {payload : List Char} (space : Bool) (hne : payload ≠ [])
    (hfirst : ∀ c ∈ payload.head?, isWhitespace c = false) (hlast : ∀ c ∈ payload.getLast?, isWhitespace c = false)
    (hvalid : contains payload "data: " = true → serde.isValid payload = true) :
    linePayloads serde (dataText space payload) = [payload] := by
  have htrim : trim (dataText space payload) = dataText space payload := by
    refine trim_eq_self ?_ ?_
    · intro c hc
      have hhead : (dataText space payload).head? = some 'd' := rfl
      obtain rfl : 'd' = c := Option.some.inj (hhead.symm.trans hc)
      decide
    · rw [dataText_eq, List.getLast?_append_of_ne_nil _ hne]
      exact hlast
  have hrest : stripPrefix "data:" (dataText space payload) = some ((if space then [' '] else []) ++ payload) := by
    simp [stripPrefix, dataText_eq]
  have hpayload : trim ((if space then [' '] else []) ++ payload) = payload := by
    rcases space with _ | _
    · exact trim_eq_self hfirst hlast
    rw [if_pos rfl, List.singleton_append, trim, trimStart_cons (by decide)]
    exact trim_eq_self hfirst hlast
  have hcut : (contains payload "data: " && !serde.isValid payload) = false := by
    cases hc : contains payload "data: " with
    | false => rfl
    | true => simp [hvalid hc]
  simp [linePayloads, htrim, hrest, hpayload, hne, hcut]

theorem linePayloads_text (line : SseLine serde) (space : Bool) :
    linePayloads serde (line.text space) = line.payload.toList := by
  cases line with
  | chunk c =>
    refine linePayloads_dataText space ?_ ?_ ?_ fun _ => serde.isValid_of_fromStr _ _ c.parses
    · rintro h
      simpa [h] using c.opens
    · rintro d hd
      obtain rfl : Json.openBrace = d := by simpa [c.opens] using hd
      decide
    · rintro d hd
      obtain rfl : Json.closeBrace = d := by simpa [c.closes] using hd
      decide
  | done =>
    refine linePayloads_dataText space (by decide) ?_ ?_ ?_
    · rintro d hd
      obtain rfl : '[' = d := by simpa using hd
      decide
    · rintro d hd
      obtain rfl : ']' = d := by simpa using hd
      decide
    · intro h
      exact absurd h (by decide +kernel)
  | other line =>
    have hnone : stripPrefix "data:" (trim line.text) = none := if_neg line.notData
    show linePayloads serde line.text = []
    simp [linePayloads, hnone]

theorem newline_notMem_text (line : SseLine serde) (space : Bool) : '\n' ∉ line.text space := by
  cases line with
  | chunk c =>
    show '\n' ∉ dataText space c.text
    cases space <;> simp [dataText_eq, c.oneLine]
  | done =>
    show '\n' ∉ dataText space "[DONE]".toList
    cases space <;> simp [dataText_eq]
  | other line => exact line.oneLine

theorem sseDataPayloads_ended (l : EndedLine serde) (rest : List Char) :
    sseDataPayloads serde (l.text ++ rest) = l.line.payload.toList ++ sseDataPayloads serde rest := by
  have hline := newline_notMem_text l.line l.space
  have hpayloads : ∀ line, trim line = trim (l.line.text l.space) → linePayloads serde line = l.line.payload.toList := by
    intro line h
    rw [linePayloads_congr h, linePayloads_text]
  rcases hcr : l.crlf with _ | _
  · have htext : l.text ++ rest = l.line.text l.space ++ '\n' :: rest := by simp [EndedLine.text, hcr]
    rw [sseDataPayloads, htext, lines_append hline, List.flatMap_cons, hpayloads _ (trim_stripCr _)]
    rfl
  have htext : l.text ++ rest = (l.line.text l.space ++ ['\r']) ++ '\n' :: rest := by simp [EndedLine.text, hcr]
  rw [sseDataPayloads, htext, lines_append (by simp [hline]), List.flatMap_cons,
    hpayloads _ ((trim_stripCr _).trans (trim_append_singleton (by decide) _))]
  rfl

theorem sseDataPayloads_text (stream : SseStream serde) :
    sseDataPayloads serde stream.text = stream.items.filterMap SseLine.payload := by
  obtain ⟨ended, last⟩ := stream
  unfold SseStream.text SseStream.items
  induction ended with
  | nil =>
    rcases last with _ | l
    · rfl
    simp only [List.flatMap_nil, List.nil_append, Option.map_some, Option.getD_some, List.map_nil, Option.toList_some]
    rw [sseDataPayloads, lines_unterminated (newline_notMem_text l.1 l.2)]
    have hpayload := linePayloads_text l.1 l.2
    split
    · rename_i hnil
      rw [hnil] at hpayload
      have hempty : l.1.payload = none := by
        cases hp : l.1.payload with
        | none => rfl
        | some p => simp [hp, linePayloads, stripPrefix, trim, trimStart, trimEnd] at hpayload
      simp [hempty]
    · rw [List.flatMap_singleton, hpayload, List.filterMap_cons]
      cases l.1.payload <;> rfl
  | cons l ended ih =>
    rw [List.flatMap_cons, List.append_assoc, sseDataPayloads_ended]
    simp only at ih
    rw [ih, List.map_cons, List.cons_append, List.filterMap_cons]
    cases l.line.payload <;> rfl

end Payloads

section Gather
variable {serde : SerdeText}

theorem chunkError_eq_none_iff {chunk : Json} {text : List Char} : chunkError chunk text = none ↔ Clean chunk := by
  unfold chunkError Clean
  cases chunk.get "error" with
  | some | none => simp

variable (c : ChunkText serde)

theorem chunkText_trimEnd : trimEnd c.text = c.text := by
  refine trimEnd_eq_self fun d hd => ?_
  obtain rfl : Json.closeBrace = d := by simpa [c.closes] using hd
  decide

theorem chunkText_ne_done : c.text ≠ "[DONE]".toList := by
  intro h
  have hparses := c.parses
  rw [h, serde.fromStr_done] at hparses
  cases hparses

theorem gather_chunk (more : List (List Char)) (g : Gathered) : gather serde (c.text :: more) g =
      (chunkError c.chunk c.text).elim (gather serde more (g.add c.chunk)) .error := by
  rw [gather, if_neg (chunkText_ne_done c), chunkText_trimEnd, c.parses]
  simp only
  cases chunkError c.chunk c.text <;> rfl

theorem gather_ok (items : List (SseLine serde)) (h : ∀ chunk ∈ received items, Clean chunk) (g : Gathered) :
    gather serde (items.filterMap SseLine.payload) g = .ok ((received items).foldl Gathered.add g, sawDone items) := by
  induction items generalizing g with
  | nil => rfl
  | cons line items ih =>
    cases line with
    | chunk c =>
      obtain ⟨hc, hitems⟩ := List.forall_mem_cons.1 h
      show gather serde (c.text :: items.filterMap SseLine.payload) g = _
      rw [gather_chunk, chunkError_eq_none_iff.2 hc]
      exact ih hitems _
    | done => rfl
    | other line => exact ih h g

theorem gather_error (items : List (SseLine serde)) (h : ∃ chunk ∈ received items, ¬ Clean chunk) (g : Gathered) :
    ∃ e, gather serde (items.filterMap SseLine.payload) g = .error e := by
  induction items generalizing g with
  | nil => simp [received] at h
  | cons line items ih =>
    cases line with
    | chunk c =>
      show ∃ e, gather serde (c.text :: items.filterMap SseLine.payload) g = _
      rw [gather_chunk]
      cases herr : chunkError c.chunk c.text with
      | some e => exact ⟨e, rfl⟩
      | none =>
        refine ih ?_ _
        obtain ⟨chunk, hmem, hclean⟩ := h
        rcases List.mem_cons.1 hmem with rfl | hmem
        · exact absurd (chunkError_eq_none_iff.1 herr) hclean
        · exact ⟨chunk, hmem, hclean⟩
    | done => simp [received] at h
    | other line => exact ih h g

end Gather

/-! ### What is gathered -/

theorem foldl_append_eq (start : String) (texts : List String) :
    texts.foldl (· ++ ·) start = start ++ String.join texts := by
  induction texts generalizing start with
  | nil => simp [String.join]
  | cons t texts ih =>
    have hcons : String.join (t :: texts) = t ++ String.join texts := by
      show texts.foldl (· ++ ·) ("" ++ t) = _
      rw [String.empty_append, ih]
    rw [List.foldl_cons, ih, hcons, String.append_assoc]

theorem foldl_getD_eq {α β : Type} (f : α → Option β) (start : β) (items : List α) :
    items.foldl (fun b a => (f a).getD b) start = (items.filterMap f).getLast?.getD start := by
  induction items generalizing start with
  | nil => rfl
  | cons a items ih =>
    rw [List.foldl_cons, ih, List.filterMap_cons]
    cases f a with
    | none => rfl
    | some b => cases h : (items.filterMap f).getLast? <;> simp [List.getLast?_cons, h]

section Calls
variable {chunks : List Json}

variable (entry : ToolCall)

theorem merge_foldl_id (deltas : List Json) :
    (deltas.foldl ToolCall.merge entry).id = (deltas.filterMap (strField · "id")).getLast?.getD entry.id := by
  rw [← foldl_getD_eq]
  induction deltas generalizing entry with
  | nil => rfl
  | cons d deltas ih => exact ih _

theorem merge_foldl_name (deltas : List Json) : (deltas.foldl ToolCall.merge entry).name =
      ((deltas.filterMap functionName).filter (· ≠ "")).getLast?.getD entry.name := by
  have hnames : (deltas.filterMap functionName).filter (· ≠ "") =
      deltas.filterMap fun d => (functionName d).filter (· ≠ "") := by
    rw [List.filter_filterMap]
  rw [hnames, ← foldl_getD_eq]
  clear hnames
  induction deltas generalizing entry with
  | nil => rfl
  | cons d deltas ih => exact ih _

theorem merge_foldl_arguments (deltas : List Json) : (deltas.foldl ToolCall.merge entry).arguments =
      entry.arguments ++ String.join (deltas.filterMap functionArguments) := by
  rw [← foldl_append_eq]
  induction deltas generalizing entry with
  | nil => rfl
  | cons d deltas ih =>
    rw [List.foldl_cons, ih, List.filterMap_cons]
    cases h : functionArguments d with
    | none | some => simp [ToolCall.merge, h]

def callAt (chunks : List Json) (i : Nat) : ToolCall := (deltasAt chunks i).foldl ToolCall.merge .new

def indexOf (tcDelta : Json) : Nat := (explicitIndex tcDelta).getD 0

def upsert (entry : Option ToolCall) (tcDelta : Json) : ToolCall := (entry.getD .new).merge tcDelta

theorem foldl_mergeToolCall {deltas : List Json} (h : ∀ d ∈ deltas, (explicitIndex d).isSome = true)
    (calls : List (Nat × ToolCall)) :
    deltas.foldl mergeToolCall calls =
      deltas.foldl (fun m d => Assoc.insert m (indexOf d) (upsert (Assoc.get m (indexOf d)) d)) calls := by
  refine List.foldl_ext _ _ calls fun m d hd => ?_
  obtain ⟨i, hi⟩ := Option.isSome_iff_exists.1 (h d hd)
  simp [mergeToolCall, indexOf, upsert, hi]

theorem filter_indexOf {deltas : List Json} (h : ∀ d ∈ deltas, (explicitIndex d).isSome = true) (i : Nat) :
    deltas.filter (indexOf · = i) = deltas.filter (explicitIndex · = some i) := by
  refine List.filter_congr fun d hd => ?_
  obtain ⟨j, hj⟩ := Option.isSome_iff_exists.1 (h d hd)
  simp [indexOf, hj]

theorem foldl_upsert (deltas : List Json) (entry : ToolCall) :
    deltas.foldl (fun o d => some (upsert o d)) (some entry) = some (deltas.foldl ToolCall.merge entry) := by
  induction deltas generalizing entry with
  | nil => rfl
  | cons d deltas ih => exact ih _

theorem toolCalls_eq (h : ∀ chunk ∈ chunks, ∀ d ∈ toolCallDeltas chunk, (explicitIndex d).isSome = true) :
    ∃ indexes : List Nat, indexes.Pairwise (· < ·) ∧ (∀ i, i ∈ indexes ↔ deltasAt chunks i ≠ []) ∧
      (chunks.flatMap toolCallDeltas).foldl mergeToolCall [] = indexes.map fun i => (i, callAt chunks i) := by
  have hindexed : ∀ d ∈ chunks.flatMap toolCallDeltas, (explicitIndex d).isSome = true := by
    intro d hd
    obtain ⟨chunk, hchunk, hd⟩ := List.mem_flatMap.1 hd
    exact h chunk hchunk d hd
  set calls := (chunks.flatMap toolCallDeltas).foldl mergeToolCall [] with hcalls
  rw [foldl_mergeToolCall hindexed] at hcalls
  have hasc : (Assoc.keys calls).Pairwise (· < ·) := by
    rw [hcalls]
    exact Assoc.ascending_foldl_upsert indexOf upsert _ List.Pairwise.nil
  have hget : ∀ i, Assoc.get calls i = if deltasAt chunks i = [] then none else some (callAt chunks i) := by
    intro i
    rw [hcalls, Assoc.get_foldl_upsert indexOf upsert, filter_indexOf hindexed]
    show (deltasAt chunks i).foldl _ none = _
    unfold callAt
    cases deltasAt chunks i with
    | nil => rfl
    | cons d deltas => exact foldl_upsert deltas _
  refine ⟨Assoc.keys calls, hasc, fun i => ?_, ?_⟩
  · rw [← Assoc.get_isSome, hget]
    split <;> simp [*]
  · rw [Assoc.keys, List.map_map]
    refine (List.map_id calls).symm.trans (List.map_congr_left fun e he => ?_)
    have hnodup : (Assoc.keys calls).Nodup := hasc.imp fun hlt => hlt.ne
    have hsome := (Assoc.mem_iff_get hnodup).1 (show (e.1, e.2) ∈ calls from he)
    rw [hget] at hsome
    split at hsome
    · cases hsome
    · exact Prod.ext rfl (Option.some.inj hsome).symm

end Calls

section Fields
variable (g : Gathered) (chunks : List Json)

theorem foldl_add_content :
    (chunks.foldl Gathered.add g).content = g.content ++ String.join (chunks.filterMap contentOf) := by
  rw [← foldl_append_eq]
  induction chunks generalizing g with
  | nil => rfl
  | cons chunk chunks ih =>
    rw [List.foldl_cons, ih, List.filterMap_cons]
    cases h : contentOf chunk with
    | none | some => simp [Gathered.add, h]

theorem foldl_add_reasoning :
    (chunks.foldl Gathered.add g).reasoning = g.reasoning ++ String.join (chunks.flatMap reasoningOf) := by
  rw [← foldl_append_eq]
  induction chunks generalizing g with
  | nil => rfl
  | cons chunk chunks ih =>
    rw [List.foldl_cons, ih, List.flatMap_cons, List.foldl_append]
    rfl

theorem foldl_add_toolCalls :
    (chunks.foldl Gathered.add g).toolCalls = (chunks.flatMap toolCallDeltas).foldl mergeToolCall g.toolCalls := by
  induction chunks generalizing g with
  | nil => rfl
  | cons chunk chunks ih =>
    rw [List.foldl_cons, ih, List.flatMap_cons, List.foldl_append]
    rfl

theorem foldl_add_reportedUsage :
    (chunks.foldl Gathered.add g).reportedUsage = (chunks.filterMap usageOf).getLast?.or g.reportedUsage := by
  induction chunks generalizing g with
  | nil => simp
  | cons chunk chunks ih =>
    rw [List.foldl_cons, ih, List.filterMap_cons]
    cases h : usageOf chunk with
    | none => simp [Gathered.add, h]
    | some usage => cases hl : (chunks.filterMap usageOf).getLast? <;> simp [Gathered.add, h, hl, List.getLast?_cons]

theorem foldl_add_finishReason : (chunks.foldl Gathered.add g).finishReason.isSome = true ↔
      g.finishReason.isSome = true ∨ ∃ chunk ∈ chunks, (finishReasonOf chunk).isSome = true := by
  induction chunks generalizing g with
  | nil => simp
  | cons chunk chunks ih =>
    rw [List.foldl_cons, ih, List.exists_mem_cons_iff]
    have hadd : (g.add chunk).finishReason = (finishReasonOf chunk).or g.finishReason := rfl
    rw [hadd, Option.isSome_or, Bool.or_eq_true]
    tauto

theorem foldl_add_chunkCount (h : g.chunkCount < 2 ^ 32) :
    (chunks.foldl Gathered.add g).chunkCount = (g.chunkCount + chunks.length) % 2 ^ 32 := by
  induction chunks generalizing g with
  | nil => exact (Nat.mod_eq_of_lt h).symm
  | cons chunk chunks ih =>
    have hadd : (g.add chunk).chunkCount = (g.chunkCount + 1) % 2 ^ 32 := rfl
    have hlt : (g.add chunk).chunkCount < 2 ^ 32 := Nat.mod_lt _ (by decide)
    rw [List.foldl_cons, ih _ hlt, hadd, Nat.mod_add_mod, List.length_cons]
    congr 1
    omega

theorem completeUsage_eq (h : SumsFit chunks) :
    completeUsage ((chunks.filterMap usageOf).getLast?) (String.join (chunks.filterMap contentOf))
      (String.join (chunks.flatMap reasoningOf)) = expectedUsage chunks := by
  have hgenerated : generatedTokens chunks < 2 ^ 32 := lt_of_le_of_lt (Nat.le_add_left _ _) h
  have hcompletion : (if (lastUsage chunks).completionTokens = 0 then
      ((String.join (chunks.filterMap contentOf)).utf8ByteSize +
        (String.join (chunks.flatMap reasoningOf)).utf8ByteSize) / 4 % 2 ^ 32
      else (lastUsage chunks).completionTokens) = generatedTokens chunks := by
    unfold generatedTokens at hgenerated ⊢
    split
    · rename_i h0
      rw [if_pos h0] at hgenerated
      exact Nat.mod_eq_of_lt hgenerated
    · rfl
  have hlast : (chunks.filterMap usageOf).getLast?.getD .default = lastUsage chunks := rfl
  unfold completeUsage expectedUsage
  simp only [hlast, hcompletion]
  split
  · rw [Nat.mod_eq_of_lt h]
  · rfl

end Fields

section Ids
variable {chunks : List Json} {i n : Nat} {uuid : Nat → String}

def repaired (uuid : Nat → String) (n : Nat) (call : ToolCall) : ToolCall :=
  if call.name ≠ "" ∧ call.id = "" then { call with id := "call_" ++ uuid n } else call

theorem callAt_id : (callAt chunks i).id = (sentIds chunks i).getLast?.getD "" := merge_foldl_id .new _

/-- The entry of an index keeps the law but for the id, which an empty one may have replaced. -/
theorem callLaw_repaired_iff (hfresh : "call_" ++ uuid n ∉ sentIds chunks i) :
    CallLaw chunks i (repaired uuid n (callAt chunks i)) ↔
      ∀ id, SentId chunks i id → (sentIds chunks i).getLast? ≠ some "" := by
  have harguments : (repaired uuid n (callAt chunks i)).arguments = (callAt chunks i).arguments := by
    unfold repaired
    split <;> rfl
  have hname : (repaired uuid n (callAt chunks i)).name = (callAt chunks i).name := by
    unfold repaired
    split <;> rfl
  constructor
  · intro hlaw id hsent hlast
    have hid : (callAt chunks i).id = "" := by simp [callAt_id, hlast]
    have heq := hlaw.id id hsent
    unfold repaired at heq
    split at heq
    · rw [← heq] at hsent
      exact hfresh hsent.2.1
    · exact hsent.1 (heq ▸ hid)
  · intro h
    refine ⟨?_, ?_, fun id hsent => ?_⟩
    · rw [harguments]
      exact (merge_foldl_arguments .new _).trans (String.empty_append ..)
    · rw [hname]
      exact merge_foldl_name .new _
    · obtain ⟨last, hlast⟩ : ∃ last, (sentIds chunks i).getLast? = some last :=
        ⟨_, List.getLast?_eq_some_getLast (List.ne_nil_of_mem hsent.2.1)⟩
      have hid : (callAt chunks i).id = id := by
        rw [callAt_id, hlast, Option.getD_some]
        rcases hsent.2.2 last (List.mem_of_getLast? hlast) with rfl | rfl
        · exact absurd hlast (h _ hsent)
        · rfl
      rw [repaired, if_neg fun hc => hsent.1 (hid ▸ hc.2)]
      exact hid

theorem repairToolCalls_toolCalls (uuid : Nat → String) (response : Response) :
    (repairToolCalls uuid response).toolCalls = response.toolCalls.mapIdx (repaired uuid) := by
  unfold repairToolCalls
  split
  · rename_i h
    simp [h]
  · rfl

theorem forall₂_mapIdx_map_iff {α β : Type} {R : α → β → Prop} {f : Nat → β → β} {g : α → β} {xs : List α} :
    List.Forall₂ R xs ((xs.map g).mapIdx f) ↔ ∀ n x, xs[n]? = some x → R x (f n (g x)) := by
  induction xs generalizing f with
  | nil => simp
  | cons x xs ih =>
    rw [List.map_cons, List.mapIdx_cons, List.forall₂_cons, ih]
    constructor
    · rintro ⟨hx, hxs⟩ n y hy
      cases n with
      | zero => simpa using (Option.some.inj hy) ▸ hx
      | succ n => exact hxs n y hy
    · intro h
      exact ⟨h 0 x rfl, fun n y hy => h (n + 1) y hy⟩

end Ids

section Stream
variable {serde : SerdeText}

theorem received_indexed (items : List (SseLine serde)) :
    ∀ chunk ∈ received items, ∀ d ∈ toolCallDeltas chunk, (explicitIndex d).isSome = true := by
  induction items with
  | nil => simp [received]
  | cons line items ih =>
    cases line with
    | chunk c => exact List.forall_mem_cons.2 ⟨c.indexed, ih⟩
    | done => simp [received]
    | other line => exact ih

def gathered (items : List (SseLine serde)) : Gathered := (received items).foldl Gathered.add .init

theorem reassembleSseStream_clean (uuid : Nat → String) (stream : SseStream serde)
    (h : ∀ chunk ∈ received stream.items, Clean chunk) :
    reassembleSseStream serde uuid stream.text =
      if (received stream.items).length % 2 ^ 32 = 0 then .error .noChunks
      else .ok ⟨repairToolCalls uuid (gathered stream.items).response,
        sawDone stream.items || (gathered stream.items).finishReason.isSome⟩ := by
  have hcount : (gathered stream.items).chunkCount = (received stream.items).length % 2 ^ 32 := by
    rw [gathered, foldl_add_chunkCount _ _ (by decide)]
    simp [Gathered.init]
  rw [reassembleSseStream, sseDataPayloads_text, gather_ok _ h]
  simp only [← hcount]
  rfl

theorem ascending_unique {xs ys : List Nat} (hxs : xs.Pairwise (· < ·)) (hys : ys.Pairwise (· < ·))
    (h : ∀ i, i ∈ xs ↔ i ∈ ys) : xs = ys := by
  have hperm : xs.Perm ys := (List.perm_ext_iff_of_nodup (hxs.imp fun hlt => hlt.ne) (hys.imp fun hlt => hlt.ne)).2 h
  exact hperm.eq_of_pairwise (fun a b _ _ hab hba => absurd (hab.trans hba) (lt_irrefl a)) hxs hys

theorem law_gathered_iff (uuid : Nat → String) (items : List (SseLine serde)) (hsums : SumsFit (received items))
    (hfresh : ∀ n i, "call_" ++ uuid n ∉ sentIds (received items) i) :
    Law (received items) (sawDone items) ⟨repairToolCalls uuid (gathered items).response,
        sawDone items || (gathered items).finishReason.isSome⟩ ↔
      ∀ i id, SentId (received items) i id → (sentIds (received items) i).getLast? ≠ some "" := by
  obtain ⟨indexes, hasc, hmem, hcalls⟩ := toolCalls_eq (received_indexed items)
  have htoolCalls : (repairToolCalls uuid (gathered items).response).toolCalls =
      (indexes.map (callAt (received items))).mapIdx (repaired uuid) := by
    have hmap : (gathered items).response.toolCalls = indexes.map (callAt (received items)) := by
      show (gathered items).toolCalls.map (·.2) = _
      rw [gathered, foldl_add_toolCalls]
      show ((received items).flatMap toolCallDeltas |>.foldl mergeToolCall []).map (·.2) = _
      rw [hcalls, List.map_map]
      rfl
    rw [repairToolCalls_toolCalls, hmap]
  have hrest : ∀ response : Response, (repairToolCalls uuid response).content = response.content ∧
      (repairToolCalls uuid response).reasoningContent = response.reasoningContent ∧
      (repairToolCalls uuid response).usage = response.usage := by
    intro response
    unfold repairToolCalls
    split <;> exact ⟨rfl, rfl, rfl⟩
  have hcontent : (gathered items).content = String.join ((received items).filterMap contentOf) :=
    (foldl_add_content _ _).trans (String.empty_append ..)
  have hreasoning : (gathered items).reasoning = String.join ((received items).flatMap reasoningOf) :=
    (foldl_add_reasoning _ _).trans (String.empty_append ..)
  constructor
  · intro hlaw i id hsent
    obtain ⟨indexes', hasc', hmem', hforall⟩ := hlaw.calls
    obtain rfl := ascending_unique hasc' hasc fun i => (hmem' i).trans (hmem i).symm
    change List.Forall₂ _ _ (repairToolCalls uuid (gathered items).response).toolCalls at hforall
    rw [htoolCalls, forall₂_mapIdx_map_iff] at hforall
    have hi : i ∈ indexes' := by
      rw [hmem']
      intro hnil
      have hnone := hsent.2.1
      simp [sentIds, hnil] at hnone
    obtain ⟨n, hn⟩ := List.mem_iff_getElem?.1 hi
    exact (callLaw_repaired_iff (hfresh n i)).1 (hforall n i hn) id hsent
  · intro h
    refine ⟨?_, ?_, ⟨indexes, hasc, hmem, ?_⟩, ?_, ?_⟩
    · rw [(hrest _).1]
      exact hcontent
    · rw [(hrest _).2.1]
      exact hreasoning
    · rw [htoolCalls, forall₂_mapIdx_map_iff]
      exact fun n i _ => (callLaw_repaired_iff (hfresh n i)).2 fun id hsent => h i id hsent
    · rw [(hrest _).2.2, ← completeUsage_eq _ hsums, ← hcontent, ← hreasoning]
      show completeUsage (gathered items).reportedUsage _ _ = _
      rw [gathered, foldl_add_reportedUsage]
      simp [Gathered.init]
    · rw [Bool.or_eq_true, gathered, foldl_add_finishReason]
      simp [Gathered.init]

/-- The reassembly is the fold of the deltas exactly if there are chunks, none of them reports an error, and no id
was replaced by an empty one. -/
theorem sse_reassembly_law (uuid : Nat → String) (stream : SseStream serde) (hsums : SumsFit (received stream.items))
    (hfresh : ∀ n i, "call_" ++ uuid n ∉ sentIds (received stream.items) i) :
    (∃ out, reassembleSseStream serde uuid stream.text = .ok out ∧
      Law (received stream.items) (sawDone stream.items) out) ↔
    (received stream.items).length % 2 ^ 32 ≠ 0 ∧ (∀ chunk ∈ received stream.items, Clean chunk) ∧
      ∀ i id, SentId (received stream.items) i id → (sentIds (received stream.items) i).getLast? ≠ some "" := by
  by_cases hclean : ∀ chunk ∈ received stream.items, Clean chunk
  · rw [reassembleSseStream_clean uuid stream hclean]
    by_cases hcount : (received stream.items).length % 2 ^ 32 = 0
    · rw [if_pos hcount]
      exact iff_of_false (by simp) fun h => h.1 hcount
    · rw [if_neg hcount, ← law_gathered_iff uuid stream.items hsums hfresh]
      constructor
      · rintro ⟨out, hout, hlaw⟩
        cases hout
        exact ⟨hcount, hclean, hlaw⟩
      · rintro ⟨-, -, hlaw⟩
        exact ⟨_, rfl, hlaw⟩
  · obtain ⟨e, he⟩ := gather_error stream.items (by simpa using hclean) .init
    refine iff_of_false ?_ fun h => hclean h.2.1
    rintro ⟨out, hout, -⟩
    rw [reassembleSseStream, sseDataPayloads_text, he] at hout
    cases hout

end Stream

/-! ### Streams of printed chunks -/

def printed (chunk : Json) : List Char := Json.print Json.wireNumbers chunk

def printedSerde (chunks : List Json) (h : "[DONE]".toList ∉ chunks.map printed) : SerdeText where
  fromStr text := chunks.find? (printed · = text)
  isValid text := (chunks.find? (printed · = text)).isSome
  isValid_of_fromStr text value hvalue := by rw [hvalue]; rfl
  fromStr_done := by
    rw [List.find?_eq_none]
    intro chunk hchunk hdone
    exact h (List.mem_map.2 ⟨chunk, hchunk, of_decide_eq_true hdone⟩)

theorem fromStr_printed {chunks : List Json} {h : "[DONE]".toList ∉ chunks.map printed} {chunk : Json}
    (hmem : chunk ∈ chunks) : (printedSerde chunks h).fromStr (printed chunk) = some chunk := by
  obtain ⟨found, hfound⟩ : ∃ found, chunks.find? (printed · = printed chunk) = some found := by
    rw [← Option.isSome_iff_exists, List.find?_isSome]
    exact ⟨chunk, hmem, by simp⟩
  have hprinted : printed found = printed chunk := by simpa using List.find?_some hfound
  show chunks.find? (printed · = printed chunk) = some chunk
  rw [hfound, Json.print_injective hprinted]

def isLine (text : List Char) : Bool :=
  text.head? = some Json.openBrace && text.getLast? = some Json.closeBrace && '\n' ∉ text

def printedChunk {chunks : List Json} {h : "[DONE]".toList ∉ chunks.map printed} (chunk : Json) (hmem : chunk ∈ chunks)
    (hline : isLine (printed chunk) = true) (hindexed : ∀ d ∈ toolCallDeltas chunk, (explicitIndex d).isSome = true) :
    ChunkText (printedSerde chunks h) where
  chunk
  text := printed chunk
  parses := fromStr_printed hmem
  opens := by simp only [isLine, Bool.and_eq_true, decide_eq_true_eq] at hline; exact hline.1.1
  closes := by simp only [isLine, Bool.and_eq_true, decide_eq_true_eq] at hline; exact hline.1.2
  oneLine := by simp only [isLine, Bool.and_eq_true, decide_eq_true_eq] at hline; exact hline.2
  indexed := hindexed

def pingLine : OtherLine := ⟨": ping".toList, by decide, by decide⟩

def choiceChunk (delta more : List (String × Json)) : Json :=
  .object (("choices", .array [.object [("delta", .object delta)]]) :: more)

def callDelta (arguments id : String) : List (String × Json) :=
  [("tool_calls", .array [.object [("function", .object [("arguments", .string arguments), ("name", .string "read_file")]),
    ("id", .string id), ("index", .number (.posInt 0))]])]

/-- Two pieces of a call; the second repeats its id or has an empty one. -/
def callChunks (again : Bool) : List Json :=
  [choiceChunk (callDelta "data: " "call_1") [], choiceChunk (callDelta "1" (if again then "call_1" else "")) []]

def callSerde (again : Bool) : SerdeText := printedSerde (callChunks again) (by cases again <;> decide +kernel)

def callStream (again : Bool) : SseStream (callSerde again) where
  ended :=
    [⟨.other pingLine, true, true⟩,
      ⟨.chunk (printedChunk (choiceChunk (callDelta "data: " "call_1") []) (by simp [callChunks]) (by decide +kernel)
        (by decide +kernel)), true, false⟩,
      ⟨.chunk (printedChunk (choiceChunk (callDelta "1" (if again then "call_1" else "")) []) (by simp [callChunks])
        (by cases again <;> decide +kernel) (by cases again <;> decide +kernel)), false, true⟩]
  last := some (.done, true)

variable (again : Bool)

theorem received_callStream : received (callStream again).items = callChunks again := rfl

theorem sentIds_callChunks (i : Nat) :
    sentIds (callChunks again) i = if i = 0 then ["call_1", if again then "call_1" else ""] else [] := by
  cases i with
  | zero | succ => rfl

theorem callStream_fresh (i : Nat) : "call_" ++ "f2c1" ∉ sentIds (received (callStream again).items) i := by
  rw [received_callStream, sentIds_callChunks]
  cases again <;> split <;> decide

theorem callStream_sumsFit : SumsFit (received (callStream again).items) := by
  unfold SumsFit
  cases again <;> decide +kernel

theorem callStream_clean : ∀ chunk ∈ received (callStream again).items, Clean chunk := by
  unfold Clean
  cases again <;> decide +kernel

theorem sse_reassembly_law_call :
    ∃ out, reassembleSseStream (callSerde true) (fun _ => "f2c1") (callStream true).text = .ok out ∧
      Law (callChunks true) true out := by
  refine (sse_reassembly_law (fun _ => "f2c1") (callStream true) (callStream_sumsFit true) fun _ => callStream_fresh true).2
    ⟨by decide, callStream_clean true, fun i id _ => ?_⟩
  rw [received_callStream, sentIds_callChunks]
  split <;> decide

/-- A chunk with `error: null`. -/
def nullErrorChunk : Json := choiceChunk [("content", .string "Hi")] [("error", .null)]

def nullErrorSerde : SerdeText := printedSerde [nullErrorChunk] (by decide +kernel)

def nullErrorStream : SseStream nullErrorSerde where
  ended := [⟨.chunk (printedChunk nullErrorChunk (by simp) (by decide +kernel) (by decide +kernel)), true, false⟩]
  last := some (.done, true)

theorem sse_reassembly_fails :
    (¬ ∃ out, reassembleSseStream nullErrorSerde (fun _ => "f2c1") nullErrorStream.text = .ok out) ∧
    ¬ ∃ out, reassembleSseStream (callSerde false) (fun _ => "f2c1") (callStream false).text = .ok out ∧
      Law (callChunks false) true out := by
  constructor
  · rintro ⟨out, hout⟩
    obtain ⟨e, he⟩ := gather_error nullErrorStream.items ⟨nullErrorChunk, List.mem_cons_self, fun h => by
      cases h.1⟩ .init
    rw [reassembleSseStream, sseDataPayloads_text, he] at hout
    cases hout
  · rintro ⟨out, hout, hlaw⟩
    rw [reassembleSseStream_clean _ _ (callStream_clean false), if_neg (by decide)] at hout
    cases hout
    refine (law_gathered_iff _ (callStream false).items (callStream_sumsFit false) fun _ => callStream_fresh false).1 hlaw 0
      "call_1" ?_ ?_
    · rw [received_callStream, SentId, sentIds_callChunks]
      decide
    · rw [received_callStream, sentIds_callChunks]
      rfl

end Reassembly
end ObeyGateway
