import Mathlib.Data.Nat.Digits.Defs
import Mathlib.Logic.Relation
import ObeyGateway.Lib.JsonPrint
import ObeyGateway.Models.OpenAI

/-!
# Corrective retry prompts

`structured_output/retry.rs`. A schema that is too long is cut node by node: each round of the loop deletes a last entry
somewhere down the last branch, so that there are fewer nodes (`Deletes.nodes_lt`). What is left fits, and with it the
prompt (`retry_prompt_law`).
-/

namespace ObeyGateway.StructuredOutput
open Json Models Relation

def maxAssistantChars : Nat := 2000
def overflowAssistantChars : Nat := 500
def maxUserChars : Nat := 4000
def maxSchemaChars : Nat := 3500
def maxErrors : Nat := 5
def maxErrorDescriptionChars : Nat := 200

def schemaTruncationNotice : List Char :=
  "\n[SCHEMA TRUNCATED AT A COMPLETE JSON BOUNDARY TO FIT THE CORRECTIVE PROMPT]".toList

def jsonOnlyInstruction : List Char :=
  "Output ONLY valid JSON matching the required schema. Do not include any other text, markdown, code fences, or explanation.".toList

def jsonOnlyInstructionWithoutSchema : List Char :=
  "Output ONLY valid JSON matching the originally required schema. Do not include any other text, markdown, code fences, or explanation.".toList

structure SchemaViolation where
  path : List Char
  expected : List Char
  actual : List Char

/-- `char::is_control` -/
def isControl (c : Char) : Bool := c.toNat < 0x20 || 0x7f ≤ c.toNat && c.toNat < 0xa0

def sanitize (value : List Char) : List Char := value.map fun c => if isControl c then ' ' else c

def truncateWithEllipsis (value : List Char) (maxChars : Nat) : List Char :=
  if value.length ≤ maxChars then value else if maxChars = 0 then [] else value.take (maxChars - 1) ++ ['…']

def renderErrorDescription (error : SchemaViolation) : List Char :=
  let path := if error.path = [] then ['$'] else error.path
  truncateWithEllipsis (sanitize path ++ ": expected ".toList ++ sanitize error.expected ++ ", got ".toList ++ sanitize error.actual)
    maxErrorDescriptionChars

def errorLine (error : SchemaViolation × Nat) : List Char :=
  '\n' :: digits (error.2 + 1) ++ ". ".toList ++ renderErrorDescription error.1

def appendErrors (errors : List SchemaViolation) (includeDetails : Bool) : List Char :=
  if includeDetails then
    "Validation errors (showing ".toList ++ digits (min errors.length maxErrors) ++ " of ".toList ++ digits errors.length ++
      "):".toList ++ (errors.take maxErrors).zipIdx.flatMap errorLine
  else "Validation errors: ".toList ++ digits errors.length ++
    " reported; individual details omitted to fit the corrective prompt.".toList

mutual

/-- `none` where the source returns `false`. -/
def pruneLastCompleteValue : Json → Option Json
  | .object fields => (pruneFields fields).map .object
  | .array items => (pruneItems items).map .array
  | _ => none

def pruneItems : List Json → Option (List Json)
  | [] => none
  | [v] => some (pruneLastCompleteValue v).toList
  | v :: w :: items => (pruneItems (w :: items)).map (v :: ·)

def pruneFields : List (String × Json) → Option (List (String × Json))
  | [] => none
  | [(key, v)] => some ((pruneLastCompleteValue v).toList.map (key, ·))
  | f :: g :: fields => (pruneFields (g :: fields)).map (f :: ·)

end

inductive Deletes : Json → Json → Prop
  | item (items : List Json) (v : Json) : Deletes (.array (items ++ [v])) (.array items)
  | field (fields : List (String × Json)) (f : String × Json) : Deletes (.object (fields ++ [f])) (.object fields)
  | inItem (items : List Json) {v w : Json} (h : Deletes v w) : Deletes (.array (items ++ [v])) (.array (items ++ [w]))
  | inField (fields : List (String × Json)) (key : String) {v w : Json} (h : Deletes v w) :
    Deletes (.object (fields ++ [(key, v)])) (.object (fields ++ [(key, w)]))

def nodes : Json → Nat :=
  fold { null := 1, bool := fun _ => 1, number := fun _ => 1, string := fun _ => 1
         array := fun items => items.sum + 1, object := fun fields => (fields.map (·.2)).sum + 1 }

theorem nodes_array (items : List Json) : nodes (.array items) = (items.map nodes).sum + 1 := by simp [nodes]

theorem nodes_object (fields : Map) : nodes (.object fields) = (fields.map fun f => nodes f.2).sum + 1 := by
  simp [nodes, Function.comp_def]

theorem nodes_pos (v : Json) : 0 < nodes v := by
  cases v <;> simp [nodes]

theorem Deletes.nodes_lt {v w : Json} (h : Deletes v w) : nodes w < nodes v := by
  induction h with
  | item items v =>
    have hv := nodes_pos v
    rw [nodes_array, nodes_array, List.map_append, List.sum_append, List.map_singleton, List.sum_singleton]
    omega
  | field fields f =>
    have hf := nodes_pos f.2
    rw [nodes_object, nodes_object, List.map_append, List.sum_append, List.map_singleton, List.sum_singleton]
    omega
  | inItem items h ih => simpa [nodes_array] using ih
  | inField fields key h ih => simpa [nodes_object] using ih

theorem pruneItems_concat (items : List Json) (v : Json) :
    pruneItems (items ++ [v]) = some (items ++ (pruneLastCompleteValue v).toList) := by
  induction items with
  | nil => rw [List.nil_append, pruneItems, List.nil_append]
  | cons w items ih =>
    cases items with
    | nil => simp [pruneItems]
    | cons x items => rw [List.cons_append, List.cons_append, pruneItems, ← List.cons_append, ih]; rfl

theorem pruneFields_concat (fields : Map) (key : String) (v : Json) :
    pruneFields (fields ++ [(key, v)]) = some (fields ++ (pruneLastCompleteValue v).toList.map (key, ·)) := by
  induction fields with
  | nil => rw [List.nil_append, pruneFields, List.nil_append]
  | cons f fields ih =>
    cases fields with
    | nil => simp [pruneFields]
    | cons g fields => rw [List.cons_append, List.cons_append, pruneFields, ← List.cons_append, ih]; rfl

theorem deletes_of_prune {v : Json} : ∀ w, pruneLastCompleteValue v = some w → Deletes v w := by
  induction v using Json.induct with
  | array items ih =>
    intro w h
    rcases List.eq_nil_or_concat' items with rfl | ⟨front, last, rfl⟩
    · simp [pruneLastCompleteValue, pruneItems] at h
    · rw [pruneLastCompleteValue, pruneItems_concat] at h
      rcases hlast : pruneLastCompleteValue last with _ | last'
      · simp only [hlast, Option.toList_none, List.append_nil, Option.map_some, Option.some.injEq] at h
        exact h ▸ .item front last
      · simp only [hlast, Option.toList_some, Option.map_some, Option.some.injEq] at h
        exact h ▸ .inItem front (ih last (by simp) last' hlast)
  | object fields ih =>
    intro w h
    rcases List.eq_nil_or_concat' fields with rfl | ⟨front, ⟨key, last⟩, rfl⟩
    · simp [pruneLastCompleteValue, pruneFields] at h
    · rw [pruneLastCompleteValue, pruneFields_concat] at h
      rcases hlast : pruneLastCompleteValue last with _ | last'
      · simp only [hlast, Option.toList_none, List.map_nil, List.append_nil, Option.map_some, Option.some.injEq] at h
        exact h ▸ .field front (key, last)
      · simp only [hlast, Option.toList_some, List.map_cons, List.map_nil, Option.map_some, Option.some.injEq] at h
        exact h ▸ .inField front key (ih (key, last) (by simp) last' hlast)
  | _ => intro w h; simp [pruneLastCompleteValue] at h

section
variable (numbers : NumberText)

/-- The loop of `truncate_schema_at_json_boundary`: each round has fewer nodes. -/
def truncateLoop (jsonBudget : Nat) (bounded : Json) : Json :=
  if (print numbers bounded).length ≤ jsonBudget then bounded
  else match _h : pruneLastCompleteValue bounded with
    | none => .object []
    | some next => if next = .object [] then next else truncateLoop jsonBudget next
termination_by nodes bounded
decreasing_by exact (deletes_of_prune _ ‹_›).nodes_lt

def truncateSchemaAtJsonBoundary (schema : Json) : List Char :=
  let jsonBudget := maxSchemaChars - schemaTruncationNotice.length
  let serialized := print numbers (truncateLoop numbers jsonBudget schema)
  (if jsonBudget < serialized.length then "\x7b\x7d".toList else serialized) ++ schemaTruncationNotice

def standardHeader : List Char :=
  "Your previous output was not valid JSON conforming to the required schema.\n\nSchema:\n```json\n".toList

def overflowHeader : List Char :=
  ("Your previous output was not valid JSON conforming to the required schema.\n\n" ++
    "The schema definition was omitted because the retry would exceed the model context window.\n\n").toList

def formatStandardCorrection (schemaText : List Char) (errors : List SchemaViolation) (includeErrorDetails : Bool)
    (instruction : List Char) : List Char :=
  standardHeader ++ schemaText ++ "\n```\n\n".toList ++ appendErrors errors includeErrorDetails ++ "\n\n".toList ++ instruction

def buildStandardCorrection (schema : Json) (schemaCharLen : Nat) (errors : List SchemaViolation) : List Char :=
  let serializedSchema := print numbers schema
  let schemaIsOversized := decide (maxSchemaChars < schemaCharLen ∨ maxSchemaChars < serializedSchema.length)
  let schemaText := if schemaIsOversized then truncateSchemaAtJsonBoundary numbers schema else serializedSchema
  let correction := formatStandardCorrection schemaText errors (!schemaIsOversized) jsonOnlyInstruction
  if maxUserChars < correction.length then formatStandardCorrection schemaText errors false jsonOnlyInstruction else correction

def buildOverflowCorrection (errors : List SchemaViolation) : List Char :=
  overflowHeader ++ appendErrors errors true ++ "\n\n".toList ++ jsonOnlyInstructionWithoutSchema

def message (role : String) (content : List Char) : Message :=
  ⟨role, .string (String.ofList content), [], .refl true, .refl true, List.not_mem_nil, List.not_mem_nil⟩

def buildMessages (schema : Json) (schemaCharLen : Nat) (errors : List SchemaViolation) (previousOutput : List Char)
    (contextOverflow : Bool) : Message × Message :=
  let assistantLimit := if contextOverflow then overflowAssistantChars else maxAssistantChars
  let correction := if contextOverflow then buildOverflowCorrection errors
    else buildStandardCorrection numbers schema schemaCharLen errors
  (message "assistant" (previousOutput.take assistantLimit), message "user" correction)

end

/-! ### The lengths -/

section
variable {numbers : NumberText} {schema : Json} {errors : List SchemaViolation}

theorem truncateLoop_spec (numbers : NumberText) (jsonBudget : Nat) (v : Json) :
    (ReflTransGen Deletes v (truncateLoop numbers jsonBudget v) ∧
      (print numbers (truncateLoop numbers jsonBudget v)).length ≤ jsonBudget) ∨
      truncateLoop numbers jsonBudget v = .object [] := by
  fun_induction truncateLoop numbers jsonBudget v with
  | case1 v hfits => exact .inl ⟨.refl, hfits⟩
  | case2 => exact .inr rfl
  | case3 => exact .inr rfl
  | case4 v hlong next hprune hne ih => exact ih.imp_left fun h => ⟨.head (deletes_of_prune _ hprune) h.1, h.2⟩

def Truncated (numbers : NumberText) (schema : Json) (text : List Char) : Prop :=
  ∃ w, (ReflTransGen Deletes schema w ∨ w = .object []) ∧ text = print numbers w ++ schemaTruncationNotice ∧
    text.length ≤ maxSchemaChars

theorem truncated (numbers : NumberText) (schema : Json) :
    Truncated numbers schema (truncateSchemaAtJsonBoundary numbers schema) := by
  have hnotice : schemaTruncationNotice.length ≤ maxSchemaChars - 2 := by decide
  have hmin : maxSchemaChars = 3500 := rfl
  have hspec := truncateLoop_spec numbers (maxSchemaChars - schemaTruncationNotice.length) schema
  simp only [truncateSchemaAtJsonBoundary]
  generalize truncateLoop numbers (maxSchemaChars - schemaTruncationNotice.length) schema = w at hspec ⊢
  have hle : (print numbers w).length ≤ maxSchemaChars - schemaTruncationNotice.length := by
    rcases hspec with ⟨-, hle⟩ | rfl
    · exact hle
    · have hempty : (print numbers (.object [])).length = 2 := by simp [print_object, commaJoin]
      omega
  refine ⟨w, hspec.imp_left (·.1), ?_, ?_⟩
  · rw [if_neg (not_lt.2 hle)]
  · rw [if_neg (not_lt.2 hle), List.length_append]
    omega

theorem length_digits_le {n k : Nat} (hk : 0 < k) (h : n < 10 ^ k) : (digits n).length ≤ k :=
  (Nat.length_toDigits_le_iff (by decide) hk).2 h

theorem length_truncateWithEllipsis (value : List Char) (maxChars : Nat) :
    (truncateWithEllipsis value maxChars).length ≤ maxChars := by
  unfold truncateWithEllipsis
  split_ifs with h hzero
  · exact h
  · exact Nat.zero_le _
  · rw [List.length_append, List.length_take, List.length_singleton]
    omega

theorem length_flatMap_le {f : α → List β} {n : Nat} : ∀ {l : List α}, (∀ x ∈ l, (f x).length ≤ n) →
    (l.flatMap f).length ≤ l.length * n
  | [], _ => by simp
  | x :: l, h => by
    have hx := h x List.mem_cons_self
    have hl := length_flatMap_le fun y hy => h y (List.mem_cons_of_mem _ hy)
    rw [List.flatMap_cons, List.length_append, List.length_cons, Nat.succ_mul]
    omega

theorem length_errorLines (errors : List SchemaViolation) :
    ((errors.take maxErrors).zipIdx.flatMap errorLine).length ≤ 1020 := by
  have hline : ∀ e ∈ (errors.take maxErrors).zipIdx, (errorLine e).length ≤ 204 := by
    intro e he
    have hindex : e.2 < (errors.take maxErrors).length := by
      have hget := List.mem_zipIdx_iff_getElem?.1 he
      exact (List.getElem?_eq_some_iff.1 hget).1
    have hfive : maxErrors = 5 := rfl
    rw [List.length_take] at hindex
    have hdigits : (digits (e.2 + 1)).length ≤ 1 := length_digits_le one_pos (by omega)
    have hdescription : (renderErrorDescription e.1).length ≤ 200 := length_truncateWithEllipsis _ _
    simp only [errorLine, List.length_cons, List.length_append, show ". ".toList.length = 2 from rfl]
    omega
  have htake : (errors.take maxErrors).zipIdx.length ≤ 5 := by simp [maxErrors]
  have hflat := length_flatMap_le hline
  omega

theorem length_appendErrors (h : errors.length < 2 ^ 64) :
    (appendErrors errors true).length ≤ 1100 ∧ (appendErrors errors false).length ≤ 110 := by
  have hcount : (digits errors.length).length ≤ 20 := length_digits_le (by decide) (by omega)
  have hshown : (digits (min errors.length maxErrors)).length ≤ 1 :=
    length_digits_le one_pos (by have hfive : maxErrors = 5 := rfl; omega)
  have hlines := length_errorLines errors
  constructor
  · have htexts : "Validation errors (showing ".toList.length + " of ".toList.length + "):".toList.length = 33 := by decide
    simp only [appendErrors, if_true, List.length_append]
    omega
  · have htexts : "Validation errors: ".toList.length +
        " reported; individual details omitted to fit the corrective prompt.".toList.length = 86 := by decide
    simp only [appendErrors, Bool.false_eq_true, if_false, List.length_append]
    omega

theorem length_formatStandardCorrection {text : List Char} (htext : text.length ≤ maxSchemaChars) (h : errors.length < 2 ^ 64) :
    (formatStandardCorrection text errors false jsonOnlyInstruction).length ≤ maxUserChars := by
  have herrors := (length_appendErrors h).2
  have hheader : standardHeader.length ≤ 200 := by decide +kernel
  have hinstruction : jsonOnlyInstruction.length ≤ 150 := by decide +kernel
  simp only [formatStandardCorrection, List.length_append, show "\n```\n\n".toList.length = 6 from rfl,
    show "\n\n".toList.length = 2 from rfl, maxSchemaChars, maxUserChars] at *
  omega

structure UserFits (instruction text : List Char) : Prop where
  instruction : instruction <:+ text
  length : text.length ≤ maxUserChars

theorem userFits_standard (schema : Json) (schemaCharLen : Nat) (h : errors.length < 2 ^ 64) :
    UserFits jsonOnlyInstruction (buildStandardCorrection numbers schema schemaCharLen errors) := by
  have hends {text : List Char} {details : Bool} :
      jsonOnlyInstruction <:+ formatStandardCorrection text errors details jsonOnlyInstruction := ⟨_, rfl⟩
  simp only [buildStandardCorrection]
  split_ifs with hoversized hlong hlong
  · exact ⟨hends, length_formatStandardCorrection (truncated numbers schema).choose_spec.2.2 h⟩
  · exact ⟨hends, not_lt.1 hlong⟩
  · exact ⟨hends, length_formatStandardCorrection (by simp at hoversized; exact hoversized.2) h⟩
  · exact ⟨hends, not_lt.1 hlong⟩

theorem userFits_overflow (h : errors.length < 2 ^ 64) :
    UserFits jsonOnlyInstructionWithoutSchema (buildOverflowCorrection errors) := by
  refine ⟨⟨_, rfl⟩, ?_⟩
  have herrors := (length_appendErrors h).1
  have hheader : overflowHeader.length ≤ 200 := by decide +kernel
  have hinstruction : jsonOnlyInstructionWithoutSchema.length ≤ 150 := by decide +kernel
  simp only [buildOverflowCorrection, List.length_append, show "\n\n".toList.length = 2 from rfl, maxUserChars]
  omega

end

structure PromptFits (previousOutput : List Char) (assistantLimit : Nat) (instruction : List Char) (messages : Message × Message) :
    Prop where
  assistant : ∃ text, messages.1.content = .string (String.ofList text) ∧ text <+: previousOutput ∧ text.length ≤ assistantLimit
  user : ∃ text, messages.2.content = .string (String.ofList text) ∧ UserFits instruction text

/-- The number of errors is a `usize`. -/
theorem retry_prompt_law (numbers : NumberText) (schema : Json) (schemaCharLen : Nat) (errors : List SchemaViolation)
    (previousOutput : List Char) (h : errors.length < 2 ^ 64) :
    Truncated numbers schema (truncateSchemaAtJsonBoundary numbers schema) ∧
      PromptFits previousOutput 2000 jsonOnlyInstruction (buildMessages numbers schema schemaCharLen errors previousOutput false) ∧
      PromptFits previousOutput 500 jsonOnlyInstructionWithoutSchema
        (buildMessages numbers schema schemaCharLen errors previousOutput true) := by
  refine ⟨truncated numbers schema, ⟨⟨_, rfl, List.take_prefix _ _, ?_⟩, ⟨_, rfl, userFits_standard schema schemaCharLen h⟩⟩,
    ⟨⟨_, rfl, List.take_prefix _ _, ?_⟩, ⟨_, rfl, userFits_overflow h⟩⟩⟩
  · exact List.length_take_le _ _
  · exact List.length_take_le _ _

theorem retry_prompt_law_at :
    ([⟨"$.a".toList, "string".toList, "null".toList⟩] : List SchemaViolation).length < 2 ^ 64 ∧
      PromptFits "null".toList 500 jsonOnlyInstructionWithoutSchema
        (buildMessages wireNumbers .null 0 [⟨"$.a".toList, "string".toList, "null".toList⟩] "null".toList true) :=
  ⟨by decide, (retry_prompt_law wireNumbers .null 0 _ _ (by decide)).2.2⟩

end ObeyGateway.StructuredOutput
