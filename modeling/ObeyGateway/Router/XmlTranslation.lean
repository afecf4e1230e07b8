import ObeyGateway.Router.ToolHistory
import ObeyGateway.Router.XmlOffsets

/-!
# `translate_xml_tool_calls`

The translation of the first choice of a response, with the text and its calls as the source has them. It comes to an
end with calls that have names exactly when no closed tag that it comes to lacks the end of its opening (the body would
end before it starts) and no name that it reads is empty (`translation_law_iff`).
-/

namespace ObeyGateway.Xml
open Text Scanner

/-! ### Names that are read -/

section
variable (serde : XmlSerde)

structure TagNamed (openTagPrefix openingTag body : List Char) : Prop where
  attr : extractXmlAttribute openingTag "name" ≠ some []
  json : extractXmlAttribute openingTag "name" = none → ∀ obj, serde.fromStr (trim body) = some obj →
    (obj.get "name").bind Json.asStr ≠ some ""
  inner : extractXmlAttribute openingTag "name" = none → serde.fromStr (trim body) = none → '<' ∈ trim body → '>' ∈ trim body →
    trim (trimStartMatches '<' openTagPrefix) ≠ []

def ArrayNamed (text : List Char) : Prop :=
  ∀ items, serde.fromStr text = some (.array items) → ∀ obj ∈ items, (obj.get "name").bind Json.asStr ≠ some ""

def InvokesNamed : (fuel : Nat) → List Char → Prop
  | 0, _ => True
  | fuel + 1, text =>
    ∀ before after, find "<invoke " text = some (before, after) →
      ∀ tag afterTag, find ">" ("<invoke ".toList ++ after) = some (tag, afterTag) →
        extractXmlAttribute ("<invoke ".toList ++ after) "name" ≠ some [] ∧
          InvokesNamed fuel ((find "</invoke>" afterTag).getD (afterTag, [])).2

def BlocksNamed (text : List Char) : Prop := InvokesNamed (text.length + 1) text

def WrappedNamed (inner : List Char) : Prop :=
  if (trim inner).head? = some '[' then ArrayNamed serde (trim inner)
  else if (trim inner).head? = some Json.openBrace then ArrayNamed serde ('[' :: trim inner ++ [']'])
  else BlocksNamed inner

def DanglingNamed (inner : List Char) : Prop :=
  if (trim inner).head? = some '[' ∨ (trim inner).head? = some Json.openBrace then ArrayNamed serde (trim inner)
  else BlocksNamed inner

/-- The name of a call between tokens, in front of the prefix and the number that are taken off. -/
def KimiNamed (body : List Char) : Prop :=
  ∀ name args, find "<|tool_call_argument_begin|>" body = some (name, args) → trim name ≠ [] ∧ trim name ≠ "functions_".toList

def KimiCallsNamed : (fuel : Nat) → List Char → Prop
  | 0, _ => True
  | fuel + 1, text =>
    ∀ before after, find "<|tool_call_begin|>" text = some (before, after) →
      KimiNamed ((find "<|tool_call_end|>" after).getD (after, [])).1 ∧
        KimiCallsNamed fuel ((find "<|tool_call_end|>" after).getD (after, [])).2

/-- A tag that is closed has its opening ended in front, and the names are not empty. -/
def Pass.Sound : Pass → List Char → Prop
  | .wrapped, text =>
    ∀ before after, find "<tool_calls>" text = some (before, after) →
      (∀ inner rest, find "</tool_calls>" after = some (inner, rest) → WrappedNamed serde inner) ∧
        (find "</tool_calls>" after = none → DanglingNamed serde after)
  | .bare, text =>
    ∀ before after, find "<invoke " text = some (before, after) →
      (∀ inner rest, find "</invoke>" ("<invoke ".toList ++ after) = some (inner, rest) → BlocksNamed (inner ++ "</invoke>".toList)) ∧
        (find "</invoke>" ("<invoke ".toList ++ after) = none → BlocksNamed ("<invoke ".toList ++ after))
  | .pattern openTag closeTag greedy, text =>
    ∀ before afterOpen, Frames.cut openTag text = some (before, afterOpen) →
      (∀ inner rest,
        (if greedy then Search.cutLast closeTag (openTag ++ afterOpen) else Frames.cut closeTag (openTag ++ afterOpen)) =
            some (inner, rest) →
          '>' ∈ inner ∧ ∀ tag body, find ">" inner = some (tag, body) → TagNamed serde openTag (tag ++ ['>']) body) ∧
        ((if greedy then Search.cutLast closeTag (openTag ++ afterOpen) else Frames.cut closeTag (openTag ++ afterOpen)) = none →
          ∀ tag body, find ">" (openTag ++ afterOpen) = some (tag, body) → TagNamed serde openTag (tag ++ ['>']) body)
  | .args name, text =>
    name = [] → ∀ before after, Frames.cut ('<' :: name ++ "<arg_key>".toList) text = some (before, after) →
      ∀ key rest, find "</arg_key>" (argBlock name after).1 = some (key, rest) → find "<arg_value>" rest = none
  | .kimiSections, text =>
    ∀ before after, find "<|tool_calls_section_begin|>" text = some (before, after) →
      ∀ inside rest, ((find "<|tool_calls_section_end|>" after).map fun p =>
          (p.1 ++ "<|tool_calls_section_end|>".toList, p.2)).getD (after, []) = (inside, rest) →
        KimiCallsNamed (inside.length + 1) inside
  | .kimiBare, text =>
    ∀ before after, find "<|tool_call_begin|>" text = some (before, after) →
      KimiNamed ((find "<|tool_call_end|>" after).getD (after, [])).1

end

variable {serde : XmlSerde} {text : List Char}

theorem jsonCall_named (obj : Json) : (jsonCall serde obj).name ≠ [] ↔ (obj.get "name").bind Json.asStr ≠ some "" := by
  rw [jsonCall]
  rcases (obj.get "name").bind Json.asStr with _ | name
  · have hunknown : "unknown".toList ≠ [] := by decide
    exact iff_of_true hunknown fun h => by cases h
  rw [Option.getD_some, ne_eq, String.toList_eq_nil_iff, ne_eq, Option.some_inj]

theorem tagNamed_iff (openTagPrefix openingTag body : List Char) :
    (∀ call ∈ (xmlCallOf serde openTagPrefix openingTag body).toList, call.name ≠ []) ↔
      TagNamed serde openTagPrefix openingTag body := by
  have hname (call : Option XmlCall) : (∀ c ∈ (call.map fun call =>
      { call with arguments := normalizeToolArguments serde call.name call.arguments }).toList, c.name ≠ []) ↔
        ∀ c, call = some c → c.name ≠ [] := by
    cases call with
    | none | some => simp
  rw [xmlCallOf, hname]
  cases hattr : extractXmlAttribute openingTag "name" with
  | some name =>
    constructor
    · intro h
      refine ⟨fun heq => h _ rfl ?_, fun hnone => ?_, fun hnone => ?_⟩
      · rw [hattr] at heq
        exact Option.some_inj.1 heq
      · rw [hattr] at hnone
        cases hnone
      · rw [hattr] at hnone
        cases hnone
    · rintro ⟨h, -, -⟩ c hc
      cases hc
      exact fun heq => h (hattr.trans (congrArg some heq))
  | none =>
    have hne : extractXmlAttribute openingTag "name" ≠ some [] := by
      rw [hattr]
      exact fun h => by cases h
    cases hjson : serde.fromStr (trim body) with
    | some obj =>
      constructor
      · intro h
        refine ⟨hne, fun _ obj' hobj => ?_, fun _ hnone => ?_⟩
        · rw [hjson] at hobj
          cases hobj
          exact (jsonCall_named obj).1 (h _ rfl)
        · rw [hjson] at hnone
          cases hnone
      · rintro ⟨-, h, -⟩ c hc
        cases hc
        exact (jsonCall_named obj).2 (h hattr obj hjson)
    | none =>
      by_cases hinner : '<' ∈ trim body ∧ '>' ∈ trim body
      · constructor
        · intro h
          refine ⟨hne, fun _ obj hobj => ?_, fun _ _ _ _ => h _ (if_pos hinner)⟩
          rw [hjson] at hobj
          cases hobj
        · rintro ⟨-, -, h⟩ c hc
          obtain rfl := Option.some_inj.1 ((if_pos hinner).symm.trans hc)
          exact h hattr hjson hinner.1 hinner.2
      · constructor
        · intro _
          refine ⟨hne, fun _ obj hobj => ?_, fun _ _ hopen hclose => absurd ⟨hopen, hclose⟩ hinner⟩
          rw [hjson] at hobj
          cases hobj
        · intro _ c hc
          cases (if_neg hinner).symm.trans hc

theorem arrayNamed_iff (text : List Char) :
    (∀ call ∈ parseJsonToolCallsArray serde text [], call.name ≠ []) ↔ ArrayNamed serde text := by
  rw [parseJsonToolCallsArray, ArrayNamed]
  rcases hjson : serde.fromStr text with _ | v
  · exact iff_of_true (fun c hc => absurd hc List.not_mem_nil) fun _ h => by cases h
  cases v with
  | array items =>
    constructor
    · intro h items' heq obj hobj
      cases heq
      exact (jsonCall_named obj).1 (h _ (List.mem_map_of_mem hobj))
    · intro h c hc
      obtain ⟨obj, hobj, rfl⟩ := List.mem_map.1 hc
      exact (jsonCall_named obj).2 (h items rfl obj hobj)
  | _ => exact iff_of_true (fun c hc => absurd hc List.not_mem_nil) fun _ h => by cases h

theorem invokesNamed_iff (fuel : Nat) (text : List Char) :
    (∀ call ∈ parseInvokeBlocks serde fuel text [], call.name ≠ []) ↔ InvokesNamed fuel text := by
  induction fuel generalizing text with
  | zero => exact iff_of_true (fun c hc => absurd hc List.not_mem_nil) trivial
  | succ fuel ih =>
    rw [parseInvokeBlocks, InvokesNamed]
    rcases find "<invoke " text with _ | ⟨before, after⟩
    · exact iff_of_true (fun c hc => absurd hc List.not_mem_nil) fun _ _ h => by cases h
    dsimp only
    rcases hgt : find ">" ("<invoke ".toList ++ after) with _ | ⟨tag, afterTag⟩
    · refine iff_of_true (fun c hc => absurd hc List.not_mem_nil) fun _ _ heq _ _ h => ?_
      cases heq
      rw [hgt] at h
      cases h
    dsimp only
    rw [parseInvokeBlocks_append, List.nil_append, List.forall_mem_append, List.forall_mem_singleton, ih]
    have hname : (extractXmlAttribute ("<invoke ".toList ++ after) "name").getD "unknown".toList ≠ [] ↔
        extractXmlAttribute ("<invoke ".toList ++ after) "name" ≠ some [] := by
      cases extractXmlAttribute ("<invoke ".toList ++ after) "name" with
      | none =>
        have hunknown : "unknown".toList ≠ [] := by decide
        exact iff_of_true hunknown fun h => by cases h
      | some name => rw [Option.getD_some, ne_eq, ne_eq, Option.some_inj]
    rw [hname]
    constructor
    · rintro h _ _ heq _ _ hgt'
      cases heq
      rw [hgt] at hgt'
      cases hgt'
      exact h
    · exact fun h => h before after rfl tag afterTag hgt

theorem wrappedNamed_iff (inner : List Char) : (∀ call ∈ wrappedCalls serde inner, call.name ≠ []) ↔ WrappedNamed serde inner := by
  rw [wrappedCalls, WrappedNamed]
  split
  · exact arrayNamed_iff _
  · split
    · exact arrayNamed_iff _
    · exact invokesNamed_iff _ _

theorem danglingNamed_iff (inner : List Char) :
    (∀ call ∈ danglingCalls serde inner, call.name ≠ []) ↔ DanglingNamed serde inner := by
  rw [danglingCalls, DanglingNamed]
  split
  · exact arrayNamed_iff _
  · exact invokesNamed_iff _ _

theorem normalizeKimiFunctionName_eq_nil (raw : List Char) :
    normalizeKimiFunctionName raw = [] ↔ raw = [] ∨ raw = "functions_".toList := by
  have hname : (stripPrefix "functions_" raw).getD raw = [] ↔ raw = [] ∨ raw = "functions_".toList := by
    rw [stripPrefix]
    by_cases h : "functions_".toList <+: raw
    · obtain ⟨rest, rfl⟩ := h
      rw [if_pos (List.prefix_append _ _), Option.getD_some, List.drop_left]
      constructor
      · rintro rfl
        exact .inr (List.append_nil _)
      · rintro (heq | heq)
        · exact (List.append_eq_nil_iff.1 heq).2
        · exact List.append_right_eq_self.1 heq
    · rw [if_neg h, Option.getD_none]
      constructor
      · exact .inl
      · rintro (heq | rfl)
        · exact heq
        · exact absurd (List.prefix_refl _) h
  rw [← hname, normalizeKimiFunctionName]
  generalize (stripPrefix "functions_" raw).getD raw = name
  rcases hlast : Search.cutLast ['_'] name with _ | ⟨base, suffix⟩
  · exact Iff.rfl
  obtain rfl := Search.cutLast_eq_some hlast
  dsimp only
  split
  · rename_i h
    exact iff_of_false h.2.2 fun h => List.cons_ne_nil _ _ (List.append_eq_nil_iff.1 h).2
  · exact Iff.rfl

theorem kimiNamed_iff (body : List Char) : (∀ call ∈ (kimiCall serde body).toList, call.name ≠ []) ↔ KimiNamed body := by
  rw [kimiCall, KimiNamed]
  rcases find "<|tool_call_argument_begin|>" body with _ | ⟨name, args⟩
  · exact iff_of_true (fun c hc => absurd hc List.not_mem_nil) fun _ _ h => by cases h
  rw [Option.map_some, Option.toList_some, List.forall_mem_singleton, ne_eq, normalizeKimiFunctionName_eq_nil, not_or]
  constructor
  · rintro h _ _ heq
    cases heq
    exact h
  · exact fun h => h name args rfl

theorem kimiCallsNamed_iff (fuel : Nat) (text : List Char) :
    (∀ call ∈ kimiCalls serde fuel text [], call.name ≠ []) ↔ KimiCallsNamed fuel text := by
  induction fuel generalizing text with
  | zero => exact iff_of_true (fun c hc => absurd hc List.not_mem_nil) trivial
  | succ fuel ih =>
    rw [kimiCalls, KimiCallsNamed]
    rcases find "<|tool_call_begin|>" text with _ | ⟨before, after⟩
    · exact iff_of_true (fun c hc => absurd hc List.not_mem_nil) fun _ _ h => by cases h
    dsimp only
    rw [kimiCalls_append, List.nil_append, List.forall_mem_append, ih, kimiNamed_iff]
    constructor
    · rintro h _ _ heq
      cases heq
      exact h
    · exact fun h => h before after rfl

theorem argFields_ne_nil {fuel : Nat} {block : List Char} {map : Json.Map} (h : map ≠ []) : argFields serde fuel block map ≠ [] := by
  induction fuel generalizing block map with
  | zero => exact h
  | succ fuel ih =>
    rw [argFields]
    rcases (find "<arg_key>" block).bind fun p => find "</arg_key>" p.2 with _ | p
    · exact h
    dsimp only
    rcases find "<arg_value>" p.2 with _ | q
    · exact h
    refine ih fun hnil => ?_
    have hmem : String.ofList p.1 ∈ Assoc.keys ([] : Json.Map) := hnil ▸ Assoc.mem_keys_insert.2 (.inl rfl)
    exact absurd hmem List.not_mem_nil

theorem argFields_eq_nil (fuel : Nat) (inside : List Char) :
    argFields serde (fuel + 1) ('<' :: "<arg_key>".toList ++ inside) [] = [] ↔
      ∀ key rest, find "</arg_key>" inside = some (key, rest) → find "<arg_value>" rest = none := by
  have hkey : find "<arg_key>" ('<' :: "<arg_key>".toList ++ inside) = some (['<'], inside) := by
    refine @Search.cut_occurrence _ _ "<arg_key>".toList ['<'] inside (by decide) ⟨fun h => ?_, trivial⟩
    have hsecond := (List.cons_prefix_cons.1 h).2
    have hc := (List.cons_prefix_cons.1 hsecond).1
    revert hc
    decide
  rw [argFields, hkey, Option.bind_some]
  rcases hclose : find "</arg_key>" inside with _ | ⟨key, rest⟩
  · exact iff_of_true rfl fun _ _ h => by cases h
  dsimp only
  rcases hvalue : find "<arg_value>" rest with _ | q
  · refine iff_of_true rfl fun _ _ heq => ?_
    cases heq
    exact hvalue
  refine iff_of_false (argFields_ne_nil fun hnil => ?_) fun h => ?_
  · have hmem : String.ofList key ∈ Assoc.keys ([] : Json.Map) := hnil ▸ Assoc.mem_keys_insert.2 (.inl rfl)
    exact absurd hmem List.not_mem_nil
  · have hnone := h key rest rfl
    rw [hvalue] at hnone
    cases hnone

/-! ### Rounds -/

theorem clean_some {r : Round Char XmlCall} : Scanner.Clean (fun call => call.name ≠ []) (some r) ↔ ∀ call ∈ r.items, call.name ≠ [] := by
  constructor
  · rintro ⟨_, heq, h⟩
    cases heq
    exact h
  · exact fun h => ⟨r, rfl, h⟩

theorem clean_none : ¬ Scanner.Clean (fun call : XmlCall => call.name ≠ []) (none : Option (Round Char XmlCall)) := by
  rintro ⟨_, heq, -⟩
  cases heq

theorem forall_found_iff {α β : Type*} {Q : α → β → Prop} {a : α} {b : β} :
    (∀ x y, some (a, b) = some (x, y) → Q x y) ↔ Q a b := by
  constructor
  · exact fun h => h a b rfl
  · rintro h _ _ heq
    cases heq
    exact h

theorem forall_not_found {α β : Type*} {Q : α → β → Prop} : ∀ x y, (none : Option (α × β)) = some (x, y) → Q x y :=
  fun _ _ h => by cases h

theorem not_mem_nil_named : ∀ call ∈ ([] : List XmlCall), call.name ≠ [] := fun _ h => absurd h List.not_mem_nil

theorem exists_find_gt {text : List Char} (h : '>' ∈ text) : ∃ tag body, find ">" text = some (tag, body) := by
  cases hfind : find ">" text with
  | some p => exact ⟨p.1, p.2, rfl⟩
  | none =>
    obtain ⟨front, back, rfl⟩ := List.append_of_mem h
    exact absurd ⟨front, back, List.append_assoc _ _ _⟩ ((Search.cut_eq_none_iff (by decide)).1 hfind)

theorem find_gt_append {inner closeTag : List Char} (hclose : '>' ∈ closeTag) : ∃ tag behind,
    find ">" (inner ++ closeTag) = some (tag, behind) ∧
      ('>' ∈ inner → tag.length < inner.length ∧ find ">" inner = some (tag, inner.drop (tag.length + 1))) ∧
      ('>' ∉ inner → inner.length ≤ tag.length) := by
  by_cases hgt : '>' ∈ inner
  · obtain ⟨tag, body, hfind⟩ := exists_find_gt hgt
    have heq : inner = (tag ++ ['>']) ++ body := Frames.cut_eq_some hfind
    have hlength : tag.length + 1 = (tag ++ ['>']).length := by rw [List.length_append, List.length_singleton]
    refine ⟨tag, body ++ closeTag, Frames.cut_append hfind _, fun _ => ⟨?_, ?_⟩, fun h => absurd hgt h⟩
    · rw [heq, List.length_append, ← hlength]
      omega
    · have hdrop : inner.drop (tag.length + 1) = body := by rw [hlength, heq, List.drop_left]
      rw [hfind, hdrop]
  · obtain ⟨tag, body, hfind⟩ := exists_find_gt hclose
    have hcut : find ">" (inner ++ closeTag) = (find ">" closeTag).map fun p => (inner ++ p.1, p.2) :=
      Search.cut_of_noStart (Search.noStart_of_notMem hgt _)
    refine ⟨inner ++ tag, body, by rw [hcut, hfind]; rfl, fun h => absurd h hgt, fun _ => ?_⟩
    rw [List.length_append]
    exact Nat.le_add_right _ _

theorem clean_pattern_iff {openTag closeTag : List Char} (hclose : '>' ∈ closeTag) (greedy : Bool) (text : List Char) :
    Scanner.Clean (·.name ≠ []) (patternRound serde openTag closeTag greedy text) ↔ Pass.Sound serde (.pattern openTag closeTag greedy) text := by
  rw [patternRound, Pass.Sound]
  cases Frames.cut openTag text with
  | none => exact iff_of_true (clean_some.2 not_mem_nil_named) forall_not_found
  | some p =>
    obtain ⟨before, afterOpen⟩ := p
    rw [forall_found_iff]
    dsimp only
    generalize (if greedy then Search.cutLast closeTag (openTag ++ afterOpen) else Frames.cut closeTag (openTag ++ afterOpen)) = closed
    rcases closed with _ | ⟨inner, rest⟩
    · refine Iff.trans (b := ∀ tag body, find ">" (openTag ++ afterOpen) = some (tag, body) →
        TagNamed serde openTag (tag ++ ['>']) body) ?_ ⟨fun h => ⟨forall_not_found, fun _ => h⟩, fun h => h.2 rfl⟩
      rcases find ">" (openTag ++ afterOpen) with _ | ⟨tag, body⟩
      · exact iff_of_true (clean_some.2 not_mem_nil_named) forall_not_found
      rw [forall_found_iff, clean_some]
      exact tagNamed_iff _ _ _
    rw [forall_found_iff]
    obtain ⟨tag, behind, hfind, hin, hout⟩ := @find_gt_append inner closeTag hclose
    dsimp only
    rw [hfind]
    dsimp only
    by_cases hgt : '>' ∈ inner
    · obtain ⟨hlt, hinner⟩ := hin hgt
      rw [if_neg (Nat.not_lt.2 hlt), clean_some, hinner, forall_found_iff]
      exact (tagNamed_iff _ _ _).trans ⟨fun h => ⟨⟨hgt, h⟩, fun h => by cases h⟩, fun h => h.1.2⟩
    · rw [if_pos (Nat.lt_succ_of_le (hout hgt))]
      exact iff_of_false clean_none fun h => hgt h.1.1

theorem clean_args_iff (name text : List Char) :
    Scanner.Clean (·.name ≠ []) (some (argsRound serde name text)) ↔ Pass.Sound serde (.args name) text := by
  rw [clean_some, argsRound, Pass.Sound]
  dsimp only
  by_cases hname : name = []
  · obtain rfl := hname
    rcases Frames.cut ('<' :: [] ++ "<arg_key>".toList) text with _ | ⟨before, after⟩
    · exact iff_of_true not_mem_nil_named fun _ => forall_not_found
    have hnil := @argFields_eq_nil serde ('<' :: [] ++ "<arg_key>".toList ++ (argBlock [] after).1).length (argBlock [] after).1
    rw [forall_found_iff]
    dsimp only
    rw [Round.items]
    split
    · rename_i h
      exact iff_of_true not_mem_nil_named fun _ => hnil.1 h
    · rename_i h
      exact iff_of_false (fun hall => hall _ (List.mem_singleton_self _) rfl) fun hall => h (hnil.2 (hall rfl))
  · refine iff_of_true (fun call hcall => ?_) fun h => absurd h hname
    rcases hopen : Frames.cut ('<' :: name ++ "<arg_key>".toList) text with _ | p
    · rw [hopen] at hcall
      exact absurd hcall List.not_mem_nil
    rw [hopen] at hcall
    dsimp only at hcall
    rw [Round.items] at hcall
    split at hcall
    · exact absurd hcall List.not_mem_nil
    · obtain rfl := List.mem_singleton.1 hcall
      exact hname

theorem Pass.clean_iff {p : Pass} (hp : p.Proper) (text : List Char) : Scanner.Clean (·.name ≠ []) (p.round serde text) ↔ p.Sound serde text := by
  cases p with
  | pattern openTag closeTag greedy => exact clean_pattern_iff hp greedy text
  | args name => exact clean_args_iff name text
  | wrapped =>
    rw [Pass.round, clean_some, wrappedRound, Pass.Sound]
    rcases find "<tool_calls>" text with _ | ⟨before, after⟩
    · exact iff_of_true not_mem_nil_named forall_not_found
    rw [forall_found_iff]
    dsimp only
    rcases find "</tool_calls>" after with _ | q
    · rw [Round.items, danglingNamed_iff]
      exact ⟨fun h => ⟨forall_not_found, fun _ => h⟩, fun h => h.2 rfl⟩
    rw [Round.items, wrappedNamed_iff, forall_found_iff]
    exact ⟨fun h => ⟨h, fun h => by cases h⟩, fun h => h.1⟩
  | bare =>
    rw [Pass.round, clean_some, bareRound, Pass.Sound]
    rcases find "<invoke " text with _ | ⟨before, after⟩
    · exact iff_of_true not_mem_nil_named forall_not_found
    rw [forall_found_iff]
    dsimp only
    rcases find "</invoke>" ("<invoke ".toList ++ after) with _ | q
    · rw [Round.items, invokesNamed_iff]
      exact ⟨fun h => ⟨forall_not_found, fun _ => h⟩, fun h => h.2 rfl⟩
    rw [Round.items, invokesNamed_iff, forall_found_iff]
    exact ⟨fun h => ⟨h, fun h => by cases h⟩, fun h => h.1⟩
  | kimiSections =>
    rw [Pass.round, clean_some, kimiSectionsRound, Pass.Sound]
    rcases find "<|tool_calls_section_begin|>" text with _ | ⟨before, after⟩
    · exact iff_of_true not_mem_nil_named forall_not_found
    rw [forall_found_iff]
    dsimp only
    generalize Option.getD _ (after, []) = block
    obtain ⟨inside, rest⟩ := block
    dsimp only
    rw [Round.items, kimiCallsNamed_iff]
    constructor
    · rintro h _ _ heq
      cases heq
      exact h
    · exact fun h => h inside rest rfl
  | kimiBare =>
    rw [Pass.round, clean_some, kimiBareRound, Pass.Sound]
    rcases find "<|tool_call_begin|>" text with _ | p
    · exact iff_of_true not_mem_nil_named forall_not_found
    rw [forall_found_iff]
    exact kimiNamed_iff _

end ObeyGateway.Xml

namespace ObeyGateway.XmlOffsets
open Text Scanner Models
open Xml (XmlCall Pass toolNames kimiTokens contentAsText callId)

/-! ### The response -/

theorem stripToken_eq {token : String} (htoken : token.toList ≠ []) {fuel : Nat} {text : List Char} (hfuel : text.length < fuel) :
    stripToken token fuel text = some (Xml.stripToken token fuel text) := by
  induction fuel generalizing text with
  | zero => exact absurd hfuel (Nat.not_lt_zero _)
  | succ fuel ih =>
    rw [stripToken, Xml.stripToken]
    by_cases h : contains text token
    · have hlt := Splice.length_replaceAll_lt htoken (contains_iff.1 h)
      rw [if_pos h, if_pos h, ih (by omega)]
    · rw [if_neg h, if_neg h]

def stripKimiSpecialTokens (text : List Char) : Option (List Char) :=
  kimiTokens.foldlM (fun text token => stripToken token (text.length + 1) text) text

theorem stripKimiSpecialTokens_eq (text : List Char) : stripKimiSpecialTokens text = some (Xml.stripKimiSpecialTokens text) := by
  have htokens : ∀ token ∈ kimiTokens, token.toList ≠ [] := by decide
  rw [stripKimiSpecialTokens, Xml.stripKimiSpecialTokens]
  revert htokens
  generalize kimiTokens = tokens
  intro htokens
  induction tokens generalizing text with
  | nil => rfl
  | cons token tokens ih =>
    rw [List.forall_mem_cons] at htokens
    rw [List.foldlM_cons, stripToken_eq htokens.1 (Nat.lt_succ_self _), List.foldl_cons]
    exact ih _ htokens.2

/-- Patterns 0 to 4, and the others while there is no call; then the tokens are taken out. -/
def extractAll (serde : XmlSerde) (names : List String) (text : List Char) : Option (List Char × List XmlCall) := do
  let s ← runPhases (round serde) (Xml.phases names) text
  some (← stripKimiSpecialTokens s.1, s.2)

variable (serde : XmlSerde)

theorem extractAll_eq (names : List String) (text : List Char) :
    extractAll serde names text = Xml.extractAll serde names text := by
  have hround : round serde = Pass.round serde := funext (round_eq serde)
  rw [extractAll, Xml.extractAll_eq, hround, Option.bind_eq_bind, Option.map_eq_bind]
  refine congrArg (Option.bind _) (funext fun s => ?_)
  rw [stripKimiSpecialTokens_eq]
  rfl

structure Choice where
  message : Message
  finishReason : Option String

def xlatId (n : Nat) : String := "call_xlat_" ++ String.ofList (Nat.toDigits 10 n)

/-- What is pushed for a call when there are `n`. -/
def callValue (call : XmlCall) (n : Nat) : Json :=
  .object
    [("function", .object [("arguments", .string (String.ofList call.arguments)), ("name", .string (String.ofList call.name))]),
      ("id", .string (xlatId n)), ("type", .string "function")]

def callValues (calls : List XmlCall) : List Json := calls.zipIdx.map fun p => callValue p.1 p.2

def textOf (m : Message) (key : String) : Option String := (Assoc.get m.extra key).bind Json.asStr

def reasoningKey (m : Message) : Option String := ["reasoning", "reasoning_content"].find? fun key => (textOf m key).any (· ≠ "")

def reasoningText (m : Message) : List Char := (((reasoningKey m).bind (textOf m)).getD "").toList

def combinedText (serde : XmlSerde) (m : Message) : List Char :=
  if contentAsText serde m = [] ∧ reasoningText m ≠ [] then reasoningText m else contentAsText serde m

def contentOf (cleaned : List Char) : Json := if cleaned = [] then .null else .string (String.ofList cleaned)

def withoutCarrier (serde : XmlSerde) (m : Message) : Json.Map :=
  if contentAsText serde m = [] ∧ reasoningText m ≠ [] then
    match reasoningKey m with
    | some key => Assoc.erase m.extra key
    | none => m.extra
  else m.extra

theorem mem_withoutCarrier {serde : XmlSerde} {m : Message} {e : String × Json} (h : e ∈ withoutCarrier serde m) : e ∈ m.extra := by
  rw [withoutCarrier] at h
  split at h
  · rcases hkey : reasoningKey m with _ | key
    · rwa [hkey] at h
    rw [hkey] at h
    exact List.mem_of_mem_filter h
  · exact h

theorem nodupKeys_callValue (call : XmlCall) (n : Nat) : (callValue call n).nodupKeys = true := by
  have hfields : ["arguments", "name"].Nodup := by decide
  have hkeys : ["function", "id", "type"].Nodup := by decide
  refine Json.nodupKeys_object.2 ⟨hkeys, ?_⟩
  simp only [List.forall_mem_cons, List.not_mem_nil, false_imp_iff, implies_true, and_true]
  refine ⟨Json.nodupKeys_object.2 ⟨hfields, ?_⟩, rfl, rfl⟩
  simp only [List.forall_mem_cons, List.not_mem_nil, false_imp_iff, implies_true, and_true]
  exact ⟨rfl, rfl⟩

theorem nodupKeys_callValues (calls : List XmlCall) : (Json.array (callValues calls)).nodupKeys = true := by
  rw [Json.nodupKeys_array]
  intro v hv
  obtain ⟨p, -, rfl⟩ := List.mem_map.1 hv
  exact nodupKeys_callValue p.1 p.2

theorem nodupKeys_withoutCarrier (m : Message) : (Json.object (withoutCarrier serde m)).nodupKeys = true := by
  obtain ⟨hkeys, hvalues⟩ := Json.nodupKeys_object.1 m.extra_nodup
  refine Json.nodupKeys_object.2 ⟨?_, fun f hf => hvalues f (mem_withoutCarrier hf)⟩
  rw [withoutCarrier]
  split
  · cases reasoningKey m with
    | none => exact hkeys
    | some key => exact Assoc.nodup_erase hkeys
  · exact hkeys

theorem not_mem_keys_translated {serde : XmlSerde} {m : Message} {key : String} {v : Json} (hkey : key ≠ "tool_calls")
    (h : key ∉ Assoc.keys m.extra) : key ∉ Assoc.keys (Assoc.insert (withoutCarrier serde m) "tool_calls" v) := by
  intro hmem
  obtain ⟨e, he, rfl⟩ := List.mem_map.1 ((Assoc.mem_keys_insert.1 hmem).resolve_left hkey)
  exact h (List.mem_map_of_mem (mem_withoutCarrier he))

def translatedMessage (serde : XmlSerde) (m : Message) (remaining : List Char) (calls : List XmlCall) : Message where
  role := m.role
  content := contentOf (trim remaining)
  extra := Assoc.insert (withoutCarrier serde m) "tool_calls" (.array (callValues calls))
  content_nodup := by
    rw [contentOf]
    split
    · rfl
    · rfl
  extra_nodup := Json.nodupKeys_insert (nodupKeys_withoutCarrier serde m) (nodupKeys_callValues calls)
  extra_role := not_mem_keys_translated (by decide) m.extra_role
  extra_content := not_mem_keys_translated (by decide) m.extra_content

def searched (serde : XmlSerde) (choice : Choice) : Option (List Char) :=
  if (Assoc.get choice.message.extra "tool_calls").isSome then none
  else if combinedText serde choice.message = [] then none
  else some (combinedText serde choice.message)

def translateChoice (serde : XmlSerde) (tools : Option Json) (choice : Choice) : Option (Choice × Bool) :=
  match searched serde choice with
  | none => some (choice, false)
  | some text => do
    let s ← extractAll serde (toolNames tools) text
    if s.2 = [] then some (choice, false)
    else some (⟨translatedMessage serde choice.message s.1 s.2, some "tool_calls"⟩, true)

/-- The choices of the response, and whether the first one was translated; `none` is a panic or no end. -/
def translateXmlToolCalls (serde : XmlSerde) (tools : Option Json) : List Choice → Option (List Choice × Bool)
  | [] => some ([], false)
  | choice :: others => (translateChoice serde tools choice).map fun p => (p.1 :: others, p.2)

/-! ### The law -/

def callName (tc : Json) : Option String := ((tc.get "function").bind (·.get "name")).bind Json.asStr

structure CallsLaw (calls : List Json) : Prop where
  nonempty : calls ≠ []
  ids : ∃ ids : List String, calls.map callId = ids.map some ∧ ids.Nodup
  named : ∀ tc ∈ calls, ∃ name, callName tc = some name ∧ name ≠ ""

def TranslationLaw (serde : XmlSerde) (tools : Option Json) (choices : List Choice) : Prop :=
  ∃ choices' done, translateXmlToolCalls serde tools choices = some (choices', done) ∧
    (done = true → ∃ choice others calls, choices' = choice :: others ∧
      Assoc.get choice.message.extra "tool_calls" = some (.array calls) ∧ CallsLaw calls) ∧
    (done = false → choices' = choices)

theorem xlatId_injective : Function.Injective xlatId := by
  intro m n h
  rw [xlatId, xlatId, String.append_right_inj, String.ofList_inj] at h
  calc
    m = Nat.ofDigitChars 10 (Nat.toDigits 10 m) 0 := Nat.ofDigitChars_ten_toDigits.symm
    _ = Nat.ofDigitChars 10 (Nat.toDigits 10 n) 0 := by rw [h]
    _ = n := Nat.ofDigitChars_ten_toDigits

theorem callsLaw_iff {calls : List XmlCall} (h : calls ≠ []) : CallsLaw (callValues calls) ↔ ∀ call ∈ calls, call.name ≠ [] := by
  have hnamed : (∀ tc ∈ callValues calls, ∃ name, callName tc = some name ∧ name ≠ "") ↔ ∀ call ∈ calls, call.name ≠ [] := by
    have hname (call : XmlCall) (n : Nat) : (∃ name, callName (callValue call n) = some name ∧ name ≠ "") ↔ call.name ≠ [] := by
      have hvalue : callName (callValue call n) = some (String.ofList call.name) := rfl
      constructor
      · rintro ⟨name, heq, hne⟩ hnil
        rw [hvalue, hnil] at heq
        cases heq
        exact hne rfl
      · exact fun hne => ⟨_, hvalue, fun hnil => hne (String.ofList_eq_empty_iff.1 hnil)⟩
    rw [callValues, List.forall_mem_map]
    conv_rhs => rw [← List.zipIdx_map_fst 0 calls, List.forall_mem_map]
    exact forall₂_congr fun p _ => hname p.1 p.2
  refine ⟨fun hlaw => hnamed.1 hlaw.named, fun hall => ⟨?_, ?_, hnamed.2 hall⟩⟩
  · intro hnil
    have hlength := congrArg List.length hnil
    rw [callValues, List.length_map, List.length_zipIdx] at hlength
    exact h (List.eq_nil_of_length_eq_zero hlength)
  · refine ⟨(List.range' 0 calls.length).map xlatId, ?_, List.Nodup.map xlatId_injective List.nodup_range'⟩
    rw [← List.zipIdx_map_snd, callValues, List.map_map, List.map_map, List.map_map]
    rfl

theorem extractAll_iff (names : List String) (text : List Char) :
    (∃ left calls, extractAll serde names text = some (left, calls) ∧ ∀ call ∈ calls, call.name ≠ []) ↔
      ∀ p t, Visits (round serde) (Xml.phases names) text p t → Pass.Sound serde p t := by
  have hround : round serde = Pass.round serde := funext (round_eq serde)
  have hproper := Xml.phases_proper names
  have hrun := @runPhases_iff _ _ _ (Pass.round serde) (fun call : XmlCall => call.name ≠ []) (Xml.phases names)
    (fun passes hpasses p hp => Pass.shortens (hproper passes hpasses p hp)) text
  rw [extractAll_eq, Xml.extractAll_eq, hround]
  constructor
  · rintro ⟨left, calls, heq, hnamed⟩ p t hvisits
    obtain ⟨⟨left', calls'⟩, hphases, heq⟩ := Option.map_eq_some_iff.1 heq
    cases heq
    obtain ⟨passes, hpasses, hp⟩ := hvisits.mem
    exact (Pass.clean_iff (hproper passes hpasses p hp) t).1 (hrun.1 ⟨left', calls', hphases, hnamed⟩ p t hvisits)
  · intro hsound
    obtain ⟨left, calls, hphases, hnamed⟩ := hrun.2 fun p t hvisits => by
      obtain ⟨passes, hpasses, hp⟩ := hvisits.mem
      exact (Pass.clean_iff (hproper passes hpasses p hp) t).2 (hsound p t hvisits)
    exact ⟨_, calls, by rw [hphases]; rfl, hnamed⟩

/-- The translation ends with calls that have names exactly when every closed tag it comes to has its opening ended in
front, and every name that it reads is something. -/
theorem translation_law_iff (serde : XmlSerde) (tools : Option Json) (choices : List Choice) :
    TranslationLaw serde tools choices ↔
      ∀ choice others text, choices = choice :: others → searched serde choice = some text →
        ∀ p t, Visits (round serde) (Xml.phases (toolNames tools)) text p t → Pass.Sound serde p t := by
  cases choices with
  | nil => exact iff_of_true ⟨[], false, rfl, fun h => (by cases h), fun _ => rfl⟩ fun _ _ _ h => by cases h
  | cons choice others =>
    cases hsearched : searched serde choice with
    | none =>
      refine iff_of_true ⟨choice :: others, false, ?_, fun h => (by cases h), fun _ => rfl⟩ fun _ _ _ h hsome => ?_
      · rw [translateXmlToolCalls, translateChoice, hsearched]
        rfl
      · cases h
        rw [hsearched] at hsome
        cases hsome
    | some text =>
      have hright : (∀ choice' others' text', choice :: others = choice' :: others' → searched serde choice' = some text' →
          ∀ p t, Visits (round serde) (Xml.phases (toolNames tools)) text' p t → Pass.Sound serde p t) ↔
            ∀ p t, Visits (round serde) (Xml.phases (toolNames tools)) text p t → Pass.Sound serde p t := by
        constructor
        · exact fun h => h choice others text rfl hsearched
        · rintro h _ _ _ heq hsome
          cases heq
          rw [hsearched] at hsome
          cases hsome
          exact h
      rw [hright, ← extractAll_iff, TranslationLaw, translateXmlToolCalls, translateChoice, hsearched]
      dsimp only
      cases extractAll serde (toolNames tools) text with
      | none =>
        refine iff_of_false ?_ ?_
        · rintro ⟨_, _, h, -⟩
          cases h
        · rintro ⟨_, _, h, -⟩
          cases h
      | some s =>
        obtain ⟨left, calls⟩ := s
        rw [Option.bind_eq_bind, Option.bind_some]
        dsimp only
        by_cases hcalls : calls = []
        · rw [if_pos hcalls]
          refine iff_of_true ⟨choice :: others, false, rfl, fun h => (by cases h), fun _ => rfl⟩ ⟨left, calls, rfl, ?_⟩
          rw [hcalls]
          exact Xml.not_mem_nil_named
        · rw [if_neg hcalls]
          have hget : Assoc.get (translatedMessage serde choice.message left calls).extra "tool_calls" =
              some (.array (callValues calls)) := Assoc.get_insert_self
          constructor
          · rintro ⟨_, _, heq, htrue, -⟩
            cases heq
            obtain ⟨_, _, values, hcons, htools, hlaw⟩ := htrue rfl
            cases hcons
            rw [hget] at htools
            cases htools
            exact ⟨left, calls, rfl, (callsLaw_iff hcalls).1 hlaw⟩
          · rintro ⟨_, _, heq, hnamed⟩
            cases heq
            refine ⟨_, true, rfl, fun _ => ⟨_, others, callValues calls, rfl, hget, (callsLaw_iff hcalls).2 hnamed⟩, fun h => by cases h⟩

def unclosedText : String := "<use_tool</use_tool>"

def unclosedChoice : Choice where
  message :=
    { role := "assistant"
      content := .string unclosedText
      extra := []
      content_nodup := rfl
      extra_nodup := Json.nodupKeys_object_nil
      extra_role := List.not_mem_nil
      extra_content := List.not_mem_nil }
  finishReason := some "stop"

theorem extractAll_unclosed : extractAll serde (toolNames none) unclosedText.toList = none := rfl

theorem unclosed_tag_panics : ¬ TranslationLaw ⟨fun _ => none, fun _ => []⟩ none [unclosedChoice] := by
  rintro ⟨_, _, h, -⟩
  have hsearched : searched ⟨fun _ => none, fun _ => []⟩ unclosedChoice = some unclosedText.toList := rfl
  rw [translateXmlToolCalls, translateChoice, hsearched] at h
  dsimp only at h
  rw [extractAll_unclosed] at h
  cases h

end ObeyGateway.XmlOffsets
