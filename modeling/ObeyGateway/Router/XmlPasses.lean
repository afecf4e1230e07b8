import ObeyGateway.Router.XmlToolCalls

/-!
# Patterns that find nothing

A pattern whose opening is nowhere in the text leaves it as it is, and what the patterns leave and find together is
what the translation makes of a message (`translateXmlToolCalls_eq`).
-/

namespace ObeyGateway.Xml
open Text Search

variable {serde : XmlSerde} {text : List Char} {calls : List XmlCall}

theorem extractPattern_eq_self {opening closing : List Char} {greedy : Bool} (h : NoStart opening text []) (fuel : Nat) :
    extractPattern serde opening closing greedy fuel text calls = some (text, calls) := by
  cases fuel with
  | zero => rfl
  | succ fuel => simp only [extractPattern, cut_eq_none h]

theorem extract_eq_self {opening closing : List Char} {greedy : Bool} (h : NoStart opening text []) :
    extract serde opening closing greedy (text, calls) = some (text, calls) := extractPattern_eq_self h _

theorem extractWrapped_eq_self (h : NoStart "<tool_calls>".toList text []) (fuel : Nat) :
    extractWrapped serde fuel (text, calls) = (text, calls) := by
  cases fuel with
  | zero => rfl
  | succ fuel => simp only [extractWrapped, find, cut_eq_none h]

theorem extractBare_eq_self (h : NoStart "<invoke ".toList text []) (fuel : Nat) :
    extractBare serde fuel (text, calls) = (text, calls) := by
  cases fuel with
  | zero => rfl
  | succ fuel => simp only [extractBare, find, cut_eq_none h]

theorem extractInvokeStyle_eq_self (hwrapped : NoStart "<tool_calls>".toList text [])
    (hbare : NoStart "<invoke ".toList text []) : extractInvokeStyle serde (text, calls) = (text, calls) := by
  rw [extractInvokeStyle, extractWrapped_eq_self hwrapped, extractBare_eq_self hbare]

theorem wrappers_eq_self {patterns : List (String × String)} (h : ∀ p ∈ patterns, NoStart p.1.toList text []) :
    patterns.foldlM (fun s p => extract serde p.1.toList p.2.toList false s) (text, calls) = some (text, calls) := by
  induction patterns with
  | nil => rfl
  | cons p patterns ih =>
    rw [List.forall_mem_cons] at h
    rw [List.foldlM_cons, extract_eq_self h.1, Option.bind_eq_bind, Option.bind_some, ih h.2]

theorem tools_eq_self {names : List String} (h : ∀ name ∈ names, NoStart ('<' :: name.toList) text []) :
    names.foldlM (extractTool serde) (text, calls) = some (text, calls) := by
  induction names with
  | nil => rfl
  | cons name names ih =>
    rw [List.forall_mem_cons] at h
    rw [List.foldlM_cons, extractTool, extract_eq_self h.1, Option.bind_eq_bind, Option.bind_some, ih h.2]

theorem stripToken_eq_self {token : String} (h : ¬ token.toList <:+: text) (fuel : Nat) :
    stripToken token fuel text = text := by
  cases fuel with
  | zero => rfl
  | succ fuel => rw [stripToken, if_neg (by simpa using h)]

theorem stripKimiSpecialTokens_eq_self (h : ∀ token ∈ kimiTokens, ¬ token.toList <:+: text) :
    stripKimiSpecialTokens text = text := by
  unfold stripKimiSpecialTokens
  revert h
  induction kimiTokens with
  | nil =>
    intro _
    rfl
  | cons token tokens ih =>
    intro h
    rw [List.forall_mem_cons] at h
    rw [List.foldl_cons, stripToken_eq_self h.1, ih h.2]

theorem extractArgKeyValue_eq_self (h : '<' ∉ text) (toolNames : List (List Char)) :
    extractArgKeyValue serde toolNames (text, calls) = (text, calls) := by
  unfold extractArgKeyValue
  induction toolNames with
  | nil => rfl
  | cons name toolNames ih =>
    have hname : extractArgKeyValueOf serde name (text.length + 1) (text, calls) = (text, calls) := by
      simp only [extractArgKeyValueOf, List.cons_append, cut_eq_none (noStart_of_notMem h [])]
    rw [List.foldl_cons, hname, ih]

theorem extractKimi_eq_self (h : '<' ∉ text) : extractKimi serde (text, calls) = (text, calls) := by
  have hsection : find "<|tool_calls_section_begin|>" text = none := cut_eq_none (noStart_of_notMem h [])
  have hcall : find "<|tool_call_begin|>" text = none := cut_eq_none (noStart_of_notMem h [])
  simp only [extractKimi, extractKimiSections, hsection, extractKimiBare, hcall]

theorem quotedAfter_eq_none {marker : String} {c : Char} (hc : c ∈ marker.toList) (quote : String) {tag : List Char}
    (h : c ∉ tag) : quotedAfter marker quote tag = none := by
  have hcut : find marker tag = none := by
    refine cut_eq_none (noStart_of_absent ?_)
    rw [List.append_nil]
    intro hi
    exact h (hi.subset hc)
  rw [quotedAfter, hcut]
  rfl

def combinedText (message : TurnMessage) : List Char :=
  let reasoningText := if message.reasoning ≠ [] then message.reasoning else message.reasoningContent
  if message.content = [] ∧ reasoningText ≠ [] then reasoningText else message.content

theorem translateXmlToolCalls_eq {tools : Option Json} {message : TurnMessage} (hnone : message.toolCalls = none)
    (hrun : extractAll serde (toolNames tools) (combinedText message) = some (text, calls))
    (hempty : combinedText message = [] → calls = []) :
    ∃ result flag, translateXmlToolCalls serde tools message = some (result, flag) ∧
      result.toolCalls.getD [] = calls ∧ result.content = if calls = [] then message.content else trim text := by
  rw [translateXmlToolCalls, if_neg (by simp [hnone])]
  dsimp only
  by_cases hnil : combinedText message = []
  · have hcalls := hempty hnil
    exact ⟨message, false, if_pos hnil, by simp [hnone, hcalls], by rw [if_pos hcalls]⟩
  · unfold combinedText at hrun hnil
    dsimp only at hrun hnil
    rw [if_neg hnil, hrun, Option.bind_eq_bind, Option.bind_some]
    dsimp only
    by_cases hcalls : calls = []
    · exact ⟨message, false, if_pos hcalls, by simp [hnone, hcalls], by rw [if_pos hcalls]⟩
    · exact ⟨_, true, if_neg hcalls, rfl, by rw [if_neg hcalls]⟩

theorem extractAll_of_translate {tools : Option Json} {message result : TurnMessage} {flag : Bool}
    (hnone : message.toolCalls = none) (hne : combinedText message ≠ [])
    (h : translateXmlToolCalls serde tools message = some (result, flag)) :
    ∃ out, extractAll serde (toolNames tools) (combinedText message) = some out ∧ result.toolCalls.getD [] = out.2 := by
  rcases hrun : extractAll serde (toolNames tools) (combinedText message) with _ | out
  · rw [translateXmlToolCalls, if_neg (by simp [hnone])] at h
    unfold combinedText at hrun hne
    dsimp only at h hrun hne
    rw [if_neg hne, hrun] at h
    cases h
  obtain ⟨result', flag', hresult, hcalls, -⟩ := translateXmlToolCalls_eq hnone hrun fun hnil => absurd hnil hne
  obtain ⟨rfl, rfl⟩ : result = result' ∧ flag = flag' := by simpa [h] using hresult
  exact ⟨out, rfl, hcalls⟩

end ObeyGateway.Xml
