import ObeyGateway.Lib.Scanner
import ObeyGateway.Router.XmlToolCalls

/-!
# The scanners of tool calls, round by round

Each pattern is a loop of rounds, and the rounds give the passes over a whole text (`extractAll_eq`).
-/

namespace ObeyGateway.Xml
open Text Search Scanner

inductive Pass
  | wrapped
  | bare
  | pattern (openTag closeTag : List Char) (greedy : Bool)
  | args (name : List Char)
  | kimiSections
  | kimiBare

section
variable (serde : XmlSerde)

/-- The calls of a `<tool_calls>` that is closed. -/
def wrappedCalls (inner : List Char) : List XmlCall :=
  let trimmed := trim inner
  if trimmed.head? = some '[' then parseJsonToolCallsArray serde trimmed []
  else if trimmed.head? = some Json.openBrace then parseJsonToolCallsArray serde ('[' :: trimmed ++ [']']) []
  else parseInvokeBlocks serde (inner.length + 1) inner []

def danglingCalls (inner : List Char) : List XmlCall :=
  let trimmed := trim inner
  if trimmed.head? = some '[' ∨ trimmed.head? = some Json.openBrace then parseJsonToolCallsArray serde trimmed []
  else parseInvokeBlocks serde (inner.length + 1) inner []

def wrappedRound (text : List Char) : Round Char XmlCall :=
  match find "<tool_calls>" text with
  | none => .done
  | some (before, after) =>
    match find "</tool_calls>" after with
    | some (inner, rest) => .found (wrappedCalls serde inner) (before ++ rest)
    | none => .last (danglingCalls serde after) before

def bareRound (text : List Char) : Round Char XmlCall :=
  match find "<invoke " text with
  | none => .done
  | some (before, after) =>
    let region := "<invoke ".toList ++ after
    match find "</invoke>" region with
    | some (inner, rest) =>
      let block := inner ++ "</invoke>".toList
      .found (parseInvokeBlocks serde (block.length + 1) block []) (before ++ rest)
    | none => .last (parseInvokeBlocks serde (region.length + 1) region []) before

def patternRound (openTag closeTag : List Char) (greedy : Bool) (text : List Char) : Option (Round Char XmlCall) :=
  match Frames.cut openTag text with
  | none => some .done
  | some (before, afterOpen) =>
    let region := openTag ++ afterOpen
    match if greedy then cutLast closeTag region else Frames.cut closeTag region with
    | some (inner, rest) =>
      match find ">" (inner ++ closeTag) with
      | none => some (.found [] (before ++ rest))
      | some (tag, _) =>
        if inner.length < tag.length + 1 then none
        else
          some (.found (xmlCallOf serde openTag (tag ++ ['>']) (inner.drop (tag.length + 1))).toList (before ++ rest))
    | none =>
      match find ">" region with
      | none => some (.last [] before)
      | some (tag, body) => some (.last (xmlCallOf serde openTag (tag ++ ['>']) body).toList before)

/-- What a block of `<arg_key>` has in it, and what is behind it. -/
def argBlock (name after : List Char) : List Char × List Char :=
  (((find "</tool_call>" after).map fun p => (p.1 ++ "</tool_call>".toList, p.2)).or
    ((Frames.cut ("</".toList ++ name ++ ['>']) after).map fun p => (p.1 ++ ("</".toList ++ name ++ ['>']), p.2))).getD (after, [])

def argsRound (name text : List Char) : Round Char XmlCall :=
  let pattern := '<' :: name ++ "<arg_key>".toList
  match Frames.cut pattern text with
  | none => .done
  | some (before, after) =>
    let block := pattern ++ (argBlock name after).1
    let args := argFields serde (block.length + 1) block []
    .found (if args = [] then [] else [⟨name, serde.toStr (.object args)⟩]) (before ++ (argBlock name after).2)

def kimiSectionsRound (text : List Char) : Round Char XmlCall :=
  match find "<|tool_calls_section_begin|>" text with
  | none => .done
  | some (before, after) =>
    let (inside, rest) :=
      ((find "<|tool_calls_section_end|>" after).map fun p => (p.1 ++ "<|tool_calls_section_end|>".toList, p.2)).getD (after, [])
    .found (kimiCalls serde (inside.length + 1) inside []) (before ++ rest)

def kimiBareRound (text : List Char) : Round Char XmlCall :=
  match find "<|tool_call_begin|>" text with
  | none => .done
  | some (before, after) =>
    let (body, rest) := (find "<|tool_call_end|>" after).getD (after, [])
    .found (kimiCall serde body).toList (before ++ rest)

def Pass.round : Pass → List Char → Option (Round Char XmlCall)
  | .wrapped, text => some (wrappedRound serde text)
  | .bare, text => some (bareRound serde text)
  | .pattern openTag closeTag greedy, text => patternRound serde openTag closeTag greedy text
  | .args name, text => some (argsRound serde name text)
  | .kimiSections, text => some (kimiSectionsRound serde text)
  | .kimiBare, text => some (kimiBareRound serde text)

end

def toolPass (name : String) : Pass := .pattern ('<' :: name.toList) ("</".toList ++ name.toList ++ ['>']) true

def firstPasses (names : List String) : List Pass :=
  .wrapped :: .bare :: (wrapperPatterns.map fun p => .pattern p.1.toList p.2.toList false) ++ names.map toolPass

/-- Pattern 5. -/
def argPasses (names : List String) : List Pass := names.map fun name => .args name.toList

/-- Pattern 6. -/
def kimiPasses : List Pass := [.kimiSections, .kimiBare]

variable {serde : XmlSerde} {text : List Char} {calls : List XmlCall} {fuel : Nat}

theorem parseInvokeBlocks_append (fuel : Nat) (text : List Char) (calls : List XmlCall) :
    parseInvokeBlocks serde fuel text calls = calls ++ parseInvokeBlocks serde fuel text [] := by
  induction fuel generalizing text calls with
  | zero => exact (List.append_nil _).symm
  | succ fuel ih =>
    rw [parseInvokeBlocks, parseInvokeBlocks]
    rcases find "<invoke " text with _ | p
    · exact (List.append_nil _).symm
    dsimp only
    rcases find ">" ("<invoke ".toList ++ p.2) with _ | q
    · exact (List.append_nil _).symm
    dsimp only
    rw [ih, ih _ ([] ++ _), List.nil_append, List.append_assoc]

theorem parseJsonToolCallsArray_append (text : List Char) (calls : List XmlCall) :
    parseJsonToolCallsArray serde text calls = calls ++ parseJsonToolCallsArray serde text [] := by
  rw [parseJsonToolCallsArray, parseJsonToolCallsArray]
  rcases serde.fromStr text with _ | v
  · exact (List.append_nil _).symm
  cases v with
  | array items => rfl
  | _ => exact (List.append_nil _).symm

theorem kimiCalls_append (fuel : Nat) (text : List Char) (calls : List XmlCall) :
    kimiCalls serde fuel text calls = calls ++ kimiCalls serde fuel text [] := by
  induction fuel generalizing text calls with
  | zero => exact (List.append_nil _).symm
  | succ fuel ih =>
    rw [kimiCalls, kimiCalls]
    rcases find "<|tool_call_begin|>" text with _ | p
    · exact (List.append_nil _).symm
    dsimp only
    rw [ih, ih _ ([] ++ _), List.nil_append, List.append_assoc]

/-! ### Shorter texts -/

theorem length_of_find {pattern : String} {before after : List Char} (h : find pattern text = some (before, after)) :
    text.length = before.length + pattern.toList.length + after.length := by
  rw [Frames.cut_eq_some h, List.length_append, List.length_append]

theorem wrappedRound_shortens : Shortens (Pass.round serde .wrapped) := by
  intro text items left h
  rw [Pass.round, Option.some_inj, wrappedRound] at h
  rcases hopen : find "<tool_calls>" text with _ | ⟨before, after⟩
  · rw [hopen] at h; cases h
  rw [hopen] at h
  dsimp only at h
  rcases hclose : find "</tool_calls>" after with _ | q
  · rw [hclose] at h; cases h
  rw [hclose] at h
  cases h
  have hlength := length_of_find hopen
  have hlength' := length_of_find hclose
  have hpos : "<tool_calls>".toList.length = 12 := rfl
  rw [List.length_append]
  omega

theorem bareRound_shortens : Shortens (Pass.round serde .bare) := by
  intro text items left h
  rw [Pass.round, Option.some_inj, bareRound] at h
  rcases hopen : find "<invoke " text with _ | ⟨before, after⟩
  · rw [hopen] at h; cases h
  rw [hopen] at h
  dsimp only at h
  rcases hclose : find "</invoke>" ("<invoke ".toList ++ after) with _ | q
  · rw [hclose] at h; cases h
  rw [hclose] at h
  cases h
  have hlength := length_of_find hopen
  have hlength' := length_of_find hclose
  have hpos : "</invoke>".toList.length = 9 := rfl
  rw [List.length_append] at hlength'
  rw [List.length_append]
  omega

variable {openTag closeTag : List Char} {greedy : Bool}

theorem closed_length {before afterOpen inner rest : List Char} (hopen : Frames.cut openTag text = some (before, afterOpen))
    (hclose : (if greedy then cutLast closeTag (openTag ++ afterOpen) else Frames.cut closeTag (openTag ++ afterOpen)) =
      some (inner, rest)) : text.length = before.length + inner.length + closeTag.length + rest.length := by
  have hregion : openTag ++ afterOpen = inner ++ (closeTag ++ rest) := by
    cases greedy with
    | true => exact cutLast_eq_some hclose
    | false => exact (first_of_cut hclose).1
  have hlength := congrArg List.length hregion
  rw [Frames.cut_eq_some hopen]
  simp only [List.length_append] at hlength ⊢
  omega

theorem patternRound_shortens (hclose : closeTag ≠ []) :
    Shortens (Pass.round serde (.pattern openTag closeTag greedy)) := by
  intro text items left h
  rw [Pass.round, patternRound] at h
  rcases hopen : Frames.cut openTag text with _ | ⟨before, afterOpen⟩
  · rw [hopen] at h; cases h
  rw [hopen] at h
  dsimp only at h
  have hpos := List.length_pos_iff.2 hclose
  cases hclosed : if greedy then cutLast closeTag (openTag ++ afterOpen) else Frames.cut closeTag (openTag ++ afterOpen) with
  | none =>
    rw [hclosed] at h
    dsimp only at h
    split at h
    · cases h
    · cases h
  | some q =>
    obtain ⟨inner, rest⟩ := q
    have hlength := closed_length hopen hclosed
    rw [hclosed] at h
    dsimp only at h
    split at h
    · cases h
      rw [List.length_append]
      omega
    · split at h
      · cases h
      · cases h
        rw [List.length_append]
        omega

theorem length_argBlock (name after : List Char) :
    (argBlock name after).1.length + (argBlock name after).2.length = after.length := by
  rw [argBlock]
  cases hcall : find "</tool_call>" after with
  | some p =>
    obtain ⟨inside, rest⟩ := p
    have hlength := length_of_find hcall
    show (inside ++ "</tool_call>".toList).length + rest.length = _
    rw [List.length_append]
    omega
  | none =>
    rcases hname : Frames.cut ("</".toList ++ name ++ ['>']) after with _ | ⟨inside, rest⟩
    · exact Nat.add_zero _
    have hlength := congrArg List.length (Frames.cut_eq_some hname)
    rw [List.length_append] at hlength
    show (inside ++ ("</".toList ++ name ++ ['>'])).length + rest.length = _
    omega

theorem argsRound_shortens (name : List Char) : Shortens (Pass.round serde (.args name)) := by
  intro text items left h
  rw [Pass.round, Option.some_inj, argsRound] at h
  dsimp only at h
  rcases hopen : Frames.cut ('<' :: name ++ "<arg_key>".toList) text with _ | ⟨before, after⟩
  · rw [hopen] at h; cases h
  rw [hopen] at h
  cases h
  have hlength := congrArg List.length (Frames.cut_eq_some hopen)
  have hblock := length_argBlock name after
  simp only [List.length_append, List.length_cons] at hlength ⊢
  omega

theorem kimiSectionsRound_shortens : Shortens (Pass.round serde .kimiSections) := by
  intro text items left h
  rw [Pass.round, Option.some_inj, kimiSectionsRound] at h
  rcases hopen : find "<|tool_calls_section_begin|>" text with _ | ⟨before, after⟩
  · rw [hopen] at h; cases h
  rw [hopen] at h
  dsimp only at h
  have hlength := length_of_find hopen
  have hpos : "<|tool_calls_section_begin|>".toList.length = 28 := rfl
  rcases hclose : find "<|tool_calls_section_end|>" after with _ | q
  · rw [hclose] at h
    cases h
    show (before ++ []).length < _
    rw [List.append_nil]
    omega
  rw [hclose] at h
  cases h
  have hlength' := length_of_find hclose
  show (before ++ q.2).length < _
  rw [List.length_append]
  omega

theorem kimiBareRound_shortens : Shortens (Pass.round serde .kimiBare) := by
  intro text items left h
  rw [Pass.round, Option.some_inj, kimiBareRound] at h
  rcases hopen : find "<|tool_call_begin|>" text with _ | ⟨before, after⟩
  · rw [hopen] at h; cases h
  rw [hopen] at h
  dsimp only at h
  have hlength := length_of_find hopen
  have hpos : "<|tool_call_begin|>".toList.length = 19 := rfl
  rcases hclose : find "<|tool_call_end|>" after with _ | q
  · rw [hclose] at h
    cases h
    show (before ++ []).length < _
    rw [List.append_nil]
    omega
  rw [hclose] at h
  cases h
  have hlength' := length_of_find hclose
  show (before ++ q.2).length < _
  rw [List.length_append]
  omega

def Pass.Proper : Pass → Prop
  | .pattern _ closeTag _ => '>' ∈ closeTag
  | _ => True

theorem Pass.shortens {p : Pass} (h : p.Proper) : Shortens (p.round serde) := by
  cases p with
  | wrapped => exact wrappedRound_shortens
  | bare => exact bareRound_shortens
  | pattern openTag closeTag greedy => exact patternRound_shortens (List.ne_nil_of_mem h)
  | args name => exact argsRound_shortens name
  | kimiSections => exact kimiSectionsRound_shortens
  | kimiBare => exact kimiBareRound_shortens

/-! ### The passes -/

theorem extractWrapped_eq (text : List Char) (calls : List XmlCall) : some (extractWrapped serde (text.length + 1) (text, calls)) =
    (scan (Pass.round serde .wrapped) (text.length + 1) text).map fun r => (r.1, calls ++ r.2) := by
  refine loop_eq_scan (fun fuel text acc => some (extractWrapped serde fuel (text, acc))) (fun fuel text acc => ?_)
    wrappedRound_shortens (Nat.lt_succ_self _) calls
  rw [extractWrapped, step, Pass.round, Option.bind_some, wrappedRound]
  rcases find "<tool_calls>" text with _ | ⟨before, after⟩
  · rfl
  dsimp only
  rcases find "</tool_calls>" after with _ | q
  · dsimp only
    rw [danglingCalls, parseJsonToolCallsArray_append _ acc, parseInvokeBlocks_append _ _ acc]
    split
    · rfl
    · rfl
  dsimp only
  rw [wrappedCalls, parseJsonToolCallsArray_append _ acc, parseJsonToolCallsArray_append _ acc, parseInvokeBlocks_append _ _ acc]
  split
  · rfl
  · split
    · rfl
    · rfl

theorem extractBare_eq (text : List Char) (calls : List XmlCall) : some (extractBare serde (text.length + 1) (text, calls)) =
    (scan (Pass.round serde .bare) (text.length + 1) text).map fun r => (r.1, calls ++ r.2) := by
  refine loop_eq_scan (fun fuel text acc => some (extractBare serde fuel (text, acc))) (fun fuel text acc => ?_)
    bareRound_shortens (Nat.lt_succ_self _) calls
  rw [extractBare, step, Pass.round, Option.bind_some, bareRound]
  rcases find "<invoke " text with _ | ⟨before, after⟩
  · rfl
  dsimp only
  cases find "</invoke>" ("<invoke ".toList ++ after) with
  | none | some =>
    dsimp only
    rw [parseInvokeBlocks_append _ _ acc]

theorem extract_eq (hclose : closeTag ≠ []) (s : List Char × List XmlCall) : extract serde openTag closeTag greedy s =
      (scan (Pass.round serde (.pattern openTag closeTag greedy)) (s.1.length + 1) s.1).map fun r => (r.1, s.2 ++ r.2) := by
  refine loop_eq_scan (extractPattern serde openTag closeTag greedy) (fun fuel text acc => ?_)
    (patternRound_shortens hclose) (Nat.lt_succ_self _) s.2
  rw [extractPattern, step, Pass.round, patternRound]
  rcases Frames.cut openTag text with _ | ⟨before, afterOpen⟩
  · rfl
  dsimp only
  rcases if greedy then cutLast closeTag (openTag ++ afterOpen) else Frames.cut closeTag (openTag ++ afterOpen) with _ | q
  · dsimp only
    cases find ">" (openTag ++ afterOpen) with
    | none => exact congrArg (fun c => some (before, c)) (List.append_nil acc).symm
    | some q => rfl
  obtain ⟨inner, rest⟩ := q
  dsimp only
  rcases find ">" (inner ++ closeTag) with _ | q
  · exact congrArg (extractPattern serde openTag closeTag greedy fuel (before ++ rest)) (List.append_nil acc).symm
  dsimp only
  split
  · rfl
  · rfl

theorem extractArgKeyValueOf_eq (name text : List Char) (calls : List XmlCall) :
    some (extractArgKeyValueOf serde name (text.length + 1) (text, calls)) =
      (scan (Pass.round serde (.args name)) (text.length + 1) text).map fun r => (r.1, calls ++ r.2) := by
  refine loop_eq_scan (fun fuel text acc => some (extractArgKeyValueOf serde name fuel (text, acc))) (fun fuel text acc => ?_)
    (argsRound_shortens name) (Nat.lt_succ_self _) calls
  rw [extractArgKeyValueOf, step, Pass.round, Option.bind_some, argsRound]
  dsimp only
  rcases Frames.cut ('<' :: name ++ "<arg_key>".toList) text with _ | ⟨before, after⟩
  · rfl
  dsimp only
  rw [← argBlock]
  generalize argBlock name after = block
  obtain ⟨inside, rest⟩ := block
  dsimp only
  split
  · rw [List.append_nil]
  · rfl

theorem extractKimiSections_eq (text : List Char) (calls : List XmlCall) :
    some (extractKimiSections serde (text.length + 1) (text, calls)) =
      (scan (Pass.round serde .kimiSections) (text.length + 1) text).map fun r => (r.1, calls ++ r.2) := by
  refine loop_eq_scan (fun fuel text acc => some (extractKimiSections serde fuel (text, acc))) (fun fuel text acc => ?_)
    kimiSectionsRound_shortens (Nat.lt_succ_self _) calls
  rw [extractKimiSections, step, Pass.round, Option.bind_some, kimiSectionsRound]
  rcases find "<|tool_calls_section_begin|>" text with _ | ⟨before, after⟩
  · rfl
  dsimp only
  generalize Option.getD _ (after, []) = block
  obtain ⟨inside, rest⟩ := block
  dsimp only
  rw [kimiCalls_append _ _ acc]

theorem extractKimiBare_eq (text : List Char) (calls : List XmlCall) :
    some (extractKimiBare serde (text.length + 1) (text, calls)) =
      (scan (Pass.round serde .kimiBare) (text.length + 1) text).map fun r => (r.1, calls ++ r.2) := by
  refine loop_eq_scan (fun fuel text acc => some (extractKimiBare serde fuel (text, acc))) (fun fuel text acc => ?_)
    kimiBareRound_shortens (Nat.lt_succ_self _) calls
  rw [extractKimiBare, step, Pass.round, Option.bind_some, kimiBareRound]
  rcases find "<|tool_call_begin|>" text with _ | ⟨before, after⟩
  · rfl
  rfl

theorem toolPass_proper (name : String) : (toolPass name).Proper := List.mem_append_right _ List.mem_cons_self

theorem wrapper_proper {p : String × String} (h : p ∈ wrapperPatterns) : '>' ∈ p.2.toList := by
  revert p
  decide

variable (names : List String)

theorem firstPasses_proper : ∀ p ∈ firstPasses names, p.Proper := by
  intro p hp
  rcases List.mem_cons.1 hp with rfl | hp
  · trivial
  rcases List.mem_cons.1 hp with rfl | hp
  · trivial
  rcases List.mem_append.1 hp with hp | hp
  · obtain ⟨q, hq, rfl⟩ := List.mem_map.1 hp
    exact wrapper_proper hq
  · obtain ⟨name, -, rfl⟩ := List.mem_map.1 hp
    exact toolPass_proper name

/-- The later patterns are for texts without a call of the earlier ones. -/
def phases (names : List String) : List (List Pass) := [firstPasses names, argPasses names, kimiPasses]

theorem phases_proper : ∀ passes ∈ phases names, ∀ p ∈ passes, p.Proper := by
  refine List.forall_mem_cons.2 ⟨firstPasses_proper names, List.forall_mem_cons.2 ⟨fun p hp => ?_, ?_⟩⟩
  · obtain ⟨name, -, rfl⟩ := List.mem_map.1 hp
    trivial
  · refine List.forall_mem_singleton.2 (List.forall_mem_cons.2 ⟨trivial, List.forall_mem_singleton.2 trivial⟩)

theorem extractInvokeStyle_eq (text : List Char) :
    some (extractInvokeStyle serde (text, [])) = runAll (Pass.round serde) [.wrapped, .bare] text := by
  have hwrapped : some (extractWrapped serde (text.length + 1) (text, [])) =
      scan (Pass.round serde .wrapped) (text.length + 1) text := by
    rw [extractWrapped_eq]
    exact Option.map_id'
  rw [extractInvokeStyle, runAll, ← hwrapped, Option.bind_some, runAll_singleton]
  exact extractBare_eq _ _

theorem runAll_toolPass (s : List Char × List XmlCall) : names.foldlM (extractTool serde) s =
    (runAll (Pass.round serde) (names.map toolPass) s.1).map fun r => (r.1, s.2 ++ r.2) := by
  refine foldlM_eq_runAll ?_ s
  intro name _ s
  exact extract_eq (List.ne_nil_of_mem (toolPass_proper name)) s

theorem runAll_wrappers (s : List Char × List XmlCall) :
    wrapperPatterns.foldlM (fun s p => extract serde p.1.toList p.2.toList false s) s =
      (runAll (Pass.round serde) (wrapperPatterns.map fun p => .pattern p.1.toList p.2.toList false) s.1).map
        fun r => (r.1, s.2 ++ r.2) := by
  refine foldlM_eq_runAll ?_ s
  intro p hp s
  exact extract_eq (List.ne_nil_of_mem (wrapper_proper hp)) s

theorem extractArgKeyValue_eq (s : List Char × List XmlCall) :
    some (extractArgKeyValue serde (names.map String.toList) s) =
      (runAll (Pass.round serde) (argPasses names) s.1).map fun r => (r.1, s.2 ++ r.2) := by
  have hfold : names.foldlM (fun s name => some (extractArgKeyValueOf serde name.toList (s.1.length + 1) s)) s =
      some (extractArgKeyValue serde (names.map String.toList) s) := by
    rw [extractArgKeyValue, List.foldl_map]
    exact List.foldlM_pure
  rw [← hfold]
  exact foldlM_eq_runAll (fun name _ s => extractArgKeyValueOf_eq name.toList s.1 s.2) s

theorem extractKimi_eq (s : List Char × List XmlCall) :
    some (extractKimi serde s) = (runAll (Pass.round serde) kimiPasses s.1).map fun r => (r.1, s.2 ++ r.2) := by
  have hsections := @extractKimiSections_eq serde s.1 s.2
  rw [extractKimi, kimiPasses, runAll]
  rcases hscan : scan (Pass.round serde .kimiSections) (s.1.length + 1) s.1 with _ | r
  · rw [hscan] at hsections
    cases hsections
  rw [hscan, Option.map_some, Option.some_inj] at hsections
  have heq : extractKimiSections serde (s.1.length + 1) s = (r.1, s.2 ++ r.2) := hsections
  rw [heq, Option.bind_some, runAll_singleton, Option.map_map]
  dsimp only
  rw [extractKimiBare_eq]
  refine congrArg (Option.map · _) (funext fun r' => ?_)
  rw [Function.comp_apply, List.append_assoc]

theorem extractAll_eq (serde : XmlSerde) (names : List String) (text : List Char) : extractAll serde names text =
    (runPhases (Pass.round serde) (phases names) text).map fun s => (stripKimiSpecialTokens s.1, s.2) := by
  have hfirst : (wrapperPatterns.foldlM (fun s p => extract serde p.1.toList p.2.toList false s)
      (extractInvokeStyle serde (text, []))).bind (names.foldlM (extractTool serde)) =
        runAll (Pass.round serde) (firstPasses names) text := by
    have hpasses : firstPasses names = [.wrapped, .bare] ++
        ((wrapperPatterns.map fun p => .pattern p.1.toList p.2.toList false) ++ names.map toolPass) := rfl
    rw [hpasses, runAll_append, ← extractInvokeStyle_eq, Option.bind_some, runAll_wrappers, Option.bind_map, runAll_append,
      Option.map_bind]
    refine congrArg (Option.bind _) (funext fun r => ?_)
    rw [Function.comp_apply, Function.comp_apply, runAll_toolPass, Option.map_map]
    refine congrArg (Option.map · _) (funext fun r' => ?_)
    rw [Function.comp_apply, List.append_assoc]
  rw [extractAll, phases, runPhases, ← hfirst, Option.map_bind, Option.bind_assoc]
  refine congrArg (Option.bind _) (funext fun s => ?_)
  refine congrArg (Option.bind _) (funext fun s => ?_)
  obtain ⟨left, calls⟩ := s
  rw [Function.comp_apply]
  cases calls with
  | cons call calls => rfl
  | nil =>
    have hargs : some (extractArgKeyValue serde (names.map String.toList) (left, [])) =
        runAll (Pass.round serde) (argPasses names) left := by
      rw [extractArgKeyValue_eq]
      exact Option.map_id'
    have hkimi (left : List Char) : some (extractKimi serde (left, [])) = runAll (Pass.round serde) kimiPasses left := by
      rw [extractKimi_eq]
      exact Option.map_id'
    show some (stripKimiSpecialTokens _, _) = Option.map _ (runPhases _ [argPasses names, kimiPasses] left)
    rw [runPhases, ← hargs, Option.bind_some, runPhases_singleton, ← hkimi, if_pos rfl]
    generalize extractArgKeyValue serde (names.map String.toList) (left, []) = s
    obtain ⟨left, calls⟩ := s
    cases calls with
    | nil | cons => rfl

end ObeyGateway.Xml
