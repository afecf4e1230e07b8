import ObeyGateway.Router.ToolHistory
import ObeyGateway.Router.XmlBlocksLaw

/-!
# The round trip of tool history

The calls of a rewritten message are read back by the pattern of `<use_tool>`, one step of its loop for each call
(`extractPattern_useTool`). The body of a call goes up to the first close tag and is trimmed, so that the arguments
come back exactly when they hold no close tag and no space around them.
-/

namespace ObeyGateway.Xml
open Text Search Models

theorem useTool_append (call : XmlCall) (rest : List Char) :
    useTool call ++ rest = useOpen call.name ++ (call.arguments ++ (useClose ++ rest)) := by
  simp only [useTool, List.append_assoc]

structure AttributeName (name : List Char) : Prop where
  quote : '"' ∉ name
  bracket : '>' ∉ name

def readBack (serde : XmlSerde) (name body : List Char) : List Char :=
  normalizeToolArguments serde name (namedArguments serde name (trim body))

variable {serde : XmlSerde} {name text body rest : List Char} {done : List XmlCall}

/-! The parts of the opening tag, apart from the name. -/

def usePattern : List Char := "<use_tool".toList

def attributeHead : List Char := " name=\"".toList

def nameMarker : List Char := "name=\"".toList

theorem useOpen_eq (name : List Char) : useOpen name = usePattern ++ (attributeHead ++ (name ++ ['"']) ++ ['>']) := by
  have hhead : useHead = usePattern ++ attributeHead := by decide
  simp [useOpen, hhead]

theorem extractXmlAttribute_useOpen (hname : AttributeName name) :
    extractXmlAttribute (useOpen name) "name" = some name := by
  have hmarker : Frames.cut nameMarker (useOpen name) = some (usePattern ++ [' '], name ++ ['"', '>']) := by
    have hhead : useHead = usePattern ++ [' '] ++ nameMarker := by decide
    rw [useOpen, hhead, List.append_assoc]
    exact cut_occurrence (by decide) (noStart_of_notMem (c := 'n') (by decide) _)
  have hquote : find "\"" (name ++ ['"', '>']) = some (name, ['>']) := cut_singleton (c := '"') hname.quote
  have hquoted : quotedAfter "name=\"" "\"" (useOpen name) = some name := by
    show ((Frames.cut nameMarker (useOpen name)).bind fun p => (find "\"" p.2).map (·.1)) = some name
    rw [hmarker, Option.bind_some, hquote]
    rfl
  have happend : "name" ++ "=\"" = "name=\"" := by decide
  rw [extractXmlAttribute, happend, hquoted]
  rfl

def closeTail : List Char := "/use_tool>".toList

theorem useClose_eq : useClose = '<' :: closeTail := by decide

theorem noStart_useOpen (hname : AttributeName name) (ys : List Char) : NoStart useClose (useOpen name) ys := by
  have hnot : ¬ useClose <:+: name := fun hi => hname.bracket (hi.subset (by decide))
  have hhead : NoStart useClose useHead (name ++ ['"', '>'] ++ ys) := by
    have hsplit : useHead = '<' :: 'u' :: "se_tool name=\"".toList := by decide
    rw [hsplit, useClose_eq]
    refine noStart_tag (by decide) fun hp => ?_
    exact absurd (List.cons_prefix_cons.1 hp).1 (by decide)
  refine NoStart.append hhead (NoStart.append ?_ ?_)
  · exact noStart_cons_of_notMem (by decide) hnot _
  · rw [useClose_eq]
    exact noStart_of_notMem (by decide) _

theorem xmlCallOf_useOpen (hname : AttributeName name) (body : List Char) :
    xmlCallOf serde usePattern (useOpen name) body = some ⟨name, readBack serde name body⟩ := by
  simp only [xmlCallOf, extractXmlAttribute_useOpen hname, Option.map_some, readBack]

theorem extractPattern_useTool (htext : ¬ usePattern <:+: text) (hname : AttributeName name)
    (hbody : ¬ useClose <:+: body) (fuel : Nat) (rest : List Char) (done : List XmlCall) :
    extractPattern serde usePattern useClose false (fuel + 1) (text ++ (useOpen name ++ (body ++ (useClose ++ rest)))) done =
      extractPattern serde usePattern useClose false fuel (text ++ rest) (done ++ [⟨name, readBack serde name body⟩]) := by
  set tag := usePattern ++ (attributeHead ++ (name ++ ['"'])) with htag
  have htagEnd : useOpen name = tag ++ ['>'] := by simp only [useOpen_eq, htag, List.append_assoc]
  have hopen : Frames.cut usePattern (text ++ (useOpen name ++ (body ++ (useClose ++ rest)))) =
      some (text, attributeHead ++ (name ++ ['"']) ++ ['>'] ++ (body ++ (useClose ++ rest))) := by
    have hpattern : usePattern = '<' :: "use_tool".toList := by decide
    rw [useOpen_eq, List.append_assoc]
    refine cut_occurrence (by decide) ?_
    rw [hpattern] at htext ⊢
    exact noStart_cons_of_absent (by decide) htext _
  have hregion : usePattern ++ (attributeHead ++ (name ++ ['"']) ++ ['>'] ++ (body ++ (useClose ++ rest))) =
      useOpen name ++ body ++ (useClose ++ rest) := by
    rw [useOpen_eq]
    simp only [List.append_assoc]
  have hclose : Frames.cut useClose (useOpen name ++ body ++ (useClose ++ rest)) = some (useOpen name ++ body, rest) := by
    refine cut_occurrence (by decide) (NoStart.append (noStart_useOpen hname _) ?_)
    rw [useClose_eq] at hbody ⊢
    exact noStart_cons_of_absent (by decide) hbody _
  have hend : find ">" (useOpen name ++ body ++ useClose) = some (tag, body ++ useClose) := by
    have hnot : '>' ∉ tag := by
      have hconst : '>' ∉ usePattern ∧ '>' ∉ attributeHead := by decide
      simp [htag, hconst, hname.bracket]
    rw [htagEnd, List.append_assoc, List.append_assoc]
    exact cut_singleton (c := '>') hnot
  have hlength : ¬ (useOpen name ++ body).length < tag.length + 1 := by simp [htagEnd]
  have hdrop : (useOpen name ++ body).drop (tag.length + 1) = body := by simp [htagEnd]
  rw [extractPattern]
  simp only [hopen, Bool.false_eq_true, if_false, hregion, hclose, hend, if_neg hlength, hdrop, ← htagEnd,
    xmlCallOf_useOpen hname, Option.toList_some]

/-! ### Arguments -/

/-- The arguments are an object text, normalised for the tool; and what is used of how `serde_json` reads it. -/
structure GatewayCall (serde : XmlSerde) (call : XmlCall) : Prop where
  name : AttributeName call.name
  object : ∃ fields, serde.fromStr call.arguments = some (.object fields)
  normal : normalizeToolArguments serde call.name call.arguments = call.arguments
  spaced : serde.fromStr (trim call.arguments) = serde.fromStr call.arguments
  cut : ∀ before after, call.arguments = before ++ '<' :: after →
    serde.fromStr (trim before) = none ∧ serde.fromStr (escapeControls (trim before)) = none

/-- What `serde_json` prints: objects in their braces, and tags as they are. -/
structure JsonTags (serde : XmlSerde) : Prop extends JsonText serde where
  braces : ∀ fields, (serde.toStr (.object fields)).head? = some Json.openBrace ∧
    (serde.toStr (.object fields)).getLast? = some Json.closeBrace
  verbatim : ∀ key value, useClose <:+: serde.toStr (.object [(key, .string value)]) →
    useClose <:+: key.toList ∨ useClose <:+: value.toList

structure Carried (call : XmlCall) : Prop where
  trimmed : trim call.arguments = call.arguments
  unclosed : ¬ useClose <:+: call.arguments

instance (call : XmlCall) : Decidable (Carried call) :=
  decidable_of_iff (trim call.arguments = call.arguments ∧ ¬ useClose <:+: call.arguments)
    ⟨fun h => ⟨h.1, h.2⟩, fun h => ⟨h.trimmed, h.unclosed⟩⟩

variable {call : XmlCall}

theorem JsonTags.trim_toStr (hserde : JsonTags serde) (fields : Json.Map) :
    trim (serde.toStr (.object fields)) = serde.toStr (.object fields) := by
  obtain ⟨hfirst, hlast⟩ := hserde.braces fields
  refine trim_eq_self ?_ ?_
  · intro c hc
    rw [hfirst] at hc
    cases hc
    decide
  · intro c hc
    rw [hlast] at hc
    cases hc
    decide

theorem readBack_eq (h : GatewayCall serde call) (hcarried : Carried call) :
    readBack serde call.name call.arguments = call.arguments := by
  obtain ⟨fields, hfields⟩ := h.object
  rw [readBack, hcarried.trimmed, namedArguments, if_pos (by simp [hfields]), h.normal]

theorem readBack_untrimmed (hserde : JsonTags serde) (h : GatewayCall serde call)
    (hne : trim call.arguments ≠ call.arguments) : readBack serde call.name call.arguments ≠ call.arguments := by
  obtain ⟨fields, hfields⟩ := h.object
  have hread : serde.fromStr (trim call.arguments) = some (.object fields) := h.spaced.trans hfields
  have hnormal := h.normal
  rw [readBack, namedArguments, if_pos (by simp [hread])]
  simp only [normalizeToolArguments, hread, hfields] at hnormal ⊢
  split
  · -- what is printed has no spaces around it
    rename_i hchanged
    rw [if_pos hchanged] at hnormal
    refine absurd ?_ hne
    rw [← hnormal]
    exact hserde.trim_toStr _
  · exact hne

/-! An argument text that is cut at a close tag. -/

theorem isInfix_trim (xs : List Char) : trim xs <:+: xs := by
  have hend : trimEnd (trimStart xs) <+: trimStart xs := by
    rw [trimEnd, ← List.reverse_suffix, List.reverse_reverse]
    exact List.dropWhile_suffix _
  exact hend.isInfix.trans (List.dropWhile_suffix _).isInfix

theorem isInfix_trimStartMatches (c : Char) (xs : List Char) : trimStartMatches c xs <:+: xs :=
  (List.dropWhile_suffix _).isInfix

theorem isInfix_trimEndMatches (c : Char) (xs : List Char) : trimEndMatches c xs <:+: xs := by
  have hend : trimEndMatches c xs <+: xs := by
    rw [trimEndMatches, ← List.reverse_suffix, List.reverse_reverse]
    exact List.dropWhile_suffix _
  exact hend.isInfix

/-- The key and the value of an object that does not parse are pieces of its text. -/
theorem firstKeyOf_eq (body : List Char) :
    ∃ key value, firstKeyOf body = [(key, .string value)] ∧ (key.toList <:+: body ∨ key = "result") ∧
      value.toList <:+: body := by
  set inner := trim (trimEndMatches Json.closeBrace (trimStartMatches Json.openBrace body)) with hinner
  have hinnerBody : inner <:+: body :=
    ((isInfix_trim _).trans (isInfix_trimEndMatches _ _)).trans (isInfix_trimStartMatches _ _)
  rcases hcolon : find ":" inner with _ | ⟨key, value⟩
  · refine ⟨"result", String.ofList body, ?_, .inr rfl, by simp⟩
    simp only [firstKeyOf, ← hinner, hcolon]
  have hsplit : inner = key ++ ":".toList ++ value := Frames.cut_eq_some hcolon
  have hkey : key <:+: body := by
    refine List.IsInfix.trans ?_ hinnerBody
    rw [hsplit, List.append_assoc]
    exact (List.prefix_append _ _).isInfix
  have hvalue : value <:+: body := by
    refine List.IsInfix.trans ?_ hinnerBody
    rw [hsplit]
    exact (List.suffix_append _ _).isInfix
  have hfields : firstKeyOf body =
      [(String.ofList (trimEndMatches '"' (trimStartMatches '"' (trim key))),
        .string (String.ofList (if (trim value).head? = some '"' then
          trimEndMatches '"' (trimStartMatches '"' (trim value)) else trim value)))] := by
    simp only [firstKeyOf, ← hinner, hcolon]
  refine ⟨_, _, hfields, .inl ?_, ?_⟩
  · rw [String.toList_ofList]
    exact ((isInfix_trimEndMatches _ _).trans (isInfix_trimStartMatches _ _)).trans ((isInfix_trim _).trans hkey)
  · rw [String.toList_ofList]
    split
    · exact ((isInfix_trimEndMatches _ _).trans (isInfix_trimStartMatches _ _)).trans ((isInfix_trim _).trans hvalue)
    · exact (isInfix_trim _).trans hvalue

theorem namedArguments_unread {body : List Char} (hbody : serde.fromStr body = none)
    (hescaped : serde.fromStr (escapeControls body) = none) (name : List Char) :
    ∃ key value, namedArguments serde name body = serde.toStr (.object [(key, .string value)]) ∧
      (useClose <:+: key.toList → useClose <:+: body) ∧ (useClose <:+: value.toList → useClose <:+: body) := by
  rw [namedArguments, if_neg (by simp [hbody])]
  split
  · rw [hescaped]
    obtain ⟨key, value, hfields, hkey, hvalue⟩ := firstKeyOf_eq body
    refine ⟨key, value, by rw [hfields], fun hi => ?_, fun hi => hi.trans hvalue⟩
    rcases hkey with hkey | rfl
    · exact hi.trans hkey
    · exact absurd hi (by decide)
  · refine ⟨_, _, rfl, fun hi => absurd hi ?_, fun hi => by simpa using hi⟩
    split_ifs <;> decide

theorem renameField_singleton (old new key : String) (value : Json) (changed : Bool) :
    renameField old new ([(key, value)], changed) = ([(key, value)], changed) ∨
      renameField old new ([(key, value)], changed) = ([(new, value)], true) := by
  by_cases hnew : key = new
  · subst hnew
    exact .inl (by simp [renameField])
  by_cases hold : key = old
  · subst hold
    exact .inr (by simp [renameField, Assoc.get_cons_of_ne hnew, Assoc.erase, Assoc.insert])
  · exact .inl (by simp [renameField, Assoc.get_cons_of_ne hnew, Assoc.get_cons_of_ne hold])

variable (key value : String)

theorem joinFiles_singleton :
    joinFiles [(key, .string value)] = (Assoc.erase [(key, .string value)] "files", false) := by
  have hscalar : (Assoc.get [(key, Json.string value)] "files").bind Json.asArray = none := by
    by_cases hkey : key = "files"
    · subst hkey
      simp [Json.asArray]
    · simp [Assoc.get_cons_of_ne hkey]
  simp only [joinFiles, hscalar]

theorem normalizedFields_singleton (tool key value : String) :
    ∃ key', normalizedFields tool [(key, .string value)] = [(key', .string value)] ∧
      (key' = key ∨ key' ∈ ["path", "regex", "command"]) := by
  have hrename : ∀ old new, new ∈ ["path", "regex", "command"] →
      normalizeFields tool [(key, .string value)] = renameField old new ([(key, .string value)], false) →
      ∃ key', normalizedFields tool [(key, .string value)] = [(key', .string value)] ∧
        (key' = key ∨ key' ∈ ["path", "regex", "command"]) := by
    intro old new hnew heq
    rcases renameField_singleton old new key (.string value) false with hsame | hchanged
    · exact ⟨key, by simp [normalizedFields, heq, hsame], .inl rfl⟩
    · exact ⟨new, by simp [normalizedFields, heq, hchanged], .inr hnew⟩
  by_cases hread : tool = "read_file"
  · by_cases hfiles : key = "files"
    · refine ⟨key, ?_, .inl rfl⟩
      subst hfiles
      simp [normalizedFields, normalizeFields, hread, joinFiles_singleton, Assoc.erase, renameField]
    · refine hrename "file_path" "path" (by decide) ?_
      simp [normalizeFields, hread, joinFiles_singleton, Assoc.erase, hfiles]
  by_cases hlist : tool = "list_files"
  · exact hrename "directory" "path" (by decide) (by simp [normalizeFields, hlist])
  by_cases hsearch : tool = "search_files"
  · exact hrename "search_term" "regex" (by decide) (by simp [normalizeFields, hsearch])
  by_cases hcommand : tool = "execute_command"
  · exact hrename "cmd" "command" (by decide) (by simp [normalizeFields, hcommand])
  · exact ⟨key, by simp [normalizedFields, normalizeFields, hread, hlist, hsearch, hcommand], .inl rfl⟩

theorem readBack_closed (hserde : JsonTags serde) (h : GatewayCall serde call) {before after : List Char}
    (harguments : call.arguments = before ++ (useClose ++ after)) (hbefore : ¬ useClose <:+: before) :
    readBack serde call.name before ≠ call.arguments := by
  have hcut : serde.fromStr (trim before) = none ∧ serde.fromStr (escapeControls (trim before)) = none :=
    h.cut before (closeTail ++ after) (by rw [harguments, useClose_eq, List.cons_append])
  obtain ⟨key, value, hnamed, hkey, hvalue⟩ := namedArguments_unread hcut.1 hcut.2 call.name
  obtain ⟨key', hfields, hkey'⟩ := normalizedFields_singleton (String.ofList call.name) key value
  have hread : readBack serde call.name before = serde.toStr (.object [(key', .string value)]) := by
    have hflat : Flat [(key, Json.string value)] := ⟨by simp [Assoc.keys], by simp [isScalar]⟩
    have hnormal := @normalizeToolArguments_eq serde (String.ofList call.name) hserde.toJsonText _ hflat
    rw [String.toList_ofList, hfields] at hnormal
    rw [readBack, hnamed, hnormal]
  intro heq
  have hclose : useClose <:+: serde.toStr (.object [(key', .string value)]) := by
    rw [← hread, heq, harguments]
    exact ⟨before, after, by simp⟩
  have hnot : ¬ useClose <:+: trim before := fun hi => hbefore (hi.trans (isInfix_trim _))
  rcases hserde.verbatim key' value hclose with hi | hi
  · rcases hkey' with rfl | hmem
    · exact hnot (hkey hi)
    · revert hi
      have hall : ∀ key ∈ ["path", "regex", "command"], ¬ useClose <:+: key.toList := by decide
      exact hall key' hmem
  · exact hnot (hvalue hi)

/-! ### The calls of a message -/

theorem extractPattern_carried {calls : List XmlCall} (htext : ¬ usePattern <:+: text)
    (hcalls : ∀ call ∈ calls, GatewayCall serde call ∧ Carried call) (fuel : Nat) (rest : List Char) (done : List XmlCall) :
    extractPattern serde usePattern useClose false (fuel + calls.length) (text ++ (calls.flatMap useTool ++ rest)) done =
      extractPattern serde usePattern useClose false fuel (text ++ rest) (done ++ calls) := by
  induction calls generalizing done with
  | nil => simp
  | cons call calls ih =>
    rw [List.forall_mem_cons] at hcalls
    obtain ⟨⟨hcall, hcarried⟩, hrest⟩ := hcalls
    rw [List.flatMap_cons, List.append_assoc, useTool_append, List.length_cons, ← Nat.add_assoc,
      extractPattern_useTool htext hcall.name hcarried.unclosed, readBack_eq hcall hcarried, ih hrest, List.append_assoc]
    rfl

theorem extractPattern_keeps_calls {opening closing : List Char} {greedy : Bool} {fuel : Nat} {out : List Char × List XmlCall}
    (h : extractPattern serde opening closing greedy fuel text done = some out) : done <+: out.2 := by
  induction fuel generalizing text done with
  | zero =>
    cases h
    exact List.prefix_refl _
  | succ fuel ih =>
    rw [extractPattern] at h
    split at h
    · cases h
      exact List.prefix_refl _
    · dsimp only at h
      split at h
      · split at h
        · exact ih h
        · split at h
          · cases h
          · exact (List.prefix_append _ _).trans (ih h)
      · split at h
        · cases h
          exact List.prefix_refl _
        · cases h
          exact List.prefix_append _ _

theorem foldlM_keeps_calls {α : Type*} {f : List Char × List XmlCall → α → Option (List Char × List XmlCall)}
    (hf : ∀ s a out, f s a = some out → s.2 <+: out.2) {xs : List α} {s out : List Char × List XmlCall}
    (h : xs.foldlM f s = some out) : s.2 <+: out.2 := by
  induction xs generalizing s with
  | nil =>
    cases h
    exact List.prefix_refl _
  | cons a xs ih =>
    rw [List.foldlM_cons, Option.bind_eq_bind, Option.bind_eq_some_iff] at h
    obtain ⟨s', hs', hout⟩ := h
    exact (hf s a s' hs').trans (ih hout)

/-- No other pattern opens: neither invoke blocks in the whole text, nor anything in the text ahead of the calls. -/
structure Clean (names : List String) (text whole : List Char) : Prop where
  wrapped : ¬ "<tool_calls>".toList <:+: whole
  bare : ¬ "<invoke ".toList <:+: whole
  wrappers : ∀ p ∈ wrapperPatterns, ¬ p.1.toList <:+: text
  tags : ∀ name ∈ names, ¬ '<' :: name.toList <:+: text
  tokens : ∀ token ∈ kimiTokens, ¬ token.toList <:+: text

theorem noStart_nil_of_absent {pat xs : List Char} (h : ¬ pat <:+: xs) : NoStart pat xs [] :=
  noStart_of_absent (by rwa [List.append_nil])

theorem useTool_ne_nil (call : XmlCall) : useTool call ≠ [] := by
  have hhead : useHead ≠ [] := by decide
  simp [useTool, useOpen, hhead]

section
variable {names : List String} {whole : List Char} {calls : List XmlCall}

theorem exists_fuel {rest : List Char} (hwhole : whole = text ++ (calls.flatMap useTool ++ rest)) :
    ∃ fuel, whole.length + 1 = fuel + 1 + calls.length := by
  have hlength : calls.length ≤ (calls.flatMap useTool).length := length_le_flatMap fun call _ => useTool_ne_nil call
  have hle : calls.length ≤ whole.length := by
    rw [hwhole, List.length_append, List.length_append]
    omega
  exact ⟨whole.length - calls.length, by omega⟩

theorem extractAll_carried (hclean : Clean names text whole) (hwhole : whole = text ++ calls.flatMap useTool)
    (hne : calls ≠ []) (hcalls : ∀ call ∈ calls, GatewayCall serde call ∧ Carried call) :
    extractAll serde names whole = some (text, calls) := by
  have hinvoke : extractInvokeStyle serde (whole, []) = (whole, []) :=
    extractInvokeStyle_eq_self (noStart_nil_of_absent hclean.wrapped) (noStart_nil_of_absent hclean.bare)
  have huses : wrapperPatterns.foldlM (fun s p => extract serde p.1.toList p.2.toList false s) (whole, []) =
      some (text, calls) := by
    have hwhole' : whole = text ++ (calls.flatMap useTool ++ []) := by rw [hwhole, List.append_nil]
    obtain ⟨fuel, hfuel⟩ := exists_fuel hwhole'
    have hopening : ¬ usePattern <:+: text := hclean.wrappers ("<use_tool", "</use_tool>") List.mem_cons_self
    have huse : extract serde "<use_tool".toList "</use_tool>".toList false (whole, []) = some (text, calls) := by
      show extractPattern serde usePattern useClose false (whole.length + 1) whole [] = some (text, calls)
      rw [hfuel, hwhole', extractPattern_carried hopening hcalls, List.append_nil, List.nil_append]
      exact extractPattern_eq_self (noStart_nil_of_absent hopening) _
    rw [wrapperPatterns, List.foldlM_cons, huse, Option.bind_eq_bind, Option.bind_some]
    exact wrappers_eq_self fun p hp => noStart_nil_of_absent (hclean.wrappers p (List.mem_cons_of_mem _ hp))
  have htools : names.foldlM (extractTool serde) (text, calls) = some (text, calls) :=
    tools_eq_self fun name hname => noStart_nil_of_absent (hclean.tags name hname)
  simp only [extractAll, hinvoke, huses, htools, hne, if_false, stripKimiSpecialTokens_eq_self hclean.tokens,
    Option.bind_eq_bind, Option.bind_some]

theorem extractPattern_not_carried (hserde : JsonTags serde) (htext : ¬ usePattern <:+: text)
    (hcall : GatewayCall serde call) (hnot : ¬ Carried call) (rest : List Char) :
    ∃ arguments ≠ call.arguments, ∃ rest', ∀ fuel done,
      extractPattern serde usePattern useClose false (fuel + 1) (text ++ (useTool call ++ rest)) done =
        extractPattern serde usePattern useClose false fuel (text ++ rest') (done ++ [⟨call.name, arguments⟩]) := by
  by_cases hclosed : useClose <:+: call.arguments
  · obtain ⟨body, tail, harguments, hbody⟩ := exists_occurrence (by decide) hclosed
    refine ⟨_, readBack_closed hserde hcall harguments hbody, tail ++ (useClose ++ rest), fun fuel done => ?_⟩
    rw [useTool_append, harguments, List.append_assoc, List.append_assoc]
    exact extractPattern_useTool htext hcall.name hbody fuel _ done
  · have htrim : trim call.arguments ≠ call.arguments := fun h => hnot ⟨h, hclosed⟩
    refine ⟨_, readBack_untrimmed hserde hcall htrim, rest, fun fuel done => ?_⟩
    rw [useTool_append]
    exact extractPattern_useTool htext hcall.name hclosed fuel rest done

/-- A call that is not carried comes back as another one. -/
theorem extractAll_keeps_calls (hserde : JsonTags serde) (hclean : Clean names text whole) {before after : List XmlCall}
    {call : XmlCall} (hwhole : whole = text ++ (before ++ call :: after).flatMap useTool)
    (hbefore : ∀ call ∈ before, GatewayCall serde call ∧ Carried call) (hcall : GatewayCall serde call)
    (hnot : ¬ Carried call) {out : List Char × List XmlCall} (hout : extractAll serde names whole = some out) :
    ∃ arguments ≠ call.arguments, before ++ [⟨call.name, arguments⟩] <+: out.2 := by
  have hinvoke : extractInvokeStyle serde (whole, []) = (whole, []) :=
    extractInvokeStyle_eq_self (noStart_nil_of_absent hclean.wrapped) (noStart_nil_of_absent hclean.bare)
  have hopening : ¬ usePattern <:+: text := hclean.wrappers ("<use_tool", "</use_tool>") List.mem_cons_self
  obtain ⟨arguments, hargs, rest', htake⟩ := extractPattern_not_carried hserde hopening hcall hnot (after.flatMap useTool)
  have hwhole' : whole = text ++ (before.flatMap useTool ++ (useTool call ++ after.flatMap useTool)) := by
    rw [hwhole, List.flatMap_append, List.flatMap_cons]
  obtain ⟨fuel, hfuel⟩ := exists_fuel hwhole'
  refine ⟨arguments, hargs, ?_⟩
  simp only [extractAll, hinvoke, Option.bind_eq_bind, Option.bind_eq_some_iff] at hout
  obtain ⟨s₁, hwrappers, s₂, htools, hout⟩ := hout
  rw [wrapperPatterns, List.foldlM_cons, Option.bind_eq_bind, Option.bind_eq_some_iff] at hwrappers
  obtain ⟨s₀, huse, hothers⟩ := hwrappers
  have htaken : before ++ [⟨call.name, arguments⟩] <+: s₀.2 := by
    have huse' : extractPattern serde usePattern useClose false (whole.length + 1) whole [] = some s₀ := huse
    rw [hfuel, hwhole', extractPattern_carried hopening hbefore, htake, List.nil_append] at huse'
    exact extractPattern_keeps_calls huse'
  have hprefix : before ++ [⟨call.name, arguments⟩] <+: s₂.2 := by
    refine (htaken.trans (foldlM_keeps_calls ?_ hothers)).trans (foldlM_keeps_calls ?_ htools)
    · exact fun s p out h => extractPattern_keeps_calls h
    · exact fun s name out h => extractPattern_keeps_calls h
  have hne : s₂.2 ≠ [] := by
    rintro hnil
    rw [hnil] at hprefix
    simpa using List.prefix_nil.1 hprefix
  simp only [if_neg hne, Option.some.injEq] at hout
  rw [← hout]
  exact hprefix

end

/-! ### Conversations -/

/-- The translation gives the calls and the text of a message back from its rewritten form. -/
def Recovers (serde : XmlSerde) (tools : Option Json) (m m' : Message) : Prop :=
  ∀ turn : TurnMessage, turn.content = contentAsText serde m' → turn.toolCalls = none →
    ∃ result flag, translateXmlToolCalls serde tools turn = some (result, flag) ∧
      result.toolCalls.getD [] = (toolCalls m).map callFunction ∧ result.content = contentAsText serde m

structure CarriedMessage (serde : XmlSerde) (m : Message) : Prop where
  text : trim (contentAsText serde m) = contentAsText serde m
  calls : ∀ call ∈ (toolCalls m).map callFunction, Carried call

section
variable {tools : Option Json} {m : Message}

theorem toolCalls_ne_nil (h : isXlat m = true) : (toolCalls m).map callFunction ≠ [] := by
  intro hnil
  rw [List.map_eq_nil_iff] at hnil
  rw [isXlat, hnil] at h
  simp at h

theorem contentAsText_toXmlMessage (m : Message) : contentAsText serde (toXmlMessage serde m) = xmlContent serde m := by
  simp [contentAsText, toXmlMessage, withText]

theorem xmlContent_ne_nil (hxlat : isXlat m = true) : xmlContent serde m ≠ [] := by
  obtain ⟨call, hcall⟩ := List.exists_mem_of_ne_nil _ (toolCalls_ne_nil hxlat)
  intro hnil
  exact useTool_ne_nil call (List.flatMap_eq_nil_iff.1 (List.append_eq_nil_iff.1 hnil).2 call hcall)

theorem combinedText_xmlContent (hxlat : isXlat m = true) {turn : TurnMessage} (hturn : turn.content = xmlContent serde m) :
    combinedText turn = xmlContent serde m := by
  rw [combinedText, if_neg (by simp [hturn, xmlContent_ne_nil hxlat]), hturn]

variable (hxlat : isXlat m = true) (hcalls : ∀ call ∈ (toolCalls m).map callFunction, GatewayCall serde call)
  (hclean : Clean (toolNames tools) (contentAsText serde m) (xmlContent serde m))
include hxlat hcalls hclean

theorem translate_carried (hall : ∀ call ∈ (toolCalls m).map callFunction, Carried call) (turn : TurnMessage)
    (hturn : turn.content = xmlContent serde m) (hnone : turn.toolCalls = none) :
    ∃ result flag, translateXmlToolCalls serde tools turn = some (result, flag) ∧
      result.toolCalls.getD [] = (toolCalls m).map callFunction ∧ result.content = trim (contentAsText serde m) := by
  have hcombined := combinedText_xmlContent hxlat hturn
  have hrun : extractAll serde (toolNames tools) (combinedText turn) =
      some (contentAsText serde m, (toolCalls m).map callFunction) := by
    rw [hcombined]
    exact extractAll_carried hclean rfl (toolCalls_ne_nil hxlat) fun call hcall => ⟨hcalls call hcall, hall call hcall⟩
  have hne : combinedText turn ≠ [] := fun hnil => xmlContent_ne_nil hxlat (hcombined.symm.trans hnil)
  obtain ⟨result, flag, hresult, hback, hcontent⟩ := translateXmlToolCalls_eq hnone hrun fun hnil => absurd hnil hne
  rw [if_neg (toolCalls_ne_nil hxlat)] at hcontent
  exact ⟨result, flag, hresult, hback, hcontent⟩

theorem carried_of_translate (hserde : JsonTags serde) {turn result : TurnMessage} {flag : Bool}
    (hturn : turn.content = xmlContent serde m) (hnone : turn.toolCalls = none)
    (hresult : translateXmlToolCalls serde tools turn = some (result, flag))
    (hback : result.toolCalls.getD [] = (toolCalls m).map callFunction) :
    ∀ call ∈ (toolCalls m).map callFunction, Carried call := by
  by_contra hnot
  obtain ⟨call, hmem, hcall⟩ : ∃ call ∈ (toolCalls m).map callFunction, ¬ Carried call := by simpa using hnot
  obtain ⟨before, call, after, hsplit, hcall, hbefore⟩ :=
    @exists_first XmlCall _ (fun call => decide (¬ Carried call)) ⟨call, hmem, by simpa using hcall⟩
  have hcombined := combinedText_xmlContent hxlat hturn
  have hne : combinedText turn ≠ [] := fun hnil => xmlContent_ne_nil hxlat (hcombined.symm.trans hnil)
  obtain ⟨out, hout, hfound⟩ := extractAll_of_translate hnone hne hresult
  rw [hcombined] at hout
  have hmade : ∀ call ∈ before, GatewayCall serde call ∧ Carried call := by
    intro call' hcall'
    refine ⟨hcalls call' ?_, by simpa using hbefore call' hcall'⟩
    rw [hsplit]
    exact List.mem_append_left _ hcall'
  have hthis : GatewayCall serde call := by
    refine hcalls call ?_
    rw [hsplit]
    exact List.mem_append_right _ List.mem_cons_self
  obtain ⟨arguments, hargs, hprefix⟩ := extractAll_keeps_calls hserde hclean (by rw [xmlContent, hsplit]) hmade hthis
    (by simpa using hcall) hout
  rw [← hfound, hback, hsplit, List.prefix_append_right_inj, List.cons_prefix_cons] at hprefix
  exact hargs (congrArg XmlCall.arguments hprefix.1)

theorem recovers_iff (hserde : JsonTags serde) :
    Recovers serde tools m (toXmlMessage serde m) ↔ CarriedMessage serde m := by
  unfold Recovers
  rw [contentAsText_toXmlMessage]
  constructor
  · intro h
    obtain ⟨result, flag, hresult, hback, hcontent⟩ := h ⟨xmlContent serde m, [], [], none, none⟩ rfl rfl
    have hall := carried_of_translate hxlat hcalls hclean hserde rfl rfl hresult hback
    obtain ⟨result', flag', hresult', -, hcontent'⟩ := translate_carried hxlat hcalls hclean hall
      ⟨xmlContent serde m, [], [], none, none⟩ rfl rfl
    obtain ⟨rfl, rfl⟩ : result = result' ∧ flag = flag' := by simpa [hresult] using hresult'
    exact ⟨hcontent'.symm.trans hcontent, hall⟩
  · intro h turn hturn hnone
    obtain ⟨result, flag, hresult, hback, hcontent⟩ := translate_carried hxlat hcalls hclean h.calls turn hturn hnone
    exact ⟨result, flag, hresult, hback, hcontent.trans h.text⟩

end

/-- Messages keep their places, a tool message that is left keeps its call, and every rewritten message is read back. -/
structure Survives (serde : XmlSerde) (tools : Option Json) (messages : List Message) : Prop where
  places : List.Forall₂ (Rewritten serde) messages (reverseTranslateToolHistory serde messages)
  answered : ∀ before t after id, reverseTranslateToolHistory serde messages = before ++ t :: after → t.role = "tool" →
    toolCallId t = some id → (∃ m ∈ messages.take before.length, calls id m = true) → ∃ m ∈ before, calls id m = true
  recovered : ∀ before m m' after, reverseTranslateToolHistory serde messages = before ++ m' :: after →
    messages[before.length]? = some m → isXlat m = true → Recovers serde tools m m'

/-- In a conversation whose rewritten messages open no other pattern, the tool history survives exactly when the texts
and the arguments of these messages are trimmed and no arguments hold a close tag. -/
theorem tool_history_law {serde : XmlSerde} (hserde : JsonTags serde) {tools : Option Json} {messages : List Message}
    (hdirect : Direct messages)
    (hcalls : ∀ m ∈ messages, isXlat m = true → ∀ call ∈ (toolCalls m).map callFunction, GatewayCall serde call)
    (hclean : ∀ m ∈ messages, isXlat m = true →
      Clean (toolNames tools) (contentAsText serde m) (xmlContent serde m)) :
    Survives serde tools messages ↔ ∀ m ∈ messages, isXlat m = true → CarriedMessage serde m := by
  constructor
  · intro h m hm hxlat
    obtain ⟨before, after, rfl⟩ := List.append_of_mem hm
    have hout : reverseTranslateToolHistory serde (before ++ m :: after) =
        reverseFrom serde false before ++ toXmlMessage serde m :: reverseFrom serde true after := by
      rw [reverseTranslateToolHistory, reverseFrom_append, reverseFrom, rewriteMessage_xlat hxlat]
    have hplace : (before ++ m :: after)[(reverseFrom serde false before).length]? = some m := by
      rw [length_reverseFrom]
      simp
    exact (recovers_iff hxlat (hcalls m hm hxlat) (hclean m hm hxlat) hserde).1 (h.recovered _ _ _ _ hout hplace hxlat)
  · intro h
    refine ⟨reverseTranslateToolHistory_forall₂ messages, ?_, ?_⟩
    · intro before t after id hout hrole hid hcall
      exact reverseTranslateToolHistory_answered hdirect hout hrole hid hcall
    · intro before m m' after hout hplace hxlat
      obtain ⟨pre, m₀, post, rfl, hlength, -, hm'⟩ := reverseFrom_eq_append hout
      obtain rfl : m₀ = m := by
        rw [← hlength] at hplace
        simpa using hplace
      have hm : m₀ ∈ pre ++ m₀ :: post := List.mem_append_right _ List.mem_cons_self
      rw [hm', rewriteMessage_xlat hxlat]
      exact (recovers_iff hxlat (hcalls m₀ hm hxlat) (hclean m₀ hm hxlat) hserde).2 (h m₀ hm hxlat)

theorem print_single : Json.print Json.wireNumbers (.object [(key, .string value)]) =
    [Json.openBrace] ++ Json.quote :: (key.toList.flatMap Json.escapeChar ++ Json.quote :: ([':'] ++
      Json.quote :: (value.toList.flatMap Json.escapeChar ++ Json.quote :: [Json.closeBrace]))) := by
  have hfield : Json.commaJoin ([(key, Json.string value)].map (Json.fieldText Json.wireNumbers)) =
      Json.printString key ++ ':' :: Json.printString value := by
    rw [List.map_cons, List.map_nil, Json.commaJoin, List.flatMap_nil, List.append_nil]
    exact congrArg (Json.printString key ++ ':' :: ·) (rfl : Json.print Json.wireNumbers (.string value) = _)
  rw [Json.print_object, hfield]
  simp [Json.printString]

theorem printedSerde_jsonTags : JsonTags printedSerde := by
  refine ⟨printedSerde_jsonText, fun fields => ?_, fun key value h => ?_⟩
  · have hprint : printedSerde.toStr (.object fields) = _ := Json.print_object fields
    rw [hprint]
    exact ⟨rfl, List.getLast?_concat⟩
  · have hprint : printedSerde.toStr (.object [(key, .string value)]) = _ := print_single key value
    have hclose : '<' ∉ Json.backslash :: Json.escapeTails ∧ Json.backslash ∉ closeTail ∧ Json.quote ∉ useClose := by
      decide
    have hshort : ∀ c : Char, ¬ useClose <:+: [c] := fun c hi => absurd hi.length_le (by simp [useClose_eq]; decide)
    rw [hprint, infix_append_cons_iff hclose.2.2, infix_append_cons_iff hclose.2.2, infix_append_cons_iff hclose.2.2,
      infix_append_cons_iff hclose.2.2] at h
    simp only [hshort, false_or, or_false] at h
    rw [useClose_eq] at h ⊢
    rcases h with h | h
    · exact .inl (Json.infix_of_infix_escape hclose.1 hclose.2.1 h)
    · exact .inr (Json.infix_of_infix_escape hclose.1 hclose.2.1 h)

theorem direct_of_tail {messages : List Message} (h : ∀ b ∈ messages.tail, b.role = "tool") : Direct messages := by
  rintro before m between t after id rfl - - - - - b hb
  refine h b ?_
  cases before with
  | nil | cons => simp [hb]

def callExtra (name arguments : String) : Json.Map :=
  [("tool_calls", .array [.object [("function", .object [("arguments", .string arguments), ("name", .string name)]),
    ("id", .string "call_xlat_0"), ("type", .string "function")]])]

variable (name arguments : String)

theorem nodupKeys_callExtra : (Json.object (callExtra name arguments)).nodupKeys = true := by
  simp [callExtra, Json.nodupKeys, Assoc.keys]

theorem nodupKeys_result : (Json.object [(key, .string value)]).nodupKeys = true := by
  simp [Json.nodupKeys, Assoc.keys]

theorem nodupKeys_string (s : String) : (Json.string s).nodupKeys = true := rfl

theorem notMem_keys_singleton {k key : String} {value : Json} (h : k ≠ key) : k ∉ Assoc.keys [(key, value)] := by
  simpa [Assoc.keys] using h

theorem role_notMem_callExtra : "role" ∉ Assoc.keys (callExtra name arguments) :=
  notMem_keys_singleton (by decide)

theorem content_notMem_callExtra : "content" ∉ Assoc.keys (callExtra name arguments) :=
  notMem_keys_singleton (by decide)

theorem role_notMem_result (id : String) : "role" ∉ Assoc.keys [("tool_call_id", Json.string id)] :=
  notMem_keys_singleton (by decide)

theorem content_notMem_result (id : String) : "content" ∉ Assoc.keys [("tool_call_id", Json.string id)] :=
  notMem_keys_singleton (by decide)

def turnMessage (content name arguments : String) : Message where
  role := "assistant"
  content := .string content
  extra := callExtra name arguments
  content_nodup := nodupKeys_string content
  extra_nodup := nodupKeys_callExtra name arguments
  extra_role := role_notMem_callExtra name arguments
  extra_content := content_notMem_callExtra name arguments

def resultMessage (id content : String) : Message where
  role := "tool"
  content := .string content
  extra := [("tool_call_id", .string id)]
  content_nodup := nodupKeys_string content
  extra_nodup := nodupKeys_result "tool_call_id" id
  extra_role := role_notMem_result id
  extra_content := content_notMem_result id

def readHistory : List Message :=
  [turnMessage "Looking." "read_file" "\x7b\"path\":\"src/main.rs\"\x7d", resultMessage "call_xlat_0" "fn main"]

theorem gatewayCall_printed {call : XmlCall} {fields : Json.Map} (hname : AttributeName call.name) (hfields : Flat fields)
    (hnormal : normalizedFields (String.ofList call.name) fields = fields)
    (harguments : call.arguments = printedSerde.toStr (.object fields)) (hbracket : '<' ∉ call.arguments) :
    GatewayCall printedSerde call := by
  refine ⟨hname, ⟨fields, ?_⟩, ?_, ?_, ?_⟩
  · rw [harguments]
    exact printedSerde_jsonText.printed fields hfields
  · have hargs := @normalizeToolArguments_eq printedSerde (String.ofList call.name) printedSerde_jsonText _ hfields
    rwa [String.toList_ofList, hnormal, ← harguments] at hargs
  · rw [harguments, printedSerde_jsonTags.trim_toStr]
  · intro before after hsplit
    rw [hsplit] at hbracket
    exact absurd (List.mem_append_right _ List.mem_cons_self) hbracket

theorem tool_history_law_read : Survives printedSerde none readHistory := by
  have hfirst : ∀ m ∈ readHistory, isXlat m = true →
      m = turnMessage "Looking." "read_file" "\x7b\"path\":\"src/main.rs\"\x7d" := by
    intro m hm hxlat
    rcases List.mem_cons.1 hm with rfl | hm
    · rfl
    · rw [List.mem_singleton.1 hm] at hxlat
      exact absurd hxlat (by decide)
  refine (tool_history_law printedSerde_jsonTags (direct_of_tail (by decide)) ?_ ?_).2 ?_
  · intro m hm hxlat call hcall
    rw [hfirst m hm hxlat] at hcall
    obtain rfl : call = ⟨"read_file".toList, "\x7b\"path\":\"src/main.rs\"\x7d".toList⟩ := List.mem_singleton.1 hcall
    have hflat : Flat [("path", Json.string "src/main.rs")] := ⟨by simp [Assoc.keys], by simp [isScalar]⟩
    exact gatewayCall_printed ⟨by decide +kernel, by decide +kernel⟩ hflat (by decide +kernel) (by decide +kernel)
      (by decide +kernel)
  · intro m hm hxlat
    rw [hfirst m hm hxlat]
    exact ⟨by decide +kernel, by decide +kernel, by decide +kernel, by decide +kernel, by decide +kernel⟩
  · intro m hm hxlat
    rw [hfirst m hm hxlat]
    exact ⟨by decide +kernel, by decide +kernel⟩

def closeArguments : String := "\x7b\"content\":\"</use_tool>\"\x7d"

/-- `serde_json` on these arguments and what is made of them. -/
def closeSerde : XmlSerde where
  fromStr text := if text = closeArguments.toList then some (.object [("content", .string "</use_tool>")]) else none
  toStr := Json.print Json.wireNumbers

def closeHistory : List Message :=
  [turnMessage "" "write_to_file" closeArguments, resultMessage "call_xlat_0" "saved"]

/-- They are cut at it. -/
theorem tool_history_closed : Direct closeHistory ∧ (closeSerde.fromStr closeArguments.toList).isSome = true ∧
    normalizeToolArguments closeSerde "write_to_file".toList closeArguments.toList = closeArguments.toList ∧
    ¬ Survives closeSerde none closeHistory := by
  refine ⟨direct_of_tail (by decide), by decide +kernel, by decide +kernel, fun h => ?_⟩
  obtain ⟨result, flag, hresult, hback, -⟩ := h.recovered [] _ _ _ rfl rfl (by decide)
    ⟨contentAsText closeSerde (toXmlMessage closeSerde (turnMessage "" "write_to_file" closeArguments)), [], [], none, none⟩
    rfl rfl
  have hcalls : (translateXmlToolCalls closeSerde none
      ⟨contentAsText closeSerde (toXmlMessage closeSerde (turnMessage "" "write_to_file" closeArguments)), [], [], none,
        none⟩).map (fun p => p.1.toolCalls.getD []) ≠
      some ((toolCalls (turnMessage "" "write_to_file" closeArguments)).map callFunction) := by decide +kernel
  rw [hresult] at hcalls
  exact hcalls (congrArg some hback)

end ObeyGateway.Xml
