import ObeyGateway.Lib.StrSlice
import ObeyGateway.Router.XmlRounds

/-!
# Tool calls in text, by byte offsets

The scanners of `translate_xml_tool_calls` as the source has them: texts are cut at sums of byte offsets. A slice whose
end is before its start or that has an end inside a character is a panic: `none`, as is a loop that does not end. Every
cut but one is between two characters and in order (`patternRound_eq`).
-/

namespace ObeyGateway.XmlOffsets
open Text StrSlice Scanner
open Xml (XmlCall trimStartMatches trimEndMatches escapeControls tagNameOf xmlValue nullOrString jsonCall normalizeToolArguments)

def quotedAfter (marker quote : String) (tag : List Char) : Option (Option (List Char)) :=
  match find marker.toList tag with
  | none => some none
  | some pos => do
    let valueStart := pos + size marker.toList
    match find quote.toList (← sliceFrom tag valueStart) with
    | none => some none
    | some stop => some (some (← slice tag valueStart (valueStart + stop)))

def extractXmlAttribute (tag : List Char) (attrName : String) : Option (Option (List Char)) := do
  match ← quotedAfter (attrName ++ "=\"") "\"" tag with
  | some value => some (some value)
  | none => quotedAfter (attrName ++ "='") "'" tag

def innerXmlFields : (fuel : Nat) → (remaining : List Char) → Json.Map → Option Json.Map
  | 0, _, _ => none
  | fuel + 1, remaining, map =>
    let remaining := trimStart remaining
    match find "<".toList remaining with
    | none => some map
    | some openStart => do
      let orphan ← sliceFrom remaining openStart
      if "</".toList <+: orphan then
        match find ">".toList orphan with
        | none => some map
        | some closeEnd => innerXmlFields fuel (← sliceFrom remaining (openStart + closeEnd + 1)) map
      else
        let tagContentStart := openStart + 1
        match find ">".toList (← sliceFrom remaining tagContentStart) with
        | none => some map
        | some openEnd =>
          let tagName := tagNameOf (← slice remaining tagContentStart (tagContentStart + openEnd))
          if tagName = [] then some map
          else
            let valueStart := tagContentStart + openEnd + 1
            let closeTag := "</".toList ++ tagName ++ ['>']
            let behind ← sliceFrom remaining valueStart
            match rfindStr closeTag behind with
            | some closePos =>
              let value ← slice remaining valueStart (valueStart + closePos)
              let rest ← sliceFrom remaining (valueStart + closePos + size closeTag)
              innerXmlFields fuel rest (Assoc.insert map (String.ofList tagName) (xmlValue value))
            | none =>
              match find "</".toList behind with
              | some anyClose =>
                let value ← slice remaining valueStart (valueStart + anyClose)
                let map := Assoc.insert map (String.ofList tagName) (nullOrString value)
                match find ">".toList (← sliceFrom remaining (valueStart + anyClose)) with
                | some closeEnd => innerXmlFields fuel (← sliceFrom remaining (valueStart + anyClose + closeEnd + 1)) map
                | none => some map
              | none =>
                if trim behind = [] then some map
                else
                  some (Assoc.insert map (String.ofList tagName)
                    (if trim behind = "null".toList then .null else .string (String.ofList behind)))

def parseInnerXmlToJson (serde : XmlSerde) (body : List Char) : Option (List Char) :=
  (innerXmlFields (body.length + 1) (trim body) []).map fun fields => serde.toStr (.object fields)

def firstKeyOf (body : List Char) : Option Json.Map :=
  let inner := trim (trimEndMatches Json.closeBrace (trimStartMatches Json.openBrace body))
  match find ":".toList inner with
  | none => some [("result", .string (String.ofList body))]
  | some colonPos => do
    let key := trimEndMatches '"' (trimStartMatches '"' (trim (← sliceTo inner colonPos)))
    let value := trim (← sliceFrom inner (colonPos + 1))
    let value := if value.head? = some '"' then trimEndMatches '"' (trimStartMatches '"' value) else value
    some [(String.ofList key, .string (String.ofList value))]

def namedArguments (serde : XmlSerde) (name body : List Char) : Option (List Char) :=
  if (serde.fromStr body).isSome then some body
  else if body.head? = some Json.openBrace then
    match serde.fromStr (escapeControls body) with
    | some repaired => some (serde.toStr repaired)
    | none => (firstKeyOf body).map fun fields => serde.toStr (.object fields)
  else
    let paramName :=
      if name = "attempt_completion".toList then "result"
      else if name = "ask_followup_question".toList then "question"
      else "input"
    some (serde.toStr (.object [(paramName, .string (String.ofList body))]))

def xmlCallOf (serde : XmlSerde) (openTagPrefix openingTag body : List Char) : Option (Option XmlCall) := do
  let body := trim body
  let call : Option XmlCall ←
    match ← extractXmlAttribute openingTag "name", serde.fromStr body with
    | some name, _ => (namedArguments serde name body).map fun arguments => some ⟨name, arguments⟩
    | none, some obj => some (some (jsonCall serde obj))
    | none, none =>
      if '<' ∈ body ∧ '>' ∈ body then
        (parseInnerXmlToJson serde body).map fun arguments =>
          some ⟨trim (trimStartMatches '<' openTagPrefix), arguments⟩
      else some none
  some (call.map fun call => { call with arguments := normalizeToolArguments serde call.name call.arguments })

/-- The call in a tag whose body ends at `bodyEnd`; a tag whose opening does not end is dropped. -/
def callIn (serde : XmlSerde) (openTag fullTag : List Char) (bodyEnd : Nat) : Option (Option XmlCall) :=
  match find ">".toList fullTag with
  | none => some none
  | some openEnd => do
    let openingTag ← sliceTo fullTag (openEnd + 1)
    let body ← slice fullTag (openEnd + 1) bodyEnd
    xmlCallOf serde openTag openingTag body

/-- One round of `extract_xml_tool_calls_pattern_inner`. -/
def patternRound (serde : XmlSerde) (openTag closeTag : List Char) (greedy : Bool) (text : List Char) :
    Option (Round Char XmlCall) :=
  match find openTag text with
  | none => some .done
  | some start => do
    let searchRegion ← sliceFrom text start
    match if greedy then rfindStr closeTag searchRegion else find closeTag searchRegion with
    | some closeStart =>
      let closeEnd := start + closeStart + size closeTag
      let call ← callIn serde openTag (← slice text start closeEnd) closeStart
      some (.found call.toList (← removeRange text start closeEnd))
    | none =>
      let fullTag ← slice text start (size text)
      let call ← callIn serde openTag fullTag (size fullTag)
      some (.last call.toList (← removeRange text start (size text)))

def skipClosing (closeTag text : List Char) : Option (List Char) :=
  if closeTag <+: text then sliceFrom text (size closeTag) else some text

def parameterFields : (fuel : Nat) → (paramRemaining : List Char) → Json.Map → Option Json.Map
  | 0, _, _ => none
  | fuel + 1, body, map =>
    match find "<parameter ".toList body with
    | none => some map
    | some pStart => do
      let remaining ← sliceFrom body pStart
      let name := (← extractXmlAttribute remaining "name").getD "unknown".toList
      match find ">".toList remaining with
      | none => some map
      | some pOpenEnd =>
        let pAfter := pOpenEnd + 1
        let pClose := (find "</parameter>".toList (← sliceFrom remaining pAfter)).getD (size remaining - pAfter)
        let value ← slice remaining pAfter (pAfter + pClose)
        let behind ← sliceFrom remaining (pAfter + pClose)
        parameterFields fuel (← skipClosing "</parameter>".toList behind)
          (Assoc.insert map (String.ofList name) (if value = "null".toList then .null else .string (String.ofList value)))

def parseInvokeBlocks (serde : XmlSerde) : (fuel : Nat) → List Char → List XmlCall → Option (List XmlCall)
  | 0, _, _ => none
  | fuel + 1, text, calls =>
    match find "<invoke ".toList text with
    | none => some calls
    | some invStart => do
      let remaining ← sliceFrom text invStart
      let name := (← extractXmlAttribute remaining "name").getD "unknown".toList
      match find ">".toList remaining with
      | none => some calls
      | some openEnd =>
        let afterOpen := openEnd + 1
        let bodyEnd := (find "</invoke>".toList (← sliceFrom remaining afterOpen)).getD (size remaining - afterOpen)
        let body ← slice remaining afterOpen (afterOpen + bodyEnd)
        let args ← parameterFields (body.length + 1) body []
        let behind ← sliceFrom remaining (afterOpen + bodyEnd)
        let rest ← skipClosing "</invoke>".toList behind
        parseInvokeBlocks serde fuel rest (calls ++ [⟨name, serde.toStr (.object args)⟩])

def wrappedCalls (serde : XmlSerde) (inner : List Char) : Option (List XmlCall) :=
  let trimmed := trim inner
  if trimmed.head? = some '[' then some (Xml.parseJsonToolCallsArray serde trimmed [])
  else if trimmed.head? = some Json.openBrace then some (Xml.parseJsonToolCallsArray serde ('[' :: trimmed ++ [']']) [])
  else parseInvokeBlocks serde (inner.length + 1) inner []

def danglingCalls (serde : XmlSerde) (inner : List Char) : Option (List XmlCall) :=
  let trimmed := trim inner
  if trimmed.head? = some '[' ∨ trimmed.head? = some Json.openBrace then some (Xml.parseJsonToolCallsArray serde trimmed [])
  else parseInvokeBlocks serde (inner.length + 1) inner []

/-- `extract_invoke_style_tool_calls`: the wrapped form -/
def wrappedRound (serde : XmlSerde) (text : List Char) : Option (Round Char XmlCall) :=
  match find "<tool_calls>".toList text with
  | none => some .done
  | some wrapperStart => do
    let afterOpen := wrapperStart + size "<tool_calls>".toList
    let region ← sliceFrom text afterOpen
    match find "</tool_calls>".toList region with
    | some wrapperCloseRel =>
      let inner ← slice text afterOpen (afterOpen + wrapperCloseRel)
      let wrapperEnd := afterOpen + wrapperCloseRel + size "</tool_calls>".toList
      some (.found (← wrappedCalls serde inner) (← removeRange text wrapperStart wrapperEnd))
    | none => some (.last (← danglingCalls serde region) (← removeRange text wrapperStart (size text)))

/-- `extract_invoke_style_tool_calls`: without a wrapper -/
def bareRound (serde : XmlSerde) (text : List Char) : Option (Round Char XmlCall) :=
  match find "<invoke ".toList text with
  | none => some .done
  | some start => do
    let region ← sliceFrom text start
    match find "</invoke>".toList region with
    | some closeRel =>
      let blockEnd := start + closeRel + size "</invoke>".toList
      let block ← slice text start blockEnd
      some (.found (← parseInvokeBlocks serde (block.length + 1) block []) (← removeRange text start blockEnd))
    | none =>
      some (.last (← parseInvokeBlocks serde (region.length + 1) region []) (← removeRange text start (size text)))

def argFields (serde : XmlSerde) : (fuel : Nat) → List Char → Json.Map → Option Json.Map
  | 0, _, _ => none
  | fuel + 1, block, map =>
    match find "<arg_key>".toList block with
    | none => some map
    | some keyStart => do
      let keyContentStart := keyStart + size "<arg_key>".toList
      match find "</arg_key>".toList (← sliceFrom block keyContentStart) with
      | none => some map
      | some keyEnd =>
        let key ← slice block keyContentStart (keyContentStart + keyEnd)
        let remaining ← sliceFrom block (keyContentStart + keyEnd + size "</arg_key>".toList)
        match find "<arg_value>".toList remaining with
        | none => some map
        | some valStart =>
          let valContentStart := valStart + size "<arg_value>".toList
          let valEnd := (find "</arg_value>".toList (← sliceFrom remaining valContentStart)).getD (size remaining - valContentStart)
          let value ← slice remaining valContentStart (valContentStart + valEnd)
          let skip := valContentStart + valEnd
          let behind ← sliceFrom remaining skip
          let map := Assoc.insert map (String.ofList key) ((serde.fromStr value).getD (.string (String.ofList value)))
          if "</arg_value>".toList <+: behind then
            argFields serde fuel (← sliceFrom remaining (skip + size "</arg_value>".toList)) map
          else argFields serde fuel behind map

/-- `extract_arg_key_value_tool_calls`, for one tool -/
def argsRound (serde : XmlSerde) (name text : List Char) : Option (Round Char XmlCall) :=
  let pattern := '<' :: name ++ "<arg_key>".toList
  match find pattern text with
  | none => some .done
  | some start => do
    let searchFrom := start + size pattern
    let region ← sliceFrom text searchFrom
    let closeTag := "</".toList ++ name ++ ['>']
    let blockEnd := (((find "</tool_call>".toList region).map fun p => searchFrom + p + size "</tool_call>".toList).or
      ((find closeTag region).map fun p => searchFrom + p + size closeTag)).getD (size text)
    let block ← slice text start blockEnd
    let args ← argFields serde (block.length + 1) block []
    some (.found (if args = [] then [] else [⟨name, serde.toStr (.object args)⟩]) (← removeRange text start blockEnd))

def normalizeKimiFunctionName (raw : List Char) : Option (List Char) :=
  let name := (stripPrefix "functions_" raw).getD raw
  match rfind '_' name with
  | none => some name
  | some lastUnderscore => do
    let suffix ← sliceFrom name (lastUnderscore + 1)
    if suffix ≠ [] ∧ suffix.all (·.isDigit) then
      let base ← sliceTo name lastUnderscore
      some (if base ≠ [] then base else name)
    else some name

def kimiCall (serde : XmlSerde) (callBody : List Char) : Option (Option XmlCall) :=
  match find "<|tool_call_argument_begin|>".toList callBody with
  | none => some none
  | some argSplit => do
    let rawName := trim (← sliceTo callBody argSplit)
    let args := trim (← sliceFrom callBody (argSplit + size "<|tool_call_argument_begin|>".toList))
    let name ← normalizeKimiFunctionName rawName
    some (some ⟨name,
      if (serde.fromStr args).isSome then args
      else Json.openBrace :: "\"input\":".toList ++ serde.toStr (.string (String.ofList args)) ++ [Json.closeBrace]⟩)

def kimiCalls (serde : XmlSerde) : (fuel : Nat) → (remaining : List Char) → List XmlCall → Option (List XmlCall)
  | 0, _, _ => none
  | fuel + 1, remaining, calls =>
    match find "<|tool_call_begin|>".toList remaining with
    | none => some calls
    | some callStart => do
      let afterCallBegin := callStart + size "<|tool_call_begin|>".toList
      let callEnd :=
        ((find "<|tool_call_end|>".toList (← sliceFrom remaining afterCallBegin)).map (afterCallBegin + ·)).getD (size remaining)
      let call ← kimiCall serde (← slice remaining afterCallBegin callEnd)
      let stop := callEnd + size "<|tool_call_end|>".toList
      let calls := calls ++ call.toList
      if stop ≤ size remaining then kimiCalls serde fuel (← sliceFrom remaining stop) calls else kimiCalls serde fuel [] calls

/-- `extract_kimi_token_tool_calls`: sections -/
def kimiSectionsRound (serde : XmlSerde) (text : List Char) : Option (Round Char XmlCall) :=
  match find "<|tool_calls_section_begin|>".toList text with
  | none => some .done
  | some secStart => do
    let secEndPos := ((find "<|tool_calls_section_end|>".toList (← sliceFrom text secStart)).map fun p =>
      secStart + p + size "<|tool_calls_section_end|>".toList).getD (size text)
    let inside ← slice text (secStart + size "<|tool_calls_section_begin|>".toList) secEndPos
    some (.found (← kimiCalls serde (inside.length + 1) inside []) (← removeRange text secStart secEndPos))

/-- `extract_kimi_token_tool_calls`: calls without a section -/
def kimiBareRound (serde : XmlSerde) (text : List Char) : Option (Round Char XmlCall) :=
  match find "<|tool_call_begin|>".toList text with
  | none => some .done
  | some callStart => do
    let afterBegin := callStart + size "<|tool_call_begin|>".toList
    let callEnd :=
      ((find "<|tool_call_end|>".toList (← sliceFrom text afterBegin)).map (afterBegin + ·)).getD (size text)
    let stop := callEnd + size "<|tool_call_end|>".toList
    let blockEnd := if stop ≤ size text then stop else size text
    let call ← kimiCall serde (← slice text afterBegin callEnd)
    some (.found call.toList (← removeRange text callStart blockEnd))

/-- `strip_kimi_special_tokens`, one token -/
def stripToken (token : String) : (fuel : Nat) → List Char → Option (List Char)
  | 0, _ => none
  | fuel + 1, text =>
    if contains text token then stripToken token fuel (Splice.replaceAll token.toList [] text) else some text

def round (serde : XmlSerde) : Xml.Pass → List Char → Option (Round Char XmlCall)
  | .wrapped => wrappedRound serde
  | .bare => bareRound serde
  | .pattern openTag closeTag greedy => patternRound serde openTag closeTag greedy
  | .args name => argsRound serde name
  | .kimiSections => kimiSectionsRound serde
  | .kimiBare => kimiBareRound serde

/-! ### The same calls -/

theorem quotedAfter_eq (marker quote : String) (tag : List Char) :
    quotedAfter marker quote tag = some (Xml.quotedAfter marker quote tag) := by
  rw [quotedAfter, Xml.quotedAfter, Xml.find]
  rcases hmarker : Frames.cut marker.toList tag with _ | ⟨front, back⟩
  · rw [find_of_cut_none hmarker]; rfl
  obtain ⟨hfind, rfl⟩ := find_of_cut hmarker
  rw [hfind, Option.bind_some, Xml.find]
  dsimp only
  rw [sliceFrom_add, sliceFrom_size, Option.bind_eq_bind, Option.bind_some]
  rcases hquote : Frames.cut quote.toList back with _ | ⟨value, rest⟩
  · rw [find_of_cut_none hquote]; rfl
  obtain ⟨hfind, rfl⟩ := find_of_cut hquote
  rw [hfind]
  dsimp only
  rw [Nat.add_assoc, slice_add, slice_size_add, sliceTo_size]
  rfl

theorem extractXmlAttribute_eq (tag : List Char) (attrName : String) :
    extractXmlAttribute tag attrName = some (Xml.extractXmlAttribute tag attrName) := by
  rw [extractXmlAttribute, quotedAfter_eq, quotedAfter_eq, Xml.extractXmlAttribute, Option.bind_eq_bind, Option.bind_some]
  cases Xml.quotedAfter (attrName ++ "=\"") "\"" tag with
  | none | some => rfl

theorem firstKeyOf_eq (body : List Char) : firstKeyOf body = some (Xml.firstKeyOf body) := by
  rw [firstKeyOf, Xml.firstKeyOf, Xml.find]
  generalize trim (trimEndMatches Json.closeBrace (trimStartMatches Json.openBrace body)) = inner
  rcases hcolon : Frames.cut ":".toList inner with _ | ⟨key, value⟩
  · rw [find_of_cut_none hcolon]
  obtain ⟨hfind, rfl⟩ := find_of_cut hcolon
  have hsize : 1 = size ":".toList := rfl
  rw [hfind]
  dsimp only
  rw [sliceTo_size, hsize, sliceFrom_add, sliceFrom_size]
  rfl

theorem namedArguments_eq (serde : XmlSerde) (name body : List Char) :
    namedArguments serde name body = some (Xml.namedArguments serde name body) := by
  rw [namedArguments, Xml.namedArguments, firstKeyOf_eq]
  split
  · rfl
  · split
    · cases serde.fromStr (escapeControls body) with
      | none | some => rfl
    · rfl

theorem length_trimStart_le (text : List Char) : (trimStart text).length ≤ text.length := (List.dropWhile_suffix _).length_le

variable {fuel : Nat}

theorem innerXmlFields_eq {remaining : List Char} (hfuel : remaining.length < fuel) (map : Json.Map) :
    innerXmlFields fuel remaining map = some (Xml.innerXmlFields fuel remaining map) := by
  induction fuel generalizing remaining map with
  | zero => exact absurd hfuel (Nat.not_lt_zero _)
  | succ fuel ih =>
    have hle := length_trimStart_le remaining
    rw [innerXmlFields, Xml.innerXmlFields, Xml.find]
    dsimp only
    generalize trimStart remaining = text at hle
    cases hopen : Frames.cut "<".toList text with
    | none => rw [find_of_cut_none hopen]
    | some p =>
      obtain ⟨before, afterOpen⟩ := p
      obtain ⟨hfind, rfl⟩ := find_of_cut hopen
      have hbehind : sliceFrom (before ++ ("<".toList ++ afterOpen)) (size before + 1) = some afterOpen := by
        have hone : 1 = size "<".toList := rfl
        rw [hone, sliceFrom_add, sliceFrom_size]
      have horphan : "</".toList <+: "<".toList ++ afterOpen ↔ afterOpen.head? = some '/' := by
        rcases afterOpen with _ | ⟨c, rest⟩
        · decide
        show ['<', '/'] <+: '<' :: c :: rest ↔ _
        rw [List.cons_prefix_cons, List.cons_prefix_cons, List.head?_cons, Option.some_inj]
        simp [eq_comm]
      have hgt : Frames.cut ">".toList ("<".toList ++ afterOpen) =
          (Frames.cut ">".toList afterOpen).map fun p => ('<' :: p.1, p.2) :=
        Frames.cut_cons fun h => by
          have hc := (List.cons_prefix_cons.1 h).1
          revert hc
          decide
      rw [hfind]
      dsimp only
      rw [sliceFrom_size, Option.bind_eq_bind, Option.bind_some, hbehind, Option.bind_some, Xml.find]
      cases htag : Frames.cut ">".toList afterOpen with
      | none =>
        rw [htag] at hgt
        rw [find_of_cut_none htag, find_of_cut_none hgt]
        split
        · rfl
        · rfl
      | some p =>
        obtain ⟨inTag, afterTag⟩ := p
        rw [htag] at hgt
        obtain ⟨hfindgt, -⟩ := find_of_cut hgt
        obtain ⟨hfindtag, rfl⟩ := find_of_cut htag
        have hafter : afterTag.length < fuel := by
          have hlength : ">".toList.length = 1 := rfl
          simp only [List.length_append, hlength] at hle
          omega
        have hinTag : slice (before ++ ("<".toList ++ (inTag ++ (">".toList ++ afterTag)))) (size before + 1)
            (size before + 1 + size inTag) = some inTag := by
          have hone : 1 = size "<".toList := rfl
          rw [Nat.add_assoc, hone, slice_add, slice_size_add, sliceTo_size]
        -- from the end of the opening tag on the offsets count from there
        obtain ⟨front, hfront, htext, hsize⟩ : ∃ front, before ++ ("<".toList ++ (inTag ++ (">".toList ++ afterTag))) = front ++ afterTag ∧
            size before + 1 + size inTag + 1 = size front ∧ size before + size ('<' :: inTag) + 1 = size front := by
          refine ⟨before ++ ("<".toList ++ (inTag ++ ">".toList)), by simp, ?_, ?_⟩
          · simp only [size_append, Nat.add_assoc]
            rfl
          · simp only [size_append, size_cons, Nat.add_assoc]
            rfl
        rw [hfindgt, hfindtag]
        dsimp only
        by_cases hslash : (inTag ++ (">".toList ++ afterTag)).head? = some '/'
        · rw [if_pos (horphan.2 hslash), if_pos hslash, hsize, hfront, sliceFrom_size]
          exact ih hafter map
        · rw [if_neg fun h => hslash (horphan.1 h), if_neg hslash, hinTag, Option.bind_some, htext, hfront, sliceFrom_size,
            Option.bind_some]
          by_cases hname : tagNameOf inTag = []
          · rw [if_pos hname, if_pos hname]
          · rw [if_neg hname, if_neg hname, rfindStr]
            cases hlast : Search.cutLast ("</".toList ++ tagNameOf inTag ++ ['>']) afterTag with
            | some p =>
              obtain ⟨value, rest⟩ := p
              obtain rfl := Search.cutLast_eq_some hlast
              rw [Option.map_some]
              dsimp only
              rw [slice_size_add, sliceTo_size, Option.bind_some, Nat.add_assoc, sliceFrom_add, sliceFrom_add, sliceFrom_size,
                Option.bind_some]
              refine ih ?_ _
              simp only [List.length_append] at hafter
              omega
            | none =>
              rw [Option.map_none]
              dsimp only
              rw [Xml.find]
              cases hany : Frames.cut "</".toList afterTag with
              | none =>
                rw [find_of_cut_none hany]
                dsimp only
                split
                · rfl
                · rfl
              | some p =>
                obtain ⟨value, rest⟩ := p
                obtain ⟨hfindany, rfl⟩ := find_of_cut hany
                rw [hfindany]
                dsimp only
                rw [slice_size_add, sliceTo_size, Option.bind_some, sliceFrom_add, sliceFrom_size, Option.bind_some, Xml.find]
                have hgt : Frames.cut ">".toList ("</".toList ++ rest) =
                    (Frames.cut ">".toList rest).map fun p => ("</".toList ++ p.1, p.2) :=
                  Search.cut_of_noStart (Search.noStart_of_notMem (c := '>') (by decide) _)
                cases hclose : Frames.cut ">".toList rest with
                | none =>
                  rw [hclose] at hgt
                  rw [find_of_cut_none hgt]
                | some p =>
                  obtain ⟨closing, behind⟩ := p
                  rw [hclose] at hgt
                  obtain ⟨hfindclose, heq⟩ := find_of_cut hgt
                  have hone : 1 = size ">".toList := rfl
                  rw [hfindclose, heq]
                  dsimp only
                  rw [hone, Nat.add_assoc, Nat.add_assoc, sliceFrom_add, sliceFrom_add, sliceFrom_add, sliceFrom_size, Option.bind_some]
                  refine ih ?_ _
                  obtain ⟨-, rfl⟩ := find_of_cut hclose
                  simp only [List.length_append] at hafter
                  omega

theorem parseInnerXmlToJson_eq (serde : XmlSerde) (body : List Char) :
    parseInnerXmlToJson serde body = some (Xml.parseInnerXmlToJson serde body) := by
  have hbound : (trim body).length < body.length + 1 := by
    have hstart := length_trimStart_le body
    have hend : (trimEnd (trimStart body)).length ≤ (trimStart body).length := by
      have h := length_trimStart_le (trimStart body).reverse
      rw [List.length_reverse] at h
      rw [trimEnd, List.length_reverse]
      exact h
    show (trimEnd (trimStart body)).length < _
    omega
  rw [parseInnerXmlToJson, innerXmlFields_eq hbound]
  rfl

theorem xmlCallOf_eq (serde : XmlSerde) (openTagPrefix openingTag body : List Char) :
    xmlCallOf serde openTagPrefix openingTag body = some (Xml.xmlCallOf serde openTagPrefix openingTag body) := by
  rw [xmlCallOf, extractXmlAttribute_eq, Xml.xmlCallOf]
  dsimp only
  rw [Option.bind_eq_bind, Option.bind_some]
  cases Xml.extractXmlAttribute openingTag "name" with
  | some name =>
    dsimp only
    rw [namedArguments_eq]
    rfl
  | none =>
    cases serde.fromStr (trim body) with
    | some obj => rfl
    | none =>
      dsimp only
      split
      · rw [parseInnerXmlToJson_eq]
        rfl
      · rfl

theorem callIn_eq (serde : XmlSerde) (openTag inner back : List Char) : callIn serde openTag (inner ++ back) (size inner) =
      match Xml.find ">" (inner ++ back) with
      | none => some none
      | some (tag, _) =>
        if inner.length < tag.length + 1 then none
        else some (Xml.xmlCallOf serde openTag (tag ++ ['>']) (inner.drop (tag.length + 1))) := by
  rw [callIn, Xml.find]
  rcases hgt : Frames.cut ">".toList (inner ++ back) with _ | ⟨tag, more⟩
  · rw [find_of_cut_none hgt]
  obtain ⟨hfind, heq⟩ := find_of_cut hgt
  have hopening : inner ++ back = (tag ++ ['>']) ++ more := by rw [heq, List.append_assoc]; rfl
  have hsize : size tag + 1 = size (tag ++ ['>']) := by rw [size_append]; rfl
  have hlength : tag.length + 1 = (tag ++ ['>']).length := by rw [List.length_append]; rfl
  rw [hfind]
  dsimp only
  rw [hsize, hlength, hopening, sliceTo_size, Option.bind_eq_bind, Option.bind_some]
  rcases List.append_eq_append_iff.1 hopening with ⟨rest, htag, hmore⟩ | ⟨body, rfl, rfl⟩
  · by_cases hrest : rest = []
    · obtain rfl := hrest
      rw [List.append_nil] at htag
      subst htag
      rw [if_neg (Nat.lt_irrefl _), slice, sliceTo_size, Option.bind_some, sliceFrom_self, Option.bind_some, xmlCallOf_eq,
        List.drop_length]
    · have hlt : inner.length < (tag ++ ['>']).length := by
        rw [htag, List.length_append]
        exact Nat.lt_add_of_pos_right (List.length_pos_iff.2 hrest)
      have hsizes : size inner < size (tag ++ ['>']) := by
        obtain ⟨c, rest, rfl⟩ := List.exists_cons_of_ne_nil hrest
        rw [htag, size_append, size_cons]
        have hpos := c.utf8Size_pos
        omega
      rw [if_pos hlt, slice_eq_none hsizes]
      rfl
  · have hbody : size ((tag ++ ['>']) ++ body) = size (tag ++ ['>']) + size body := size_append
    rw [if_neg (by rw [List.length_append]; omega), hbody, slice_size_add, sliceTo_size,
      Option.bind_some, xmlCallOf_eq, List.drop_left]

theorem patternRound_eq (serde : XmlSerde) (openTag closeTag : List Char) (greedy : Bool) (text : List Char) :
    patternRound serde openTag closeTag greedy text = Xml.patternRound serde openTag closeTag greedy text := by
  rw [patternRound, Xml.patternRound]
  rcases hopen : Frames.cut openTag text with _ | p
  · rw [find_of_cut_none hopen]
  obtain ⟨before, afterOpen⟩ := p
  obtain ⟨hfind, rfl⟩ := find_of_cut hopen
  have hfound : (if greedy then rfindStr closeTag (openTag ++ afterOpen) else find closeTag (openTag ++ afterOpen)) =
      (if greedy then Search.cutLast closeTag (openTag ++ afterOpen) else Frames.cut closeTag (openTag ++ afterOpen)).map
        fun p => size p.1 := by
    cases greedy with
    | true | false => rfl
  rw [hfind]
  dsimp only
  rw [sliceFrom_size, Option.bind_eq_bind, Option.bind_some, hfound]
  cases hclose : if greedy then Search.cutLast closeTag (openTag ++ afterOpen) else Frames.cut closeTag (openTag ++ afterOpen) with
  | none =>
    generalize openTag ++ afterOpen = region
    have hend : size (before ++ region) = size before + size region := size_append
    have hremove := removeRange_size before region []
    have hcall := callIn_eq serde openTag region []
    rw [List.append_nil] at hremove hcall
    rw [Option.map_none]
    dsimp only
    rw [hend, slice_size_add, sliceTo_self, hremove, Option.bind_some, hcall]
    rcases hgt : Xml.find ">" region with _ | ⟨tag, body⟩
    · rw [List.append_nil]; rfl
    have hregion : region = tag ++ (['>'] ++ body) := (find_of_cut hgt).2
    have hdrop : region.drop (tag.length + 1) = body := by
      have hlength : tag.length + 1 = (tag ++ ['>']).length := by rw [List.length_append]; rfl
      rw [hregion, hlength, ← List.append_assoc, List.drop_left]
    have hlong : ¬ region.length < tag.length + 1 := by
      rw [hregion, List.length_append, List.length_append]
      show ¬ tag.length + (1 + body.length) < _
      omega
    dsimp only
    rw [if_neg hlong, hdrop, List.append_nil]
    rfl
  | some p =>
    obtain ⟨inner, rest⟩ := p
    have hregion : openTag ++ afterOpen = (inner ++ closeTag) ++ rest := by
      rw [List.append_assoc]
      cases greedy with
      | true => exact Search.cutLast_eq_some hclose
      | false => exact (Search.first_of_cut hclose).1
    have hstop : size before + size inner + size closeTag = size before + size (inner ++ closeTag) := by
      rw [size_append, Nat.add_assoc]
    rw [Option.map_some]
    dsimp only
    rw [hstop, hregion, slice_size_add, sliceTo_size, removeRange_size, Option.bind_some, callIn_eq]
    rcases Xml.find ">" (inner ++ closeTag) with _ | ⟨tag, body⟩
    · rfl
    dsimp only
    split
    · rfl
    · rfl

theorem closed_eq (closeTag front after : List Char) : ∃ value rest,
    (Frames.cut closeTag after).getD (after, []) = (value, rest) ∧ value.length + rest.length ≤ after.length ∧
      slice (front ++ after) (size front) (size front + (find closeTag after).getD (size (front ++ after) - size front)) =
        some value ∧
      ∃ behind, sliceFrom (front ++ after) (size front + (find closeTag after).getD (size (front ++ after) - size front)) =
        some behind ∧ skipClosing closeTag behind = some rest := by
  cases hclose : Frames.cut closeTag after with
  | some p =>
    obtain ⟨value, rest⟩ := p
    obtain ⟨hfind, rfl⟩ := find_of_cut hclose
    refine ⟨value, rest, rfl, ?_, ?_, closeTag ++ rest, ?_, ?_⟩
    · simp only [List.length_append]
      omega
    · rw [hfind, Option.getD_some, slice_size_add, sliceTo_size]
    · rw [hfind, Option.getD_some, sliceFrom_add, sliceFrom_size]
    · rw [skipClosing, if_pos (List.prefix_append _ _), sliceFrom_size]
  | none =>
    have hsize : size (front ++ after) - size front = size after := by rw [size_append, Nat.add_sub_cancel_left]
    refine ⟨after, [], rfl, Nat.le_refl _, ?_, [], ?_, ?_⟩
    · rw [find_of_cut_none hclose, Option.getD_none, hsize, slice_size_add, sliceTo_self]
    · rw [find_of_cut_none hclose, Option.getD_none, hsize, sliceFrom_add, sliceFrom_self]
    · rw [skipClosing]
      split
      · rename_i hnil
        rw [List.prefix_nil.1 hnil]
        rfl
      · rfl

theorem parameterFields_eq {body : List Char} (hfuel : body.length < fuel) (map : Json.Map) :
    parameterFields fuel body map = some (Xml.parameterFields fuel body map) := by
  induction fuel generalizing body map with
  | zero => exact absurd hfuel (Nat.not_lt_zero _)
  | succ fuel ih =>
    rw [parameterFields, Xml.parameterFields, Xml.find]
    rcases hopen : Frames.cut "<parameter ".toList body with _ | ⟨before, after⟩
    · rw [find_of_cut_none hopen]
    obtain ⟨hfind, rfl⟩ := find_of_cut hopen
    have hlength : "<parameter ".toList.length = 11 := rfl
    have hle : ("<parameter ".toList ++ after).length < fuel + 1 := by
      simp only [List.length_append] at hfuel ⊢
      omega
    rw [hfind]
    dsimp only
    rw [sliceFrom_size, Option.bind_eq_bind, Option.bind_some, extractXmlAttribute_eq, Option.bind_eq_bind, Option.bind_some,
      Xml.find]
    generalize "<parameter ".toList ++ after = remaining at hle
    rcases hgt : Frames.cut ">".toList remaining with _ | ⟨tag, afterTag⟩
    · rw [find_of_cut_none hgt]
    obtain ⟨hfindgt, heq⟩ := find_of_cut hgt
    have hsize : size tag + 1 = size (tag ++ ">".toList) := by rw [size_append]; rfl
    obtain ⟨value, rest, hvalue, hrest, hslice, behind, hbehind, htail⟩ :=
      closed_eq "</parameter>".toList (tag ++ ">".toList) afterTag
    rw [hfindgt]
    dsimp only
    rw [Xml.find, hvalue, heq, hsize, ← List.append_assoc, sliceFrom_size, Option.bind_some, hslice, Option.bind_some, hbehind,
      Option.bind_some, htail, Option.bind_some]
    refine ih ?_ _
    rw [heq] at hle
    have hone : ">".toList.length = 1 := rfl
    simp only [List.length_append] at hle
    omega

variable {serde : XmlSerde}

theorem parseInvokeBlocks_eq {text : List Char} (hfuel : text.length < fuel)
    (calls : List XmlCall) : parseInvokeBlocks serde fuel text calls = some (Xml.parseInvokeBlocks serde fuel text calls) := by
  induction fuel generalizing text calls with
  | zero => exact absurd hfuel (Nat.not_lt_zero _)
  | succ fuel ih =>
    rw [parseInvokeBlocks, Xml.parseInvokeBlocks, Xml.find]
    cases hopen : Frames.cut "<invoke ".toList text with
    | none => rw [find_of_cut_none hopen]
    | some p =>
      obtain ⟨before, after⟩ := p
      obtain ⟨hfind, rfl⟩ := find_of_cut hopen
      have hle : ("<invoke ".toList ++ after).length < fuel + 1 := by
        simp only [List.length_append] at hfuel ⊢
        omega
      rw [hfind]
      dsimp only
      rw [sliceFrom_size, Option.bind_eq_bind, Option.bind_some, extractXmlAttribute_eq, Option.bind_eq_bind, Option.bind_some,
        Xml.find]
      generalize "<invoke ".toList ++ after = remaining at hle
      cases hgt : Frames.cut ">".toList remaining with
      | none => rw [find_of_cut_none hgt]
      | some p =>
        obtain ⟨tag, afterTag⟩ := p
        obtain ⟨hfindgt, heq⟩ := find_of_cut hgt
        have hsize : size tag + 1 = size (tag ++ ">".toList) := by rw [size_append]; rfl
        obtain ⟨body, rest, hbody, hrest, hslice, behind, hbehind, htail⟩ :=
          closed_eq "</invoke>".toList (tag ++ ">".toList) afterTag
        rw [hfindgt]
        dsimp only
        rw [Xml.find, hbody, heq, hsize, ← List.append_assoc, sliceFrom_size, Option.bind_some, hslice, Option.bind_some,
          parameterFields_eq (Nat.lt_succ_self _), Option.bind_eq_bind, Option.bind_some, hbehind, Option.bind_some, htail, Option.bind_some]
        refine ih ?_ _
        rw [heq] at hle
        have hone : ">".toList.length = 1 := rfl
        simp only [List.length_append] at hle
        omega

theorem wrappedCalls_eq (serde : XmlSerde) (inner : List Char) : wrappedCalls serde inner = some (Xml.wrappedCalls serde inner) := by
  rw [wrappedCalls, Xml.wrappedCalls, parseInvokeBlocks_eq (Nat.lt_succ_self _)]
  split
  · rfl
  · split
    · rfl
    · rfl

theorem danglingCalls_eq (serde : XmlSerde) (inner : List Char) : danglingCalls serde inner = some (Xml.danglingCalls serde inner) := by
  rw [danglingCalls, Xml.danglingCalls, parseInvokeBlocks_eq (Nat.lt_succ_self _)]
  split
  · rfl
  · rfl

theorem removeRange_end (front back : List Char) : removeRange (front ++ back) (size front) (size (front ++ back)) = some front := by
  have h := removeRange_size front back []
  rwa [List.append_nil, List.append_nil, ← size_append] at h

theorem wrappedRound_eq (serde : XmlSerde) (text : List Char) : wrappedRound serde text = some (Xml.wrappedRound serde text) := by
  rw [wrappedRound, Xml.wrappedRound, Xml.find]
  rcases hopen : Frames.cut "<tool_calls>".toList text with _ | ⟨before, after⟩
  · rw [find_of_cut_none hopen]
  obtain ⟨hfind, rfl⟩ := find_of_cut hopen
  rw [hfind]
  dsimp only
  rw [sliceFrom_add, sliceFrom_size, Option.bind_eq_bind, Option.bind_some, Xml.find]
  rcases hclose : Frames.cut "</tool_calls>".toList after with _ | ⟨inner, rest⟩
  · rw [find_of_cut_none hclose]
    dsimp only
    rw [danglingCalls_eq, Option.bind_eq_bind, Option.bind_some, removeRange_end, Option.bind_some]
  obtain ⟨hfindclose, rfl⟩ := find_of_cut hclose
  have hend : size before + size "<tool_calls>".toList + size inner + size "</tool_calls>".toList =
      size before + size ("<tool_calls>".toList ++ (inner ++ "</tool_calls>".toList)) := by
    simp only [size_append, Nat.add_assoc]
  have htext : before ++ ("<tool_calls>".toList ++ (inner ++ ("</tool_calls>".toList ++ rest))) =
      before ++ (("<tool_calls>".toList ++ (inner ++ "</tool_calls>".toList)) ++ rest) := by simp only [List.append_assoc]
  rw [hfindclose]
  dsimp only
  rw [hend, Nat.add_assoc, slice_add, slice_size_add, sliceTo_size, Option.bind_eq_bind, Option.bind_some, wrappedCalls_eq,
    Option.bind_some, htext, removeRange_size, Option.bind_some]

theorem bareRound_eq (serde : XmlSerde) (text : List Char) : bareRound serde text = some (Xml.bareRound serde text) := by
  rw [bareRound, Xml.bareRound, Xml.find]
  rcases hopen : Frames.cut "<invoke ".toList text with _ | ⟨before, after⟩
  · rw [find_of_cut_none hopen]
  obtain ⟨hfind, rfl⟩ := find_of_cut hopen
  rw [hfind]
  dsimp only
  rw [sliceFrom_size, Option.bind_eq_bind, Option.bind_some, Xml.find]
  generalize "<invoke ".toList ++ after = region
  rcases hclose : Frames.cut "</invoke>".toList region with _ | ⟨inner, rest⟩
  · rw [find_of_cut_none hclose]
    dsimp only
    rw [parseInvokeBlocks_eq (Nat.lt_succ_self _), Option.bind_eq_bind, Option.bind_some, removeRange_end, Option.bind_some]
  obtain ⟨hfindclose, rfl⟩ := find_of_cut hclose
  have hend : size before + size inner + size "</invoke>".toList = size before + size (inner ++ "</invoke>".toList) := by
    rw [size_append, Nat.add_assoc]
  rw [hfindclose]
  dsimp only
  rw [hend, ← List.append_assoc inner, slice_size_add, sliceTo_size, Option.bind_eq_bind, Option.bind_some,
    parseInvokeBlocks_eq (Nat.lt_succ_self _), Option.bind_some, removeRange_size, Option.bind_some]

theorem argFields_eq {block : List Char} (hfuel : block.length < fuel) (map : Json.Map) :
    argFields serde fuel block map = some (Xml.argFields serde fuel block map) := by
  induction fuel generalizing block map with
  | zero => exact absurd hfuel (Nat.not_lt_zero _)
  | succ fuel ih =>
    rw [argFields, Xml.argFields, Xml.find]
    rcases hopen : Frames.cut "<arg_key>".toList block with _ | p
    · rw [find_of_cut_none hopen]; rfl
    obtain ⟨before, after⟩ := p
    obtain ⟨hfind, rfl⟩ := find_of_cut hopen
    rw [hfind, Option.bind_some]
    dsimp only
    rw [sliceFrom_add, sliceFrom_size, Option.bind_eq_bind, Option.bind_some, Xml.find]
    rcases hkey : Frames.cut "</arg_key>".toList after with _ | ⟨key, rest⟩
    · rw [find_of_cut_none hkey]
    obtain ⟨hfindkey, rfl⟩ := find_of_cut hkey
    rw [hfindkey]
    dsimp only
    rw [Nat.add_assoc (size before), slice_add, slice_size_add, sliceTo_size, Option.bind_some, Nat.add_assoc (size before),
      sliceFrom_add, Nat.add_assoc, sliceFrom_add, sliceFrom_add, sliceFrom_size, Option.bind_some, Xml.find]
    rcases hvalue : Frames.cut "<arg_value>".toList rest with _ | ⟨front, afterValue⟩
    · rw [find_of_cut_none hvalue]
    obtain ⟨hfindvalue, rfl⟩ := find_of_cut hvalue
    obtain ⟨value, tail, hcut, hlength, hslice, behind, hbehind, htail⟩ :=
      closed_eq "</arg_value>".toList (front ++ "<arg_value>".toList) afterValue
    have htaillt : tail.length < fuel := by
      have hone : "<arg_key>".toList.length = 9 := rfl
      simp only [List.length_append] at hfuel
      omega
    rw [hfindvalue]
    dsimp only
    rw [Xml.find, hcut, ← size_append, ← List.append_assoc, sliceFrom_size, Option.bind_some, hslice, Option.bind_some,
      hbehind, Option.bind_some, sliceFrom_sliceFrom hbehind]
    rw [skipClosing] at htail
    by_cases hclosing : "</arg_value>".toList <+: behind
    · rw [if_pos hclosing] at htail
      rw [if_pos hclosing, htail, Option.bind_some, ih htaillt]
    · rw [if_neg hclosing, Option.some_inj] at htail
      rw [if_neg hclosing, htail, ih htaillt]

theorem stop_eq {found : Option (List Char × List Char)} {after : List Char} (hfound : ∀ p, found = some p → after = p.1 ++ p.2)
    (front : List Char) : ∃ inside rest, found.getD (after, []) = (inside, rest) ∧ after = inside ++ rest ∧
      (found.map fun p => size front + size p.1).getD (size (front ++ after)) = size front + size inside := by
  cases found with
  | some p => exact ⟨p.1, p.2, rfl, hfound p rfl, rfl⟩
  | none => exact ⟨after, [], rfl, (List.append_nil _).symm, size_append⟩

theorem find_map_stop (closeTag region : List Char) (n : Nat) : ((find closeTag region).map fun p => n + p + size closeTag) =
    ((Frames.cut closeTag region).map fun p => (p.1 ++ closeTag, p.2)).map fun p => n + size p.1 := by
  rw [find, Option.map_map, Option.map_map]
  refine congrArg (Option.map · _) (funext fun p => ?_)
  rw [Function.comp_apply, Function.comp_apply, size_append, Nat.add_assoc]

theorem argBlock_eq (name after : List Char) : ∃ inside rest, Xml.argBlock name after = (inside, rest) ∧ after = inside ++ rest ∧
    ∀ front, (((find "</tool_call>".toList after).map fun p => size front + p + size "</tool_call>".toList).or
      ((find ("</".toList ++ name ++ ['>']) after).map fun p => size front + p + size ("</".toList ++ name ++ ['>']))).getD
        (size (front ++ after)) = size front + size inside := by
  have hfound (closeTag : List Char) (p : List Char × List Char)
      (hp : ((Frames.cut closeTag after).map fun p => (p.1 ++ closeTag, p.2)) = some p) : after = p.1 ++ p.2 := by
    obtain ⟨⟨inside, rest⟩, hcut, rfl⟩ := Option.map_eq_some_iff.1 hp
    exact Frames.cut_eq_some hcut
  rw [Xml.argBlock, Xml.find]
  generalize hcall : ((Frames.cut "</tool_call>".toList after).map fun p => (p.1 ++ "</tool_call>".toList, p.2)) = first
  generalize hname : ((Frames.cut ("</".toList ++ name ++ ['>']) after).map fun p => (p.1 ++ ("</".toList ++ name ++ ['>']), p.2)) = second
  have hor (p : List Char × List Char) (hp : first.or second = some p) : after = p.1 ++ p.2 := by
    rcases Option.or_eq_some_iff.1 hp with h | ⟨-, h⟩
    · exact hfound _ p (hcall.trans h)
    · exact hfound _ p (hname.trans h)
  obtain ⟨inside, rest, hblock, hafter, -⟩ := stop_eq hor []
  refine ⟨inside, rest, hblock, hafter, fun front => ?_⟩
  obtain ⟨inside', rest', hblock', -, hstop⟩ := stop_eq hor front
  rw [hblock] at hblock'
  cases hblock'
  rw [find_map_stop, find_map_stop, ← Option.map_or, hcall, hname, hstop]

theorem argsRound_eq (serde : XmlSerde) (name text : List Char) : argsRound serde name text = some (Xml.argsRound serde name text) := by
  rw [argsRound, Xml.argsRound]
  dsimp only
  rcases hopen : Frames.cut ('<' :: name ++ "<arg_key>".toList) text with _ | ⟨before, after⟩
  · rw [find_of_cut_none hopen]
  obtain ⟨hfind, rfl⟩ := find_of_cut hopen
  rw [hfind]
  dsimp only
  generalize '<' :: name ++ "<arg_key>".toList = pattern
  obtain ⟨inside, rest, hblock, rfl, hstop⟩ := argBlock_eq name after
  have hsize : size (before ++ pattern) + size inside = size before + size (pattern ++ inside) := by
    simp only [size_append, Nat.add_assoc]
  have htext : (before ++ pattern) ++ (inside ++ rest) = before ++ ((pattern ++ inside) ++ rest) := by
    simp only [List.append_assoc]
  rw [hblock, ← size_append, ← List.append_assoc, sliceFrom_size, Option.bind_eq_bind, Option.bind_some, hstop, hsize, htext,
    slice_size_add, sliceTo_size, Option.bind_some, argFields_eq (Nat.lt_succ_self _), Option.bind_eq_bind, Option.bind_some,
    removeRange_size, Option.bind_some]

theorem normalizeKimiFunctionName_eq (raw : List Char) :
    normalizeKimiFunctionName raw = some (Xml.normalizeKimiFunctionName raw) := by
  rw [normalizeKimiFunctionName, Xml.normalizeKimiFunctionName]
  generalize (stripPrefix "functions_" raw).getD raw = name
  rw [rfind_eq_cutLast, rfindStr]
  rcases hlast : Search.cutLast ['_'] name with _ | ⟨base, suffix⟩
  · rfl
  obtain rfl := Search.cutLast_eq_some hlast
  have hone : 1 = size ['_'] := rfl
  rw [Option.map_some]
  dsimp only
  rw [hone, sliceFrom_add, sliceFrom_size, sliceTo_size, Option.bind_eq_bind, Option.bind_some, Option.bind_some]
  by_cases hdigits : suffix ≠ [] ∧ suffix.all (·.isDigit)
  · rw [if_pos hdigits]
    by_cases hbase : base = []
    · rw [if_neg fun h => h hbase, if_neg fun h => h.2.2 hbase]
    · rw [if_pos hbase, if_pos ⟨hdigits.1, hdigits.2, hbase⟩]
  · rw [if_neg hdigits, if_neg fun h => hdigits ⟨h.1, h.2.1⟩]

theorem kimiCall_eq (serde : XmlSerde) (callBody : List Char) : kimiCall serde callBody = some (Xml.kimiCall serde callBody) := by
  rw [kimiCall, Xml.kimiCall, Xml.find]
  rcases hsplit : Frames.cut "<|tool_call_argument_begin|>".toList callBody with _ | ⟨name, args⟩
  · rw [find_of_cut_none hsplit]; rfl
  obtain ⟨hfind, rfl⟩ := find_of_cut hsplit
  rw [hfind]
  dsimp only
  rw [sliceTo_size, sliceFrom_add, sliceFrom_size, Option.bind_eq_bind, Option.bind_some, Option.bind_some,
    normalizeKimiFunctionName_eq, Option.bind_some, Option.map_some]

/-- The body of a call up to its end token or to the end, and what is behind. -/
theorem callEnd_eq {token : List Char} (htoken : token ≠ []) (front after : List Char) : ∃ body block rest,
    (Frames.cut token after).getD (after, []) = (body, rest) ∧ after = block ++ rest ∧
      slice (front ++ after) (size front) (((find token after).map (size front + ·)).getD (size (front ++ after))) = some body ∧
      (if ((find token after).map (size front + ·)).getD (size (front ++ after)) + size token ≤ size (front ++ after) then
        sliceFrom (front ++ after) (((find token after).map (size front + ·)).getD (size (front ++ after)) + size token)
      else some []) = some rest ∧
      (if ((find token after).map (size front + ·)).getD (size (front ++ after)) + size token ≤ size (front ++ after) then
        ((find token after).map (size front + ·)).getD (size (front ++ after)) + size token
      else size (front ++ after)) = size front + size block := by
  cases hend : Frames.cut token after with
  | some p =>
    obtain ⟨body, rest⟩ := p
    obtain ⟨hfind, rfl⟩ := find_of_cut hend
    have hle : size front + size body + size token ≤ size (front ++ (body ++ (token ++ rest))) := by
      simp only [size_append]
      omega
    refine ⟨body, body ++ token, rest, rfl, (List.append_assoc _ _ _).symm, ?_⟩
    rw [hfind, Option.map_some, Option.getD_some, if_pos hle, if_pos hle]
    refine ⟨?_, ?_, ?_⟩
    · rw [slice_size_add, sliceTo_size]
    · rw [Nat.add_assoc, sliceFrom_add, sliceFrom_add, sliceFrom_size]
    · rw [size_append, Nat.add_assoc]
  | none =>
    obtain ⟨c, token, rfl⟩ := List.exists_cons_of_ne_nil htoken
    have hlt : ¬ size (front ++ after) + size (c :: token) ≤ size (front ++ after) := by
      have hpos := c.utf8Size_pos
      rw [size_cons]
      omega
    refine ⟨after, after, [], rfl, (List.append_nil _).symm, ?_⟩
    rw [find_of_cut_none hend, Option.map_none, Option.getD_none, if_neg hlt, if_neg hlt]
    refine ⟨?_, rfl, size_append⟩
    rw [size_append, slice_size_add, sliceTo_self]

theorem kimiCalls_eq {remaining : List Char} (hfuel : remaining.length < fuel)
    (calls : List XmlCall) : kimiCalls serde fuel remaining calls = some (Xml.kimiCalls serde fuel remaining calls) := by
  induction fuel generalizing remaining calls with
  | zero => exact absurd hfuel (Nat.not_lt_zero _)
  | succ fuel ih =>
    rw [kimiCalls, Xml.kimiCalls, Xml.find]
    rcases hopen : Frames.cut "<|tool_call_begin|>".toList remaining with _ | ⟨before, after⟩
    · rw [find_of_cut_none hopen]
    obtain ⟨hfind, rfl⟩ := find_of_cut hopen
    have hend : "<|tool_call_end|>".toList ≠ [] := by decide
    obtain ⟨body, block, rest, hbody, hafter, hslice, hbehind, -⟩ :=
      callEnd_eq hend (before ++ "<|tool_call_begin|>".toList) after
    have hrest : rest.length < fuel := by
      have hpos : "<|tool_call_begin|>".toList.length = 19 := rfl
      rw [hafter] at hfuel
      simp only [List.length_append] at hfuel
      omega
    rw [hfind]
    dsimp only
    rw [Xml.find, hbody, ← size_append, ← List.append_assoc, sliceFrom_size, Option.bind_eq_bind, Option.bind_some, hslice,
      Option.bind_some, kimiCall_eq, Option.bind_eq_bind, Option.bind_some]
    split at hbehind
    · rw [if_pos ‹_›, hbehind, Option.bind_some, ih hrest]
    · cases hbehind
      rw [if_neg ‹_›, ih hrest]

theorem kimiBareRound_eq (serde : XmlSerde) (text : List Char) :
    kimiBareRound serde text = some (Xml.kimiBareRound serde text) := by
  rw [kimiBareRound, Xml.kimiBareRound, Xml.find]
  cases hopen : Frames.cut "<|tool_call_begin|>".toList text with
  | none => rw [find_of_cut_none hopen]
  | some p =>
    obtain ⟨before, after⟩ := p
    obtain ⟨hfind, rfl⟩ := find_of_cut hopen
    have hend : "<|tool_call_end|>".toList ≠ [] := by decide
    obtain ⟨body, block, rest, hbody, hafter, hslice, -, hstop⟩ :=
      callEnd_eq hend (before ++ "<|tool_call_begin|>".toList) after
    have htext : (before ++ "<|tool_call_begin|>".toList) ++ after = before ++ (("<|tool_call_begin|>".toList ++ block) ++ rest) := by
      rw [hafter]
      simp only [List.append_assoc]
    have hsize : size (before ++ "<|tool_call_begin|>".toList) + size block = size before + size ("<|tool_call_begin|>".toList ++ block) := by
      simp only [size_append, Nat.add_assoc]
    rw [hfind]
    dsimp only
    rw [Xml.find, hbody, ← size_append, ← List.append_assoc, sliceFrom_size, Option.bind_eq_bind, Option.bind_some, hslice,
      Option.bind_some, kimiCall_eq, Option.bind_eq_bind, Option.bind_some, hstop, hsize, htext, removeRange_size, Option.bind_some]

theorem kimiSectionsRound_eq (serde : XmlSerde) (text : List Char) :
    kimiSectionsRound serde text = some (Xml.kimiSectionsRound serde text) := by
  rw [kimiSectionsRound, Xml.kimiSectionsRound, Xml.find]
  rcases hopen : Frames.cut "<|tool_calls_section_begin|>".toList text with _ | p
  · rw [find_of_cut_none hopen]
  obtain ⟨before, after⟩ := p
  obtain ⟨hfind, rfl⟩ := find_of_cut hopen
  -- the end token does not begin in the begin token
  have hcut : Frames.cut "<|tool_calls_section_end|>".toList ("<|tool_calls_section_begin|>".toList ++ after) =
      (Frames.cut "<|tool_calls_section_end|>".toList after).map fun p => ("<|tool_calls_section_begin|>".toList ++ p.1, p.2) := by
    refine Search.cut_of_noStart (Search.noStart_tag (by decide) fun h => ?_)
    have hprefix := List.prefix_of_prefix_length_le h (List.prefix_append "|tool_calls_section_begin|>".toList after) (by decide)
    revert hprefix
    decide
  have hfound (p : List Char × List Char) (hp : ((Frames.cut "<|tool_calls_section_end|>".toList after).map fun p =>
      (p.1 ++ "<|tool_calls_section_end|>".toList, p.2)) = some p) : after = p.1 ++ p.2 := by
    obtain ⟨⟨inside, rest⟩, hcut, rfl⟩ := Option.map_eq_some_iff.1 hp
    exact Frames.cut_eq_some hcut
  obtain ⟨inside, rest, hblock, hafter, hstop⟩ := stop_eq hfound (before ++ "<|tool_calls_section_begin|>".toList)
  have hsecEnd : ((find "<|tool_calls_section_end|>".toList ("<|tool_calls_section_begin|>".toList ++ after)).map fun p =>
      size before + p + size "<|tool_calls_section_end|>".toList) =
        ((Frames.cut "<|tool_calls_section_end|>".toList after).map fun p =>
          (p.1 ++ "<|tool_calls_section_end|>".toList, p.2)).map fun p =>
            size (before ++ "<|tool_calls_section_begin|>".toList) + size p.1 := by
    rw [find_map_stop, hcut, Option.map_map, Option.map_map, Option.map_map]
    refine congrArg (Option.map · _) (funext fun p => ?_)
    simp only [Function.comp_apply, size_append, Nat.add_assoc]
  have htext : before ++ ("<|tool_calls_section_begin|>".toList ++ after) =
      (before ++ "<|tool_calls_section_begin|>".toList) ++ after := (List.append_assoc _ _ _).symm
  have hremove : removeRange ((before ++ "<|tool_calls_section_begin|>".toList) ++ after) (size before)
      (size (before ++ "<|tool_calls_section_begin|>".toList) + size inside) = some (before ++ rest) := by
    have h := removeRange_size before ("<|tool_calls_section_begin|>".toList ++ inside) rest
    rw [size_append, ← Nat.add_assoc, ← size_append, ← List.append_assoc, ← List.append_assoc, List.append_assoc, ← hafter] at h
    exact h
  rw [hfind]
  dsimp only
  rw [sliceFrom_size, Option.bind_eq_bind, Option.bind_some, hsecEnd, ← size_append, htext, hstop, Xml.find, hblock, hremove,
    slice_size_add, hafter, sliceTo_size, Option.bind_some, kimiCalls_eq (Nat.lt_succ_self _)]
  rfl

theorem round_eq (serde : XmlSerde) (p : Xml.Pass) : round serde p = Xml.Pass.round serde p := by
  funext text
  cases p with
  | wrapped => exact wrappedRound_eq serde text
  | bare => exact bareRound_eq serde text
  | pattern openTag closeTag greedy => exact patternRound_eq serde openTag closeTag greedy text
  | args name => exact argsRound_eq serde name text
  | kimiSections => exact kimiSectionsRound_eq serde text
  | kimiBare => exact kimiBareRound_eq serde text

end ObeyGateway.XmlOffsets
