import ObeyGateway.Lib.JsonPrint
import ObeyGateway.Lib.Replace
import ObeyGateway.Lib.Search
import ObeyGateway.Lib.Text

/-!
# Tool calls in text (`translate_xml_tool_calls`)

Models without native tool calls write them as markup. A fixed list of patterns takes the calls out of the text, each
until it finds no more; a wrapper pattern ends a call at the first close tag, a tool-name pattern at the last one.
Loops that shorten a text carry its length as fuel. A slice whose end is before its start is a panic: `none`.
-/

namespace ObeyGateway
open Text Search

/-- `serde_json::from_str` and `to_string`. -/
structure XmlSerde where
  fromStr : List Char → Option Json
  toStr : Json → List Char

namespace Xml

structure XmlCall where
  name : List Char
  arguments : List Char
deriving DecidableEq

def find (pattern : String) (text : List Char) : Option (List Char × List Char) := Frames.cut pattern.toList text

def trimStartMatches (c : Char) (text : List Char) : List Char := text.dropWhile (· = c)

def trimEndMatches (c : Char) (text : List Char) : List Char := (text.reverse.dropWhile (· = c)).reverse

/-- What is between the quotes behind the first `marker`. -/
def quotedAfter (marker quote : String) (tag : List Char) : Option (List Char) :=
  (find marker tag).bind fun p => (find quote p.2).map (·.1)

def extractXmlAttribute (tag : List Char) (attrName : String) : Option (List Char) :=
  (quotedAfter (attrName ++ "=\"") "\"" tag).or (quotedAfter (attrName ++ "='") "'" tag)

/-- `obj.remove(old)` into `new`, when there is no `new`; the flag says whether anything changed. -/
def renameField (old new : String) (args : Json.Map × Bool) : Json.Map × Bool :=
  match Assoc.get args.1 new, Assoc.get args.1 old with
  | none, some value => (Assoc.insert (Assoc.erase args.1 old) new value, true)
  | _, _ => args

/-- The `files` of `read_file`, as the lines of `path`. -/
def joinFiles (fields : Json.Map) : Json.Map × Bool :=
  let rest := Assoc.erase fields "files"
  match (Assoc.get fields "files").bind Json.asArray with
  | none => (rest, false)
  | some files =>
    let paths := files.filterMap fun f => (f.get "path").bind Json.asStr
    if paths = [] then (rest, false) else (Assoc.insert rest "path" (.string ("\n".intercalate paths)), true)

/-- What `normalize_tool_arguments` does to the object. -/
def normalizeFields (toolName : String) (fields : Json.Map) : Json.Map × Bool :=
  if toolName = "read_file" then renameField "file_path" "path" (joinFiles fields)
  else if toolName = "list_files" then renameField "directory" "path" (fields, false)
  else if toolName = "search_files" then renameField "search_term" "regex" (fields, false)
  else if toolName = "execute_command" then renameField "cmd" "command" (fields, false)
  else (fields, false)

def normalizeToolArguments (serde : XmlSerde) (toolName arguments : List Char) : List Char :=
  match serde.fromStr arguments with
  | some (.object fields) =>
    let (fields, changed) := normalizeFields (String.ofList toolName) fields
    if changed then serde.toStr (.object fields) else arguments
  | _ => arguments

def nullOrString (value : List Char) : Json :=
  if value = "null".toList ∨ value = "undefined".toList then .null else .string (String.ofList value)

def xmlValue (value : List Char) : Json :=
  if value = "true".toList then .bool true
  else if value = "false".toList then .bool false
  else nullOrString value

/-- The name in an opening tag: its first word without a slash or quotes behind it. -/
def tagNameOf (inTag : List Char) : List Char :=
  trimEndMatches '\'' (trimEndMatches '"' (trimEndMatches '/'
    ((trimStart inTag).takeWhile fun c => !isWhitespace c)))

def innerXmlFields : (fuel : Nat) → (remaining : List Char) → Json.Map → Json.Map
  | 0, _, map => map
  | fuel + 1, remaining, map =>
    match find "<" (trimStart remaining) with
    | none => map
    | some (_, afterOpen) =>
      match find ">" afterOpen with
      | none => map
      | some (inTag, afterTag) =>
        -- an orphaned closing tag
        if afterOpen.head? = some '/' then innerXmlFields fuel afterTag map
        else
          let tagName := tagNameOf inTag
          if tagName = [] then map
          else
            match cutLast ("</".toList ++ tagName ++ ['>']) afterTag with
            | some (value, rest) => innerXmlFields fuel rest (Assoc.insert map (String.ofList tagName) (xmlValue value))
            | none =>
              match find "</" afterTag with
              | some (value, rest) =>
                let map := Assoc.insert map (String.ofList tagName) (nullOrString value)
                match find ">" rest with
                | some (_, rest) => innerXmlFields fuel rest map
                | none => map
              | none =>
                if trim afterTag = [] then map
                else
                  Assoc.insert map (String.ofList tagName)
                    (if trim afterTag = "null".toList then .null else .string (String.ofList afterTag))

def parseInnerXmlToJson (serde : XmlSerde) (body : List Char) : List Char :=
  serde.toStr (.object (innerXmlFields (body.length + 1) (trim body) []))

def isControl (c : Char) : Bool := c.toNat < 0x20 || 0x7f ≤ c.toNat && c.toNat < 0xa0

def escapeControls (body : List Char) : List Char :=
  let body := Splice.replaceAll "\\\n".toList "\\n".toList body
  let body := Splice.replaceAll "\n".toList "\\n".toList body
  let body := Splice.replaceAll "\r".toList "\\r".toList body
  let body := Splice.replaceAll "\t".toList "\\t".toList body
  body.flatMap fun c =>
    if isControl c then "\\u".toList ++ List.replicate (4 - (Nat.toDigits 16 c.toNat).length) '0' ++ Nat.toDigits 16 c.toNat
    else [c]

def firstKeyOf (body : List Char) : Json.Map :=
  let inner := trim (trimEndMatches Json.closeBrace (trimStartMatches Json.openBrace body))
  match find ":" inner with
  | none => [("result", .string (String.ofList body))]
  | some (key, value) =>
    let key := trimEndMatches '"' (trimStartMatches '"' (trim key))
    let value := trim value
    let value := if value.head? = some '"' then trimEndMatches '"' (trimStartMatches '"' value) else value
    [(String.ofList key, .string (String.ofList value))]

/-- The body of a call with a name attribute: JSON as it is, else what can be made of it. -/
def namedArguments (serde : XmlSerde) (name body : List Char) : List Char :=
  if (serde.fromStr body).isSome then body
  else if body.head? = some Json.openBrace then
    match serde.fromStr (escapeControls body) with
    | some repaired => serde.toStr repaired
    | none => serde.toStr (.object (firstKeyOf body))
  else
    let paramName :=
      if name = "attempt_completion".toList then "result"
      else if name = "ask_followup_question".toList then "question"
      else "input"
    serde.toStr (.object [(paramName, .string (String.ofList body))])

/-- The call of an object with `name` and `arguments`. -/
def jsonCall (serde : XmlSerde) (obj : Json) : XmlCall where
  name := (((obj.get "name").bind Json.asStr).getD "unknown").toList
  arguments :=
    match obj.get "arguments" with
    | some (.string s) => s.toList
    | some value => serde.toStr value
    | none => serde.toStr (.object (Assoc.erase (obj.asObject.getD []) "name"))

/-- The call between an opening and a closing tag; `none` when it is skipped. -/
def xmlCallOf (serde : XmlSerde) (openTagPrefix openingTag body : List Char) : Option XmlCall :=
  let body := trim body
  let call : Option XmlCall :=
    match extractXmlAttribute openingTag "name", serde.fromStr body with
    | some name, _ => some ⟨name, namedArguments serde name body⟩
    | none, some obj => some (jsonCall serde obj)
    | none, none =>
      if '<' ∈ body ∧ '>' ∈ body then
        some ⟨trim (trimStartMatches '<' openTagPrefix), parseInnerXmlToJson serde body⟩
      else none
  call.map fun call => { call with arguments := normalizeToolArguments serde call.name call.arguments }

/-- `extract_xml_tool_calls_pattern_inner` -/
def extractPattern (serde : XmlSerde) (openTag closeTag : List Char) (greedy : Bool) :
    (fuel : Nat) → List Char → List XmlCall → Option (List Char × List XmlCall)
  | 0, text, calls => some (text, calls)
  | fuel + 1, text, calls =>
    match Frames.cut openTag text with
    | none => some (text, calls)
    | some (before, afterOpen) =>
      let region := openTag ++ afterOpen
      match if greedy then cutLast closeTag region else Frames.cut closeTag region with
      | some (inner, rest) =>
        match find ">" (inner ++ closeTag) with
        | none => extractPattern serde openTag closeTag greedy fuel (before ++ rest) calls
        | some (tag, _) =>
          if inner.length < tag.length + 1 then none
          else
            let call := xmlCallOf serde openTag (tag ++ ['>']) (inner.drop (tag.length + 1))
            extractPattern serde openTag closeTag greedy fuel (before ++ rest) (calls ++ call.toList)
      | none =>
        -- no closing tag: the body runs to the end of the text
        match find ">" region with
        | none => some (before, calls)
        | some (tag, body) => some (before, calls ++ (xmlCallOf serde openTag (tag ++ ['>']) body).toList)

def extract (serde : XmlSerde) (openTag closeTag : List Char) (greedy : Bool) (s : List Char × List XmlCall) :
    Option (List Char × List XmlCall) :=
  extractPattern serde openTag closeTag greedy (s.1.length + 1) s.1 s.2

def parameterFields : (fuel : Nat) → List Char → Json.Map → Json.Map
  | 0, _, map => map
  | fuel + 1, body, map =>
    match find "<parameter " body with
    | none => map
    | some (_, after) =>
      let remaining := "<parameter ".toList ++ after
      let name := (extractXmlAttribute remaining "name").getD "unknown".toList
      match find ">" remaining with
      | none => map
      | some (_, afterTag) =>
        let (value, rest) := (find "</parameter>" afterTag).getD (afterTag, [])
        parameterFields fuel rest
          (Assoc.insert map (String.ofList name)
            (if value = "null".toList then .null else .string (String.ofList value)))

def parseInvokeBlocks (serde : XmlSerde) : (fuel : Nat) → List Char → List XmlCall → List XmlCall
  | 0, _, calls => calls
  | fuel + 1, text, calls =>
    match find "<invoke " text with
    | none => calls
    | some (_, after) =>
      let remaining := "<invoke ".toList ++ after
      let name := (extractXmlAttribute remaining "name").getD "unknown".toList
      match find ">" remaining with
      | none => calls
      | some (_, afterTag) =>
        let (body, rest) := (find "</invoke>" afterTag).getD (afterTag, [])
        let args := parameterFields (body.length + 1) body []
        parseInvokeBlocks serde fuel rest (calls ++ [⟨name, serde.toStr (.object args)⟩])

def parseJsonToolCallsArray (serde : XmlSerde) (text : List Char) (calls : List XmlCall) : List XmlCall :=
  match serde.fromStr text with
  | some (.array items) => calls ++ items.map (jsonCall serde)
  | _ => calls

/-- The wrapped form: `<tool_calls>` around JSON or invoke blocks. -/
def extractWrapped (serde : XmlSerde) : (fuel : Nat) → List Char × List XmlCall → List Char × List XmlCall
  | 0, s => s
  | fuel + 1, (text, calls) =>
    match find "<tool_calls>" text with
    | none => (text, calls)
    | some (before, after) =>
      match find "</tool_calls>" after with
      | some (inner, rest) =>
        let trimmed := trim inner
        let calls :=
          if trimmed.head? = some '[' then parseJsonToolCallsArray serde trimmed calls
          else if trimmed.head? = some Json.openBrace then
            parseJsonToolCallsArray serde ('[' :: trimmed ++ [']']) calls
          else parseInvokeBlocks serde (inner.length + 1) inner calls
        extractWrapped serde fuel (before ++ rest, calls)
      | none =>
        let trimmed := trim after
        let calls :=
          if trimmed.head? = some '[' ∨ trimmed.head? = some Json.openBrace then
            parseJsonToolCallsArray serde trimmed calls
          else parseInvokeBlocks serde (after.length + 1) after calls
        (before, calls)

def extractBare (serde : XmlSerde) : (fuel : Nat) → List Char × List XmlCall → List Char × List XmlCall
  | 0, s => s
  | fuel + 1, (text, calls) =>
    match find "<invoke " text with
    | none => (text, calls)
    | some (before, after) =>
      let region := "<invoke ".toList ++ after
      match find "</invoke>" region with
      | some (inner, rest) =>
        let block := inner ++ "</invoke>".toList
        extractBare serde fuel (before ++ rest, parseInvokeBlocks serde (block.length + 1) block calls)
      | none => (before, parseInvokeBlocks serde (region.length + 1) region calls)

def extractInvokeStyle (serde : XmlSerde) (s : List Char × List XmlCall) : List Char × List XmlCall :=
  let s := extractWrapped serde (s.1.length + 1) s
  extractBare serde (s.1.length + 1) s

/-- The pairs of `<arg_key>` and `<arg_value>`. -/
def argFields (serde : XmlSerde) : (fuel : Nat) → List Char → Json.Map → Json.Map
  | 0, _, map => map
  | fuel + 1, block, map =>
    match (find "<arg_key>" block).bind fun p => find "</arg_key>" p.2 with
    | none => map
    | some (key, rest) =>
      match find "<arg_value>" rest with
      | none => map
      | some (_, after) =>
        let (value, rest) := (find "</arg_value>" after).getD (after, [])
        argFields serde fuel rest
          (Assoc.insert map (String.ofList key) ((serde.fromStr value).getD (.string (String.ofList value))))

def extractArgKeyValueOf (serde : XmlSerde) (name : List Char) :
    (fuel : Nat) → List Char × List XmlCall → List Char × List XmlCall
  | 0, s => s
  | fuel + 1, (text, calls) =>
    let pattern := '<' :: name ++ "<arg_key>".toList
    match Frames.cut pattern text with
    | none => (text, calls)
    | some (before, after) =>
      let ended : Option (List Char × List Char) :=
        ((find "</tool_call>" after).map fun p => (p.1 ++ "</tool_call>".toList, p.2)).or
          ((Frames.cut ("</".toList ++ name ++ ['>']) after).map fun p => (p.1 ++ ("</".toList ++ name ++ ['>']), p.2))
      let (inside, rest) := ended.getD (after, [])
      let block := pattern ++ inside
      let args := argFields serde (block.length + 1) block []
      extractArgKeyValueOf serde name fuel
        (before ++ rest, if args = [] then calls else calls ++ [⟨name, serde.toStr (.object args)⟩])

def extractArgKeyValue (serde : XmlSerde) (toolNames : List (List Char)) (s : List Char × List XmlCall) :
    List Char × List XmlCall :=
  toolNames.foldl (fun s name => extractArgKeyValueOf serde name (s.1.length + 1) s) s

def normalizeKimiFunctionName (raw : List Char) : List Char :=
  let name := (stripPrefix "functions_" raw).getD raw
  match cutLast ['_'] name with
  | some (base, suffix) => if suffix ≠ [] ∧ suffix.all (·.isDigit) ∧ base ≠ [] then base else name
  | none => name

def kimiCall (serde : XmlSerde) (body : List Char) : Option XmlCall :=
  (find "<|tool_call_argument_begin|>" body).map fun p =>
    let args := trim p.2
    ⟨normalizeKimiFunctionName (trim p.1),
      if (serde.fromStr args).isSome then args
      else Json.openBrace :: "\"input\":".toList ++ serde.toStr (.string (String.ofList args)) ++ [Json.closeBrace]⟩

def kimiCalls (serde : XmlSerde) : (fuel : Nat) → (section' : List Char) → List XmlCall → List XmlCall
  | 0, _, calls => calls
  | fuel + 1, text, calls =>
    match find "<|tool_call_begin|>" text with
    | none => calls
    | some (_, after) =>
      let (body, rest) := (find "<|tool_call_end|>" after).getD (after, [])
      kimiCalls serde fuel rest (calls ++ (kimiCall serde body).toList)

def extractKimiSections (serde : XmlSerde) : (fuel : Nat) → List Char × List XmlCall → List Char × List XmlCall
  | 0, s => s
  | fuel + 1, (text, calls) =>
    match find "<|tool_calls_section_begin|>" text with
    | none => (text, calls)
    | some (before, after) =>
      -- the section runs through its end token
      let (inside, rest) :=
        ((find "<|tool_calls_section_end|>" after).map fun p =>
          (p.1 ++ "<|tool_calls_section_end|>".toList, p.2)).getD (after, [])
      extractKimiSections serde fuel (before ++ rest, kimiCalls serde (inside.length + 1) inside calls)

def extractKimiBare (serde : XmlSerde) : (fuel : Nat) → List Char × List XmlCall → List Char × List XmlCall
  | 0, s => s
  | fuel + 1, (text, calls) =>
    match find "<|tool_call_begin|>" text with
    | none => (text, calls)
    | some (before, after) =>
      let (body, rest) := (find "<|tool_call_end|>" after).getD (after, [])
      extractKimiBare serde fuel (before ++ rest, calls ++ (kimiCall serde body).toList)

def extractKimi (serde : XmlSerde) (s : List Char × List XmlCall) : List Char × List XmlCall :=
  let s := extractKimiSections serde (s.1.length + 1) s
  extractKimiBare serde (s.1.length + 1) s

def kimiTokens : List String :=
  ["<|tool_calls_section_begin|>", "<|tool_calls_section_end|>", "<|tool_call_begin|>", "<|tool_call_end|>",
    "<|tool_call_argument_begin|>", "<|tool_call_argument_end|>", "<|tool_sep|>"]

def stripToken (token : String) : (fuel : Nat) → List Char → List Char
  | 0, text => text
  | fuel + 1, text => if contains text token then stripToken token fuel (Splice.replaceAll token.toList [] text) else text

def stripKimiSpecialTokens (text : List Char) : List Char :=
  kimiTokens.foldl (fun text token => stripToken token (text.length + 1) text) text

/-- `KNOWN_TOOL_NAMES` -/
def knownToolNames : List String :=
  ["ask_followup_question", "access_mcp_resource", "attempt_completion", "read_command_output", "run_slash_command",
    "fetch_instructions", "update_todo_list", "execute_command", "codebase_search", "generate_image", "search_replace",
    "write_to_file", "search_files", "apply_patch", "switch_mode", "use_mcp_tool", "apply_diff", "edit_file",
    "list_files", "read_file", "new_task", "skill", "edit", "replace_in_file", "insert_code_block", "browser_action",
    "list_code_definition_names", "inspect_site"]

def toolNames (tools : Option Json) : List String :=
  (((tools.bind Json.asArray).getD []).filterMap fun tool =>
    ((tool.get "function").bind (·.get "name")).bind Json.asStr).foldl
      (fun names name => if name ∈ names then names else names ++ [name]) knownToolNames

def wrapperPatterns : List (String × String) :=
  [("<use_tool", "</use_tool>"), ("<tool_call>", "</tool_call>"), ("<function_call", "</function_call>")]

def extractTool (serde : XmlSerde) (s : List Char × List XmlCall) (name : String) : Option (List Char × List XmlCall) :=
  extract serde ('<' :: name.toList) ("</".toList ++ name.toList ++ ['>']) true s

def extractAll (serde : XmlSerde) (names : List String) (text : List Char) : Option (List Char × List XmlCall) := do
  let s := extractInvokeStyle serde (text, [])
  let s ← wrapperPatterns.foldlM (fun s p => extract serde p.1.toList p.2.toList false s) s
  let s ← names.foldlM (extractTool serde) s
  let s := if s.2 = [] then extractArgKeyValue serde (names.map String.toList) s else s
  let s := if s.2 = [] then extractKimi serde s else s
  some (stripKimiSpecialTokens s.1, s.2)

/-- The message of the first choice, with what the translation reads of its `extra`; empty texts are absent ones. -/
structure TurnMessage where
  content : List Char
  reasoning : List Char
  reasoningContent : List Char
  toolCalls : Option (List XmlCall)
  finishReason : Option String
deriving DecidableEq

/-- `translate_xml_tool_calls`, with what it returns; `none` is a panic. -/
def translateXmlToolCalls (serde : XmlSerde) (tools : Option Json) (message : TurnMessage) :
    Option (TurnMessage × Bool) :=
  if message.toolCalls.isSome then some (message, false)
  else
    let reasoningText := if message.reasoning ≠ [] then message.reasoning else message.reasoningContent
    let fromReasoning := message.content = [] ∧ reasoningText ≠ []
    let combinedText := if fromReasoning then reasoningText else message.content
    if combinedText = [] then some (message, false)
    else do
      let (remaining, calls) ← extractAll serde (toolNames tools) combinedText
      if calls = [] then some (message, false)
      else
        some ({ content := trim remaining
                reasoning := if fromReasoning then [] else message.reasoning
                reasoningContent :=
                  if fromReasoning ∧ message.reasoning = [] then [] else message.reasoningContent
                toolCalls := some calls
                finishReason := some "tool_calls" }, true)

end Xml
end ObeyGateway
