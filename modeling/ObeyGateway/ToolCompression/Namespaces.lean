import Mathlib.Algebra.GroupWithZero.Nat
import ObeyGateway.Lib.Buckets
import ObeyGateway.ToolCompression.Types

/-!
# Namespaces of tools

`stages/namespace_grouper.rs` and `resolver.rs`. Grouper and resolver compute each for itself which
namespace a tool belongs to: the grouper looks at the configured prefixes and folds namespaces of a
single tool into `other`, the resolver only takes the name up to the first separator. The two agree
exactly if they do for every tool (`drill_down_agrees_iff`).
-/

namespace ObeyGateway.ToolCompression

open Buckets

structure NamespaceMetadata where
  description : String

/-- The mappings are in the order in which their map is iterated. -/
structure NamespaceGrouper where
  configuredMappings : List (String × NamespaceMetadata)
  minToolsForGrouping : Nat

def other : String := "other"

def isSeparator (c : Char) : Bool := c = '_' || c = '.'

def extractPrefix (name : String) : Option String :=
  if name.toList.any isSeparator then
    some (String.ofList (name.toList.takeWhile (!isSeparator ·)))
  else none

namespace NamespaceGrouper
variable (grouper : NamespaceGrouper) (hashed : HashOrder) (encoder : Encoder)

def groupOf (name : String) : String :=
  match grouper.configuredMappings.find? fun mapping => mapping.1.toList.isPrefixOf name.toList with
  | some mapping => mapping.1
  | none => (extractPrefix name).getD other

def prefixGroups (tools : List ToolDefinition) : List (String × List Nat) :=
  tools.zipIdx.foldl (fun groups (tool, i) => extend groups (grouper.groupOf tool.name) [i]) []

def isSingleton (group : String × List Nat) : Bool := group.2.length < 2 && group.1 ≠ other

def detectNamespaces (tools : List ToolDefinition) : List (String × List Nat) :=
  let groups := grouper.prefixGroups tools
  let singletons := ((hashed.order groups).filter isSingleton).map (·.1)
  singletons.foldl (pour other) groups

def generateSummary (ns : String) (toolCount : Nat) (tools : List ToolDefinition)
    (indices : List Nat) : String :=
  let description := match Assoc.get grouper.configuredMappings ns with
    | some metadata => metadata.description
    | none =>
      "Tools: " ++ ", ".intercalate ((indices.take 3).filterMap fun i => (tools[i]?).map (·.name))
  "namespace: " ++ ns ++ " (" ++ String.ofList (Json.digits toolCount) ++ " tools) - " ++ description

end NamespaceGrouper

def getToolsInNamespace : String := "get_tools_in_namespace"

def drillDownDescription : String :=
  "Retrieve all tools in a specific namespace. Returns tool names and descriptions. IMPORTANT: Call this at most ONCE per namespace per session - the disclosed schemas remain valid for the whole session, so cache and reuse them instead of calling this again for the same namespace."

def syntheticRaw (availableNamespaces : List String) : Json :=
  .object
    [("function", .object
        [("description", .string drillDownDescription),
          ("name", .string getToolsInNamespace),
          ("parameters", .object
            [("properties", .object
                [("namespace", .object
                    [("description", .string "The namespace to retrieve tools from."),
                      ("enum", .array (availableNamespaces.map .string)),
                      ("type", .string "string")])]),
              ("required", .array [.string "namespace"]),
              ("type", .string "object")])]),
      ("type", .string "function")]

def summaryRaw (name summary : String) : Json :=
  .object
    [("function", .object [("description", .string summary), ("name", .string name)]),
      ("type", .string "function")]

def nsPrefix : String := "ns_"

namespace NamespaceGrouper
variable (grouper : NamespaceGrouper) (hashed : HashOrder) (encoder : Encoder)

def buildSyntheticTool (availableNamespaces : List String) : ToolDefinition :=
  let raw := syntheticRaw availableNamespaces
  { raw, name := getToolsInNamespace, contentHash := encoder.hash (encoder.toText raw) }

def summaryTool (tools : List ToolDefinition) (namespaces : List (String × List Nat)) (ns : String) :
    ToolDefinition :=
  let indices := bucket namespaces ns
  { raw := summaryRaw (nsPrefix ++ ns) (grouper.generateSummary ns indices.length tools indices)
    name := nsPrefix ++ ns
    contentHash := 0 }

def namespaceNames (namespaces : List (String × List Nat)) : List String :=
  (Assoc.keys namespaces).insertionSort (· ≤ ·)

/-- The stage leaves the tools alone if they are few. -/
def apply (tools : List ToolDefinition) (ctx : CompressionContext) :
    List ToolDefinition × CompressionContext × Nat :=
  let namespaces := grouper.detectNamespaces hashed tools
  if tools.length ≤ grouper.minToolsForGrouping || namespaces.isEmpty then (tools, ctx, 0)
  else
    let names := namespaceNames namespaces
    let summaryTools := names.map (grouper.summaryTool tools namespaces) ++
      [buildSyntheticTool encoder names]
    let originalTokens := (tools.map fun t => encoder.estimateTokens t.raw).sum
    let newTokens := (summaryTools.map fun t => encoder.estimateTokens t.raw).sum
    let tokensSaved := originalTokens - newTokens
    (summaryTools, ctx.book "namespace_grouper" tokensSaved, tokensSaved)

end NamespaceGrouper

/-- The same as the grouper's `extract_prefix`. -/
def namespaceOf (name : String) : Option String := extractPrefix name

def belongsTo (ns : String) (tool : ToolDefinition) : Bool :=
  match namespaceOf tool.name with
  | some p => p = ns
  | none => ns = other

def toolsInNamespace (ns : String) (originalTools : List ToolDefinition) : List Json :=
  (originalTools.filter (belongsTo ns)).map (·.raw)

def getToolSchema : String := "get_tool_schema"

/-- The text of the message for a tool that is not there is left to the caller, who drops it. -/
def resolveGetToolSchema (toolName : String) (originalTools : List ToolDefinition) : Option Json :=
  (originalTools.find? (·.name = toolName)).map (·.raw)

/-- The value whose text is the result of the call; `arguments` are parsed, unless they are malformed. -/
def resolveSyntheticToolCall (name : String) (arguments : Option Json)
    (originalTools : List ToolDefinition) : Option Json :=
  if name = getToolSchema then do
    let toolName ← ((← arguments).get "tool_name").bind Json.asStr
    resolveGetToolSchema toolName originalTools
  else if name = getToolsInNamespace then do
    let ns ← ((← arguments).get "namespace").bind Json.asStr
    return .array (toolsInNamespace ns originalTools)
  else if nsPrefix.toList.isPrefixOf name.toList then
    some (.array (toolsInNamespace (String.ofList (name.toList.drop nsPrefix.length)) originalTools))
  else none

section
variable (grouper : NamespaceGrouper) (hashed : HashOrder) (tools : List ToolDefinition)

def groupAt (i : Nat) : String := ((tools[i]?).map fun t => grouper.groupOf t.name).getD other

def groupSize (ns : String) : Nat := (tools.filter fun t => grouper.groupOf t.name = ns).length

/-- The namespace in which the grouper leaves a tool: a group of one tool is folded into `other`. -/
def homeOf (name : String) : String :=
  if groupSize grouper tools (grouper.groupOf name) < 2 then other else grouper.groupOf name

def homeAt (i : Nat) : String := ((tools[i]?).map fun t => homeOf grouper tools t.name).getD other

variable {tools}

theorem groupAt_eq {i : Nat} {t : ToolDefinition} (ht : tools[i]? = some t) :
    groupAt grouper tools i = grouper.groupOf t.name := by
  rw [groupAt, ht]
  rfl

theorem homeAt_eq {i : Nat} {t : ToolDefinition} (ht : tools[i]? = some t) :
    homeAt grouper tools i = homeOf grouper tools t.name := by
  rw [homeAt, ht]
  rfl

theorem sorts_prefixGroups : Sorts (grouper.prefixGroups tools) (List.range tools.length) (groupAt grouper tools) :=
  sorts_groupPositions fun _ _ ht => groupAt_eq grouper ht

theorem length_bucket (ns : String) : (bucket (grouper.prefixGroups tools) ns).length = groupSize grouper tools ns := by
  rw [((sorts_prefixGroups grouper).bucket ns).length_eq, groupSize, length_positions]
  intro i t ht
  rw [groupAt_eq grouper ht, decide_eq_true_iff]

theorem mem_singletons {ns : String} : ns ∈ ((hashed.order (grouper.prefixGroups tools)).filter
      NamespaceGrouper.isSingleton).map (·.1) ↔
    ns ∈ Assoc.keys (grouper.prefixGroups tools) ∧ groupSize grouper tools ns < 2 ∧ ns ≠ other := by
  have hentry : ∀ e ∈ grouper.prefixGroups tools, e.2.length = groupSize grouper tools e.1 := by
    intro e he
    rw [← length_bucket, bucket, (Assoc.mem_iff_get (sorts_prefixGroups grouper).nodup).1 he]
    rfl
  simp only [List.mem_map, List.mem_filter, (hashed.perm _).mem_iff, NamespaceGrouper.isSingleton,
    Bool.and_eq_true, decide_eq_true_iff]
  constructor
  · rintro ⟨e, ⟨he, hsize, hne⟩, rfl⟩
    refine ⟨List.mem_map_of_mem he, ?_, hne⟩
    rwa [← hentry e he]
  · rintro ⟨hkey, hsize, hne⟩
    obtain ⟨e, he, rfl⟩ := List.mem_map.1 hkey
    refine ⟨e, ⟨he, ?_, hne⟩, rfl⟩
    rwa [hentry e he]

theorem sorts_detectNamespaces : Sorts (grouper.detectNamespaces hashed tools) (List.range tools.length)
    (homeAt grouper tools) := by
  have hsorts : Sorts (grouper.prefixGroups tools) _ _ := sorts_prefixGroups grouper
  have hother : other ∉ ((hashed.order (grouper.prefixGroups tools)).filter
      NamespaceGrouper.isSingleton).map (·.1) := fun hother =>
    ((mem_singletons grouper hashed).1 hother).2.2 rfl
  refine (hsorts.foldl_pour hother).congr fun i hi => ?_
  obtain ⟨t, ht⟩ : ∃ t, tools[i]? = some t := ⟨_, List.getElem?_eq_getElem (List.mem_range.1 hi)⟩
  have hkey : grouper.groupOf t.name ∈ Assoc.keys (grouper.prefixGroups tools) :=
    hsorts.mem_keys.2 ⟨i, hi, groupAt_eq grouper ht⟩
  rw [groupAt_eq grouper ht, homeAt_eq grouper ht, homeOf]
  simp only [mem_singletons, hkey, true_and]
  by_cases hsize : groupSize grouper tools (grouper.groupOf t.name) < 2
  · by_cases hname : grouper.groupOf t.name = other
    · rw [if_pos hsize, hname, ite_self]
    · rw [if_pos ⟨hsize, hname⟩, if_pos hsize]
  · rw [if_neg fun h => hsize h.1, if_neg hsize]

end

/-! ### Advertising and resolving -/

section
variable (grouper : NamespaceGrouper) (hashed : HashOrder) (encoder : Encoder)
  (ctx : CompressionContext) {tools : List ToolDefinition}

def Advertises (tools : List ToolDefinition) (ns : String) : Prop :=
  (∃ t ∈ tools, t.name = nsPrefix ++ ns) ∧
    ∃ t ∈ tools, t.name = getToolsInNamespace ∧ ∃ choices,
      t.raw.pointer ["function", "parameters", "properties", "namespace", "enum"] = some (.array choices) ∧
      .string ns ∈ choices

def placedIn (tools : List ToolDefinition) (ns : String) : List ToolDefinition :=
  (bucket (grouper.detectNamespaces hashed tools) ns).filterMap (tools[·]?)

/-- If the stage is active, each namespace that it advertises resolves to the tools placed in it, and each
tool comes with exactly one of them. -/
def DrillDownAgrees (tools : List ToolDefinition) (ctx : CompressionContext) : Prop :=
  grouper.minToolsForGrouping < tools.length →
    (∀ ns, Advertises (grouper.apply hashed encoder tools ctx).1 ns →
      (toolsInNamespace ns tools).Perm ((placedIn grouper hashed tools ns).map (·.raw))) ∧
    ∀ t ∈ tools, ∃! ns, Advertises (grouper.apply hashed encoder tools ctx).1 ns ∧
      t.raw ∈ toolsInNamespace ns tools

variable {ns : String}

theorem mem_keys_detect : ns ∈ Assoc.keys (grouper.detectNamespaces hashed tools) ↔
    ∃ t ∈ tools, homeOf grouper tools t.name = ns := by
  rw [(sorts_detectNamespaces grouper hashed).mem_keys]
  constructor
  · rintro ⟨i, hi, rfl⟩
    have ht := List.getElem?_eq_getElem (List.mem_range.1 hi)
    exact ⟨_, List.mem_of_getElem? ht, (homeAt_eq grouper ht).symm⟩
  · rintro ⟨t, ht, rfl⟩
    obtain ⟨i, hi⟩ := List.mem_iff_getElem?.1 ht
    exact ⟨i, List.mem_range.2 (List.getElem?_eq_some_iff.1 hi).1, homeAt_eq grouper hi⟩

theorem placedIn_perm (ns : String) : (placedIn grouper hashed tools ns).Perm
    (tools.filter fun t => homeOf grouper tools t.name = ns) := by
  have hsorts : Sorts (grouper.detectNamespaces hashed tools) _ _ := sorts_detectNamespaces grouper hashed
  have hperm := (hsorts.bucket ns).filterMap (tools[·]?)
  rw [filterMap_positions] at hperm
  · exact hperm
  · intro i t ht
    rw [homeAt_eq grouper ht, decide_eq_true_iff]

theorem apply_active (hactive : grouper.minToolsForGrouping < tools.length) : (grouper.apply hashed encoder tools ctx).1 =
      (NamespaceGrouper.namespaceNames (grouper.detectNamespaces hashed tools)).map
        (grouper.summaryTool tools (grouper.detectNamespaces hashed tools)) ++
      [NamespaceGrouper.buildSyntheticTool encoder
        (NamespaceGrouper.namespaceNames (grouper.detectNamespaces hashed tools))] := by
  obtain ⟨t, ht⟩ := List.exists_mem_of_length_pos (Nat.zero_lt_of_lt hactive)
  have hkey := (mem_keys_detect grouper hashed).2 ⟨t, ht, rfl⟩
  have hne : (grouper.detectNamespaces hashed tools).isEmpty = false := by
    rw [List.isEmpty_eq_false_iff]
    intro hnil
    rw [hnil] at hkey
    cases hkey
  rw [NamespaceGrouper.apply, if_neg (by simp [hne, hactive])]

theorem nsPrefix_append_ne (ns : String) {name : String} (hname : name.toList.head? ≠ some 'n') :
    nsPrefix ++ ns ≠ name := by
  rintro rfl
  rw [String.toList_append] at hname
  exact hname rfl

theorem mem_namespaceNames {namespaces : List (String × List Nat)} :
    ns ∈ NamespaceGrouper.namespaceNames namespaces ↔ ns ∈ Assoc.keys namespaces :=
  List.mem_insertionSort _

theorem pointer_syntheticRaw (names : List String) :
    (syntheticRaw names).pointer ["function", "parameters", "properties", "namespace", "enum"] =
      some (.array (names.map .string)) := rfl

theorem advertises_iff (hactive : grouper.minToolsForGrouping < tools.length) :
    Advertises (grouper.apply hashed encoder tools ctx).1 ns ↔
      ns ∈ Assoc.keys (grouper.detectNamespaces hashed tools) := by
  rw [apply_active grouper hashed encoder ctx hactive, ← mem_namespaceNames]
  generalize NamespaceGrouper.namespaceNames (grouper.detectNamespaces hashed tools) = names
  constructor
  · rintro ⟨-, t, ht, hname, choices, hchoices, hns⟩
    rcases List.mem_append.1 ht with ht | ht
    · obtain ⟨x, -, rfl⟩ := List.mem_map.1 ht
      exact absurd hname (nsPrefix_append_ne x (by decide))
    · rw [List.mem_singleton] at ht
      subst ht
      have hsame := hchoices.symm.trans (pointer_syntheticRaw names)
      cases hsame
      obtain ⟨x, hx, hxns⟩ := List.mem_map.1 hns
      cases hxns
      exact hx
  · intro hns
    refine ⟨⟨_, List.mem_append_left _ (List.mem_map_of_mem hns), rfl⟩, ?_⟩
    exact ⟨_, List.mem_append_right _ (List.mem_singleton_self _), rfl, _, pointer_syntheticRaw names,
      List.mem_map_of_mem hns⟩

def resolvedNamespace (name : String) : String := (namespaceOf name).getD other

theorem belongsTo_iff {t : ToolDefinition} : belongsTo ns t = true ↔ resolvedNamespace t.name = ns := by
  rw [belongsTo, resolvedNamespace]
  cases namespaceOf t.name with
  | none =>
    rw [decide_eq_true_iff, Option.getD_none]
    exact eq_comm
  | some p => rw [decide_eq_true_iff, Option.getD_some]

theorem mem_toolsInNamespace (hnamed : ∀ t ∈ tools, t.Named) {t : ToolDefinition}
    (ht : t ∈ tools) : t.raw ∈ toolsInNamespace ns tools ↔ resolvedNamespace t.name = ns := by
  constructor
  · intro hraw
    obtain ⟨t', ht', hsame⟩ := List.mem_map.1 hraw
    rw [List.mem_filter, belongsTo_iff] at ht'
    have hname : t'.name = t.name := by rw [hnamed t' ht'.1, hnamed t ht, hsame]
    rw [← hname]
    exact ht'.2
  · intro hns
    exact List.mem_map_of_mem (List.mem_filter.2 ⟨ht, belongsTo_iff.2 hns⟩)

/-- Advertisement and drill-down agree exactly if the two sides do on the namespace of every tool. -/
theorem drill_down_agrees_iff (hnamed : ∀ t ∈ tools, t.Named) : DrillDownAgrees grouper hashed encoder tools ctx ↔
      (grouper.minToolsForGrouping < tools.length →
        ∀ t ∈ tools, homeOf grouper tools t.name = resolvedNamespace t.name) := by
  refine forall_congr' fun hactive => ?_
  constructor
  · rintro ⟨hplaced, -⟩ t ht
    have hadv := (advertises_iff grouper hashed encoder ctx hactive).2
      ((mem_keys_detect grouper hashed).2 ⟨t, ht, rfl⟩)
    have hmem : t.raw ∈ (placedIn grouper hashed tools (homeOf grouper tools t.name)).map (·.raw) := by
      refine List.mem_map_of_mem ((placedIn_perm grouper hashed _).mem_iff.2 ?_)
      exact List.mem_filter.2 ⟨ht, decide_eq_true rfl⟩
    exact ((mem_toolsInNamespace hnamed ht).1 ((hplaced _ hadv).mem_iff.2 hmem)).symm
  · intro hagree
    constructor
    · intro ns _
      have hfilter : tools.filter (belongsTo ns) =
          tools.filter fun t => homeOf grouper tools t.name = ns := by
        refine List.filter_congr fun t ht => ?_
        rw [Bool.eq_iff_iff, belongsTo_iff, decide_eq_true_iff, hagree t ht]
      rw [toolsInNamespace, hfilter]
      exact ((placedIn_perm grouper hashed ns).map _).symm
    · intro t ht
      refine ⟨homeOf grouper tools t.name, ⟨?_, ?_⟩, ?_⟩
      · rw [advertises_iff grouper hashed encoder ctx hactive]
        exact (mem_keys_detect grouper hashed).2 ⟨t, ht, rfl⟩
      · rw [mem_toolsInNamespace hnamed ht, hagree t ht]
      · rintro ns ⟨-, hns⟩
        rw [mem_toolsInNamespace hnamed ht] at hns
        rw [hagree t ht, hns]

end

def bareTool (name : String) : ToolDefinition :=
  ⟨.object [("function", .object [("name", .string name)])], name, 0⟩

theorem bareTool_named {names : List String} : ∀ t ∈ names.map bareTool, t.Named := by
  intro t ht
  obtain ⟨name, -, rfl⟩ := List.mem_map.1 ht
  rfl

def plainGrouper : NamespaceGrouper := ⟨[], 1⟩

def plainContext : CompressionContext := ⟨.medium, ⟨false, false⟩, 0, []⟩

def plainEncoder : Encoder := ⟨Json.wireNumbers, fun _ => 0⟩

def repoTools : List ToolDefinition := ["github_list", "github_create"].map bareTool

theorem repoTools_agree : (∀ t ∈ repoTools, t.Named) ∧
    DrillDownAgrees plainGrouper HashOrder.insertion plainEncoder repoTools plainContext := by
  refine ⟨bareTool_named, (drill_down_agrees_iff plainGrouper HashOrder.insertion plainEncoder plainContext
    bareTool_named).2 fun _ => ?_⟩
  decide +kernel

/-- `slack_send` is alone in its namespace. -/
def mixedTools : List ToolDefinition := ["github_list", "github_create", "slack_send"].map bareTool

/-- The tool is advertised under `other`, which resolves to nothing. -/
theorem lone_tool_unreachable : (mixedTools.map (·.name)).Nodup ∧ (∀ t ∈ mixedTools, t.Named) ∧
    Advertises (plainGrouper.apply HashOrder.insertion plainEncoder mixedTools plainContext).1 other ∧
    placedIn plainGrouper HashOrder.insertion mixedTools other = [bareTool "slack_send"] ∧
    toolsInNamespace other mixedTools = [] ∧
    ¬ DrillDownAgrees plainGrouper HashOrder.insertion plainEncoder mixedTools plainContext := by
  have hadv : Advertises (plainGrouper.apply HashOrder.insertion plainEncoder mixedTools plainContext).1
      other := by
    rw [advertises_iff plainGrouper HashOrder.insertion plainEncoder plainContext (by decide)]
    decide +kernel
  have hplaced : placedIn plainGrouper HashOrder.insertion mixedTools other = [bareTool "slack_send"] := by
    decide +kernel
  have hnone : toolsInNamespace other mixedTools = [] := by decide +kernel
  refine ⟨by decide +kernel, bareTool_named, hadv, hplaced, hnone, fun hagrees => ?_⟩
  have hperm := (hagrees (by decide)).1 other hadv
  rw [hplaced, hnone] at hperm
  cases hperm.length_eq

end ObeyGateway.ToolCompression
