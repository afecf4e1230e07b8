import ObeyGateway.Router.XmlBlocks

/-!
# Every block its call

The arguments of a call are printed from the parameters of its block, with the renames of `normalize_tool_arguments`
(`documentedCall`). A text is recovered exactly when its blocks come out one by one (`run_blocks`) and each of them
as documented.
-/

namespace ObeyGateway.Xml
open Text Search

variable {serde : XmlSerde} {name : String} {text : List Char} {calls : List XmlCall} {doc : List Piece}

/-- The renames that `normalize_tool_arguments` documents for scalar values. -/
def documentedFields (tool : String) (fields : Json.Map) : Json.Map :=
  if tool = "read_file" then (renameField "file_path" "path" (fields, false)).1
  else if tool = "list_files" then (renameField "directory" "path" (fields, false)).1
  else if tool = "search_files" then (renameField "search_term" "regex" (fields, false)).1
  else if tool = "execute_command" then (renameField "cmd" "command" (fields, false)).1
  else fields

/-- The `files` of a `read_file` are dropped with the rename of `file_path`. -/
def DropsFiles (b : Block) : Prop :=
  b.tool = "read_file" ∧ "files" ∈ b.params.map (·.1) ∧ "file_path" ∈ b.params.map (·.1) ∧
    "path" ∉ b.params.map (·.1)

instance (b : Block) : Decidable (DropsFiles b) :=
  inferInstanceAs (Decidable (_ ∧ _ ∧ _ ∧ _))

def normalizedFields (tool : String) (fields : Json.Map) : Json.Map :=
  if (normalizeFields tool fields).2 = true then (normalizeFields tool fields).1 else fields

theorem normalizeToolArguments_eq (hserde : JsonText serde) {fields : Json.Map} (h : Flat fields) :
    normalizeToolArguments serde name.toList (serde.toStr (.object fields)) =
      serde.toStr (.object (normalizedFields name fields)) := by
  simp only [normalizeToolArguments, hserde.printed fields h, String.ofList_toList, normalizedFields]
  split <;> rfl

theorem renameField_eq (old new : String) (fields : Json.Map) :
    (if (renameField old new (fields, false)).2 = true then (renameField old new (fields, false)).1 else fields) =
      (renameField old new (fields, false)).1 := by
  unfold renameField
  split <;> rfl

theorem normalizedFields_eq {tool : String} (h : tool ≠ "read_file") (fields : Json.Map) :
    normalizedFields tool fields = documentedFields tool fields := by
  unfold normalizedFields normalizeFields documentedFields
  simp only [if_neg h]
  by_cases hlist : tool = "list_files"
  · simp only [if_pos hlist]
    exact renameField_eq ..
  simp only [if_neg hlist]
  by_cases hsearch : tool = "search_files"
  · simp only [if_pos hsearch]
    exact renameField_eq ..
  simp only [if_neg hsearch]
  by_cases hcommand : tool = "execute_command"
  · simp only [if_pos hcommand]
    exact renameField_eq ..
  · simp only [if_neg hcommand, Bool.false_eq_true, if_false]

theorem normalizedFields_readFile {fields : Json.Map} (hscalar : (Assoc.get fields "files").bind Json.asArray = none) :
    normalizedFields "read_file" fields = documentedFields "read_file" fields ↔
      ¬ ("files" ∈ Assoc.keys fields ∧ "file_path" ∈ Assoc.keys fields ∧ "path" ∉ Assoc.keys fields) := by
  have hnormalize : normalizeFields "read_file" fields =
      renameField "file_path" "path" (Assoc.erase fields "files", false) := by
    simp only [normalizeFields, if_true, joinFiles, hscalar]
  have hpath : Assoc.get (Assoc.erase fields "files") "path" = Assoc.get fields "path" :=
    Assoc.get_erase_of_ne (by decide)
  have hfilePath : Assoc.get (Assoc.erase fields "files") "file_path" = Assoc.get fields "file_path" :=
    Assoc.get_erase_of_ne (by decide)
  simp only [← Assoc.get_isSome, normalizedFields, hnormalize, documentedFields, if_true, renameField, hpath, hfilePath]
  cases hp : Assoc.get fields "path" with
  | some value => simp
  | none =>
    rcases hf : Assoc.get fields "file_path" with _ | value
    · simp
    simp only [if_true, Option.isSome_some, Option.isSome_none, Bool.false_eq_true, not_false_eq_true, and_true,
      Bool.not_eq_true, Option.isSome_eq_false_iff, Option.isNone_iff_eq_none]
    constructor
    · intro heq
      have hget := congrArg (Assoc.get · "files") heq
      simp only [Assoc.get_insert_of_ne (show "files" ≠ "path" by decide),
        Assoc.get_erase_of_ne (show "files" ≠ "file_path" by decide), Assoc.get_erase_self] at hget
      exact hget.symm
    · intro hnone
      rw [Assoc.erase_eq_self hnone]

/-! ### Printed arguments -/

namespace Flat
variable {fields : Json.Map}

theorem erase (h : Flat fields) (k : String) : Flat (Assoc.erase fields k) :=
  ⟨h.ascending.sublist (List.filter_sublist.map _), fun e he => h.scalar e (List.mem_of_mem_filter he)⟩

theorem insert (h : Flat fields) (k : String) {value : Json} (hvalue : isScalar value) :
    Flat (Assoc.insert fields k value) := by
  refine ⟨Assoc.ascending_insert h.ascending, fun e he => ?_⟩
  rcases Assoc.mem_insert he with rfl | he
  · exact hvalue
  · exact h.scalar e he

theorem renameField (old new : String) {args : Json.Map × Bool} (h : Flat args.1) :
    Flat (Xml.renameField old new args).1 := by
  unfold Xml.renameField
  split
  · rename_i hold
    exact (h.erase old).insert new (h.scalar _ (Assoc.mem_of_get hold))
  · exact h

theorem joinFiles (h : Flat fields) : Flat (Xml.joinFiles fields).1 := by
  unfold Xml.joinFiles
  split
  · exact h.erase _
  · dsimp only
    split
    · exact h.erase _
    · exact (h.erase _).insert _ trivial

theorem normalizedFields (h : Flat fields) (tool : String) : Flat (Xml.normalizedFields tool fields) := by
  have hnormalize : Flat (normalizeFields tool fields).1 := by
    unfold normalizeFields
    split_ifs
    · exact h.joinFiles.renameField _ _
    · exact Flat.renameField _ _ h
    · exact Flat.renameField _ _ h
    · exact Flat.renameField _ _ h
    · exact h
  unfold Xml.normalizedFields
  split
  · exact hnormalize
  · exact h

theorem documentedFields (h : Flat fields) (tool : String) : Flat (Xml.documentedFields tool fields) := by
  unfold Xml.documentedFields
  split_ifs
  · exact Flat.renameField _ _ h
  · exact Flat.renameField _ _ h
  · exact Flat.renameField _ _ h
  · exact Flat.renameField _ _ h
  · exact h

end Flat

theorem flat_fieldsOf {params : List (String × String)} {fields : Json.Map} (h : Flat fields) :
    Flat (fieldsOf params fields) := by
  induction params generalizing fields with
  | nil => exact h
  | cons p params ih =>
    have hvalue : isScalar (xmlValue p.2.toList) := by
      unfold xmlValue nullOrString
      split_ifs <;> trivial
    exact ih (h.insert p.1 hvalue)

theorem flat_nil : Flat [] := ⟨List.Pairwise.nil, fun _ he => absurd he List.not_mem_nil⟩

theorem mem_keys_fieldsOf {params : List (String × String)} {k : String} :
    k ∈ Assoc.keys (fieldsOf params []) ↔ k ∈ params.map (·.1) := by
  rw [List.mem_map, fieldsOf,
    Assoc.mem_keys_foldl_upsert (fun p : String × String => p.1) (fun _ p => xmlValue p.2.toList) params]
  simp [Assoc.keys]

theorem get_fieldsOf_asArray (params : List (String × String)) (k : String) :
    (Assoc.get (fieldsOf params []) k).bind Json.asArray = none := by
  rcases hget : Assoc.get (fieldsOf params []) k with _ | value
  · rfl
  have hscalar : isScalar value := (flat_fieldsOf flat_nil).scalar _ (Assoc.mem_of_get hget)
  cases value with
  | array items => exact hscalar.elim
  | _ => rfl

theorem JsonText.toStr_inj (hserde : JsonText serde) {fields fields' : Json.Map}
    (h : Flat fields) (h' : Flat fields') (heq : serde.toStr (.object fields) = serde.toStr (.object fields')) : fields = fields' := by
  have hread := hserde.printed fields h
  rw [heq, hserde.printed fields' h'] at hread
  cases hread
  rfl

def documentedCall (serde : XmlSerde) (b : Block) : XmlCall :=
  ⟨b.tool.toList, serde.toStr (.object (documentedFields b.tool (fieldsOf b.params [])))⟩

theorem blockCall_eq (hserde : JsonText serde) {b : Block} (hb : b.WellFormed) (hne : b.params ≠ []) : blockCall serde b =
      some ⟨b.tool.toList, serde.toStr (.object (normalizedFields b.tool (fieldsOf b.params [])))⟩ := by
  have hlength : b.params.length ≤ (bodyText b.params).length := length_le_flatMap fun p _ => List.cons_ne_nil _ _
  have hparse : parseInnerXmlToJson serde (bodyText b.params) = serde.toStr (.object (fieldsOf b.params [])) := by
    rw [parseInnerXmlToJson, (bodyText_markup hne).trim_eq,
      innerXmlFields_bodyText (fun p hp => hb.param hp) hb.values hb.distinct (Nat.lt_succ_of_le hlength)]
  rw [blockCall, if_neg hne, callOf, hparse, normalizeToolArguments_eq hserde (flat_fieldsOf flat_nil)]

theorem blockCall_eq_documentedCall_iff (hserde : JsonText serde) {b : Block} (hb : b.WellFormed) :
    blockCall serde b = some (documentedCall serde b) ↔ b.params ≠ [] ∧ ¬ DropsFiles b := by
  by_cases hne : b.params = []
  · simp [blockCall, hne]
  · have hfields : blockCall serde b = some (documentedCall serde b) ↔
        normalizedFields b.tool (fieldsOf b.params []) = documentedFields b.tool (fieldsOf b.params []) := by
      rw [blockCall_eq hserde hb hne, documentedCall]
      constructor
      · intro heq
        refine hserde.toStr_inj ((flat_fieldsOf flat_nil).normalizedFields _)
          ((flat_fieldsOf flat_nil).documentedFields _) ?_
        exact (XmlCall.mk.inj (Option.some.inj heq)).2
      · intro heq
        rw [heq]
    rw [hfields, DropsFiles]
    by_cases htool : b.tool = "read_file"
    · rw [htool, normalizedFields_readFile (get_fieldsOf_asArray _ _), mem_keys_fieldsOf, mem_keys_fieldsOf,
        mem_keys_fieldsOf]
      simp [hne]
    · simp [normalizedFields_eq htool, htool, hne]

/-! ### Every block its call -/

theorem toolNames_nodup (tools : Option Json) : (toolNames tools).Nodup := by
  have hfold : ∀ (more known : List String), known.Nodup →
      (more.foldl (fun names name => if name ∈ names then names else names ++ [name]) known).Nodup := by
    intro more
    induction more with
    | nil => exact fun _ hknown => hknown
    | cons name more ih =>
      intro known hknown
      rw [List.foldl_cons]
      split
      · exact ih known hknown
      · rename_i hnot
        refine ih _ (List.nodup_append.2 ⟨hknown, List.nodup_singleton name, ?_⟩)
        intro a ha b hb hab
        rw [List.mem_singleton] at hb
        exact hnot (hb ▸ hab ▸ ha)
  exact hfold _ knownToolNames (by decide)

structure WellFormed (names : List String) (doc : List Piece) : Prop where
  pieces : ∀ p ∈ doc, p.WellFormed
  tools : ∀ b ∈ blocks doc, b.tool ∈ names

def Recovered (serde : XmlSerde) (tools : Option Json) (message : TurnMessage) (doc : List Piece) : Prop :=
  ∃ result flag, translateXmlToolCalls serde tools message = some (result, flag) ∧
    result.toolCalls.getD [] = (blocks doc).map (documentedCall serde) ∧ result.content = trim (proseText doc)

/-- Each tool is called once, in the order of the passes, with parameters; a text without a block stays as it is. -/
structure Separate (names : List String) (message : TurnMessage) (doc : List Piece) : Prop where
  inOrder : ((blocks doc).map (·.tool)).Sublist names
  params : ∀ b ∈ blocks doc, b.params ≠ []
  files : ∀ b ∈ blocks doc, ¬ DropsFiles b
  bare : blocks doc = [] → message.content = trim (proseText doc)

theorem eq_some_of_filterMap_eq_map {α β : Type*} {f : α → Option β} {g : α → β} {xs : List α}
    (h : xs.filterMap f = xs.map g) : ∀ x ∈ xs, f x = some (g x) := by
  induction xs with
  | nil => simp
  | cons x xs ih =>
    rcases hx : f x with _ | y
    · rw [List.filterMap_cons_none hx] at h
      have hlength := congrArg List.length h
      have hle := List.length_filterMap_le f xs
      simp at hlength
      omega
    rw [List.filterMap_cons_some hx, List.map_cons] at h
    obtain ⟨rfl, h'⟩ := List.cons.inj h
    exact List.forall_mem_cons.2 ⟨hx, ih h'⟩

theorem notMem_proseText (hdoc : ∀ p ∈ doc, p.WellFormed) : '<' ∉ proseText doc := by
  intro hmem
  obtain ⟨p, hp, hc⟩ := List.mem_flatMap.1 hmem
  cases p with
  | prose s => exact hdoc _ hp hc
  | block b => cases hc

theorem blocks_eq_nil_of_docText (h : docText doc = []) : blocks doc = [] := by
  refine List.eq_nil_iff_forall_not_mem.2 fun b hb => ?_
  have hb := List.flatMap_eq_nil_iff.1 h _ (mem_blocks.1 hb)
  simp [Piece.text, Block.text, openTag] at hb

section
variable {tools : Option Json} {message : TurnMessage} (hserde : JsonText serde) (hnone : message.toolCalls = none)
  (htext : combinedText message = docText doc) (hdoc : WellFormed (toolNames tools) doc)
  (hclear : Clear (toolNames tools) doc)
include hserde hnone htext hdoc hclear

theorem Recovered.inOrder (h : Recovered serde tools message doc) :
    ((blocks doc).map (·.tool)).Sublist (toolNames tools) := by
  obtain ⟨result, flag, hresult, hcalls, -⟩ := h
  by_cases hnil : blocks doc = []
  · rw [hnil]
    exact List.nil_sublist _
  · have hne : combinedText message ≠ [] := fun h => hnil (blocks_eq_nil_of_docText (htext ▸ h))
    obtain ⟨doc', more, hrun, hblocks, hwf, hnames⟩ := run_names hserde hdoc.pieces hdoc.tools hclear []
    obtain ⟨result', flag', hresult', hcalls', -⟩ := translateXmlToolCalls_eq hnone
      (htext ▸ extractAll_docText hdoc.pieces hclear hrun (notMem_docText hwf hblocks)) fun h => absurd h hne
    obtain ⟨rfl, rfl⟩ : result = result' ∧ flag = flag' := by simpa [hresult] using hresult'
    have hmore : more = (blocks doc).map (documentedCall serde) := hcalls'.symm.trans hcalls
    rw [hmore, List.map_map] at hnames
    simpa [Function.comp_def, documentedCall] using hnames.map String.ofList

theorem translate_inOrder (horder : ((blocks doc).map (·.tool)).Sublist (toolNames tools)) :
    ∃ result flag, translateXmlToolCalls serde tools message = some (result, flag) ∧
      result.toolCalls.getD [] = (blocks doc).filterMap (blockCall serde) ∧
      result.content = if (blocks doc).filterMap (blockCall serde) = [] then message.content else trim (proseText doc) := by
  have hrun := run_blocks hserde (toolNames_nodup tools) hdoc.pieces hclear horder []
  refine translateXmlToolCalls_eq hnone (htext ▸ extractAll_docText hdoc.pieces hclear hrun (notMem_proseText hdoc.pieces)) ?_
  intro hnil
  simp [blocks_eq_nil_of_docText (htext ▸ hnil)]

/-- A text of prose and blocks that no other pass opens at is translated block by block exactly when the tools of its
blocks come once each and in the order of the passes, every block has a parameter, and no `read_file` loses its
`files`. -/
theorem xml_blocks_law : Recovered serde tools message doc ↔ Separate (toolNames tools) message doc := by
  constructor
  · intro h
    have horder := h.inOrder hserde hnone htext hdoc hclear
    obtain ⟨result, flag, hresult, hcalls, hcontent⟩ := h
    obtain ⟨result', flag', hresult', hcalls', hcontent'⟩ := translate_inOrder hserde hnone htext hdoc hclear horder
    obtain ⟨rfl, rfl⟩ : result = result' ∧ flag = flag' := by simpa [hresult] using hresult'
    have hblocks : ∀ b ∈ blocks doc, b.params ≠ [] ∧ ¬ DropsFiles b := by
      intro b hb
      refine (blockCall_eq_documentedCall_iff hserde (hdoc.pieces _ (mem_blocks.1 hb))).1 ?_
      exact eq_some_of_filterMap_eq_map (hcalls'.symm.trans hcalls) b hb
    refine ⟨horder, fun b hb => (hblocks b hb).1, fun b hb => (hblocks b hb).2, fun hnil => ?_⟩
    rw [← hcontent, hcontent', if_pos (by simp [hnil])]
  · intro hsep
    obtain ⟨result, flag, hresult, hcalls, hcontent⟩ := translate_inOrder hserde hnone htext hdoc hclear hsep.inOrder
    have hmap : (blocks doc).filterMap (blockCall serde) = (blocks doc).map (documentedCall serde) := by
      rw [← List.filterMap_eq_map]
      refine List.filterMap_congr fun b hb => ?_
      exact (blockCall_eq_documentedCall_iff hserde (hdoc.pieces _ (mem_blocks.1 hb))).2
        ⟨hsep.params b hb, hsep.files b hb⟩
    refine ⟨result, flag, hresult, hcalls.trans hmap, hcontent.trans ?_⟩
    rw [hmap]
    split
    · rename_i hnil
      exact hsep.bare (List.map_eq_nil_iff.1 hnil)
    · rfl

end

/-- `serde_json` on the texts that it prints. -/
noncomputable def printedSerde : XmlSerde where
  fromStr text := open Classical in
    if h : ∃ v, Json.print Json.wireNumbers v = text then some h.choose else none
  toStr := Json.print Json.wireNumbers

theorem print_ne_markup (v : Json) (text : List Char) : Json.print Json.wireNumbers v ≠ '<' :: text := by
  intro hv
  obtain ⟨c, t, hct, hkind⟩ := @Json.print_head Json.wireNumbers v
  obtain rfl : c = '<' := (List.cons.inj (hct.symm.trans hv)).1
  cases v with
  | number n =>
    have hprint : Json.wireNumbers.print n = '<' :: t := hct
    have hmem : '<' ∈ Json.numberChars := Json.wireNumbers.chars n '<' (hprint ▸ List.mem_cons_self)
    exact absurd hmem (by decide)
  | bool b => cases b <;> exact absurd hkind (by decide)
  | null => exact absurd hkind (by decide)
  | string s => exact absurd (hkind.trans rfl) (by decide : Json.kindOf '<' ≠ 3)
  | array items => exact absurd (hkind.trans rfl) (by decide : Json.kindOf '<' ≠ 4)
  | object fields => exact absurd (hkind.trans rfl) (by decide : Json.kindOf '<' ≠ 5)

theorem printedSerde_jsonText : JsonText printedSerde := by
  have hnone : ∀ text : List Char, (∀ v, Json.print Json.wireNumbers v ≠ text) → printedSerde.fromStr text = none :=
    fun text h => dif_neg fun ⟨v, hv⟩ => h v hv
  refine ⟨hnone [] fun v hv => ?_, fun text => hnone _ fun v => print_ne_markup v text, fun fields _ => ?_⟩
  · obtain ⟨c, t, hct, -⟩ := @Json.print_head Json.wireNumbers v
    exact List.cons_ne_nil _ _ (hct.symm.trans hv)
  · have hex : ∃ v, Json.print Json.wireNumbers v = printedSerde.toStr (.object fields) := ⟨_, rfl⟩
    exact (dif_pos hex).trans (congrArg some (Json.print_injective hex.choose_spec))

def turnOf (text : List Char) : TurnMessage := ⟨text, [], [], none, none⟩

def listAndRead : List Piece :=
  [.prose "First the tree. ", .block ⟨"list_files", [("directory", "src"), ("recursive", "true")]⟩, .prose " Then a file.",
    .block ⟨"read_file", [("path", "src/main.rs")]⟩]

theorem wellFormed_listAndRead : WellFormed (toolNames none) listAndRead := by
  refine ⟨by decide +kernel, fun b hb => ?_⟩
  rcases List.mem_cons.1 hb with rfl | hb
  · simp [toolNames, knownToolNames]
  · rw [List.mem_singleton.1 hb]
    simp [toolNames, knownToolNames]

theorem xml_blocks_law_ordered : Recovered printedSerde none (turnOf (docText listAndRead)) listAndRead :=
  (xml_blocks_law printedSerde_jsonText rfl (by decide +kernel) wellFormed_listAndRead (by decide +kernel)).2
    ⟨by decide +kernel, by decide +kernel, by decide +kernel, by decide +kernel⟩

def readTwice : List Piece :=
  [.block ⟨"read_file", [("path", "a.rs")]⟩, .block ⟨"read_file", [("path", "b.rs")]⟩]

theorem wellFormed_readTwice : WellFormed (toolNames none) readTwice := by
  refine ⟨by decide +kernel, fun b hb => ?_⟩
  rcases List.mem_cons.1 hb with rfl | hb
  · simp [toolNames, knownToolNames]
  · rw [List.mem_singleton.1 hb]
    simp [toolNames, knownToolNames]

/-- Two blocks of one tool are not recovered. -/
theorem xml_blocks_merged :
    WellFormed (toolNames none) readTwice ∧ ¬ Recovered printedSerde none (turnOf (docText readTwice)) readTwice := by
  refine ⟨wellFormed_readTwice, fun h => ?_⟩
  have horder := h.inOrder printedSerde_jsonText rfl (by decide +kernel) wellFormed_readTwice (by decide +kernel)
  exact absurd horder (by decide +kernel)

end ObeyGateway.Xml
