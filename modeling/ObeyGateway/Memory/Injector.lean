import ObeyGateway.Memory.Retrieval

/-!
# The block of recalled memories

`format_memories` and `strip_formatting` of `memory/injector.rs`. A content is written as it is between lines, so that the
block has one line for each memory, and can be read back, exactly when no content has a line feed; and a text of more than
one line that starts with a tag is taken for a tagged line (`format_law_iff`).
-/

namespace ObeyGateway.Memory

def recalledMemoriesHeader : List Char := "[Recalled memories]".toList

def recalledMemoriesFooter : List Char := "[End memories]".toList

def memoryTypeTag : MemoryType → String
  | .preference => "preference"
  | .fact => "fact"
  | .context => "context"
  | .decision => "decision"

def linePrefix (tag : String) : String := "- [" ++ tag ++ "] "

def formatMemoryLine (memory : ScoredMemory) : List Char :=
  (linePrefix (memoryTypeTag memory.entry.memoryType)).toList ++ memory.entry.content.toList

def formatMemories : List ScoredMemory → Option (List Char)
  | [] => none
  | memories =>
    let block := memories.foldl (fun block memory => block ++ '\n' :: formatMemoryLine memory) recalledMemoriesHeader
    some (block ++ '\n' :: recalledMemoriesFooter)

def stripTaggedLine (content : List Char) : Option (List Char) :=
  ["preference", "fact", "context", "decision"].findSome? fun tag => Text.stripPrefix (linePrefix tag) content

def stripFormatting (content : List Char) : List Char :=
  match stripTaggedLine content with
  | some stripped => stripped
  | none =>
    match content.splitOn '\n' with
    | [header, memoryLine, footer] =>
      if header = recalledMemoriesHeader ∧ footer = recalledMemoriesFooter then (stripTaggedLine memoryLine).getD content
      else content
    | _ => content

/-! ### Lines -/

theorem splitOn_joined {l : List Char} {ls : List (List Char)} (h : ∀ x ∈ l :: ls, '\n' ∉ x) :
    (l ++ ls.flatMap ('\n' :: ·)).splitOn '\n' = l :: ls := by
  induction ls generalizing l with
  | nil => simpa using List.splitOn_eq_singleton (h l (by simp))
  | cons x ls ih =>
    rw [List.flatMap_cons, List.cons_append, List.splitOn_append_cons_self_of_not_mem (h l (by simp)),
      ih fun y hy => h y (by simp [List.mem_cons.1 hy])]

theorem splitOn_eq_iff {text l : List Char} {ls : List (List Char)} :
    text.splitOn '\n' = l :: ls ↔ (∀ x ∈ l :: ls, '\n' ∉ x) ∧ text = l ++ ls.flatMap ('\n' :: ·) := by
  constructor
  · intro h
    obtain ⟨l', ls', hfree, rfl⟩ : ∃ l' ls', (∀ x ∈ l' :: ls', '\n' ∉ x) ∧ text = l' ++ ls'.flatMap ('\n' :: ·) := by
      clear h
      induction text with
      | nil => exact ⟨[], [], by simp, rfl⟩
      | cons c text ih =>
        obtain ⟨l', ls', hfree, rfl⟩ := ih
        by_cases hc : c = '\n'
        · subst hc
          exact ⟨[], l' :: ls', by simpa using hfree, rfl⟩
        · refine ⟨c :: l', ls', fun x hx => ?_, rfl⟩
          rcases List.mem_cons.1 hx with rfl | hx
          · rintro (_ | ⟨_, hmem⟩)
            · exact hc rfl
            · exact hfree l' (by simp) hmem
          · exact hfree x (by simp [hx])
    rw [splitOn_joined hfree] at h
    cases h
    exact ⟨hfree, rfl⟩
  · rintro ⟨hfree, rfl⟩
    exact splitOn_joined hfree

variable (m : ScoredMemory)

theorem formatMemories_eq (ms : List ScoredMemory) : formatMemories (m :: ms) =
    some (recalledMemoriesHeader ++ ((m :: ms).map formatMemoryLine ++ [recalledMemoriesFooter]).flatMap ('\n' :: ·)) := by
  have hfold (block : List Char) (l : List ScoredMemory) :
      l.foldl (fun block memory => block ++ '\n' :: formatMemoryLine memory) block =
        block ++ (l.map formatMemoryLine).flatMap ('\n' :: ·) := by
    induction l generalizing block with
    | nil => simp
    | cons m l ih => simp [ih]
  simp [formatMemories, hfold]

theorem stripTaggedLine_line (memory : ScoredMemory) :
    stripTaggedLine (formatMemoryLine memory) = some memory.entry.content.toList := by
  unfold stripTaggedLine formatMemoryLine
  cases memory.entry.memoryType <;> rfl

theorem stripTaggedLine_eq_some {text content : List Char} (h : stripTaggedLine text = some content) :
    ∃ t, text = (linePrefix (memoryTypeTag t)).toList ++ content := by
  have hof (t : MemoryType) (h : Text.stripPrefix (linePrefix (memoryTypeTag t)) text = some content) :
      text = (linePrefix (memoryTypeTag t)).toList ++ content := by
    unfold Text.stripPrefix at h
    split at h
    · rename_i hprefix
      obtain ⟨rest, rfl⟩ := hprefix
      rw [List.drop_left] at h
      cases h
      rfl
    · cases h
  obtain ⟨tag, hmem, h⟩ := List.exists_of_findSome?_eq_some h
  simp only [List.mem_cons, List.not_mem_nil, or_false] at hmem
  rcases hmem with rfl | rfl | rfl | rfl
  · exact ⟨.preference, hof .preference h⟩
  · exact ⟨.fact, hof .fact h⟩
  · exact ⟨.context, hof .context h⟩
  · exact ⟨.decision, hof .decision h⟩

theorem stripTaggedLine_eq_none {text : List Char} :
    stripTaggedLine text = none ↔ ∀ t, ¬ (linePrefix (memoryTypeTag t)).toList <+: text := by
  constructor
  · rintro h t ⟨rest, rfl⟩
    have hline := stripTaggedLine_line ⟨⟨0, "", String.ofList rest, t, 0, 0, 0, 0, none, none, none⟩, 0, 0⟩
    simp only [formatMemoryLine, String.toList_ofList] at hline
    rw [h] at hline
    cases hline
  · intro h
    rcases hs : stripTaggedLine text with _ | content
    · rfl
    · obtain ⟨t, rfl⟩ := stripTaggedLine_eq_some hs
      exact absurd (List.prefix_append _ _) (h t)

/-! ### The law -/

def readLine (line : List Char) : Option (MemoryType × List Char) :=
  [MemoryType.preference, .fact, .context, .decision].findSome? fun t =>
    (Text.stripPrefix (linePrefix (memoryTypeTag t)) line).map (t, ·)

def readBlock (block : List Char) : List (Option (MemoryType × List Char)) :=
  ((block.splitOn '\n').drop 1).dropLast.map readLine

/-- The block has its header, a line for each memory and its footer, and tells the memories. -/
structure BlockLaw (memories : List ScoredMemory) (block : List Char) : Prop where
  lines : block.splitOn '\n' = recalledMemoriesHeader :: (memories.map formatMemoryLine ++ [recalledMemoriesFooter])
  reads : readBlock block = memories.map fun m => some (m.entry.memoryType, m.entry.content.toList)

def IsTaggedLine (text : List Char) : Prop :=
  '\n' ∉ text ∧ ∃ t, (linePrefix (memoryTypeTag t)).toList <+: text

def IsSingleBlock (text : List Char) : Prop :=
  ∃ line, IsTaggedLine line ∧ text = recalledMemoriesHeader ++ [line, recalledMemoriesFooter].flatMap ('\n' :: ·)

theorem not_mem_line : '\n' ∉ formatMemoryLine m ↔ '\n' ∉ m.entry.content.toList := by
  have htag (t : MemoryType) : '\n' ∉ (linePrefix (memoryTypeTag t)).toList := by
    cases t <;> decide
  simp [formatMemoryLine, htag]

theorem block_law_iff (ms : List ScoredMemory) (block : List Char) (h : formatMemories (m :: ms) = some block) :
    BlockLaw (m :: ms) block ↔ ∀ x ∈ m :: ms, '\n' ∉ x.entry.content.toList := by
  rw [formatMemories_eq] at h
  cases h
  have hends : '\n' ∉ recalledMemoriesHeader ∧ '\n' ∉ recalledMemoriesFooter := by decide
  have hlines := @splitOn_eq_iff (recalledMemoriesHeader ++ ((m :: ms).map formatMemoryLine ++ [recalledMemoriesFooter]).flatMap
    ('\n' :: ·)) recalledMemoriesHeader ((m :: ms).map formatMemoryLine ++ [recalledMemoriesFooter])
  constructor
  · intro hlaw x hx
    exact (not_mem_line x).1 ((hlines.1 hlaw.lines).1 _ (by simp only [List.mem_cons, List.mem_append, List.mem_map]; exact .inr (.inl ⟨x, by simpa using hx, rfl⟩)))
  · intro hfree
    have heq := hlines.2 ⟨fun x hx => ?_, rfl⟩
    · refine ⟨heq, ?_⟩
      rw [readBlock, heq, List.drop_one, List.tail_cons, List.dropLast_concat, List.map_map]
      refine List.map_congr_left fun x _ => ?_
      show readLine (formatMemoryLine x) = _
      unfold readLine formatMemoryLine
      cases x.entry.memoryType <;> rfl
    · simp only [List.mem_cons, List.mem_append, List.mem_map, List.not_mem_nil, or_false] at hx
      rcases hx with rfl | ⟨y, hy, rfl⟩ | rfl
      · exact hends.1
      · exact (not_mem_line y).2 (hfree y (by simpa using hy))
      · exact hends.2

theorem not_tagged_block (rest : List Char) : stripTaggedLine (recalledMemoriesHeader ++ rest) = none := by
  rw [stripTaggedLine_eq_none]
  intro t h
  have hhead : (linePrefix (memoryTypeTag t)).toList.head? = some '-' := by cases t <;> rfl
  obtain ⟨more, h⟩ := h
  have heq := congrArg List.head? h
  rw [List.head?_append, hhead, show (recalledMemoriesHeader ++ rest).head? = some '[' from rfl] at heq
  exact absurd (Option.some_inj.1 heq) (by decide)

/-- What is stripped where no tag is in front: the wrapper of a single block. -/
theorem stripFormatting_cases {text : List Char} (h : stripTaggedLine text = none) :
    (∃ line content, '\n' ∉ line ∧ stripTaggedLine line = some content ∧
      text = recalledMemoriesHeader ++ [line, recalledMemoriesFooter].flatMap ('\n' :: ·) ∧ stripFormatting text = content) ∨
      stripFormatting text = text := by
  unfold stripFormatting
  rw [h]
  dsimp only
  split
  · rename_i header line footer hsplit
    split_ifs with hwrapper
    · obtain ⟨rfl, rfl⟩ := hwrapper
      obtain ⟨hfree, htext⟩ := splitOn_eq_iff.1 hsplit
      rcases hline : stripTaggedLine line with _ | content
      · exact .inr rfl
      · exact .inl ⟨line, content, hfree line (by simp), hline, htext, rfl⟩
    · exact .inr rfl
  · exact .inr rfl

theorem strip_single_iff (block : List Char) (h : formatMemories [m] = some block) :
    stripFormatting block = m.entry.content.toList ↔ '\n' ∉ m.entry.content.toList := by
  rw [formatMemories_eq] at h
  cases h
  have hnone := not_tagged_block (([m].map formatMemoryLine ++ [recalledMemoriesFooter]).flatMap ('\n' :: ·))
  constructor
  · intro hstrip
    rcases stripFormatting_cases hnone with ⟨line, content, hfree, -, htext, -⟩ | hsame
    · have heq : line = formatMemoryLine m := by
        simpa using htext.symm
      rwa [heq, not_mem_line] at hfree
    · rw [hsame] at hstrip
      have hlen := congrArg List.length hstrip
      simp only [List.map_cons, List.map_nil, List.flatMap_append, List.flatMap_cons, List.length_append, List.length_cons,
        formatMemoryLine] at hlen
      omega
  · intro hfree
    have hsplit := (block_law_iff m [] _ (formatMemories_eq m [])).2 (by simpa using hfree)
    unfold stripFormatting
    rw [hnone, hsplit.lines]
    simp [stripTaggedLine_line]

theorem strip_other_iff {text : List Char} (hline : ¬ IsTaggedLine text) (hblock : ¬ IsSingleBlock text) :
    stripFormatting text = text ↔ ∀ t, ¬ (linePrefix (memoryTypeTag t)).toList <+: text := by
  rw [← stripTaggedLine_eq_none]
  constructor
  · intro h
    rcases hs : stripTaggedLine text with _ | content
    · rfl
    · obtain ⟨t, rfl⟩ := stripTaggedLine_eq_some hs
      rw [stripFormatting, hs] at h
      have hlen := congrArg List.length h
      have hpos : 0 < (linePrefix (memoryTypeTag t)).toList.length := by cases t <;> decide
      rw [List.length_append] at hlen
      dsimp only at hlen
      omega
  · intro h
    rcases stripFormatting_cases h with ⟨line, content, hfree, hs, htext, -⟩ | hsame
    · obtain ⟨t, rfl⟩ := stripTaggedLine_eq_some hs
      exact absurd ⟨_, ⟨hfree, t, List.prefix_append _ _⟩, htext⟩ hblock
    · exact hsame

/-- The block is right exactly for contents of one line, and so is the content that is stripped from a single memory; a
text that is neither a tagged line nor a single block is left alone unless it begins with a tag all the same. -/
theorem format_law_iff (m : ScoredMemory) (ms : List ScoredMemory) (text : List Char) :
    (∃ block, formatMemories (m :: ms) = some block ∧
      (BlockLaw (m :: ms) block ↔ ∀ x ∈ m :: ms, '\n' ∉ x.entry.content.toList)) ∧
    (∃ block, formatMemories [m] = some block ∧
      (stripFormatting block = m.entry.content.toList ↔ '\n' ∉ m.entry.content.toList)) ∧
    (¬ IsTaggedLine text → ¬ IsSingleBlock text →
      (stripFormatting text = text ↔ ∀ t, ¬ (linePrefix (memoryTypeTag t)).toList <+: text)) :=
  ⟨⟨_, formatMemories_eq m ms, block_law_iff m ms _ (formatMemories_eq m ms)⟩,
    ⟨_, formatMemories_eq m [], strip_single_iff m _ (formatMemories_eq m [])⟩, strip_other_iff⟩

def twoLines (content : String) : ScoredMemory := ⟨⟨⟨0, Nat.two_pow_pos _⟩, "user", content, .fact, 1, 0, 0, 0, none, none, none⟩, 1, 0⟩

theorem two_lines_ambiguous : formatMemories [twoLines "alpha\n- [fact] gamma"] = formatMemories [twoLines "alpha", twoLines "gamma"] ∧
    (formatMemories [twoLines "alpha\n- [fact] gamma"]).map stripFormatting ≠ some "alpha\n- [fact] gamma".toList := by
  decide +kernel

end ObeyGateway.Memory
