import Mathlib.Data.List.TakeWhile
import ObeyGateway.Router.XmlPasses

/-!
# Direct tool-name blocks

A text of prose and blocks `<t><p1>v1</p1>…</t>`. The passes run in the order of the tool names: the calls are the
blocks one for one when the tools of the blocks are a sublist of these (`run_names`, `run_blocks`). An opening is
searched as `<t`: `Clear` says that no pass opens at a tag of a block that a later one is to take.
-/

namespace ObeyGateway.Xml
open Text Search

structure Block where
  tool : String
  params : List (String × String)

inductive Piece
  | prose (text : String)
  | block (b : Block)

def openTag (tag : String) : List Char := '<' :: (tag.toList ++ ['>'])

def closeTag (tag : String) : List Char := '<' :: ('/' :: tag.toList ++ ['>'])

def paramText (p : String × String) : List Char := openTag p.1 ++ (p.2.toList ++ closeTag p.1)

def bodyText (params : List (String × String)) : List Char := params.flatMap paramText

namespace Block

def text (b : Block) : List Char := openTag b.tool ++ (bodyText b.params ++ closeTag b.tool)

def tags (b : Block) : List String := b.tool :: b.params.map (·.1)

end Block

namespace Piece

def text : Piece → List Char
  | .prose s => s.toList
  | .block b => b.text

def proseText : Piece → List Char
  | .prose s => s.toList
  | .block _ => []

def block? : Piece → Option Block
  | .prose _ => none
  | .block b => some b

end Piece

def docText (doc : List Piece) : List Char := doc.flatMap Piece.text

def proseText (doc : List Piece) : List Char := doc.flatMap Piece.proseText

def blocks (doc : List Piece) : List Block := doc.filterMap Piece.block?

structure TagName (name : String) : Prop where
  nonempty : name ≠ ""
  chars : ∀ c ∈ name.toList, isWhitespace c = false ∧ c ∉ "<>/\"'".toList

instance (name : String) : Decidable (TagName name) :=
  -- over the characters of the name, not over all of them
  have : Decidable (∀ c ∈ name.toList, isWhitespace c = false ∧ c ∉ "<>/\"'".toList) := List.decidableBAll _ _
  decidable_of_iff (name ≠ "" ∧ ∀ c ∈ name.toList, isWhitespace c = false ∧ c ∉ "<>/\"'".toList)
    ⟨fun h => ⟨h.1, h.2⟩, fun h => ⟨h.nonempty, h.chars⟩⟩

structure Block.WellFormed (b : Block) : Prop where
  tags : ∀ tag ∈ b.tags, TagName tag
  values : ∀ p ∈ b.params, '<' ∉ p.2.toList
  distinct : (b.params.map (·.1)).Nodup

instance (b : Block) : Decidable b.WellFormed :=
  decidable_of_iff ((∀ tag ∈ b.tags, TagName tag) ∧ (∀ p ∈ b.params, '<' ∉ p.2.toList) ∧ (b.params.map (·.1)).Nodup)
    ⟨fun h => ⟨h.1, h.2.1, h.2.2⟩, fun h => ⟨h.tags, h.values, h.distinct⟩⟩

def Piece.WellFormed : Piece → Prop
  | .prose s => '<' ∉ s.toList
  | .block b => b.WellFormed

instance : DecidablePred Piece.WellFormed
  | .prose s => inferInstanceAs (Decidable ('<' ∉ s.toList))
  | .block b => inferInstanceAs (Decidable b.WellFormed)

variable {b : Block}

@[simp] theorem mem_blocks {doc : List Piece} : b ∈ blocks doc ↔ Piece.block b ∈ doc := by
  simp only [blocks, List.mem_filterMap]
  constructor
  · rintro ⟨p | b', hp, hb⟩
    · cases hb
    · obtain rfl : b' = b := by simpa [Piece.block?] using hb
      exact hp
  · intro h
    exact ⟨_, h, rfl⟩

/-- The search for `<w` passes over the tags of `tag`, whatever follows. -/
def Misses (w : List Char) (tag : String) : Prop :=
  ∀ ys, ¬ w <+: tag.toList ++ '>' :: ys ∧ ¬ w <+: '/' :: (tag.toList ++ '>' :: ys)

/-- `<w` neither runs over the end of a tag nor is the beginning of a close tag, and `<tag>` does not open with it. -/
structure Apart (w : List Char) (tag : String) : Prop where
  end_last : '>' ∉ w.dropLast
  not_close : w.head? ≠ some '/'
  not_opens : ¬ w <+: tag.toList ++ ['>']

instance (w : List Char) (tag : String) : Decidable (Apart w tag) :=
  decidable_of_iff ('>' ∉ w.dropLast ∧ w.head? ≠ some '/' ∧ ¬ w <+: tag.toList ++ ['>'])
    ⟨fun h => ⟨h.1, h.2.1, h.2.2⟩, fun h => ⟨h.end_last, h.not_close, h.not_opens⟩⟩

variable {name : String}

theorem TagName.notMem (h : TagName name) {c : Char} (hc : c ∈ "<>/\"'".toList) : c ∉ name.toList :=
  fun hmem => (h.chars c hmem).2 hc

theorem TagName.toList_ne_nil (h : TagName name) : name.toList ≠ [] := by
  intro hnil
  exact h.nonempty (String.toList_eq_nil_iff.1 hnil)

variable {w : List Char} {tag : String}

theorem Apart.misses (h : Apart w tag) : Misses w tag := by
  intro ys
  constructor
  · intro hp
    rw [← List.singleton_append, ← List.append_assoc] at hp
    rcases List.prefix_or_prefix_of_prefix hp (List.prefix_append _ ys) with hp | ⟨z, rfl⟩
    · exact h.not_opens hp
    · rcases List.eq_nil_or_concat z with rfl | ⟨z, c, rfl⟩
      · exact h.not_opens (by simp)
      · exact h.end_last (by simp [← List.append_assoc])
  · intro hp
    rcases List.prefix_cons_iff.1 hp with rfl | ⟨t, rfl, -⟩
    · exact h.not_opens List.nil_prefix
    · exact h.not_close rfl

theorem misses_close (hname : TagName name) (htag : TagName tag) (hne : name ≠ tag) :
    Misses ('/' :: name.toList ++ ['>']) tag := by
  intro ys
  constructor
  · intro hp
    rcases hcs : tag.toList with _ | ⟨c, cs⟩
    · exact htag.toList_ne_nil hcs
    rw [hcs] at hp
    have hc : '/' = c := (List.cons_prefix_cons.1 hp).1
    exact htag.notMem (c := '/') (by decide) (by rw [hcs, hc]; exact List.mem_cons_self)
  · intro hp
    have hp : name.toList ++ ['>'] <+: tag.toList ++ '>' :: ys := (List.cons_prefix_cons.1 hp).2
    obtain ⟨zs, hzs⟩ := hp
    rw [List.append_assoc, List.singleton_append] at hzs
    exact hne (String.toList_inj.1
      (append_cons_inj (hname.notMem (by decide)) (htag.notMem (by decide)) hzs).1)

theorem noStart_openTag (htag : TagName tag) (h : Misses w tag) (ys : List Char) : NoStart ('<' :: w) (openTag tag) ys := by
  refine noStart_tag ?_ ?_
  · simpa using htag.notMem (c := '<') (by decide)
  · rw [List.append_assoc]
    exact (h ys).1

theorem noStart_closeTag (htag : TagName tag) (h : Misses w tag) (ys : List Char) :
    NoStart ('<' :: w) (closeTag tag) ys := by
  refine noStart_tag ?_ ?_
  · simpa using htag.notMem (c := '<') (by decide)
  · rw [List.cons_append, List.cons_append, List.append_assoc]
    exact (h ys).2

variable {params : List (String × String)}

theorem noStart_bodyText (htags : ∀ p ∈ params, TagName p.1)
    (hvalues : ∀ p ∈ params, '<' ∉ p.2.toList) (h : ∀ p ∈ params, Misses w p.1) (ys : List Char) :
    NoStart ('<' :: w) (bodyText params) ys := by
  induction params with
  | nil => trivial
  | cons p params ih =>
    rw [List.forall_mem_cons] at htags hvalues h
    refine NoStart.append ?_ (ih htags.2 hvalues.2 h.2)
    exact NoStart.append (noStart_openTag htags.1 h.1 _)
      (NoStart.append (noStart_of_notMem hvalues.1 _) (noStart_closeTag htags.1 h.1 _))

namespace Block.WellFormed
variable {b : Block} {w : List Char}

theorem tool (hb : b.WellFormed) : TagName b.tool := hb.tags _ List.mem_cons_self

theorem param (hb : b.WellFormed) {p : String × String} (hp : p ∈ b.params) : TagName p.1 :=
  hb.tags _ (List.mem_cons_of_mem _ (List.mem_map_of_mem hp))

theorem noStart_text (hb : b.WellFormed) (h : ∀ tag ∈ b.tags, Misses w tag) (ys : List Char) :
    NoStart ('<' :: w) b.text ys := by
  have htool : Misses w b.tool := h _ List.mem_cons_self
  have hparams : ∀ p ∈ b.params, Misses w p.1 := fun p hp => h _ (List.mem_cons_of_mem _ (List.mem_map_of_mem hp))
  exact NoStart.append (noStart_openTag hb.tool htool _)
    (NoStart.append (noStart_bodyText (fun p hp => hb.param hp) hb.values hparams _) (noStart_closeTag hb.tool htool _))

end Block.WellFormed

theorem noStart_docText {doc : List Piece} (hdoc : ∀ p ∈ doc, p.WellFormed)
    (h : ∀ b ∈ blocks doc, ∀ tag ∈ b.tags, Misses w tag) (ys : List Char) : NoStart ('<' :: w) (docText doc) ys := by
  induction doc with
  | nil => trivial
  | cons p doc ih =>
    rw [List.forall_mem_cons] at hdoc
    refine NoStart.append ?_ (ih hdoc.2 fun b hb => h b (mem_blocks.2 (List.mem_cons_of_mem _ (mem_blocks.1 hb))))
    cases p with
    | prose s => exact noStart_of_notMem hdoc.1 _
    | block b => exact hdoc.1.noStart_text (h b (mem_blocks.2 List.mem_cons_self)) _

def fieldsOf (params : List (String × String)) (fields : Json.Map) : Json.Map :=
  params.foldl (fun m p => Assoc.insert m p.1 (xmlValue p.2.toList)) fields

theorem trimEndMatches_eq_self {c : Char} {text : List Char} (h : c ∉ text) : trimEndMatches c text = text := by
  have hrev : text.reverse.dropWhile (· = c) = text.reverse := by
    rcases hcs : text.reverse with _ | ⟨d, ds⟩
    · rfl
    have hd : d ∈ text := List.mem_reverse.1 (hcs ▸ List.mem_cons_self)
    have hne : d ≠ c := fun heq => h (heq ▸ hd)
    rw [List.dropWhile_cons_of_neg (by simpa using hne)]
  rw [trimEndMatches, hrev, List.reverse_reverse]

theorem TagName.trimStart_eq (h : TagName name) : trimStart name.toList = name.toList :=
  trimStart_eq_self fun c hc => (h.chars c (List.mem_of_mem_head? hc)).1

theorem TagName.trim_eq (h : TagName name) : trim name.toList = name.toList :=
  trim_eq_self (fun c hc => (h.chars c (List.mem_of_mem_head? hc)).1)
    (fun c hc => (h.chars c (List.mem_of_mem_getLast? hc)).1)

theorem tagNameOf_eq (h : TagName name) : tagNameOf name.toList = name.toList := by
  have hword : name.toList.takeWhile (fun c => !isWhitespace c) = name.toList :=
    List.takeWhile_eq_self_iff.2 fun c hc => by simp [(h.chars c hc).1]
  rw [tagNameOf, h.trimStart_eq, hword, trimEndMatches_eq_self (h.notMem (by decide)),
    trimEndMatches_eq_self (h.notMem (by decide)), trimEndMatches_eq_self (h.notMem (by decide))]

theorem innerXmlFields_param {p : String × String} (hname : TagName p.1) {rest : List Char}
    (hrest : NoStart (closeTag p.1) rest []) (fuel : Nat) (fields : Json.Map) :
    innerXmlFields (fuel + 1) (paramText p ++ rest) fields =
      innerXmlFields fuel rest (Assoc.insert fields p.1 (xmlValue p.2.toList)) := by
  have htext : paramText p ++ rest = '<' :: (p.1.toList ++ '>' :: (p.2.toList ++ (closeTag p.1 ++ rest))) := by
    simp [paramText, openTag]
  have hstart : trimStart (paramText p ++ rest) = paramText p ++ rest := by
    rw [htext]
    exact trimStart_eq_self (by simp; decide)
  have hopen : find "<" (paramText p ++ rest) = some ([], p.1.toList ++ '>' :: (p.2.toList ++ (closeTag p.1 ++ rest))) := by
    rw [htext]
    exact cut_singleton List.not_mem_nil
  have hend : find ">" (p.1.toList ++ '>' :: (p.2.toList ++ (closeTag p.1 ++ rest))) =
      some (p.1.toList, p.2.toList ++ (closeTag p.1 ++ rest)) := cut_singleton (hname.notMem (by decide))
  have hslash : (p.1.toList ++ '>' :: (p.2.toList ++ (closeTag p.1 ++ rest))).head? ≠ some '/' := by
    rcases hcs : p.1.toList with _ | ⟨c, cs⟩
    · exact absurd hcs hname.toList_ne_nil
    have hc : c ≠ '/' := fun hc => hname.notMem (c := '/') (by decide) (by rw [hcs, hc]; exact List.mem_cons_self)
    simpa using hc
  have hclose : cutLast ("</".toList ++ p.1.toList ++ ['>']) (p.2.toList ++ (closeTag p.1 ++ rest)) =
      some (p.2.toList, rest) := by
    refine cutLast_occurrence (NoStart.append (noStart_of_notMem ?_ _) hrest) _
    simpa using hname.notMem (c := '<') (by decide)
  rw [innerXmlFields, hstart, hopen]
  simp only [hend, tagNameOf_eq hname, if_neg hslash, if_neg hname.toList_ne_nil, hclose, String.ofList_toList]

theorem innerXmlFields_bodyText (htags : ∀ p ∈ params, TagName p.1)
    (hvalues : ∀ p ∈ params, '<' ∉ p.2.toList) (hdistinct : (params.map (·.1)).Nodup) {fuel : Nat}
    (hfuel : params.length < fuel) (fields : Json.Map) :
    innerXmlFields fuel (bodyText params) fields = fieldsOf params fields := by
  induction params generalizing fuel fields with
  | nil => 
    cases fuel with
    | zero => exact absurd hfuel (Nat.not_lt_zero _)
    | succ fuel => rfl
  | cons p params ih =>
    rw [List.forall_mem_cons] at htags hvalues
    obtain ⟨hnot, hdistinct⟩ := List.nodup_cons.1 hdistinct
    cases fuel with
    | zero => exact absurd hfuel (Nat.not_lt_zero _)
    | succ fuel =>
      have hmiss : ∀ q ∈ params, Misses ('/' :: p.1.toList ++ ['>']) q.1 := by
        intro q hq
        refine misses_close htags.1 (htags.2 q hq) ?_
        intro heq
        exact hnot (List.mem_map.2 ⟨q, hq, heq.symm⟩)
      show innerXmlFields (fuel + 1) (paramText p ++ bodyText params) fields = _
      rw [innerXmlFields_param htags.1 (noStart_bodyText htags.2 hvalues.2 hmiss []),
        ih htags.2 hvalues.2 hdistinct (Nat.lt_of_succ_lt_succ hfuel)]
      rfl

/-! ### One pass -/

def isScalar : Json → Prop
  | .null | .bool _ | .string _ => True
  | _ => False

structure Flat (fields : Json.Map) : Prop where
  ascending : (Assoc.keys fields).Pairwise (· < ·)
  scalar : ∀ e ∈ fields, isScalar e.2

/-- What `serde_json` does with texts: markup is no JSON, and what was printed is read back. -/
structure JsonText (serde : XmlSerde) : Prop where
  empty : serde.fromStr [] = none
  markup : ∀ text, serde.fromStr ('<' :: text) = none
  printed : ∀ fields, Flat fields → serde.fromStr (serde.toStr (.object fields)) = some (.object fields)

structure Markup (body : List Char) : Prop where
  first : body.head? = some '<'
  last : body.getLast? = some '>'

theorem closeTag_getLast? (tag : String) (xs : List Char) : (xs ++ closeTag tag).getLast? = some '>' := by
  have hconcat : xs ++ closeTag tag = xs ++ '<' :: '/' :: tag.toList ++ ['>'] := by simp [closeTag]
  rw [hconcat, List.getLast?_concat]

theorem bodyText_markup (h : params ≠ []) : Markup (bodyText params) := by
  constructor
  · cases params with
    | nil => exact absurd rfl h
    | cons p params => rfl
  · rcases List.eq_nil_or_concat params with rfl | ⟨params, p, rfl⟩
    · exact absurd rfl h
    · rw [bodyText, List.concat_eq_append, List.flatMap_append, List.flatMap_singleton, paramText, ← List.append_assoc, ← List.append_assoc]
      exact closeTag_getLast? _ _

theorem getLast?_openTag_bodyText (tag : String) (params : List (String × String)) (xs : List Char) :
    (xs ++ (openTag tag ++ bodyText params)).getLast? = some '>' := by
  by_cases h : params = []
  · subst h
    have hconcat : xs ++ (openTag tag ++ bodyText []) = xs ++ '<' :: tag.toList ++ ['>'] := by simp [openTag, bodyText]
    rw [hconcat, List.getLast?_concat]
  · rw [List.getLast?_append, List.getLast?_append, (bodyText_markup h).last]
    rfl

namespace Markup
variable {body : List Char}

theorem trim_eq (h : Markup body) : trim body = body := by
  refine trim_eq_self ?_ ?_
  · intro c hc
    rw [h.first] at hc
    cases hc
    decide
  · intro c hc
    rw [h.last] at hc
    cases hc
    decide

theorem fromStr_eq_none {serde : XmlSerde} (hserde : JsonText serde) (h : Markup body) : serde.fromStr body = none := by
  rcases body with _ | ⟨c, body⟩
  · exact hserde.empty
  obtain rfl : c = '<' := by simpa using h.first
  exact hserde.markup body

end Markup

theorem extractXmlAttribute_openTag (hname : TagName name) : extractXmlAttribute (openTag name) "name" = none := by
  have hdouble : '"' ∉ openTag name := by simpa [openTag] using hname.notMem (c := '"') (by decide)
  have hsingle : '\'' ∉ openTag name := by simpa [openTag] using hname.notMem (c := '\'') (by decide)
  rw [extractXmlAttribute, quotedAfter_eq_none (by decide) _ hdouble, quotedAfter_eq_none (by decide) _ hsingle]
  rfl

def callOf (serde : XmlSerde) (name : String) (body : List Char) : XmlCall :=
  ⟨name.toList, normalizeToolArguments serde name.toList (parseInnerXmlToJson serde body)⟩

theorem xmlCallOf_markup {serde : XmlSerde} (hserde : JsonText serde) (hname : TagName name)
    {body : List Char} (h : Markup body) :
    xmlCallOf serde ('<' :: name.toList) (openTag name) body = some (callOf serde name body) := by
  have hbrackets : '<' ∈ body ∧ '>' ∈ body := ⟨List.mem_of_mem_head? h.first, List.mem_of_mem_getLast? h.last⟩
  have htool : trim (trimStartMatches '<' ('<' :: name.toList)) = name.toList := by
    have hstart : trimStartMatches '<' ('<' :: name.toList) = name.toList := by
      rcases hcs : name.toList with _ | ⟨c, cs⟩
      · rfl
      have hc : c ≠ '<' := fun hc => hname.notMem (c := '<') (by decide) (by rw [hcs, hc]; exact List.mem_cons_self)
      simp [trimStartMatches, hc]
    rw [hstart, hname.trim_eq]
  simp only [xmlCallOf, h.trim_eq, extractXmlAttribute_openTag hname, h.fromStr_eq_none hserde, if_pos hbrackets, htool,
    Option.map_some]
  rfl

theorem xmlCallOf_nil {serde : XmlSerde} (hserde : JsonText serde) (hname : TagName name) :
    xmlCallOf serde ('<' :: name.toList) (openTag name) [] = none := by
  have htrim : trim [] = [] := rfl
  simp [xmlCallOf, htrim, extractXmlAttribute_openTag hname, hserde.empty]

variable {serde : XmlSerde} {name : String} {text before body after : List Char} {calls : List XmlCall}

/-- The pass of a tool takes all that is between its first opening and its last close tag. -/
theorem extractTool_eq (hname : TagName name) (hbefore : ∀ ys, NoStart ('<' :: name.toList) before ys)
    (hafter : NoStart ('<' :: name.toList) after []) (hlast : NoStart (closeTag name) after []) :
    extractTool serde (before ++ (openTag name ++ (body ++ (closeTag name ++ after))), calls) name =
      some (before ++ after, calls ++ (xmlCallOf serde ('<' :: name.toList) (openTag name) body).toList) := by
  set text := before ++ (openTag name ++ (body ++ (closeTag name ++ after))) with htext
  have hopen : Frames.cut ('<' :: name.toList) text = some (before, '>' :: (body ++ (closeTag name ++ after))) := by
    have hsplit : text = before ++ ('<' :: name.toList ++ '>' :: (body ++ (closeTag name ++ after))) := by
      simp [htext, openTag]
    rw [hsplit]
    exact cut_occurrence (List.cons_ne_nil _ _) (hbefore _)
  have hclose : cutLast ("</".toList ++ name.toList ++ ['>']) ('<' :: name.toList ++ '>' :: (body ++ (closeTag name ++ after))) =
      some (openTag name ++ body, after) := by
    have hregion : '<' :: name.toList ++ '>' :: (body ++ (closeTag name ++ after)) =
        (openTag name ++ body) ++ (closeTag name ++ after) := by simp [openTag]
    rw [hregion]
    refine cutLast_occurrence (NoStart.append (noStart_of_notMem ?_ _) hlast) _
    simpa using hname.notMem (c := '<') (by decide)
  have hend : find ">" (openTag name ++ body ++ ("</".toList ++ name.toList ++ ['>'])) =
      some ('<' :: name.toList, body ++ closeTag name) := by
    have hinner : openTag name ++ body ++ ("</".toList ++ name.toList ++ ['>']) =
        '<' :: name.toList ++ '>' :: (body ++ closeTag name) := by simp [openTag, closeTag]
    rw [hinner]
    exact cut_singleton (c := '>') (by simpa using hname.notMem (c := '>') (by decide))
  have hlength : ¬ (openTag name ++ body).length < ('<' :: name.toList).length + 1 := by simp [openTag]
  have hbody : (openTag name ++ body).drop (('<' :: name.toList).length + 1) = body := by simp [openTag]
  have hfuel : text.length = (text.length - 1) + 1 := by simp [htext, openTag]; omega
  have hnone : Frames.cut ('<' :: name.toList) (before ++ after) = none :=
    cut_eq_none (NoStart.append (hbefore _) hafter)
  rw [extractTool, extract, hfuel]
  simp only [extractPattern, hopen, if_true, hclose, hend, if_neg hlength, hbody, hnone]
  rfl

/-! ### The passes over a document -/

def wrapperOpenings : List String := ["tool_calls>", "invoke ", "use_tool", "tool_call>", "function_call"]

def Clear (names : List String) (doc : List Piece) : Prop :=
  ∀ b ∈ blocks doc, ∀ w ∈ wrapperOpenings ++ names.takeWhile (· ≠ b.tool), ∀ tag ∈ b.tags, Apart w.toList tag

instance (names : List String) (doc : List Piece) : Decidable (Clear names doc) :=
  inferInstanceAs (Decidable (∀ b ∈ blocks doc, ∀ w ∈ wrapperOpenings ++ names.takeWhile (· ≠ b.tool), ∀ tag ∈ b.tags,
    Apart w.toList tag))

variable {names : List String} {doc rest : List Piece}

theorem docText_append (doc rest : List Piece) : docText (doc ++ rest) = docText doc ++ docText rest :=
  List.flatMap_append

theorem blocks_append (doc rest : List Piece) : blocks (doc ++ rest) = blocks doc ++ blocks rest :=
  List.filterMap_append

theorem docText_of_no_blocks (h : blocks doc = []) : docText doc = proseText doc := by
  induction doc with
  | nil => rfl
  | cons p doc ih =>
    cases p with
    | prose s => exact congrArg (s.toList ++ ·) (ih h)
    | block b => exact absurd h (List.cons_ne_nil _ _)

theorem notMem_docText (hdoc : ∀ p ∈ doc, p.WellFormed) (h : blocks doc = []) : '<' ∉ docText doc := by
  induction doc with
  | nil => exact List.not_mem_nil
  | cons p doc ih =>
    rw [List.forall_mem_cons] at hdoc
    cases p with
    | prose s =>
      intro hmem
      rcases List.mem_append.1 hmem with hmem | hmem
      · exact hdoc.1 hmem
      · exact ih hdoc.2 h hmem
    | block b => exact absurd h (List.cons_ne_nil _ _)

theorem blocks_eq_cons {bs : List Block} (h : blocks doc = b :: bs) :
    ∃ front back, doc = front ++ .block b :: back ∧ blocks front = [] ∧ blocks back = bs := by
  obtain ⟨front, p, back, rfl, hfront, hp, hback⟩ := List.filterMap_eq_cons_iff.1 h
  cases p with
  | prose s => cases hp
  | block b' =>
    obtain rfl : b' = b := Option.some.inj hp
    exact ⟨front, back, rfl, List.filterMap_eq_nil_iff.2 hfront, hback⟩

theorem blocks_sublist (h : rest.Sublist doc) : (blocks rest).Sublist (blocks doc) := h.filterMap _

theorem Clear.sublist (hclear : Clear names doc) (h : rest.Sublist doc) : Clear names rest :=
  fun b hb => hclear b ((blocks_sublist h).subset hb)

theorem Clear.next (hclear : Clear (name :: names) doc) (h : ∀ b ∈ blocks doc, b.tool ≠ name) :
    (∀ b ∈ blocks doc, ∀ tag ∈ b.tags, Apart name.toList tag) ∧ Clear names doc := by
  have htake : ∀ b ∈ blocks doc, (name :: names).takeWhile (· ≠ b.tool) = name :: names.takeWhile (· ≠ b.tool) := by
    intro b hb
    rw [List.takeWhile_cons_of_pos (by simpa using (h b hb).symm)]
  constructor
  · intro b hb
    refine hclear b hb name ?_
    rw [htake b hb]
    exact List.mem_append_right _ List.mem_cons_self
  · intro b hb w hw
    refine hclear b hb w ?_
    rw [htake b hb]
    rcases List.mem_append.1 hw with hw | hw
    · exact List.mem_append_left _ hw
    · exact List.mem_append_right _ (List.mem_cons_of_mem _ hw)

def Piece.isOf (name : String) (p : Piece) : Bool := p.block?.any (·.tool = name)

theorem isOf_block : (Piece.block b).isOf name = true ↔ b.tool = name := by
  simp [Piece.isOf, Piece.block?]

theorem exists_of_isOf {p : Piece} (h : p.isOf name = true) : ∃ b, p = .block b ∧ b.tool = name := by
  cases p with
  | prose s => cases h
  | block b => exact ⟨b, rfl, isOf_block.1 h⟩

theorem tool_ne_of_isOf (h : ∀ p ∈ doc, p.isOf name = false) : ∀ b ∈ blocks doc, b.tool ≠ name := by
  intro b hb htool
  have hfalse := h _ (mem_blocks.1 hb)
  rw [isOf_block.2 htool] at hfalse
  cases hfalse

structure Span (name : String) (doc front back : List Piece) (body : List Char) : Prop where
  text : docText doc = docText front ++ (openTag name ++ (body ++ (closeTag name ++ docText back)))
  sublist : (front ++ back).Sublist doc
  others : ∀ b ∈ blocks (front ++ back), b.tool ≠ name

theorem exists_span (h : ∃ b ∈ blocks doc, b.tool = name) :
    ∃ front back body, Span name doc front back body ∧ (body = [] ∨ Markup body) := by
  obtain ⟨b, hb, hname⟩ := h
  obtain ⟨front, p, rest, rfl, hp, hfront⟩ := exists_first ⟨_, mem_blocks.1 hb, isOf_block.2 hname⟩
  obtain ⟨b, rfl, rfl⟩ := exists_of_isOf hp
  have hothers : ∀ {back : List Piece}, (∀ p ∈ back, p.isOf b.tool = false) → ∀ b' ∈ blocks (front ++ back), b'.tool ≠ b.tool :=
    fun hback => tool_ne_of_isOf (List.forall_mem_append.2 ⟨hfront, hback⟩)
  by_cases hrest : ∃ p ∈ rest, p.isOf b.tool = true
  · -- all from the first to the last block is one body
    obtain ⟨mid, p, back, rfl, hp, hback⟩ := exists_last hrest
    obtain ⟨b', rfl, htool⟩ := exists_of_isOf hp
    refine ⟨front, back, bodyText b.params ++ (closeTag b.tool ++ (docText mid ++ (openTag b.tool ++ bodyText b'.params))),
      ⟨?_, ?_, hothers hback⟩, .inr ⟨?_, ?_⟩⟩
    · simp [docText, Piece.text, Block.text, htool]
    · refine List.Sublist.append_left ?_ _
      exact ((List.sublist_cons_self _ back).trans (List.sublist_append_right mid _)).cons _
    · cases b.params <;> rfl
    · simp only [← List.append_assoc]
      rw [List.append_assoc]
      exact getLast?_openTag_bodyText _ _ _
  · refine ⟨front, rest, bodyText b.params, ⟨?_, ?_, hothers ?_⟩, ?_⟩
    · simp [docText, Piece.text, Block.text]
    · exact List.Sublist.append_left (List.sublist_cons_self _ _) _
    · intro p hp
      by_contra hne
      exact hrest ⟨p, hp, by simpa using hne⟩
    · rcases b.params.eq_nil_or_concat with hnil | ⟨init, q, hq⟩
      · exact .inl (by rw [hnil]; rfl)
      · exact .inr (bodyText_markup (by simp [hq]))

theorem Span.extractTool_eq {front back : List Piece} (hdoc : ∀ p ∈ doc, p.WellFormed) (hname : TagName name)
    (hclear : Clear (name :: names) doc) (h : Span name doc front back body) :
    extractTool serde (docText doc, calls) name =
      some (docText (front ++ back), calls ++ (xmlCallOf serde ('<' :: name.toList) (openTag name) body).toList) := by
  have hwf : ∀ p ∈ front ++ back, p.WellFormed := fun p hp => hdoc p (h.sublist.subset hp)
  have hapart := ((hclear.sublist h.sublist).next h.others).1
  have hfront : ∀ b ∈ blocks front, ∀ tag ∈ b.tags, Apart name.toList tag :=
    fun b hb => hapart b ((blocks_sublist (List.sublist_append_left _ _)).subset hb)
  have hback : ∀ b ∈ blocks back, ∀ tag ∈ b.tags, Apart name.toList tag :=
    fun b hb => hapart b ((blocks_sublist (List.sublist_append_right _ _)).subset hb)
  have hclose : ∀ b ∈ blocks back, ∀ tag ∈ b.tags, Misses ('/' :: name.toList ++ ['>']) tag := by
    intro b hb tag htag
    have hbwf : b.WellFormed := hwf _ (List.mem_append_right _ (mem_blocks.1 hb))
    refine misses_close hname (hbwf.tags tag htag) ?_
    rintro rfl
    exact (hback b hb _ htag).not_opens (List.prefix_append _ _)
  rw [h.text, docText_append]
  refine Xml.extractTool_eq hname ?_ ?_ ?_
  · exact noStart_docText (List.forall_mem_append.1 hwf).1 fun b hb tag htag => (hfront b hb tag htag).misses
  · exact noStart_docText (List.forall_mem_append.1 hwf).2 (fun b hb tag htag => (hback b hb tag htag).misses) _
  · exact noStart_docText (List.forall_mem_append.1 hwf).2 hclose _

theorem extractTool_eq_self (hdoc : ∀ p ∈ doc, p.WellFormed) (hclear : Clear (name :: names) doc)
    (h : ∀ b ∈ blocks doc, b.tool ≠ name) : extractTool serde (docText doc, calls) name = some (docText doc, calls) :=
  extract_eq_self (noStart_docText hdoc (fun b hb tag htag => ((hclear.next h).1 b hb tag htag).misses) _)

theorem xmlCallOf_names (hserde : JsonText serde) (hname : TagName name) (hbody : body = [] ∨ Markup body) :
    ((xmlCallOf serde ('<' :: name.toList) (openTag name) body).toList.map (·.name)).Sublist [name.toList] := by
  rcases hbody with rfl | hbody
  · rw [xmlCallOf_nil hserde hname]
    exact List.nil_sublist _
  · rw [xmlCallOf_markup hserde hname hbody]
    exact List.Sublist.refl _

theorem run_names (hserde : JsonText serde) (hdoc : ∀ p ∈ doc, p.WellFormed) (htools : ∀ b ∈ blocks doc, b.tool ∈ names)
    (hclear : Clear names doc) (calls : List XmlCall) :
    ∃ doc' more, names.foldlM (extractTool serde) (docText doc, calls) = some (docText doc', calls ++ more) ∧
      blocks doc' = [] ∧ (∀ p ∈ doc', p.WellFormed) ∧ (more.map (·.name)).Sublist (names.map String.toList) := by
  induction names generalizing doc calls with
  | nil =>
    refine ⟨doc, [], by simp, ?_, hdoc, List.Sublist.refl _⟩
    exact List.eq_nil_iff_forall_not_mem.2 fun b hb => List.not_mem_nil (htools b hb)
  | cons name names ih =>
    rw [List.foldlM_cons]
    by_cases hown : ∃ b ∈ blocks doc, b.tool = name
    · obtain ⟨front, back, body, hspan, hbody⟩ := exists_span hown
      have hname : TagName name := by
        obtain ⟨b, hb, rfl⟩ := hown
        exact Block.WellFormed.tool (hdoc _ (mem_blocks.1 hb))
      have htools' : ∀ b ∈ blocks (front ++ back), b.tool ∈ names := by
        intro b hb
        exact List.mem_of_ne_of_mem (hspan.others b hb) (htools b ((blocks_sublist hspan.sublist).subset hb))
      obtain ⟨doc', more, hrun, hblocks, hwf, hnames⟩ :=
        ih (fun p hp => hdoc p (hspan.sublist.subset hp)) htools' ((hclear.sublist hspan.sublist).next hspan.others).2
          (calls ++ (xmlCallOf serde ('<' :: name.toList) (openTag name) body).toList)
      refine ⟨doc', (xmlCallOf serde ('<' :: name.toList) (openTag name) body).toList ++ more, ?_, hblocks, hwf, ?_⟩
      · rw [hspan.extractTool_eq hdoc hname hclear, Option.bind_eq_bind, Option.bind_some, hrun, List.append_assoc]
      · rw [List.map_append, List.map_cons, ← List.singleton_append]
        exact (xmlCallOf_names hserde hname hbody).append hnames
    · have hothers : ∀ b ∈ blocks doc, b.tool ≠ name := fun b hb hb' => hown ⟨b, hb, hb'⟩
      obtain ⟨doc', more, hrun, hblocks, hwf, hnames⟩ :=
        ih hdoc (fun b hb => List.mem_of_ne_of_mem (hothers b hb) (htools b hb)) (hclear.next hothers).2 calls
      refine ⟨doc', more, ?_, hblocks, hwf, hnames.cons _⟩
      rw [extractTool_eq_self hdoc hclear hothers, Option.bind_eq_bind, Option.bind_some, hrun]

def blockCall (serde : XmlSerde) (b : Block) : Option XmlCall :=
  if b.params = [] then none else some (callOf serde b.tool (bodyText b.params))

theorem xmlCallOf_bodyText (hserde : JsonText serde) (hb : b.WellFormed) :
    xmlCallOf serde ('<' :: b.tool.toList) (openTag b.tool) (bodyText b.params) = blockCall serde b := by
  unfold blockCall
  split
  · rename_i hnil
    rw [hnil]
    exact xmlCallOf_nil hserde hb.tool
  · rename_i hne
    exact xmlCallOf_markup hserde hb.tool (bodyText_markup hne)

theorem run_blocks (hserde : JsonText serde) (hnames : names.Nodup) (hdoc : ∀ p ∈ doc, p.WellFormed)
    (hclear : Clear names doc) (horder : ((blocks doc).map (·.tool)).Sublist names) (calls : List XmlCall) :
    names.foldlM (extractTool serde) (docText doc, calls) =
      some (proseText doc, calls ++ (blocks doc).filterMap (blockCall serde)) := by
  induction names generalizing doc calls with
  | nil =>
    have hblocks : blocks doc = [] := by simpa using horder
    simp [hblocks, docText_of_no_blocks hblocks]
  | cons name names ih =>
    obtain ⟨hnot, hnodup⟩ := List.nodup_cons.1 hnames
    rw [List.foldlM_cons]
    rcases List.sublist_cons_iff.1 horder with hlater | ⟨tools, htools, hlater⟩
    · have hothers : ∀ b ∈ blocks doc, b.tool ≠ name := by
        intro b hb htool
        exact hnot (htool ▸ hlater.subset (List.mem_map_of_mem hb))
      rw [extractTool_eq_self hdoc hclear hothers, Option.bind_eq_bind, Option.bind_some,
        ih hnodup hdoc (hclear.next hothers).2 hlater]
    · -- the first block is the one of this pass, and the only one
      obtain ⟨b, bs, hblocks, rfl, rfl⟩ := List.map_eq_cons_iff.1 htools
      obtain ⟨front, back, rfl, hfront, hback⟩ := blocks_eq_cons hblocks
      have hrest : blocks (front ++ back) = bs := by rw [blocks_append, hfront, hback, List.nil_append]
      have hspan : Span b.tool (front ++ .block b :: back) front back (bodyText b.params) := by
        refine ⟨by simp [docText, Piece.text, Block.text], List.Sublist.append_left (List.sublist_cons_self _ _) _, ?_⟩
        intro b' hb' htool
        rw [hrest] at hb'
        exact hnot (htool ▸ hlater.subset (List.mem_map_of_mem hb'))
      have hbwf : b.WellFormed := hdoc _ (List.mem_append_right _ List.mem_cons_self)
      have hprose : proseText (front ++ .block b :: back) = proseText (front ++ back) := by
        simp [proseText, Piece.proseText]
      rw [hspan.extractTool_eq hdoc hbwf.tool hclear, Option.bind_eq_bind, Option.bind_some,
        ih hnodup (fun p hp => hdoc p (hspan.sublist.subset hp)) ((hclear.sublist hspan.sublist).next hspan.others).2
          (by rwa [hrest]), xmlCallOf_bodyText hserde hbwf, hrest, hblocks, hprose, List.append_assoc]
      cases hcall : blockCall serde b <;> simp [hcall]

theorem Clear.noStart (hclear : Clear names doc) (hdoc : ∀ p ∈ doc, p.WellFormed) {w : String}
    (hw : w ∈ wrapperOpenings) : NoStart ('<' :: w.toList) (docText doc) [] :=
  noStart_docText hdoc (fun b hb tag htag => (hclear b hb w (List.mem_append_left _ hw) tag htag).misses) _

theorem extractAll_docText (hdoc : ∀ p ∈ doc, p.WellFormed) (hclear : Clear names doc)
    (hrun : names.foldlM (extractTool serde) (docText doc, []) = some (text, calls)) (htext : '<' ∉ text) :
    extractAll serde names (docText doc) = some (text, calls) := by
  have hinvoke : extractInvokeStyle serde (docText doc, []) = (docText doc, []) :=
    extractInvokeStyle_eq_self (hclear.noStart hdoc (w := "tool_calls>") (by decide))
      (hclear.noStart hdoc (w := "invoke ") (by decide))
  have hwrappers : ∀ p ∈ wrapperPatterns, NoStart p.1.toList (docText doc) [] := by
    simp only [wrapperPatterns, List.forall_mem_cons]
    exact ⟨hclear.noStart hdoc (w := "use_tool") (by decide), hclear.noStart hdoc (w := "tool_call>") (by decide),
      hclear.noStart hdoc (w := "function_call") (by decide), by simp⟩
  have hstrip : stripKimiSpecialTokens text = text := by
    refine stripKimiSpecialTokens_eq_self fun token htoken hi => htext (hi.subset ?_)
    have hall : ∀ token ∈ kimiTokens, '<' ∈ token.toList := by decide
    exact hall token htoken
  simp only [extractAll, hinvoke, wrappers_eq_self hwrappers, hrun, extractArgKeyValue_eq_self htext,
    extractKimi_eq_self htext, ite_self, hstrip, Option.bind_eq_bind, Option.bind_some]

end ObeyGateway.Xml
