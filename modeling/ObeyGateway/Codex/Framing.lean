import ObeyGateway.Codex.Sse

/-!
# Framing the Codex stream

The parser decodes the chunks one by one and looks for two line feeds in a row. So it takes the records for
what they are when no chunk begins inside a character and the blank lines are bare; and when every line
carries data, only then (`codex_framing`).
-/

namespace ObeyGateway.Codex

inductive Ending
  | lf
  | crlf
deriving DecidableEq

def Ending.cr : Ending → List Char
  | .lf => []
  | .crlf => ['\r']

/-- A line that is not blank. Without a carriage return in its ending it has none at its end. -/
structure Line where
  text : List Char
  ending : Ending
  nonblank : text ≠ []
  whole : '\n' ∉ text
  bare : ending = .lf → text.getLast? ≠ some '\r'

def Line.content (line : Line) : List Char := line.text ++ line.ending.cr

structure Record where
  lines : List Line
  blank : Ending

namespace Record
variable (record : Record)

def contents : List (List Char) := record.lines.map Line.content

def chars : List Char := record.contents.flatMap (· ++ ['\n']) ++ record.blank.cr ++ ['\n']

def payload : List Char := foldData (record.lines.map Line.text)

structure Carries : Prop where
  lines : ∀ line ∈ record.lines, dataPrefix <+: line.text
  nonempty : record.payload ≠ []
  notDone : Text.trim record.payload ≠ "[DONE]".toList

end Record

def streamText (records : List Record) : List Char := records.flatMap Record.chars

/-- The chunks give what the stream gives at once, and each record of it one entry at most, from its own payload. -/
structure FramingLaw (serde : Serde) (records : List Record) (chunks : List (List UInt8)) : Prop where
  chunking : SseLineParser.new.feedAll serde chunks = SseLineParser.new.feedAll serde [chunks.flatten]
  records : SseLineParser.new.feedAll serde chunks = records.filterMap fun record => serde.entry record.payload

theorem boundary_ne_nil : boundary ≠ [] := List.cons_ne_nil _ _

def joined (contents : List (List Char)) : List Char := contents.flatMap (· ++ ['\n'])

theorem joined_cons (seg : List Char) (contents : List (List Char)) :
    joined (seg :: contents) = seg ++ '\n' :: joined contents := by
  rw [joined, List.flatMap_cons, List.append_assoc, List.singleton_append]
  rfl

theorem joined_append (contents more : List (List Char)) :
    joined (contents ++ more) = joined contents ++ joined more := List.flatMap_append

structure Stacked (contents : List (List Char)) : Prop where
  whole : ∀ seg ∈ contents, '\n' ∉ seg
  nonempty : ∀ seg ∈ contents.tail, seg ≠ []

namespace Line
variable (line : Line)

theorem newline_notMem_content : '\n' ∉ line.content := by
  rw [content, List.mem_append, not_or]
  refine ⟨line.whole, ?_⟩
  cases line.ending <;> decide

theorem content_ne_nil : line.content ≠ [] := List.append_ne_nil_of_left_ne_nil line.nonblank _

theorem stripCr_content : stripCr line.content = line.text := by
  have hbare := line.bare
  rw [content, stripCr]
  generalize line.ending = ending at hbare
  cases ending with
  | lf => rw [Ending.cr, List.append_nil, if_neg (hbare rfl)]
  | crlf => rw [Ending.cr, if_pos List.getLast?_concat, List.dropLast_concat]

end Line

theorem Stacked.nil : Stacked [] := ⟨by simp, by simp⟩

theorem Stacked.append {contents more : List (List Char)} (h : Stacked contents) (hwhole : ∀ seg ∈ more, '\n' ∉ seg)
    (hmore : ∀ seg ∈ more, seg ≠ []) : Stacked (contents ++ more) where
  whole := fun seg hseg => (List.mem_append.1 hseg).elim (h.whole seg) (hwhole seg)
  nonempty := fun seg hseg => by
    cases contents with
    | nil => exact hmore seg (List.mem_of_mem_tail hseg)
    | cons first contents => exact (List.mem_append.1 hseg).elim (h.nonempty seg) (hmore seg)

theorem Stacked.contents {stack : List (List Char)} (h : Stacked stack) (record : Record) :
    Stacked (stack ++ record.contents) := by
  refine h.append (fun seg hseg => ?_) fun seg hseg => ?_
  · obtain ⟨line, -, rfl⟩ := List.mem_map.1 hseg
    exact line.newline_notMem_content
  · obtain ⟨line, -, rfl⟩ := List.mem_map.1 hseg
    exact line.content_ne_nil

theorem cut_segment {seg : List Char} (hseg : '\n' ∉ seg) (rest : List Char) :
    Frames.cut boundary (seg ++ rest) = (Frames.cut boundary rest).map fun p => (seg ++ p.1, p.2) := by
  induction seg with
  | nil => simp
  | cons c seg ih =>
    obtain ⟨hc, hseg⟩ := List.ne_and_not_mem_of_not_mem_cons hseg
    rw [List.cons_append, Frames.cut_cons, ih hseg, Option.map_map]
    · rfl
    · exact fun hp => hc (List.cons_prefix_cons.1 hp).1

theorem cut_newline {rest : List Char} (hrest : rest.head? ≠ some '\n') :
    Frames.cut boundary ('\n' :: rest) = (Frames.cut boundary rest).map fun p => ('\n' :: p.1, p.2) := by
  refine Frames.cut_cons fun hp => hrest ?_
  obtain ⟨tail, htail⟩ := (List.cons_prefix_cons.1 hp).2
  rw [← htail]
  rfl

theorem head_joined {seg : List Char} (hwhole : '\n' ∉ seg) (hne : seg ≠ []) (contents : List (List Char))
    (rest : List Char) : (joined (seg :: contents) ++ rest).head? ≠ some '\n' := by
  rw [joined_cons, List.append_assoc, List.head?_append_of_ne_nil _ hne]
  exact fun hhead => hwhole (List.mem_of_head? hhead)

theorem cut_joined {contents : List (List Char)} (h : Stacked contents) (hne : contents ≠ []) (rest : List Char) :
    Frames.cut boundary (joined contents ++ '\n' :: rest) = some (['\n'].intercalate contents, rest) := by
  induction contents with
  | nil => exact absurd rfl hne
  | cons seg contents ih =>
    have hseg : '\n' ∉ seg := h.whole seg List.mem_cons_self
    rw [joined_cons, List.append_assoc, cut_segment hseg, List.cons_append]
    rcases contents with _ | ⟨next, contents⟩
    · show (Frames.cut boundary (boundary ++ rest)).map _ = _
      rw [Frames.cut_sep boundary_ne_nil]
      simp
    have hrest : Stacked (next :: contents) :=
      ⟨fun s hs => h.whole s (List.mem_cons_of_mem _ hs), fun s hs => h.nonempty s (List.mem_cons_of_mem _ hs)⟩
    rw [cut_newline (head_joined (hrest.whole next List.mem_cons_self) (h.nonempty next List.mem_cons_self) _ _),
      ih hrest (List.cons_ne_nil _ _)]
    simp [List.intercalate]

theorem cut_stack {contents : List (List Char)} (h : Stacked contents) : Frames.cut boundary (joined contents) = none := by
  induction contents with
  | nil => rfl
  | cons seg contents ih =>
    have hseg : '\n' ∉ seg := h.whole seg List.mem_cons_self
    have hrest : Stacked contents := ⟨fun s hs => h.whole s (List.mem_cons_of_mem _ hs),
      fun s hs => h.nonempty s (List.mem_of_mem_tail hs)⟩
    rw [joined_cons, cut_segment hseg, cut_newline, ih hrest]
    · rfl
    · rcases contents with _ | ⟨next, contents⟩
      · exact fun hhead => by cases hhead
      have := head_joined (hrest.whole next List.mem_cons_self) (h.nonempty next List.mem_cons_self) contents []
      rwa [List.append_nil] at this

/-- The lines of the records that come out together, and those left. Only a bare blank line closes what is in the
buffer. -/
def glue : List (List Char) → List Record → List (List (List Char)) × List (List Char)
  | stack, [] => ([], stack)
  | stack, record :: records =>
    match record.blank with
    | .crlf => glue (stack ++ record.contents ++ [['\r']]) records
    | .lf =>
      if stack ++ record.contents = [] then glue [[]] records
      else ((stack ++ record.contents) :: (glue [] records).1, (glue [] records).2)

theorem drain_stream {stack : List (List Char)} (h : Stacked stack) (records : List Record) :
    Frames.drain boundary (joined stack ++ streamText records) =
      ((glue stack records).1.map (['\n'].intercalate ·), joined (glue stack records).2) := by
  induction records generalizing stack with
  | nil =>
    rw [streamText, List.flatMap_nil, List.append_nil, Frames.drain_of_none (cut_stack h)]
    rfl
  | cons record records ih =>
    have hstack := h.contents record
    have htext (blank : List Char) : joined stack ++ (joined record.contents ++ blank ++ ['\n'] ++ streamText records) =
        joined (stack ++ record.contents) ++ (blank ++ '\n' :: streamText records) := by
      rw [joined_append]
      simp only [List.append_assoc, List.singleton_append]
    have hchars : streamText (record :: records) =
        joined record.contents ++ record.blank.cr ++ ['\n'] ++ streamText records := rfl
    rw [hchars, htext, glue]
    cases record.blank with
    | crlf =>
      have hblank : Stacked (stack ++ record.contents ++ [['\r']]) := hstack.append (by simp) (by simp)
      rw [← ih hblank, joined_append _ [['\r']], List.append_assoc]
      rfl
    | lf =>
      rw [Ending.cr, List.nil_append]
      dsimp only
      split
      · rename_i hempty
        rw [hempty, ← ih ⟨by simp, by simp⟩]
        rfl
      · rename_i hne
        rw [Frames.drain_of_cut boundary_ne_nil (cut_joined hstack hne _)]
        have hnext := ih Stacked.nil
        rw [joined, List.flatMap_nil, List.nil_append] at hnext
        rw [hnext]
        rfl

theorem payload_group {group : List (List Char)} (h : Stacked group) (hne : group ≠ []) :
    recordPayload (['\n'].intercalate group) = foldData (group.map stripCr) := by
  rw [recordPayload, List.splitOn_intercalate _ h.whole hne]

theorem foldData_contents (record : Record) : foldData (record.contents.map stripCr) = record.payload := by
  rw [Record.contents, Record.payload, List.map_map]
  exact congrArg foldData (List.map_congr_left fun line _ => line.stripCr_content)

theorem foldData_nil_cons (lines : List (List Char)) : foldData ([] :: lines) = foldData lines := rfl

section
variable {β : Type} {f : List Char → Option β} (hf : f [] = none)
include hf

theorem glue_bare {stack : List (List Char)} (hstack : stack = [] ∨ stack = [[]]) {records : List Record}
    (hbare : ∀ record ∈ records, record.blank = .lf) :
    ((glue stack records).1.map (['\n'].intercalate ·)).filterMap (f ∘ recordPayload) =
      records.filterMap (f ∘ Record.payload) := by
  induction records generalizing stack with
  | nil => rfl
  | cons record records ih =>
    obtain ⟨hblank, hbare⟩ := List.forall_mem_cons.1 hbare
    have hstacked : Stacked stack := by rcases hstack with rfl | rfl <;> exact ⟨by simp, by simp⟩
    have hdata : foldData ((stack ++ record.contents).map stripCr) = record.payload := by
      rw [← foldData_contents]
      rcases hstack with rfl | rfl
      · rfl
      · exact foldData_nil_cons _
    rw [glue, hblank]
    dsimp only
    split
    · rename_i hempty
      rw [hempty] at hdata
      rw [ih (.inr rfl) hbare, List.filterMap_cons_none]
      rw [Function.comp_apply, ← hdata]
      exact hf
    · rename_i hne
      have hpayload := payload_group (hstacked.contents record) hne
      rw [hdata] at hpayload
      rw [List.map_cons, List.filterMap_cons, List.filterMap_cons, ih (.inl rfl) hbare, Function.comp_apply, hpayload]
      rfl

end

theorem length_glue_le (stack : List (List Char)) (records : List Record) :
    (glue stack records).1.length ≤ records.countP (·.blank = .lf) := by
  induction records generalizing stack with
  | nil => exact Nat.zero_le _
  | cons record records ih =>
    rw [glue, List.countP_cons]
    cases hblank : record.blank with
    | crlf => exact ih _
    | lf =>
      dsimp only
      split
      · exact (ih _).trans (Nat.le_add_right _ _)
      · exact Nat.succ_le_succ (ih [])

theorem entry_nil (serde : Serde) : serde.entry [] = none := rfl

theorem feedAll_eq (serde : Serde) (chunks : List (List UInt8)) (parser : SseLineParser) (frames : List (List Char)) :
    frames.filterMap (serde.entry ∘ recordPayload) ++ parser.feedAll serde chunks =
      ((chunks.map Utf8.lossy).foldl (Frames.feed boundary) (frames, parser.buf)).1.filterMap
        (serde.entry ∘ recordPayload) := by
  induction chunks generalizing parser frames with
  | nil => exact List.append_nil _
  | cons chunk chunks ih =>
    rw [List.map_cons, List.foldl_cons, Frames.feed, ← ih ⟨_⟩, List.filterMap_append, List.append_assoc]
    rfl

theorem feedAll_new (serde : Serde) (chunks : List (List UInt8)) : SseLineParser.new.feedAll serde chunks =
      (Frames.drain boundary (chunks.flatMap Utf8.lossy)).1.filterMap (serde.entry ∘ recordPayload) := by
  have h := feedAll_eq serde chunks .new []
  rw [List.filterMap_nil, List.nil_append, SseLineParser.new, Frames.feed_chunks boundary_ne_nil] at h
  exact h

theorem drain_streamText (records : List Record) : Frames.drain boundary (streamText records) =
    ((glue [] records).1.map (['\n'].intercalate ·), joined (glue [] records).2) := by
  have hdrain := drain_stream Stacked.nil records
  rwa [joined, List.flatMap_nil, List.nil_append] at hdrain

variable {records : List Record}

theorem drain_bare (serde : Serde) (hbare : ∀ record ∈ records, record.blank = .lf) :
    (Frames.drain boundary (streamText records)).1.filterMap (serde.entry ∘ recordPayload) =
      records.filterMap fun record => serde.entry record.payload := by
  rw [drain_streamText]
  exact glue_bare (entry_nil serde) (.inl rfl) hbare

section
variable {serde : Serde} {records : List Record} {chunks : List (List UInt8)}

theorem feedAll_aligned (hbytes : chunks.flatten = Utf8.encode (streamText records)) (haligned : Utf8.Aligned chunks) :
    SseLineParser.new.feedAll serde chunks =
      (Frames.drain boundary (streamText records)).1.filterMap (serde.entry ∘ recordPayload) := by
  rw [feedAll_new, Utf8.flatMap_lossy haligned hbytes]

theorem feedAll_whole (hbytes : chunks.flatten = Utf8.encode (streamText records)) :
    SseLineParser.new.feedAll serde [chunks.flatten] =
      (Frames.drain boundary (streamText records)).1.filterMap (serde.entry ∘ recordPayload) := by
  rw [feedAll_new, List.flatMap_singleton, hbytes, Utf8.lossy_encode]

theorem law_of_aligned (hbytes : chunks.flatten = Utf8.encode (streamText records)) (haligned : Utf8.Aligned chunks)
    (hbare : ∀ record ∈ records, record.blank = .lf) : FramingLaw serde records chunks where
  chunking := by rw [feedAll_aligned hbytes haligned, feedAll_whole hbytes]
  records := by rw [feedAll_aligned hbytes haligned, drain_bare serde hbare]

theorem bare_of_law (hbytes : chunks.flatten = Utf8.encode (streamText records))
    (hentries : ∀ record ∈ records, (serde.entry record.payload).isSome = true)
    (hlaw : FramingLaw serde records chunks) : ∀ record ∈ records, record.blank = .lf := by
  -- the law gives the stream at once what it gives the chunks, so no cut matters here
  have hcount := congrArg List.length (hlaw.chunking.symm.trans hlaw.records)
  have hall : (records.filterMap fun record => serde.entry record.payload).length = records.length :=
    List.filterMap_length_eq_length.2 hentries
  have hframes := length_glue_le [] records
  rw [feedAll_whole hbytes, drain_streamText, hall] at hcount
  dsimp only at hcount
  have hle := List.length_filterMap_le (serde.entry ∘ recordPayload)
    ((glue [] records).1.map (['\n'].intercalate ·))
  rw [List.length_map] at hle
  have hfull : records.countP (·.blank = .lf) = records.length :=
    Nat.le_antisymm List.countP_le_length (by omega)
  exact fun record hrecord => of_decide_eq_true (List.countP_eq_length.1 hfull record hrecord)

end

open Utf8 (Blur)

structure Line.Blurs (line out : Line) : Prop where
  text : Blur line.text out.text
  ending : out.ending = line.ending

structure Record.Blurs (record out : Record) : Prop where
  lines : List.Forall₂ Line.Blurs record.lines out.lines
  blank : out.blank = record.blank

variable {out : List Char}

theorem blur_cr {ending : Ending} (h : Blur ending.cr out) : out = ending.cr :=
  h.eq_of_narrow (by cases ending <;> simp [Ending.cr])

theorem blur_newline (h : Blur ['\n'] out) : out = ['\n'] := h.eq_of_narrow (by simp)

theorem Line.blur_content (line : Line) (h : Blur line.content out) :
    ∃ line' : Line, line.Blurs line' ∧ out = line'.content := by
  obtain ⟨text, cr, rfl, htext, hcr⟩ := h.of_append
  obtain rfl := blur_cr hcr
  have hnonblank : text ≠ [] := by
    have hlength := htext.length_le
    rintro rfl
    exact line.nonblank (List.eq_nil_of_length_eq_zero (Nat.le_zero.1 hlength))
  have hwhole : '\n' ∉ text := fun hmem => (htext.mem hmem).elim line.whole (by decide)
  have hbare (hlf : line.ending = .lf) : text.getLast? ≠ some '\r' := by
    rw [Ne, htext.getLast?_iff (by decide)]
    exact line.bare hlf
  exact ⟨⟨text, line.ending, hnonblank, hwhole, hbare⟩, ⟨htext, rfl⟩, rfl⟩

theorem blur_joined {lines : List Line} (h : Blur (joined (lines.map Line.content)) out) :
    ∃ lines', List.Forall₂ Line.Blurs lines lines' ∧ out = joined (lines'.map Line.content) := by
  induction lines generalizing out with
  | nil =>
    cases h
    exact ⟨[], .nil, rfl⟩
  | cons line lines ih =>
    rw [List.map_cons, joined, List.flatMap_cons] at h
    obtain ⟨front, back, rfl, hfront, hback⟩ := h.of_append
    obtain ⟨content, newline, rfl, hcontent, hnewline⟩ := hfront.of_append
    obtain ⟨line', hline, rfl⟩ := line.blur_content hcontent
    obtain ⟨lines', hlines, rfl⟩ := ih hback
    obtain rfl := blur_newline hnewline
    exact ⟨line' :: lines', .cons hline hlines, rfl⟩

theorem blur_streamText (h : Blur (streamText records) out) :
    ∃ records', List.Forall₂ Record.Blurs records records' ∧ out = streamText records' := by
  induction records generalizing out with
  | nil =>
    cases h
    exact ⟨[], .nil, rfl⟩
  | cons record records ih =>
    rw [streamText, List.flatMap_cons] at h
    obtain ⟨chars, rest, rfl, hchars, hrest⟩ := h.of_append
    obtain ⟨records', hrecords, rfl⟩ := ih hrest
    obtain ⟨front, newline, rfl, hfront, hnewline⟩ := hchars.of_append
    obtain ⟨contents, cr, rfl, hcontents, hcr⟩ := hfront.of_append
    obtain ⟨lines', hlines, rfl⟩ := blur_joined hcontents
    obtain rfl := blur_newline hnewline
    obtain rfl := blur_cr hcr
    exact ⟨⟨lines', record.blank⟩ :: records', .cons ⟨hlines, rfl⟩ hrecords, rfl⟩

def afterSpace (rest : List Char) : List Char := if rest.head? = some ' ' then rest.tail else rest

theorem dataField_append (rest : List Char) : dataField (dataPrefix ++ rest) = some (afterSpace rest) := by
  rw [dataField, if_pos (List.prefix_append _ _), List.drop_left]
  rfl

theorem blur_afterSpace {rest : List Char} (h : Blur rest out) :
    Blur (afterSpace rest) (afterSpace out) ∧ (afterSpace out = afterSpace rest → out = rest) := by
  by_cases hspace : rest.head? = some ' '
  · have hout := (h.head?_iff (by decide)).2 hspace
    rw [afterSpace, afterSpace, if_pos hspace, if_pos hout]
    cases h with
    | nil => cases hspace
    | keep c h => exact ⟨h, fun heq => List.cons_eq_cons.2 ⟨rfl, heq⟩⟩
    | lost hwide n h =>
      cases hspace
      exact absurd hwide (by decide)
  · have hout : out.head? ≠ some ' ' := by rwa [Ne, h.head?_iff (by decide)]
    rw [afterSpace, afterSpace, if_neg hspace, if_neg hout]
    exact ⟨h, id⟩

theorem Line.Blurs.dataField {line out : Line} (h : line.Blurs out) (hdata : dataPrefix <+: line.text) :
    ∃ field field', Codex.dataField line.text = some field ∧ Codex.dataField out.text = some field' ∧
      field.length ≤ field'.length ∧ (field'.length ≤ field.length → out = line) := by
  obtain ⟨rest, hrest⟩ := hdata
  have hblur := h.text
  rw [← hrest] at hblur
  obtain ⟨front, back, hout, hfront, hback⟩ := hblur.of_append
  obtain rfl := hfront.eq_of_narrow (by simp [dataPrefix])
  obtain ⟨hfield, heq⟩ := blur_afterSpace hback
  refine ⟨afterSpace rest, afterSpace back, ?_, ?_, hfield.length_le, fun hlength => ?_⟩
  · rw [← hrest, dataField_append]
  · rw [hout, dataField_append]
  · have htext : out.text = line.text := by rw [hout, ← hrest, heq (hfield.eq_of_length hlength)]
    have hending := h.ending
    cases out
    cases line
    cases htext
    cases hending
    rfl

theorem length_pushData (payload rest : List Char) :
    (pushData payload rest).length = (if payload.length = 0 then 0 else payload.length + 1) + rest.length := by
  rw [pushData, List.length_append]
  cases payload <;> simp

def gather (payload : List Char) (lines : List Line) : List Char :=
  ((lines.map Line.text).filterMap dataField).foldl pushData payload

variable {payload : List Char}

theorem length_gather {lines lines' : List Line} (h : List.Forall₂ Line.Blurs lines lines')
    (hdata : ∀ line ∈ lines, dataPrefix <+: line.text) {payload' : List Char}
    (hlength : payload.length ≤ payload'.length) :
    (gather payload lines).length ≤ (gather payload' lines').length ∧
      ((gather payload' lines').length ≤ (gather payload lines).length →
        payload'.length ≤ payload.length ∧ lines' = lines) := by
  induction h generalizing payload payload' with
  | nil => exact ⟨hlength, fun h => ⟨h, rfl⟩⟩
  | @cons line line' lines lines' hline _ ih =>
    obtain ⟨hfirst, hdata⟩ := List.forall_mem_cons.1 hdata
    obtain ⟨field, field', hfield, hfield', hle, heq⟩ := hline.dataField hfirst
    have hpush := length_pushData payload field
    have hpush' := length_pushData payload' field'
    have hgather : gather payload (line :: lines) = gather (pushData payload field) lines := by
      rw [gather, List.map_cons, List.filterMap_cons_some hfield, List.foldl_cons, gather]
    have hgather' : gather payload' (line' :: lines') = gather (pushData payload' field') lines' := by
      rw [gather, List.map_cons, List.filterMap_cons_some hfield', List.foldl_cons, gather]
    have hnext : (pushData payload field).length ≤ (pushData payload' field').length := by
      split at hpush <;> split at hpush' <;> omega
    rw [hgather, hgather']
    refine ⟨(ih hdata hnext).1, fun hback => ?_⟩
    obtain ⟨hpayload, rfl⟩ := (ih hdata hnext).2 hback
    have hboth : payload'.length ≤ payload.length ∧ field'.length ≤ field.length := by
      split at hpush <;> split at hpush' <;> omega
    exact ⟨hboth.1, by rw [heq hboth.2]⟩

theorem Record.Blurs.eq {record out : Record} (h : record.Blurs out)
    (hdata : ∀ line ∈ record.lines, dataPrefix <+: line.text) (hpayload : out.payload = record.payload) :
    out = record := by
  have hlength : (gather [] out.lines).length ≤ (gather [] record.lines).length :=
    Nat.le_of_eq (congrArg List.length hpayload)
  obtain ⟨-, hlines⟩ := (length_gather h.lines hdata (Nat.le_refl _)).2 hlength
  have hblank := h.blank
  cases out
  cases record
  cases hlines
  cases hblank
  rfl

theorem bare_of_blurs {records' : List Record} (h : List.Forall₂ Record.Blurs records records')
    (hbare : ∀ record ∈ records, record.blank = .lf) : ∀ record ∈ records', record.blank = .lf := by
  induction h with
  | nil => exact hbare
  | cons hrecord _ ih =>
    obtain ⟨hfirst, hrest⟩ := List.forall_mem_cons.1 hbare
    exact List.forall_mem_cons.2 ⟨hrecord.blank.trans hfirst, ih hrest⟩

theorem Record.Carries.entry_isSome {record : Record} (h : record.Carries) (serde : Serde) :
    (serde.entry record.payload).isSome = true := by
  rw [Serde.entry, if_neg (by simpa using h.nonempty), if_neg h.notDone]
  split <;> rfl

def echoSerde : Serde where
  parse := fun text => .error (String.ofList text)
  completedPayload := fun _ => .error ""
  errorPayload := fun _ => .error ""

theorem echo_entry {e : Entry} (h : echoSerde.entry payload = some e) :
    e = .error (.sse ("JSON decode failed at SSE record boundary: " ++ String.ofList payload)) := by
  unfold Serde.entry at h
  split at h
  · cases h
  · split at h
    · cases h
    · exact (Option.some.inj h).symm

theorem echo_entry_inj {payload' : List Char} {e : Entry} (h : echoSerde.entry payload = some e)
    (h' : echoSerde.entry payload' = some e) : payload' = payload := by
  have heq := (echo_entry h').symm.trans (echo_entry h)
  exact String.ofList_inj.1 ((String.append_right_inj _).1 (CodexError.sse.inj (Except.error.inj heq)))

theorem forall₂_of_filterMap {α β : Type} {R : α → α → Prop} {f : α → Option β} {xs ys : List α}
    (h : List.Forall₂ R xs ys) (hsome : ∀ x ∈ xs, (f x).isSome = true) (heq : ys.filterMap f = xs.filterMap f) :
    List.Forall₂ (fun x y => R x y ∧ f y = f x) xs ys := by
  induction h with
  | nil => exact .nil
  | @cons x y xs ys hxy htail ih =>
    obtain ⟨hx, hxs⟩ := List.forall_mem_cons.1 hsome
    obtain ⟨e, he⟩ := Option.isSome_iff_exists.1 hx
    rw [List.filterMap_cons_some he] at heq
    rcases hy : f y with _ | e'
    · -- there would be too few of them
      have hcount := congrArg List.length heq
      have hle := List.length_filterMap_le f ys
      have hlength := htail.length_eq
      rw [List.filterMap_cons_none hy, List.length_cons, List.filterMap_length_eq_length.2 hxs] at hcount
      omega
    rw [List.filterMap_cons_some hy] at heq
    obtain ⟨rfl, hrest⟩ := List.cons.inj heq
    exact .cons ⟨hxy, hy.trans he.symm⟩ (ih hxs hrest)

section
variable {serde : Serde} {records : List Record} {chunks : List (List UInt8)}

theorem aligned_of_law (hbytes : chunks.flatten = Utf8.encode (streamText records))
    (hcarries : ∀ record ∈ records, record.Carries) (hbare : ∀ record ∈ records, record.blank = .lf)
    (hlaw : FramingLaw echoSerde records chunks) : Utf8.Aligned chunks := by
  obtain ⟨records', hblurs, hout⟩ := blur_streamText (Utf8.blur_flatMap_lossy hbytes)
  have hentries := hlaw.records
  rw [feedAll_new, hout, drain_bare echoSerde (bare_of_blurs hblurs hbare)] at hentries
  have hagree := (List.forall₂_and_left _ _).2 ⟨hcarries,
    forall₂_of_filterMap hblurs (fun record hmem => (hcarries record hmem).entry_isSome echoSerde) hentries⟩
  have hsame : List.Forall₂ (· = ·) records records' := by
    refine hagree.imp fun record out hrecord => ?_
    obtain ⟨hcarry, hblur, hentry⟩ := hrecord
    obtain ⟨e, he⟩ := Option.isSome_iff_exists.1 (hcarry.entry_isSome echoSerde)
    exact (hblur.eq hcarry.lines (echo_entry_inj he (hentry.trans he))).symm
  rw [List.forall₂_eq_eq_eq] at hsame
  rw [← hsame] at hout
  exact (Utf8.flatMap_lossy_eq_iff hbytes).1 hout

/-- However the stream is cut, where every record has an entry the blank lines have to be bare; where every line
carries data no chunk may begin inside a character. Else nothing is lost. -/
theorem codex_framing (hbytes : chunks.flatten = Utf8.encode (streamText records)) :
    (Utf8.Aligned chunks ∧ (∀ record ∈ records, record.blank = .lf) → FramingLaw serde records chunks) ∧
      ((∀ record ∈ records, (serde.entry record.payload).isSome = true) → FramingLaw serde records chunks →
        ∀ record ∈ records, record.blank = .lf) ∧
      ((∀ record ∈ records, record.Carries) → (∀ serde, FramingLaw serde records chunks) →
        Utf8.Aligned chunks ∧ ∀ record ∈ records, record.blank = .lf) := by
  refine ⟨fun hsound => law_of_aligned hbytes hsound.1 hsound.2, bare_of_law hbytes, fun hcarries hlaw => ?_⟩
  have hbare := bare_of_law hbytes (fun record hmem => (hcarries record hmem).entry_isSome echoSerde) (hlaw echoSerde)
  exact ⟨aligned_of_law hbytes hcarries hbare (hlaw echoSerde), hbare⟩

end

def plainSerde : Serde where
  parse := fun text =>
    if text = "\x7b\"type\":\"é\"\x7d".toList then .ok (.object [("type", .string "é")])
    else if text = "\x7b\"type\":\"\ufffd\ufffd\"\x7d".toList then .ok (.object [("type", .string "\ufffd\ufffd")])
    else .error "expected value at line 1 column 1"
  completedPayload := fun _ => .error "missing field"
  errorPayload := fun _ => .ok ⟨none, none, none⟩

def eventRecord (ending blank : Ending) : Record where
  lines := [⟨"data: \x7b\"type\":\"é\"\x7d".toList, ending, by decide, by decide, fun _ => by decide⟩]
  blank := blank

def bareRecords : List Record := [eventRecord .crlf .lf, eventRecord .lf .lf]

def recordChunks : List (List UInt8) := bareRecords.map fun record => Utf8.encode record.chars

/-- The chunks of the record, cut between the two bytes of its one character that has two. -/
def cutChunks : List (List UInt8) :=
  [(Utf8.encode (streamText [eventRecord .lf .lf])).take 16, (Utf8.encode (streamText [eventRecord .lf .lf])).drop 16]

/-- The law holds of the one stream, and of the other not with every parser. -/
theorem codex_framing_bareRecords : FramingLaw plainSerde bareRecords recordChunks ∧
    ¬∀ serde, FramingLaw serde [eventRecord .lf .lf] cutChunks := by
  refine ⟨(codex_framing (by decide)).1 ⟨by decide, by decide⟩, fun hlaw => ?_⟩
  have hcarries : ∀ record ∈ [eventRecord .lf .lf], record.Carries := by
    intro record hmem
    obtain rfl := List.mem_singleton.1 hmem
    exact ⟨by decide, by decide, by decide⟩
  have hbytes : cutChunks.flatten = Utf8.encode (streamText [eventRecord .lf .lf]) := by decide
  obtain ⟨haligned, -⟩ := (@codex_framing plainSerde _ _ hbytes).2.2 hcarries hlaw
  revert haligned
  decide

def crlfRecords : List Record := [eventRecord .crlf .crlf]

def Entry.kind : Entry → Option String
  | .ok (.other kind _) => some kind
  | _ => none

/-- A blank line with a carriage return closes nothing, and a character that is cut becomes two others. -/
theorem framing_law_fails : ¬FramingLaw plainSerde crlfRecords [Utf8.encode (streamText crlfRecords)] ∧
      cutChunks.flatten = Utf8.encode (streamText [eventRecord .lf .lf]) ∧
      ¬FramingLaw plainSerde [eventRecord .lf .lf] cutChunks := by
  refine ⟨fun hlaw => ?_, by decide, fun hlaw => ?_⟩
  · have hcount := congrArg List.length hlaw.records
    revert hcount
    decide
  · have hkinds := congrArg (·.map Entry.kind) hlaw.chunking
    revert hkinds
    decide

end ObeyGateway.Codex
