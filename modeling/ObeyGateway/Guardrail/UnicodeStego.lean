import ObeyGateway.Guardrail.RegexScan
import ObeyGateway.Lib.Utf8

/-!
# Hidden characters (`guardrail/providers/unicode_stego.rs`)

The scan goes through the characters once and keeps the run it is in; a run ends at a plain character, at one
of another class and at the end of the text. So the findings are the maximal runs of one class in the order
of the text, and without them the text is what it has of plain characters (`strip_law`).
-/

namespace ObeyGateway.Guardrail

open Splice Utf8 SortBy

namespace UnicodeStego

def labelUnicodeTag : Str := str "unicode_tag"

def labelZeroWidth : Str := str "zero_width"

def labelBidiControl : Str := str "bidi_control"

inductive CharClass
  | tag
  | zeroWidth
  | bidi
  | plain
deriving DecidableEq

def zeroWidthSingles : List Nat :=
  [0x00AD, 0x061C, 0x180E, 0x200B, 0x200C, 0x200D, 0x2060, 0x2061, 0x2062, 0x2063, 0x2064, 0xFEFF]

def bidiControls : List Nat := [0x202A, 0x202B, 0x202C, 0x202D, 0x202E, 0x2066, 0x2067, 0x2068, 0x2069]

def classify (c : Char) : CharClass :=
  if 0xE0000 ≤ c.toNat ∧ c.toNat ≤ 0xE007F then .tag
  else if c.toNat ∈ zeroWidthSingles ∨ 0xFE00 ≤ c.toNat ∧ c.toNat ≤ 0xFE0F then .zeroWidth
  else if c.toNat ∈ bidiControls then .bidi
  else .plain

structure UnicodeStegoSettings where
  detectTagChars : Bool
  detectZeroWidth : Bool
  detectBidi : Bool
  detectMixedScript : Bool
  zeroWidthThreshold : Nat
  tagCharsThreshold : Nat
  bidiThreshold : Nat

structure Cluster where
  cls : CharClass
  start : Nat
  stop : Nat
  count : Nat

def label : CharClass → Str
  | .tag => labelUnicodeTag
  | .zeroWidth => labelZeroWidth
  | .bidi => labelBidiControl
  | .plain => []

namespace UnicodeStegoSettings
variable (settings : UnicodeStegoSettings)

def enabled : CharClass → Bool
  | .tag => settings.detectTagChars
  | .zeroWidth => settings.detectZeroWidth
  | .bidi => settings.detectBidi
  | .plain => false

/-- `threshold_for` the label of a class -/
def thresholdFor : CharClass → Nat
  | .tag => settings.tagCharsThreshold
  | .zeroWidth => settings.zeroWidthThreshold
  | .bidi => settings.bidiThreshold
  | .plain => 0

/-- `push_cluster` of the cluster that is taken, if there is one -/
def pushCluster : Option Cluster → List Finding
  | none => []
  | some cl =>
    if settings.enabled cl.cls && settings.thresholdFor cl.cls ≤ cl.count then [⟨label cl.cls, cl.start, cl.stop⟩] else []

def clusters : Nat → Option Cluster → List Char → List Finding
  | _, cluster, [] => settings.pushCluster cluster
  | idx, cluster, c :: text =>
    if classify c = .plain then settings.pushCluster cluster ++ clusters (idx + c.utf8Size) none text
    else
      match cluster.filter (·.cls = classify c) with
      | some cl => clusters (idx + c.utf8Size) (some { cl with stop := idx + c.utf8Size, count := cl.count + 1 }) text
      | none =>
        settings.pushCluster cluster ++
          clusters (idx + c.utf8Size) (some ⟨classify c, idx, idx + c.utf8Size, 1⟩) text

/-- `mixedScript` are the findings of the second pass. -/
def scan (mixedScript : List Char → List Finding) (text : List Char) : List Finding :=
  if text.all (·.toNat ≤ 0x7F) then []
  else
    sortBy compareSpans
      (settings.clusters 0 none text ++ if settings.detectMixedScript then mixedScript text else [])

structure RunsOnly : Prop where
  enabled : ∀ k, k ≠ .plain → settings.enabled k = true
  threshold : ∀ k, settings.thresholdFor k ≤ 1
  mixedScript : settings.detectMixedScript = false

end UnicodeStegoSettings

def IsRun (text : List Char) (f : Finding) : Prop :=
  ∃ left run right k, text = left ++ run ++ right ∧ run ≠ [] ∧ k ≠ .plain ∧ (∀ c ∈ run, classify c = k) ∧
    (∀ c ∈ left.getLast?, classify c ≠ k) ∧ (∀ c ∈ right.head?, classify c ≠ k) ∧
      f = ⟨label k, (encode left).length, (encode (left ++ run)).length⟩

/-- The state after the characters `done`: no run, or the one at their end. -/
def Scanned (done : List Char) : Option Cluster → Prop
  | none => ∀ c ∈ done.getLast?, classify c = .plain
  | some cl => ∃ left run, done = left ++ run ∧ run ≠ [] ∧ cl.cls ≠ .plain ∧ (∀ c ∈ run, classify c = cl.cls) ∧
      (∀ c ∈ left.getLast?, classify c ≠ cl.cls) ∧ cl.start = (encode left).length ∧ cl.stop = (encode done).length ∧
        0 < cl.count

def startOf (done : List Char) (cluster : Option Cluster) : Nat := (cluster.map (·.start)).getD (encode done).length

variable {settings : UnicodeStegoSettings} {done text rest : List Char} {cluster : Option Cluster} {cl : Cluster} {c : Char}

theorem encode_concat (done : List Char) (c : Char) : encode (done ++ [c]) = encode done ++ String.utf8EncodeChar c := by
  rw [encode, List.flatMap_append, List.flatMap_singleton]
  rfl

theorem length_encode_concat (done : List Char) (c : Char) :
    (encode (done ++ [c])).length = (encode done).length + c.utf8Size := by
  rw [encode_concat, List.length_append, String.length_utf8EncodeChar]

theorem length_encode_le (done more : List Char) : (encode done).length ≤ (encode (done ++ more)).length := by
  rw [encode, encode, List.flatMap_append, List.length_append]
  exact Nat.le_add_right _ _

namespace Scanned

theorem nil : Scanned [] none := fun c hc => by cases hc

theorem plain (hc : classify c = .plain) : Scanned (done ++ [c]) none := by
  intro d hd
  rw [List.getLast?_concat, Option.mem_some_iff] at hd
  rwa [← hd]

theorem getLast_cls (h : Scanned done cluster) {d : Char} (hd : d ∈ done.getLast?) :
    classify d = (cluster.map (·.cls)).getD .plain := by
  rcases cluster with _ | cl
  · exact h d hd
  obtain ⟨left, run, rfl, hrun, -, hcls, -⟩ := h
  rw [List.getLast?_append_of_ne_nil _ hrun] at hd
  exact hcls d (List.mem_of_getLast? hd)

theorem cls_ne_plain (h : Scanned done (some cl)) : cl.cls ≠ .plain := by
  obtain ⟨left, run, -, -, hplain, -⟩ := h
  exact hplain

theorem extend (h : Scanned done (some cl)) (hc : cl.cls = classify c) :
    Scanned (done ++ [c]) (some { cl with stop := (encode done).length + c.utf8Size, count := cl.count + 1 }) := by
  obtain ⟨left, run, rfl, hrun, hplain, hcls, hleft, hstart, -, -⟩ := h
  refine ⟨left, run ++ [c], List.append_assoc _ _ _, by simp, hplain, ?_, hleft, hstart, ?_, Nat.succ_pos _⟩
  · intro d hd
    rcases List.mem_append.1 hd with hd | hd
    · exact hcls d hd
    · rw [List.mem_singleton.1 hd]
      exact hc.symm
  · exact (length_encode_concat _ _).symm

theorem begin (h : Scanned done cluster) (hne : cluster.filter (·.cls = classify c) = none) (hc : classify c ≠ .plain) :
    Scanned (done ++ [c]) (some ⟨classify c, (encode done).length, (encode done).length + c.utf8Size, 1⟩) := by
  refine ⟨done, [c], rfl, by simp, hc, by simp, fun d hd => ?_, rfl, (length_encode_concat _ _).symm, Nat.one_pos⟩
  rw [h.getLast_cls hd]
  rcases cluster with _ | cl
  · exact hc.symm
  intro heq
  have hsame : decide (cl.cls = classify c) = true := decide_eq_true heq
  rw [Option.filter_some, if_pos hsame] at hne
  cases hne

theorem start_le (h : Scanned done cluster) : startOf done cluster ≤ (encode done).length := by
  rcases cluster with _ | cl
  · exact Nat.le_refl _
  obtain ⟨left, run, rfl, -, -, -, -, hstart, -⟩ := h
  exact hstart.trans_le (length_encode_le _ _)

end Scanned

theorem pushCluster_some (h : settings.RunsOnly) (hs : Scanned done (some cl)) :
    settings.pushCluster (some cl) = [⟨label cl.cls, cl.start, cl.stop⟩] := by
  obtain ⟨left, run, -, -, hplain, -, -, -, -, hcount⟩ := hs
  have hthreshold : settings.thresholdFor cl.cls ≤ cl.count := (h.threshold cl.cls).trans hcount
  rw [UnicodeStegoSettings.pushCluster, h.enabled cl.cls hplain, Bool.true_and, if_pos (decide_eq_true hthreshold)]

theorem isRun_of_scanned (hs : Scanned done (some cl)) (hrest : ∀ c ∈ rest.head?, classify c ≠ cl.cls) :
    IsRun (done ++ rest) ⟨label cl.cls, cl.start, cl.stop⟩ := by
  obtain ⟨left, run, rfl, hrun, hplain, hcls, hleft, hstart, hstop, -⟩ := hs
  exact ⟨left, run, rest, cl.cls, rfl, hrun, hplain, hcls, hleft, hrest, by rw [hstart, hstop]⟩

/-! ### The findings -/

def deletion (f : Finding) : Edit UInt8 := ⟨f.start, f.stop, []⟩

def visible (text : List Char) : List Char := text.filter (classify · = .plain)

/-- The findings from a byte offset on, `text` being what follows there but for a run that has begun. -/
structure Found (all : List Char) (n : Nat) (text : List Char) (fs : List Finding) : Prop where
  runs : ∀ f ∈ fs, IsRun all f
  ordered : fs.Pairwise fun a b => a.stop ≤ b.start
  le_start : ∀ f ∈ fs, n ≤ f.start
  deleted : assemble (encode all) n (fs.map deletion) = encode (visible text)

namespace Found

variable {all : List Char} {n : Nat} {fs : List Finding}

theorem nil (all : List Char) : Found all (encode all).length [] [] where
  runs := List.forall_mem_nil _
  ordered := List.Pairwise.nil
  le_start := List.forall_mem_nil _
  deleted := List.drop_length

theorem hidden (h : Found all n text fs) (hc : classify c ≠ .plain) : Found all n (c :: text) fs := by
  refine ⟨h.runs, h.ordered, h.le_start, ?_⟩
  rw [h.deleted, visible, visible, List.filter_cons_of_neg (by simpa using hc)]

theorem assemble_of_le {xs : Str} {n' : Nat} (hn : n ≤ n') (h : ∀ f ∈ fs, n' ≤ f.start) :
    assemble xs n (fs.map deletion) = slice xs n n' ++ assemble xs n' (fs.map deletion) := by
  rcases fs with _ | ⟨f, fs⟩
  · exact (slice_append_drop xs hn).symm
  have hslice : slice xs n n' ++ slice xs n' (deletion f).start = slice xs n (deletion f).start :=
    slice_append_slice xs hn (h f List.mem_cons_self)
  rw [List.map_cons, assemble, assemble, ← hslice, List.append_assoc]

theorem plain (h : Found (done ++ c :: text) (encode (done ++ [c])).length text fs) (hc : classify c = .plain) :
    Found (done ++ c :: text) (encode done).length (c :: text) fs := by
  have hle : (encode done).length ≤ (encode (done ++ [c])).length := length_encode_le done [c]
  refine ⟨h.runs, h.ordered, fun f hf => hle.trans (h.le_start f hf), ?_⟩
  have hslice : slice (encode (done ++ c :: text)) (encode done).length (encode (done ++ [c])).length =
      String.utf8EncodeChar c := by
    have hall : encode (done ++ c :: text) = encode (done ++ [c]) ++ encode text := by
      rw [List.append_cons, encode, List.flatMap_append]
      rfl
    rw [hall, slice, List.take_left, encode_concat, List.drop_left]
  have hvisible : visible (c :: text) = c :: visible text := List.filter_cons_of_pos (decide_eq_true hc)
  rw [assemble_of_le hle h.le_start, hslice, h.deleted, hvisible, encode_cons]

theorem flush (h : Found (done ++ rest) (encode done).length text fs) (hsettings : settings.RunsOnly)
    (hs : Scanned done cluster) (hrest : ∀ cl ∈ cluster, ∀ c ∈ rest.head?, classify c ≠ cl.cls) :
    Found (done ++ rest) (startOf done cluster) text (settings.pushCluster cluster ++ fs) := by
  rcases cluster with _ | cl
  · exact h
  have hrun : IsRun (done ++ rest) ⟨label cl.cls, cl.start, cl.stop⟩ := isRun_of_scanned hs (hrest cl rfl)
  have hstart : cl.start ≤ (encode done).length := hs.start_le
  rw [pushCluster_some hsettings hs, List.singleton_append]
  obtain ⟨-, -, -, -, -, -, -, -, hstop, -⟩ := hs
  refine ⟨List.forall_mem_cons.2 ⟨hrun, h.runs⟩, List.pairwise_cons.2 ⟨fun f hf => hstop.trans_le (h.le_start f hf), h.ordered⟩,
    List.forall_mem_cons.2 ⟨Nat.le_refl _, fun f hf => hstart.trans (h.le_start f hf)⟩, ?_⟩
  rw [List.map_cons, assemble]
  have hnone : slice (encode (done ++ rest)) cl.start cl.start = [] := by simp [slice]
  show slice _ cl.start cl.start ++ ([] ++ assemble _ cl.stop _) = _
  rw [hnone, hstop, List.nil_append, List.nil_append, h.deleted]

end Found

theorem found_clusters (h : settings.RunsOnly) (hs : Scanned done cluster) :
    Found (done ++ text) (startOf done cluster) text (settings.clusters (encode done).length cluster text) := by
  induction text generalizing done cluster with
  | nil =>
    rw [UnicodeStegoSettings.clusters, ← List.append_nil (settings.pushCluster cluster)]
    refine Found.flush ?_ h hs fun _ _ c hc => by cases hc
    have hnil := Found.nil done
    rwa [List.append_nil]
  | cons c text ih =>
    have hsplit : done ++ c :: text = (done ++ [c]) ++ text := List.append_cons ..
    have hlength := length_encode_concat done c
    rw [UnicodeStegoSettings.clusters, ← hlength]
    split
    · rename_i hc
      have hplain : Scanned (done ++ [c]) none := Scanned.plain hc
      have hfound := ih hplain
      rw [← hsplit] at hfound
      refine Found.flush (hfound.plain hc) h hs fun cl hcl d hd => ?_
      obtain rfl : cluster = some cl := hcl
      obtain rfl : c = d := Option.some.inj hd
      rw [hc]
      exact hs.cls_ne_plain.symm
    · rename_i hc
      split
      · rename_i cl hcl
        obtain ⟨rfl, hsame⟩ := Option.filter_eq_some_iff.1 hcl
        have hfound := ih (hs.extend (of_decide_eq_true hsame))
        rw [← hsplit, ← hlength] at hfound
        exact hfound.hidden hc
      · rename_i hne
        have hfound := ih (hs.begin hne hc)
        rw [← hsplit, ← hlength] at hfound
        refine Found.flush (hfound.hidden hc) h hs fun cl hcl d hd heq => ?_
        obtain rfl : cluster = some cl := hcl
        obtain rfl : c = d := Option.some.inj hd
        rw [Option.filter_some, if_pos (decide_eq_true heq.symm)] at hne
        cases hne

theorem isContinuation_eq (b : UInt8) : isContinuation b = isTail b := by
  have hlo : 0x80 ≤ b ↔ 0x80 ≤ b.toNat := UInt8.le_iff_toNat_le
  have hhi : b < 0xC0 ↔ b.toNat ≤ 0xBF := UInt8.lt_iff_toNat_lt.trans Nat.lt_succ_iff
  rw [isContinuation, isTail, decide_eq_decide.2 hlo, decide_eq_decide.2 hhi]

theorem isCharBoundary_encode (left right : List Char) :
    isCharBoundary (encode (left ++ right)) (encode left).length = true := by
  have hall : encode (left ++ right) = encode left ++ encode right := List.flatMap_append
  rw [isCharBoundary, hall, List.getElem?_append_right (Nat.le_refl _), Nat.sub_self]
  rcases right with _ | ⟨c, right⟩
  · simp [encode]
  obtain ⟨b, tails, hshape, hb, -⟩ := utf8EncodeChar_shape c
  rw [encode_cons, hshape, List.cons_append, List.getElem?_cons_zero]
  dsimp only
  rw [isContinuation_eq, hb, Bool.not_false, Bool.or_true]

theorem accepted_of_isRun {f : Finding} (h : IsRun text f) : accepted (encode text) f = true := by
  obtain ⟨left, run, right, k, rfl, hrun, -, -, -, -, rfl⟩ := h
  have hlt : (encode left).length < (encode (left ++ run)).length := by
    obtain ⟨c, run, rfl⟩ := List.exists_cons_of_ne_nil hrun
    rw [List.append_cons]
    refine Nat.lt_of_lt_of_le ?_ (length_encode_le _ _)
    rw [length_encode_concat]
    exact Nat.lt_add_of_pos_right c.utf8Size_pos
  have hstart := isCharBoundary_encode left (run ++ right)
  rw [← List.append_assoc] at hstart
  rw [accepted, hstart, isCharBoundary_encode, decide_eq_true hlt, decide_eq_true (length_encode_le _ _)]
  rfl

variable {fs : List Finding}

theorem orderedInsert_eq_concat {r : Finding → Finding → Prop} [DecidableRel r] {f : Finding}
    (h : ∀ g ∈ fs, ¬ r f g) : fs.orderedInsert r f = fs ++ [f] := by
  induction fs with
  | nil => rfl
  | cons g fs ih =>
    obtain ⟨hg, hfs⟩ := List.forall_mem_cons.1 h
    rw [List.orderedInsert_cons, if_neg hg, ih hfs]
    rfl

theorem insertionSort_eq_reverse (h : fs.Pairwise fun a b => a.start < b.start) :
    fs.insertionSort (fun a b => b.start ≤ a.start) = fs.reverse := by
  induction fs with
  | nil => rfl
  | cons f fs ih =>
    obtain ⟨hf, hfs⟩ := List.pairwise_cons.1 h
    rw [List.insertionSort_cons, ih hfs, List.reverse_cons]
    exact orderedInsert_eq_concat fun g hg => Nat.not_le.2 (hf g (List.mem_reverse.1 hg))

theorem appliedFrom_eq_self (h : fs.Pairwise fun a b => b.stop ≤ a.start) {last : Option Nat}
    (hlast : ∀ n ∈ last, ∀ f ∈ fs, f.stop ≤ n) : appliedFrom last fs = fs := by
  induction fs generalizing last with
  | nil => rfl
  | cons f fs ih =>
    obtain ⟨hf, hfs⟩ := List.pairwise_cons.1 h
    have hno : overlapsLast f last = false := by
      cases last with
      | none => rfl
      | some n => exact decide_eq_false (Nat.not_lt.2 (hlast n rfl f List.mem_cons_self))
    rw [appliedFrom, hno, if_neg Bool.false_ne_true, ih hfs]
    intro n hn g hg
    obtain rfl : f.start = n := Option.some.inj hn
    exact hf g hg

theorem applied_eq_reverse {content : Str} (haccepted : ∀ f ∈ fs, accepted content f = true)
    (hordered : fs.Pairwise fun a b => a.stop ≤ b.start) : applied content fs = fs.reverse := by
  have hstart : fs.Pairwise fun a b => a.start < b.start :=
    hordered.imp_of_mem fun ha _ hab => (accepted_bounds (haccepted _ ha)).1.trans_le hab
  rw [applied, sortedSpans, List.filter_eq_self.2 haccepted, insertionSort_eq_reverse hstart]
  exact appliedFrom_eq_self (List.pairwise_reverse.2 hordered) fun n hn => by cases hn

theorem redactLiteral_of_found (h : Found text 0 text fs) : redactLiteral (encode text) fs [] = encode (visible text) := by
  have haccepted : ∀ f ∈ fs, accepted (encode text) f = true := fun f hf => accepted_of_isRun (h.runs f hf)
  have hassign (s : Unit) (gs : List Finding) :
      (assign (fun _ _ => ([], ())) s gs).1 = gs.map deletion := by
    induction gs with
    | nil => rfl
    | cons g gs ih => exact congrArg (deletion g :: ·) ih
  rw [redactLiteral, walkSpans_eq_assemble, applied_eq_reverse haccepted h.ordered, hassign, List.map_reverse,
    List.reverse_reverse, h.deleted]

theorem classify_ascii (h : c.toNat ≤ 0x7F) : classify c = .plain := by
  have hwide : ∀ n ∈ zeroWidthSingles ++ bidiControls, 0x7F < n := by decide
  have hsingles : c.toNat ∉ zeroWidthSingles := fun hmem => Nat.not_lt.2 h (hwide _ (List.mem_append_left _ hmem))
  have hbidi : c.toNat ∉ bidiControls := fun hmem => Nat.not_lt.2 h (hwide _ (List.mem_append_right _ hmem))
  rw [classify, if_neg (by omega), if_neg (not_or.2 ⟨hsingles, by omega⟩), if_neg hbidi]

theorem clusters_of_plain {n : Nat} (h : ∀ c ∈ text, classify c = .plain) : settings.clusters n none text = [] := by
  induction text generalizing n with
  | nil => rfl
  | cons c text ih =>
    obtain ⟨hc, htext⟩ := List.forall_mem_cons.1 h
    rw [UnicodeStegoSettings.clusters, if_pos hc, ih htext]
    rfl

theorem scan_eq (h : settings.RunsOnly) {mixedScript : List Char → List Finding} :
    settings.scan mixedScript text = settings.clusters 0 none text := by
  have hfound : Found text 0 text (settings.clusters 0 none text) := found_clusters h Scanned.nil
  unfold UnicodeStegoSettings.scan
  split
  · rename_i hascii
    refine (clusters_of_plain fun c hc => classify_ascii ?_).symm
    exact of_decide_eq_true (List.all_eq_true.1 hascii c hc)
  · rw [h.mixedScript, if_neg Bool.false_ne_true, List.append_nil]
    refine List.mergeSort_of_pairwise (hfound.ordered.imp_of_mem fun {a b} ha _ hab => ?_)
    have hlt : a.start < b.start := (accepted_bounds (accepted_of_isRun (hfound.runs a ha))).1.trans_le hab
    rw [compareSpans, compareLex, compareOn, Nat.compare_eq_lt.2 hlt]
    rfl

/-- With every class enabled and no threshold above one character, the findings are maximal runs of one
class, in the order of the text, and without them the text is what it has of plain characters. -/
theorem strip_law (h : settings.RunsOnly) (mixedScript : List Char → List Finding) (text : List Char) :
    redactLiteral (encode text) (settings.scan mixedScript text) [] = encode (text.filter (classify · = .plain)) ∧
      (∀ f ∈ settings.scan mixedScript text, IsRun text f) ∧
      (settings.scan mixedScript text).Pairwise fun a b => a.stop ≤ b.start := by
  have hfound : Found text 0 text (settings.clusters 0 none text) := found_clusters h Scanned.nil
  rw [scan_eq h]
  exact ⟨redactLiteral_of_found hfound, hfound.runs, hfound.ordered⟩

def strict : UnicodeStegoSettings := ⟨true, true, true, false, 1, 0, 1⟩

theorem strict_runsOnly : strict.RunsOnly where
  enabled k hk := by
    cases k with
    | plain => exact absurd rfl hk
    | _ => rfl
  threshold k := by cases k <;> decide
  mixedScript := rfl

theorem strip_law_strict :
    redactLiteral (encode "ig\u200bn\u2066".toList) (strict.scan (fun _ => []) "ig\u200bn\u2066".toList) [] =
        encode ("ig\u200bn\u2066".toList.filter (classify · = .plain)) ∧
      (∀ f ∈ strict.scan (fun _ => []) "ig\u200bn\u2066".toList, IsRun "ig\u200bn\u2066".toList f) ∧
      (strict.scan (fun _ => []) "ig\u200bn\u2066".toList).Pairwise fun a b => a.stop ≤ b.start :=
  strip_law strict_runsOnly _ _

end UnicodeStego

end ObeyGateway.Guardrail
