import Mathlib.Data.Nat.Digits.Defs
import Mathlib.Data.List.Sort
import Mathlib.Logic.Function.Basic
import ObeyGateway.Lib.Splice

/-!
# Placeholders and redaction (`guardrail/pii.rs`)

Texts are their UTF-8 bytes, as the offsets of findings count bytes. `GuardrailContext` is the table of placeholders of
a request. `redact` takes the accepted spans by descending start and skips one that overlaps a span already redacted.
The output is the content with the `applied` spans replaced (`walkSpans_eq_assemble`).
-/

namespace ObeyGateway.Guardrail

open Splice

/-- The bytes of a `str`. -/
abbrev Str := List UInt8

def str (s : String) : Str := s.toUTF8.toList

/-- A byte `10xxxxxx`, in the middle of a character. -/
def isContinuation (b : UInt8) : Bool := 0x80 ≤ b && b < 0xC0

def isCharBoundary (s : Str) (i : Nat) : Bool :=
  match s[i]? with
  | some b => i == 0 || !isContinuation b
  | none => i == s.length

structure Finding where
  entityLabel : Str
  start : Nat
  stop : Nat
deriving DecidableEq, Repr

def isAsciiAlphanumeric (b : UInt8) : Bool :=
  (48 ≤ b && b ≤ 57) || (65 ≤ b && b ≤ 90) || (97 ≤ b && b ≤ 122)

def toAsciiUppercase (b : UInt8) : UInt8 := if 97 ≤ b && b ≤ 122 then b - 32 else b

/-- Letters and digits in upper case, one `_` for every other character. -/
def normalizeEntityType (label : Str) : Str :=
  let normalized := (label.filter (!isContinuation ·)).map fun b =>
    if isAsciiAlphanumeric b then toAsciiUppercase b else 95
  if normalized.isEmpty then str "UNKNOWN" else normalized

def decimal (n : Nat) : Str := (Nat.digits 10 n).reverse.map fun d => UInt8.ofNat (48 + d)

/-- `format!("<<PII_{entity_type}_{seq}>>")` -/
def placeholder (entityType : Str) (seq : Nat) : Str :=
  str "<<PII_" ++ entityType ++ str "_" ++ decimal seq ++ str ">>"

theorem placeholder_eq (entityType : Str) (seq : Nat) : placeholder entityType seq =
    60 :: 60 :: (([80, 73, 73, 95] ++ entityType ++ 95 :: decimal seq) ++ [62, 62]) := by
  have h1 : str "<<PII_" = [60, 60, 80, 73, 73, 95] := by decide +kernel
  have h2 : str "_" = [95] := by decide +kernel
  have h3 : str ">>" = [62, 62] := by decide +kernel
  simp [placeholder, h1, h2, h3]

inductive PlaceholderResult
  | mapped (placeholder : Str)
  | overflow (placeholder : Str)
deriving DecidableEq, Repr

def PlaceholderResult.placeholder : PlaceholderResult → Str
  | .mapped p => p
  | .overflow p => p

structure GuardrailContext where
  reinjectionMap : List (Str × Str)
  nextSequence : Str → Nat
  dedup : Str × Str → Option Str
  maxEntries : Nat
  overflowCount : Nat

namespace GuardrailContext

def withCapacity (maxEntries : Nat) : GuardrailContext where
  reinjectionMap := []
  nextSequence _ := 0
  dedup _ := none
  maxEntries := max 1 (min maxEntries 10000)
  overflowCount := 0

/-- `GuardrailContext::new` -/
def new : GuardrailContext := withCapacity 256

def placeholderFor (ctx : GuardrailContext) (entityLabel value : Str) :
    PlaceholderResult × GuardrailContext :=
  let entityType := normalizeEntityType entityLabel
  match ctx.dedup (entityType, value) with
  | some existing => (.mapped existing, ctx)
  | none =>
    let seq := ctx.nextSequence entityType + 1
    let p := placeholder entityType seq
    let ctx := { ctx with
      nextSequence := Function.update ctx.nextSequence entityType seq
      dedup := Function.update ctx.dedup (entityType, value) (some p) }
    if ctx.maxEntries ≤ ctx.reinjectionMap.length then
      (.overflow p, { ctx with overflowCount := ctx.overflowCount + 1 })
    else (.mapped p, { ctx with reinjectionMap := ctx.reinjectionMap ++ [(p, value)] })

end GuardrailContext

def accepted (content : Str) (f : Finding) : Bool :=
  f.start < f.stop && f.stop ≤ content.length && isCharBoundary content f.start &&
    isCharBoundary content f.stop

/-- The accepted findings by descending start; findings with the same start keep their order. -/
def sortedSpans (content : Str) (findings : List Finding) : List Finding :=
  (findings.filter (accepted content)).insertionSort fun a b => b.start ≤ a.start

/-- The span reaches into the one redacted last; `none` is `usize::MAX`. -/
def overlapsLast (f : Finding) : Option Nat → Bool
  | some lastConsumedStart => lastConsumedStart < f.stop
  | none => false

section
variable {σ : Type}

/-- One turn of the loop: the state that gives the replacement texts, the output so far and
`last_consumed_start`. -/
def walkStep (text : σ → Finding → Str × σ) (s : σ × Str × Option Nat) (f : Finding) :
    σ × Str × Option Nat :=
  if overlapsLast f s.2.2 then s
  else
    let replacement := text s.1 f
    (replacement.2, replaceRange s.2.1 f.start f.stop replacement.1, some f.start)

/-- The loop that `redact`, `redact_literal` and `redact_by_category` have in common. -/
def walkSpans (text : σ → Finding → Str × σ) (s : σ) (content : Str) (findings : List Finding) :
    Str × σ :=
  let r := (sortedSpans content findings).foldl (walkStep text) (s, content, none)
  (r.2.1, r.1)

end

def GuardrailContext.placeholderText (content : Str) (ctx : GuardrailContext) (f : Finding) :
    Str × GuardrailContext :=
  let result := ctx.placeholderFor f.entityLabel (slice content f.start f.stop)
  (result.1.placeholder, result.2)

def GuardrailContext.redact (ctx : GuardrailContext) (content : Str) (findings : List Finding) :
    Str × GuardrailContext :=
  walkSpans (GuardrailContext.placeholderText content) ctx content findings

def redactLiteral (content : Str) (findings : List Finding) (replacement : Str) : Str :=
  (walkSpans (fun (_ : Unit) _ => (replacement, ())) () content findings).1

def redactByCategory (content : Str) (findings : List Finding) : Str :=
  (walkSpans (fun (_ : Unit) f => (str "[REDACTED:" ++ f.entityLabel ++ str "]", ())) () content
    findings).1

/-- `*` for every byte of an in-bounds span; `none` is the panic on an output that is not UTF-8. -/
def mask (content : Str) (findings : List Finding) : Option Str :=
  let masked (i : Nat) := findings.any fun f =>
    f.start < f.stop && f.stop ≤ content.length && f.start ≤ i && i < f.stop
  let out := content.zipIdx.map fun p => if masked p.2 then 42 else p.1
  if out.toByteArray.IsValidUTF8 then some out else none

/-- The spans that the loop redacts, starting from the given `last_consumed_start`. -/
def appliedFrom : Option Nat → List Finding → List Finding
  | _, [] => []
  | last, f :: fs =>
    if overlapsLast f last then appliedFrom last fs else f :: appliedFrom (some f.start) fs

def applied (content : Str) (findings : List Finding) : List Finding :=
  appliedFrom none (sortedSpans content findings)

def assign {σ : Type} (text : σ → Finding → Str × σ) : σ → List Finding → List (Edit UInt8) × σ
  | s, [] => ([], s)
  | s, f :: fs =>
    let rest := assign text (text s f).2 fs
    (⟨f.start, f.stop, (text s f).1⟩ :: rest.1, rest.2)

def SpansDown : Nat → List Finding → Prop
  | _, [] => True
  | bound, f :: fs => f.start ≤ f.stop ∧ f.stop ≤ bound ∧ SpansDown f.start fs

variable {content : Str} {f : Finding}

theorem mem_sortedSpans {findings : List Finding} :
    f ∈ sortedSpans content findings ↔ f ∈ findings ∧ accepted content f = true := by
  simp [sortedSpans, List.mem_insertionSort]

theorem sortedSpans_pairwise (content : Str) (findings : List Finding) :
    (sortedSpans content findings).Pairwise fun a b => b.start ≤ a.start := by
  have : Std.Total fun a b : Finding => b.start ≤ a.start := ⟨fun a b => le_total _ _⟩
  have : IsTrans Finding fun a b => b.start ≤ a.start := ⟨fun a b c h1 h2 => h2.trans h1⟩
  exact List.pairwise_insertionSort _ _

theorem accepted_bounds (h : accepted content f = true) : f.start < f.stop ∧ f.stop ≤ content.length := by
  simp only [accepted, Bool.and_eq_true, decide_eq_true_eq] at h
  exact ⟨h.1.1.1, h.1.1.2⟩

variable {last : Option Nat} {fs : List Finding}

theorem appliedFrom_subset (h : f ∈ appliedFrom last fs) : f ∈ fs := by
  induction fs generalizing last with
  | nil => cases h
  | cons g fs ih =>
    simp only [appliedFrom] at h
    split at h
    · exact List.mem_cons_of_mem _ (ih h)
    · rcases List.mem_cons.1 h with rfl | h
      · exact List.mem_cons_self
      · exact List.mem_cons_of_mem _ (ih h)

theorem mem_of_mem_applied {findings : List Finding}
    (h : f ∈ applied content findings) : f ∈ findings ∧ accepted content f = true :=
  mem_sortedSpans.1 (appliedFrom_subset h)

theorem appliedFrom_down (h : ∀ f ∈ fs, accepted content f = true) :
    SpansDown (last.getD content.length) (appliedFrom last fs) := by
  induction fs generalizing last with
  | nil => trivial
  | cons f fs ih =>
    have hrest := fun f' hf' => h f' (List.mem_cons_of_mem _ hf')
    obtain ⟨hlt, hlen⟩ := accepted_bounds (h f List.mem_cons_self)
    simp only [appliedFrom]
    split
    · exact ih hrest
    · rename_i hno
      have hdown : SpansDown ((some f.start).getD content.length) (appliedFrom (some f.start) fs) :=
        ih hrest
      refine ⟨hlt.le, ?_, hdown⟩
      cases last with
      | none => exact hlen
      | some c => simpa [overlapsLast] using hno

theorem applied_down (content : Str) (findings : List Finding) : SpansDown content.length (applied content findings) := by
  have hdown : SpansDown ((none : Option Nat).getD content.length)
      (appliedFrom none (sortedSpans content findings)) :=
    appliedFrom_down fun _ hf => (mem_sortedSpans.1 hf).2
  exact hdown

theorem exists_applied_of_skipped (hsorted : fs.Pairwise fun a b => b.start ≤ a.start) (hf : f ∈ fs)
    (hno : f ∉ appliedFrom last fs) :
    (∃ c, last = some c ∧ c < f.stop) ∨
      ∃ g ∈ appliedFrom last fs, f.start ≤ g.start ∧ g.start < f.stop := by
  induction fs generalizing last with
  | nil => cases hf
  | cons g fs ih =>
    obtain ⟨hg, hfs⟩ := List.pairwise_cons.1 hsorted
    simp only [appliedFrom] at hno ⊢
    split at hno
    · rename_i hover
      simp only [hover, if_true]
      rcases List.mem_cons.1 hf with rfl | hf
      · cases last with
        | none => cases hover
        | some c => exact .inl ⟨c, rfl, by simpa [overlapsLast] using hover⟩
      · exact ih hfs hf hno
    · rename_i hover
      simp only [hover, if_false, Bool.false_eq_true]
      rw [List.mem_cons, not_or] at hno
      rcases List.mem_cons.1 hf with rfl | hf
      · exact absurd rfl hno.1
      · rcases ih hfs hf hno.2 with ⟨c, hc, hlt⟩ | ⟨g', hg', hle⟩
        · cases hc
          exact .inr ⟨g, List.mem_cons_self, hg f hf, hlt⟩
        · exact .inr ⟨g', List.mem_cons_of_mem _ hg', hle⟩

section
variable {σ : Type} (text : σ → Finding → Str × σ)

theorem assign_descending {bound : Nat} {fs : List Finding} (h : SpansDown bound fs) (s : σ) :
    Descending bound (assign text s fs).1 := by
  induction fs generalizing bound s with
  | nil => trivial
  | cons f fs ih => exact ⟨h.1, h.2.1, ih h.2.2 _⟩

theorem assign_ascending (s : σ) (content : Str) (findings : List Finding) :
    Ascending content.length 0 (assign text s (applied content findings)).1.reverse :=
  (assign_descending text (applied_down content findings) s).reverse

theorem foldl_walkStep (fs : List Finding) (s : σ) (out : Str) (last : Option Nat) :
    (fs.foldl (walkStep text) (s, out, last)).1 = (assign text s (appliedFrom last fs)).2 ∧
      (fs.foldl (walkStep text) (s, out, last)).2.1 =
        (assign text s (appliedFrom last fs)).1.foldl
          (fun out e => replaceRange out e.start e.stop e.text) out := by
  induction fs generalizing s out last with
  | nil => exact ⟨rfl, rfl⟩
  | cons f fs ih =>
    simp only [List.foldl_cons, appliedFrom, walkStep]
    split
    · exact ih s out last
    · exact ih _ _ _

/-- The loop puts the replacements of the applied spans into the content. -/
theorem walkSpans_eq_assemble (s : σ) (content : Str) (findings : List Finding) : walkSpans text s content findings =
      (assemble content 0 (assign text s (applied content findings)).1.reverse,
        (assign text s (applied content findings)).2) := by
  obtain ⟨hstate, hout⟩ := foldl_walkStep text (sortedSpans content findings) s content none
  refine Prod.ext ?_ hstate
  exact hout.trans (foldl_replaceRange (assign_ascending text s content findings))

end

end ObeyGateway.Guardrail
