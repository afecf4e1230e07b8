import ObeyGateway.Lib.Utf8

/-!
# Buffering a stream (`guardrail/stream.rs`)

The chunks of an upstream body are decoded one by one and collected under a cap; the handler stops at the
first one that does not fit. The buffered text is the body when no chunk begins inside a character. Cutting
one only makes the text longer, so a body above the cap is refused in any case (`buffering_law_iff`).
-/

namespace ObeyGateway.Guardrail

open Utf8

inductive BufferError
  | tooLarge
deriving DecidableEq

/-- `str::len` -/
def byteLength (text : List Char) : Nat := (encode text).length

/-- `append_within_cap`: the buffer afterwards and the result. -/
def appendWithinCap (buffer chunk : List Char) (cap : Nat) : List Char × Except BufferError Unit :=
  if cap < byteLength buffer + byteLength chunk then (buffer, .error .tooLarge) else (buffer ++ chunk, .ok ())

structure SseBuffer where
  body : List Char
  cap : Nat
deriving DecidableEq

namespace SseBuffer

def new (cap : Nat) : SseBuffer := ⟨[], cap⟩

def pushBytes (b : SseBuffer) (bytes : List UInt8) : SseBuffer × Except BufferError Unit :=
  let (body, result) := appendWithinCap b.body (lossy bytes) b.cap
  ({ b with body }, result)

/-- The handler pushes the chunks as they come and aborts the stream at the first error. -/
def pushAll (b : SseBuffer) : List (List UInt8) → SseBuffer × Except BufferError Unit
  | [] => (b, .ok ())
  | chunk :: chunks =>
    match b.pushBytes chunk with
    | (b, .ok ()) => b.pushAll chunks
    | (b, .error e) => (b, .error e)

/-- What is buffered of a body that comes in chunks: the body, unless it is above the cap. -/
structure BufferingLaw (cap : Nat) (text : List Char) (chunks : List (List UInt8)) : Prop where
  overflow : ((new cap).pushAll chunks).2 = .error .tooLarge ↔ cap < byteLength text
  body : ((new cap).pushAll chunks).2 = .ok () → ((new cap).pushAll chunks).1.body = text
  unchanged : ∀ b bytes e, (pushBytes b bytes).2 = .error e → (pushBytes b bytes).1 = b

variable {b : SseBuffer} {bytes : List UInt8} {chunks : List (List UInt8)} {text : List Char} {cap : Nat}

theorem byteLength_append (text more : List Char) : byteLength (text ++ more) = byteLength text + byteLength more := by
  rw [byteLength, encode, List.flatMap_append, List.length_append]
  rfl

theorem pushBytes_of_fits (h : byteLength b.body + byteLength (lossy bytes) ≤ b.cap) :
    b.pushBytes bytes = ({ b with body := b.body ++ lossy bytes }, .ok ()) := by
  rw [pushBytes, appendWithinCap, if_neg (Nat.not_lt.2 h)]

theorem pushBytes_of_overflow (h : b.cap < byteLength b.body + byteLength (lossy bytes)) :
    b.pushBytes bytes = (b, .error .tooLarge) := by
  rw [pushBytes, appendWithinCap, if_pos h]

theorem pushBytes_error {e : BufferError} (h : (b.pushBytes bytes).2 = .error e) : (b.pushBytes bytes).1 = b := by
  by_cases hfits : byteLength b.body + byteLength (lossy bytes) ≤ b.cap
  · rw [pushBytes_of_fits hfits] at h
    cases h
  · rw [pushBytes_of_overflow (Nat.lt_of_not_le hfits)]

theorem pushAll_of_fits (h : byteLength b.body + byteLength (chunks.flatMap lossy) ≤ b.cap) :
    b.pushAll chunks = ({ b with body := b.body ++ chunks.flatMap lossy }, .ok ()) := by
  induction chunks generalizing b with
  | nil => rw [pushAll, List.flatMap_nil, List.append_nil]
  | cons chunk chunks ih =>
    rw [List.flatMap_cons, byteLength_append] at h
    rw [pushAll, pushBytes_of_fits (by omega), List.flatMap_cons, ← List.append_assoc]
    refine ih ?_
    rw [byteLength_append]
    dsimp only
    omega

theorem pushAll_of_overflow (hb : byteLength b.body ≤ b.cap)
    (h : b.cap < byteLength b.body + byteLength (chunks.flatMap lossy)) : (b.pushAll chunks).2 = .error .tooLarge := by
  induction chunks generalizing b with
  | nil =>
    rw [List.flatMap_nil] at h
    exact absurd hb (Nat.not_le.2 h)
  | cons chunk chunks ih =>
    rw [List.flatMap_cons, byteLength_append] at h
    by_cases hfits : byteLength b.body + byteLength (lossy chunk) ≤ b.cap
    · rw [pushAll, pushBytes_of_fits hfits]
      refine ih (by rw [byteLength_append]; exact hfits) ?_
      rw [byteLength_append]
      dsimp only
      omega
    · rw [pushAll, pushBytes_of_overflow (Nat.lt_of_not_le hfits)]

theorem pushAll_error_iff : ((new cap).pushAll chunks).2 = .error .tooLarge ↔ cap < byteLength (chunks.flatMap lossy) := by
  have hempty : byteLength (new cap).body = 0 := rfl
  constructor
  · intro h
    by_contra hfits
    rw [pushAll_of_fits (by rw [hempty, Nat.zero_add]; exact Nat.le_of_not_lt hfits)] at h
    cases h
  · intro h
    exact pushAll_of_overflow (Nat.zero_le _) (by rw [hempty, Nat.zero_add]; exact h)

theorem byteLength_le_of_blur {out : List Char} (h : Blur text out) : byteLength text ≤ byteLength out := by
  induction h with
  | nil => exact Nat.le_refl _
  | keep c _ ih =>
    rw [byteLength, byteLength, encode_cons, encode_cons, List.length_append, List.length_append]
    exact Nat.add_le_add_left ih _
  | @lost c _ n _ _ _ ih =>
    have hchar : (String.utf8EncodeChar c).length ≤ 4 := by
      rw [String.length_utf8EncodeChar]
      exact c.utf8Size_le_four
    have hlost : 6 ≤ byteLength (List.replicate (n + 2) replacement) := by
      rw [List.replicate_succ, List.replicate_succ]
      show 6 ≤ byteLength ([replacement, replacement] ++ _)
      rw [byteLength_append]
      exact Nat.le_add_right _ _
    rw [byteLength_append, byteLength, encode_cons, List.length_append, ← byteLength]
    omega

/-- The buffer holds the body exactly when no chunk begins inside a character; a body above the cap is
refused however it is cut. -/
theorem buffering_law_iff (htext : chunks.flatten = encode text) :
    BufferingLaw cap text chunks ↔ Aligned chunks ∨ cap < byteLength text := by
  have hlonger : byteLength text ≤ byteLength (chunks.flatMap lossy) :=
    byteLength_le_of_blur (blur_flatMap_lossy htext)
  constructor
  · intro h
    by_cases hlong : cap < byteLength text
    · exact .inr hlong
    · -- nothing overflows, so what is decoded is the body
      have hfits : byteLength (chunks.flatMap lossy) ≤ cap :=
        Nat.le_of_not_lt fun hover => hlong (h.overflow.1 (pushAll_error_iff.2 hover))
      have hall : (new cap).pushAll chunks = (⟨chunks.flatMap lossy, cap⟩, .ok ()) :=
        pushAll_of_fits (by
          rw [show byteLength (new cap).body = 0 from rfl, Nat.zero_add]
          exact hfits)
      have hbody := h.body (by rw [hall])
      rw [hall] at hbody
      exact .inl ((flatMap_lossy_eq_iff htext).1 hbody)
  · intro h
    refine ⟨⟨fun herror => ?_, fun hlong => ?_⟩, fun hok => ?_, fun b bytes e => pushBytes_error⟩
    · have hover := pushAll_error_iff.1 herror
      rcases h with haligned | hlong
      · rwa [flatMap_lossy haligned htext] at hover
      · exact hlong
    · exact pushAll_error_iff.2 (Nat.lt_of_lt_of_le hlong hlonger)
    · have hfits : byteLength (chunks.flatMap lossy) ≤ cap := by
        by_contra hover
        rw [pushAll_error_iff.2 (Nat.lt_of_not_le hover)] at hok
        cases hok
      rcases h with haligned | hlong
      · rw [pushAll_of_fits (b := new cap) (by rwa [show byteLength (new cap).body = 0 from rfl, Nat.zero_add])]
        exact flatMap_lossy haligned htext
      · omega

theorem buffering_law_iff_aligned : BufferingLaw 16 ['a', 'é'] [[0x61], [0xC3, 0xA9]] ↔
      Aligned [[0x61], [0xC3, 0xA9]] ∨ 16 < byteLength ['a', 'é'] :=
  buffering_law_iff rfl

/-- A chunk ends inside a character of two bytes. -/
theorem cut_character_buffered : ¬ ∀ (cap : Nat) (text : List Char) (chunks : List (List UInt8)),
    chunks.flatten = encode text → BufferingLaw cap text chunks := by
  intro h
  have hbody := (h 16 ['é'] [[0xC3], [0xA9]] rfl).body rfl
  exact absurd hbody (by decide)

end SseBuffer

end ObeyGateway.Guardrail
