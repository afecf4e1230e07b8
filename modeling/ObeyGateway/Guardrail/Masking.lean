import ObeyGateway.Guardrail.Pii
import ObeyGateway.Lib.Utf8Overwrite

/-!
# Masking (`guardrail/pii.rs`)

`mask` overwrites the bytes of the in-bounds spans and expects the result to be UTF-8. The offsets of the
Presidio and the custom HTTP provider come from outside and are passed on as they are, so a span may end
inside a character; unless the rest of the character is masked by another one, the call panics
(`mask_law_iff`).
-/

namespace ObeyGateway.Guardrail

open Utf8

def InSpan (content : Str) (findings : List Finding) (i : Nat) : Prop :=
  ∃ f ∈ findings, f.stop ≤ content.length ∧ f.start ≤ i ∧ i < f.stop

instance (content : Str) (findings : List Finding) : DecidablePred (InSpan content findings) :=
  fun i => inferInstanceAs (Decidable (∃ f ∈ findings, f.stop ≤ content.length ∧ f.start ≤ i ∧ i < f.stop))

/-- A text of the same length, with a `*` for every byte of the spans. -/
structure Masked (content : Str) (findings : List Finding) (out : Str) : Prop where
  valid : ∃ text, out = encode text
  length : out.length = content.length
  inside : ∀ i < content.length, InSpan content findings i → out[i]? = some 42
  outside : ∀ i < content.length, ¬ InSpan content findings i → out[i]? = content[i]?

variable {content : Str} {findings : List Finding} {text : List Char}

theorem isValidUTF8_iff (bytes : Str) : bytes.toByteArray.IsValidUTF8 ↔ ∃ text, bytes = encode text := by
  constructor
  · rintro ⟨text, htext⟩
    refine ⟨text, ?_⟩
    have hlist := congrArg (·.data.toList) htext
    simpa [encode, List.utf8Encode] using hlist
  · rintro ⟨text, rfl⟩
    exact ⟨text, rfl⟩

theorem mask_eq_some_iff {out : Str} : mask content findings = some out ↔
    out = overwrite 42 (InSpan content findings) 0 content ∧ ∃ text, out = encode text := by
  have hout : (content.zipIdx.map fun p => if (findings.any fun f => decide (f.start < f.stop) &&
      decide (f.stop ≤ content.length) && decide (f.start ≤ p.2) && decide (p.2 < f.stop)) = true then 42 else p.1) =
      overwrite 42 (InSpan content findings) 0 content := by
    refine List.map_congr_left fun p _ => ?_
    congr 1
    simp only [List.any_eq_true, Bool.and_eq_true, decide_eq_true_eq, InSpan, eq_iff_iff]
    refine exists_congr fun f => and_congr_right fun _ => ?_
    omega
  unfold mask
  dsimp only
  rw [hout]
  split
  · rename_i hvalid
    constructor
    · intro h
      obtain rfl := Option.some.inj h
      exact ⟨rfl, (isValidUTF8_iff _).1 hvalid⟩
    · rintro ⟨rfl, -⟩
      rfl
  · rename_i hvalid
    constructor
    · intro h
      cases h
    · rintro ⟨rfl, htext⟩
      exact absurd ((isValidUTF8_iff _).2 htext) hvalid

/-- `mask` returns what it is to return exactly when the spans cover each character as a whole or not at all;
else it panics. -/
theorem mask_law_iff (text : List Char) (findings : List Finding) :
    (∃ out, mask (encode text) findings = some out ∧ Masked (encode text) findings out) ↔
      Uniform (InSpan (encode text) findings) 0 text := by
  have hstar : String.utf8EncodeChar '*' = [42] := by decide
  rw [← overwrite_valid_iff hstar]
  constructor
  · rintro ⟨out, hmask, -⟩
    obtain ⟨rfl, hvalid⟩ := mask_eq_some_iff.1 hmask
    exact hvalid
  · intro hvalid
    refine ⟨_, mask_eq_some_iff.2 ⟨rfl, hvalid⟩, hvalid, length_overwrite, fun i hi hin => ?_, fun i hi hout => ?_⟩
    · rw [getElem?_overwrite, Nat.zero_add, if_pos hin, List.getElem?_eq_getElem hi]
      rfl
    · rw [getElem?_overwrite, Nat.zero_add, if_neg hout]

/-- The second byte of a character of two. -/
theorem split_character_panics : ¬ ∀ (text : List Char) (findings : List Finding),
    ∃ out, mask (encode text) findings = some out ∧ Masked (encode text) findings out := by
  intro h
  obtain ⟨out, hmask, -⟩ := h ['é'] [⟨str "PERSON", 1, 2⟩]
  have hnone : mask (encode ['é']) [⟨str "PERSON", 1, 2⟩] = none := by decide +kernel
  rw [hnone] at hmask
  cases hmask

end ObeyGateway.Guardrail
