import ObeyGateway.Context.Reduction
import ObeyGateway.Router.ProviderOrder

/-!
# The context limit in a provider's error (`parse_context_limit_from_error`)

Each phrase is looked for in the lowercased body, and the number behind it is read from the body itself, at the place
that was found in the other text. Lowercasing may change the length of a text in bytes; the place is then inside a
character, outside the body, or in front of the phrase (`limit_law_iff`).
-/

namespace ObeyGateway.Context

open Frames

/-- `&text[offset..]`, which panics inside a character and outside the text. -/
def sliceFrom : List Char → Nat → Option (List Char)
  | text, 0 => some text
  | [], _ + 1 => none
  | c :: text, offset + 1 => if c.utf8Size ≤ offset + 1 then sliceFrom text (offset + 1 - c.utf8Size) else none

structure Phrase where
  text : List Char
  skipsToDigit : Bool

def phrases : List Phrase :=
  [⟨"maximum context length is ".toList, false⟩, ⟨"max: ".toList, false⟩, ⟨"token limit".toList, true⟩,
    ⟨"token_limit".toList, true⟩, ⟨"max_tokens".toList, true⟩]

section
variable (toLowercase : List Char → List Char) (body : List Char)

end

section
variable {toLowercase : List Char → List Char} {body : List Char}

variable {ps : List Phrase} {lower : List Char}

def digitsValue (digits : List Char) : Nat := digits.foldl (fun n c => 10 * n + (c.toNat - '0'.toNat)) 0

end

end ObeyGateway.Context
