import Mathlib.Data.List.Infix

/-!
# Texts

What `str::trim`, `str::lines`, `str::contains` and `str::to_ascii_lowercase` do to the characters of a text.
-/

namespace Text

/-- The characters with the property `White_Space`. -/
def isWhitespace (c : Char) : Bool :=
  let n := c.toNat
  (9 ≤ n && n ≤ 13) || n = 32 || n = 0x85 || n = 0xa0 || n = 0x1680 || (0x2000 ≤ n && n ≤ 0x200a) ||
    n = 0x2028 || n = 0x2029 || n = 0x202f || n = 0x205f || n = 0x3000

def trimStart (text : List Char) : List Char := text.dropWhile isWhitespace

def trimEnd (text : List Char) : List Char := (text.reverse.dropWhile isWhitespace).reverse

def trim (text : List Char) : List Char := trimEnd (trimStart text)

def contains (text : List Char) (pattern : String) : Bool := decide (pattern.toList <:+: text)

def toAsciiLowercase (text : List Char) : List Char := text.map Char.toLower

def stripPrefix (pattern : String) (text : List Char) : Option (List Char) :=
  if pattern.toList <+: text then some (text.drop pattern.toList.length) else none

/-- A carriage return in front of a line feed belongs to the line ending. -/
def stripCr (line : List Char) : List Char := if line.getLast? = some '\r' then line.dropLast else line

/-- The lines behind `current`, the line that is being read. -/
def linesFrom : (current : List Char) → List Char → List (List Char)
  | current, [] => if current = [] then [] else [current]
  | current, c :: text =>
    if c = '\n' then stripCr current :: linesFrom [] text else linesFrom (current ++ [c]) text

def lines (text : List Char) : List (List Char) := linesFrom [] text

variable {text : List Char}

@[simp] theorem contains_iff {pattern : String} :
    contains text pattern = true ↔ pattern.toList <:+: text := decide_eq_true_iff

@[simp] theorem toAsciiLowercase_append (xs ys : List Char) :
    toAsciiLowercase (xs ++ ys) = toAsciiLowercase xs ++ toAsciiLowercase ys := List.map_append

theorem eq_nil_of_prefix_cons {α : Type*} {w ys : List α} {c : α} (hc : c ∉ w) (h : w <+: c :: ys) : w = [] := by
  rcases List.prefix_cons_iff.1 h with rfl | ⟨t, rfl, -⟩
  · rfl
  · exact absurd List.mem_cons_self hc

theorem infix_append_cons_iff {α : Type*} {w xs ys : List α} {c : α} (hc : c ∉ w) :
    w <:+: xs ++ c :: ys ↔ w <:+: xs ∨ w <:+: ys := by
  rw [List.infix_append_iff_ne_nil, List.infix_cons_iff]
  constructor
  · rintro (h | (h | h) | ⟨w₁, w₂, -, hne, rfl, -, hw₂⟩)
    · exact .inl h
    · exact .inr (eq_nil_of_prefix_cons hc h ▸ List.nil_infix)
    · exact .inr h
    · exact absurd (eq_nil_of_prefix_cons (fun h => hc (List.mem_append_right _ h)) hw₂) hne
  · rintro (h | h)
    · exact .inl h
    · exact .inr (.inl (.inr h))

theorem trimStart_eq_self (h : ∀ c ∈ text.head?, isWhitespace c = false) : trimStart text = text := by
  cases text with
  | nil => rfl
  | cons c text => simp [trimStart, h c rfl]

theorem trimEnd_eq_self (h : ∀ c ∈ text.getLast?, isWhitespace c = false) : trimEnd text = text := by
  have hrev : trimStart text.reverse = text.reverse := trimStart_eq_self (by simpa using h)
  rw [trimStart] at hrev
  rw [trimEnd, hrev, List.reverse_reverse]

theorem trim_eq_self (hfirst : ∀ c ∈ text.head?, isWhitespace c = false)
    (hlast : ∀ c ∈ text.getLast?, isWhitespace c = false) : trim text = text := by
  rw [trim, trimStart_eq_self hfirst, trimEnd_eq_self hlast]

theorem trimStart_cons {c : Char} (hc : isWhitespace c = true) (text : List Char) :
    trimStart (c :: text) = trimStart text := by
  simp [trimStart, hc]

theorem trimEnd_append_singleton {c : Char} (hc : isWhitespace c = true) (text : List Char) :
    trimEnd (text ++ [c]) = trimEnd text := by
  simp [trimEnd, hc]

theorem trim_append_singleton {c : Char} (hc : isWhitespace c = true) (text : List Char) :
    trim (text ++ [c]) = trim text := by
  induction text with
  | nil => simp [trim, trimStart, trimEnd, hc]
  | cons d text ih =>
    cases hd : isWhitespace d with
    | true =>
      rw [List.cons_append, trim, trim, trimStart_cons hd, trimStart_cons hd]
      exact ih
    | false =>
      rw [List.cons_append, trim, trim, trimStart_eq_self (by simpa using hd), trimStart_eq_self (by simpa using hd),
        ← List.cons_append, trimEnd_append_singleton hc]

theorem trim_stripCr (line : List Char) : trim (stripCr line) = trim line := by
  unfold stripCr
  split
  · rename_i h
    obtain ⟨init, rfl⟩ : ∃ init, line = init ++ ['\r'] := by
      rcases List.eq_nil_or_concat line with rfl | ⟨init, c, rfl⟩
      · simp at h
      · exact ⟨init, by simpa using h⟩
    rw [List.dropLast_concat, trim_append_singleton (by decide)]
  · rfl

variable {line : List Char}

theorem linesFrom_append (h : '\n' ∉ line) (current rest : List Char) :
    linesFrom current (line ++ '\n' :: rest) = stripCr (current ++ line) :: lines rest := by
  induction line generalizing current with
  | nil => simp [linesFrom, lines]
  | cons c line ih =>
    obtain ⟨hc, hline⟩ : '\n' ≠ c ∧ '\n' ∉ line := by simpa using h
    rw [List.cons_append, linesFrom, if_neg hc.symm, ih hline, List.append_assoc, List.singleton_append]

theorem lines_append (h : '\n' ∉ line) (rest : List Char) :
    lines (line ++ '\n' :: rest) = stripCr line :: lines rest := linesFrom_append h [] rest

theorem linesFrom_unterminated (h : '\n' ∉ line) (current : List Char) :
    linesFrom current line = if current ++ line = [] then [] else [current ++ line] := by
  induction line generalizing current with
  | nil => simp [linesFrom]
  | cons c line ih =>
    obtain ⟨hc, hline⟩ : '\n' ≠ c ∧ '\n' ∉ line := by simpa using h
    rw [linesFrom, if_neg hc.symm, ih hline, List.append_assoc, List.singleton_append]

theorem lines_unterminated (h : '\n' ∉ line) : lines line = if line = [] then [] else [line] :=
  linesFrom_unterminated h []

end Text
