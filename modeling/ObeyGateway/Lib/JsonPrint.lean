import ObeyGateway.Lib.Json

/-!
# Printing JSON

The compact text of a value, as `serde_json` writes it. How a number is printed is a parameter
(`NumberText`): different numbers have different texts, made of the characters of a number. A text is
read back from the left: what follows a value in a longer text begins with a comma or a closing bracket
(`Stops`) (`print_unique`), and two values with the same text are equal.
-/

namespace Json

def quote : Char := Char.ofNat 34
def backslash : Char := Char.ofNat 92
def openBrace : Char := Char.ofNat 123
def closeBrace : Char := Char.ofNat 125

/-! ### Strings -/

def hexDigits : List Char := "0123456789abcdef".toList

/-- The characters with an escape of their own: quote, backslash, and five of the control characters. -/
def shortEscapes : List (Char × Char) :=
  [(quote, quote), (backslash, backslash), (Char.ofNat 8, 'b'), (Char.ofNat 12, 'f'),
    (Char.ofNat 10, 'n'), (Char.ofNat 13, 'r'), (Char.ofNat 9, 't')]

def escapeChar (c : Char) : List Char :=
  match Assoc.get shortEscapes c with
  | some e => [backslash, e]
  | none =>
    if c.toNat < 32 then
      [backslash, 'u', '0', '0', hexDigits.getD (c.toNat / 16) '0', hexDigits.getD (c.toNat % 16) '0']
    else [c]

def printString (s : String) : List Char := quote :: s.toList.flatMap escapeChar ++ [quote]

def decodeChar : List Char → Option (Char × List Char)
  | [] => none
  | c :: text =>
    if c = backslash then
      match text with
      | [] => none
      | e :: text =>
        match shortEscapes.find? (·.2 = e), text with
        | some entry, _ => some (entry.1, text)
        | none, _ :: _ :: x :: y :: text =>
          some (Char.ofNat (16 * hexDigits.idxOf x + hexDigits.idxOf y), text)
        | none, _ => none
    else some (c, text)

theorem decodeChar_escapeChar (c : Char) (r : List Char) : decodeChar (escapeChar c ++ r) = some (c, r) := by
  cases h : Assoc.get shortEscapes c with
  | some e =>
    have hmem := Assoc.mem_of_get h
    have hall : ∀ p ∈ shortEscapes, shortEscapes.find? (·.2 = p.2) = some p := by decide
    simp only [escapeChar, h, List.cons_append, List.nil_append, decodeChar, if_true]
    rw [hall _ hmem]
  | none =>
    simp only [escapeChar, h]
    split
    · rename_i hlt
      have hhex : ∀ d < 16, hexDigits.idxOf (hexDigits.getD d '0') = d := by decide
      have hu : shortEscapes.find? (·.2 = 'u') = none := by decide
      have hc : Char.ofNat (16 * (c.toNat / 16) + c.toNat % 16) = c := by
        rw [Nat.div_add_mod]
        exact Char.ofNat_toNat c
      simp only [List.cons_append, List.nil_append, decodeChar, if_true, hu]
      rw [hhex _ (by omega), hhex _ (by omega), hc]
    · have hne : c ≠ backslash := by
        rintro rfl
        exact absurd h (by decide)
      simp [decodeChar, hne]

theorem escapeChar_ne_quote (c : Char) : ∃ a t, escapeChar c = a :: t ∧ a ≠ quote := by
  have hne : backslash ≠ quote := by decide
  cases h : Assoc.get shortEscapes c with
  | some e => exact ⟨backslash, [e], by simp [escapeChar, h], hne⟩
  | none =>
    by_cases hlt : c.toNat < 32
    · simp only [escapeChar, h, hlt, if_true]
      exact ⟨backslash, _, rfl, hne⟩
    · refine ⟨c, [], by simp [escapeChar, h, hlt], ?_⟩
      rintro rfl
      exact absurd h (by decide)

def escapeTails : List Char := shortEscapes.map (·.2) ++ 'u' :: hexDigits

theorem escapeChar_cases (c : Char) :
    escapeChar c = [c] ∨ ∃ t, escapeChar c = backslash :: t ∧ ∀ d ∈ t, d ∈ escapeTails := by
  have hhex : ∀ n, hexDigits.getD n '0' ∈ escapeTails := by
    intro n
    rw [List.getD_eq_getElem?_getD]
    cases hd : hexDigits[n]? with
    | none => decide
    | some d => exact List.mem_append_right _ (List.mem_cons_of_mem _ (List.mem_of_getElem? hd))
  cases h : Assoc.get shortEscapes c with
  | some e =>
    refine .inr ⟨[e], by simp [escapeChar, h], ?_⟩
    intro d hd
    rw [List.mem_singleton.1 hd]
    exact List.mem_append_left _ (List.mem_map.2 ⟨_, Assoc.mem_of_get h, rfl⟩)
  | none =>
    by_cases hlt : c.toNat < 32
    · have hconst : 'u' ∈ escapeTails ∧ '0' ∈ escapeTails := by decide
      have hescape : escapeChar c = backslash ::
          ['u', '0', '0', hexDigits.getD (c.toNat / 16) '0', hexDigits.getD (c.toNat % 16) '0'] := by
        simp only [escapeChar, h, hlt, if_true]
      refine .inr ⟨_, hescape, ?_⟩
      simp only [List.forall_mem_cons]
      exact ⟨hconst.1, hconst.2, hconst.2, hhex _, hhex _, by simp⟩
    · exact .inl (by simp [escapeChar, h, hlt])

theorem prefix_of_prefix_escape {w cs : List Char} (hw : backslash ∉ w) (h : w <+: cs.flatMap escapeChar) : w <+: cs := by
  induction cs generalizing w with
  | nil => exact h
  | cons c cs ih =>
    rcases w with _ | ⟨d, w⟩
    · exact List.nil_prefix
    obtain ⟨hd, hw⟩ : backslash ≠ d ∧ backslash ∉ w := by simpa using hw
    rw [List.flatMap_cons] at h
    rcases escapeChar_cases c with hc | ⟨t, hc, -⟩
    · rw [hc] at h
      obtain ⟨rfl, htail⟩ := List.cons_prefix_cons.1 h
      exact List.cons_prefix_cons.2 ⟨rfl, ih hw htail⟩
    · rw [hc] at h
      exact absurd (List.cons_prefix_cons.1 h).1.symm hd

theorem infix_of_infix_append {w xs ys : List Char} {c : Char} (hc : c ∉ xs) (h : c :: w <:+: xs ++ ys) :
    c :: w <:+: ys := by
  induction xs with
  | nil => exact h
  | cons x xs ih =>
    obtain ⟨hx, hxs⟩ : c ≠ x ∧ c ∉ xs := by simpa using hc
    rcases List.infix_cons_iff.1 h with hp | hi
    · exact absurd (List.cons_prefix_cons.1 hp).1 hx
    · exact ih hxs hi

theorem infix_of_infix_escape {w cs : List Char} {c : Char} (hc : c ∉ backslash :: escapeTails) (hw : backslash ∉ w)
    (h : c :: w <:+: cs.flatMap escapeChar) : c :: w <:+: cs := by
  obtain ⟨hback, htails⟩ : c ≠ backslash ∧ c ∉ escapeTails := by simpa using hc
  induction cs with
  | nil => exact h
  | cons d cs ih =>
    rw [List.flatMap_cons] at h
    rcases escapeChar_cases d with hd | ⟨t, hd, ht⟩
    · rw [hd] at h
      rcases List.infix_cons_iff.1 h with hp | hi
      · obtain ⟨rfl, htail⟩ := List.cons_prefix_cons.1 hp
        exact (List.cons_prefix_cons.2 ⟨rfl, prefix_of_prefix_escape hw htail⟩).isInfix
      · exact (ih hi).trans (List.suffix_cons d cs).isInfix
    · rw [hd] at h
      have hnot : c ∉ backslash :: t := by
        intro hmem
        rcases List.mem_cons.1 hmem with rfl | hmem
        · exact hback rfl
        · exact htails (ht c hmem)
      exact (ih (infix_of_infix_append hnot h)).trans (List.suffix_cons d cs).isInfix

theorem escape_unique {cs ds r r' : List Char}
    (h : cs.flatMap escapeChar ++ quote :: r = ds.flatMap escapeChar ++ quote :: r') :
    cs = ds ∧ r = r' := by
  induction cs generalizing ds with
  | nil =>
    rcases ds with _ | ⟨d, ds⟩
    · exact ⟨rfl, (List.cons.inj h).2⟩
    obtain ⟨a, t, ha, hne⟩ := escapeChar_ne_quote d
    rw [List.flatMap_cons, ha] at h
    exact absurd (List.cons.inj h).1.symm hne
  | cons c cs ih =>
    rcases ds with _ | ⟨d, ds⟩
    · obtain ⟨a, t, ha, hne⟩ := escapeChar_ne_quote c
      rw [List.flatMap_cons, ha] at h
      exact absurd (List.cons.inj h).1 hne
    have hdecode := congrArg decodeChar h
    rw [List.flatMap_cons, List.flatMap_cons, List.append_assoc, List.append_assoc,
      decodeChar_escapeChar, decodeChar_escapeChar] at hdecode
    obtain ⟨rfl, hrest⟩ := Prod.mk.inj (Option.some.inj hdecode)
    obtain ⟨rfl, hr⟩ := ih hrest
    exact ⟨rfl, hr⟩

theorem printString_unique {s t : String} {r r' : List Char}
    (h : printString s ++ r = printString t ++ r') : s = t ∧ r = r' := by
  simp only [printString, List.cons_append, List.append_assoc, List.nil_append] at h
  obtain ⟨hs, hr⟩ := escape_unique (List.cons.inj h).2
  exact ⟨String.toList_inj.1 hs, hr⟩

def numberChars : List Char := "0123456789+-.eE".toList

structure NumberText where
  print : Number → List Char
  injective : ∀ m n, print m = print n → m = n
  ne_nil : ∀ n, print n ≠ []
  chars : ∀ n, ∀ c ∈ print n, c ∈ numberChars

def commaJoin : List (List Char) → List Char
  | [] => []
  | text :: texts => text ++ texts.flatMap (',' :: ·)

def printField (f : String × List Char) : List Char := printString f.1 ++ ':' :: f.2

def printAlg (numbers : NumberText) : Alg (List Char) where
  null := "null".toList
  bool b := if b then "true".toList else "false".toList
  number := numbers.print
  string := printString
  array texts := '[' :: commaJoin texts ++ [']']
  object fields := openBrace :: commaJoin (fields.map printField) ++ [closeBrace]

/-- `serde_json::to_string` -/
def print (numbers : NumberText) : Json → List Char := fold (printAlg numbers)

def Stops (r : List Char) : Prop := ∀ c ∈ r.head?, c = ',' ∨ c = ']' ∨ c = closeBrace

def kindOf (c : Char) : Nat :=
  if c = 'n' then 0 else if c = 't' then 1 else if c = 'f' then 2 else if c = quote then 3
  else if c = '[' then 4 else if c = openBrace then 5 else if c ∈ numberChars then 6 else 7

def kind : Json → Nat
  | .null => 0
  | .bool true => 1
  | .bool false => 2
  | .string _ => 3
  | .array _ => 4
  | .object _ => 5
  | .number _ => 6

section
variable {numbers : NumberText}

theorem print_head (v : Json) : ∃ c t, print numbers v = c :: t ∧ kindOf c = v.kind := by
  cases v with
  | null => exact ⟨'n', _, rfl, by decide⟩
  | bool b => cases b <;> exact ⟨_, _, rfl, by decide⟩
  | number n =>
    rcases hp : numbers.print n with _ | ⟨c, t⟩
    · exact absurd hp (numbers.ne_nil n)
    have hkinds : numberChars.all (kindOf · = 6) = true := by decide
    have hc : c ∈ numberChars := numbers.chars n c (hp ▸ List.mem_cons_self)
    exact ⟨c, t, hp, of_decide_eq_true (List.all_eq_true.1 hkinds c hc)⟩
  | string s => exact ⟨quote, _, rfl, (by decide : kindOf quote = 3)⟩
  | array items => exact ⟨'[', _, fold_array _ _, (by decide : kindOf '[' = 4)⟩
  | object fields => exact ⟨openBrace, _, fold_object _ _, (by decide : kindOf openBrace = 5)⟩

theorem kind_eq_of_print {v w : Json} {r r' : List Char}
    (h : print numbers v ++ r = print numbers w ++ r') : v.kind = w.kind := by
  obtain ⟨c, t, hc, hk⟩ := @print_head numbers v
  obtain ⟨d, u, hd, hk'⟩ := @print_head numbers w
  rw [hc, hd] at h
  rw [← hk, ← hk', (List.cons.inj h).1]

theorem takeWhile_stops {r : List Char} (h : Stops r) : r.takeWhile (· ∈ numberChars) = [] := by
  rcases r with _ | ⟨c, r⟩
  · rfl
  have hno : c ∉ numberChars := by
    rcases h c rfl with rfl | rfl | rfl <;> decide
  exact List.takeWhile_cons_of_neg (by simpa using hno)

theorem number_unique {m n : Number} {r r' : List Char} (hr : Stops r) (hr' : Stops r')
    (h : numbers.print m ++ r = numbers.print n ++ r') : m = n ∧ r = r' := by
  have htake : ∀ (n : Number) {r : List Char}, Stops r →
      (numbers.print n ++ r).takeWhile (· ∈ numberChars) = numbers.print n := by
    intro n r hr
    rw [List.takeWhile_append_of_pos fun c hc => by simpa using numbers.chars n c hc,
      takeWhile_stops hr, List.append_nil]
  have htext : numbers.print m = numbers.print n := by rw [← htake m hr, h, htake n hr']
  rw [htext] at h
  exact ⟨numbers.injective m n htext, List.append_cancel_left h⟩

section
variable {β : Type} {text : β → List Char} {close : Char}

/-- The text of `b` ends where it ends, whatever follows. -/
def Unique (text : β → List Char) (b : β) : Prop :=
  ∀ b' r r', Stops r → Stops r' → text b ++ r = text b' ++ r' → b = b' ∧ r = r'

theorem stops_tail (hclose : close = ']' ∨ close = closeBrace) (bs : List β) (r : List Char) :
    Stops (bs.flatMap (fun b => ',' :: text b) ++ close :: r) := by
  intro c hc
  rcases bs with _ | ⟨b, bs⟩
  · cases hc
    exact .inr hclose
  cases hc
  exact .inl rfl

theorem tail_unique (hclose : close = ']' ∨ close = closeBrace) {bs bs' : List β} {r r' : List Char}
    (hb : ∀ b ∈ bs, Unique text b)
    (h : bs.flatMap (fun b => ',' :: text b) ++ close :: r =
      bs'.flatMap (fun b => ',' :: text b) ++ close :: r') : bs = bs' ∧ r = r' := by
  have hcomma : close ≠ ',' := by rcases hclose with rfl | rfl <;> decide
  induction bs generalizing bs' with
  | nil =>
    cases bs' with
    | nil => exact ⟨rfl, (List.cons.inj h).2⟩
    | cons b' bs' => exact absurd (List.cons.inj h).1 hcomma
  | cons b bs ih =>
    rcases bs' with _ | ⟨b', bs'⟩
    · exact absurd (List.cons.inj h).1.symm hcomma
    simp only [List.flatMap_cons, List.cons_append, List.append_assoc, List.cons.injEq,
      true_and] at h
    obtain ⟨rfl, hrest⟩ := hb b List.mem_cons_self b' _ _ (stops_tail hclose bs r)
      (stops_tail hclose bs' r') h
    obtain ⟨rfl, hr⟩ := ih (fun b hb' => hb b (List.mem_cons_of_mem _ hb')) hrest
    exact ⟨rfl, hr⟩

theorem commaJoin_unique (hclose : close = ']' ∨ close = closeBrace)
    (hhead : ∀ b, ∃ c t, text b = c :: t ∧ c ≠ close) {bs bs' : List β} {r r' : List Char}
    (hb : ∀ b ∈ bs, Unique text b)
    (h : commaJoin (bs.map text) ++ close :: r = commaJoin (bs'.map text) ++ close :: r') :
    bs = bs' ∧ r = r' := by
  have htail : ∀ (bs : List β), (bs.map text).flatMap (',' :: ·) =
      bs.flatMap fun b => ',' :: text b := fun bs => List.flatMap_map _ _ bs
  rcases bs with _ | ⟨b, bs⟩
  · rcases bs' with _ | ⟨b', bs'⟩
    · exact ⟨rfl, (List.cons.inj h).2⟩
    obtain ⟨c, t, hc, hne⟩ := hhead b'
    rw [List.map_cons, commaJoin, hc] at h
    exact absurd (List.cons.inj h).1.symm hne
  rcases bs' with _ | ⟨b', bs'⟩
  · obtain ⟨c, t, hc, hne⟩ := hhead b
    rw [List.map_cons, commaJoin, hc] at h
    exact absurd (List.cons.inj h).1 hne
  simp only [List.map_cons, commaJoin, List.append_assoc, htail] at h
  obtain ⟨rfl, hrest⟩ := hb b List.mem_cons_self b' _ _ (stops_tail hclose bs r)
    (stops_tail hclose bs' r') h
  obtain ⟨rfl, hr⟩ := tail_unique hclose (fun b hb' => hb b (List.mem_cons_of_mem _ hb')) hrest
  exact ⟨rfl, hr⟩

end

/-! ### The text determines the value -/

def fieldText (numbers : NumberText) (f : String × Json) : List Char :=
  printField (f.1, print numbers f.2)

theorem print_array (items : List Json) :
    print numbers (.array items) = '[' :: commaJoin (items.map (print numbers)) ++ [']'] :=
  fold_array _ _

theorem print_object (fields : Map) : print numbers (.object fields) =
    openBrace :: commaJoin (fields.map (fieldText numbers)) ++ [closeBrace] := by
  rw [print, fold_object]
  show openBrace :: commaJoin ((fields.map _).map printField) ++ [closeBrace] = _
  rw [List.map_map]
  rfl

theorem fieldText_unique {f : String × Json} (h : Unique (print numbers) f.2) : Unique (fieldText numbers) f := by
  intro g r r' hr hr' heq
  simp only [fieldText, printField, List.append_assoc, List.cons_append] at heq
  obtain ⟨hkey, hrest⟩ := printString_unique heq
  obtain ⟨hval, htail⟩ := h g.2 r r' hr hr' (List.cons.inj hrest).2
  exact ⟨Prod.ext hkey hval, htail⟩

theorem print_unique (v : Json) : Unique (print numbers) v := by
  induction v with
  | null =>
    intro w r r' _ _ h
    have hkind := kind_eq_of_print h
    cases w with
    | null => exact ⟨rfl, List.append_cancel_left h⟩
    | bool b => cases b <;> cases hkind
    | _ => cases hkind
  | bool b =>
    intro w r r' _ _ h
    have hkind := kind_eq_of_print h
    cases w with
    | bool b' =>
      cases b <;> cases b' <;>
        first | exact ⟨rfl, List.append_cancel_left h⟩ | cases hkind
    | _ => cases b <;> cases hkind
  | number n =>
    intro w r r' hr hr' h
    have hkind := kind_eq_of_print h
    cases w with
    | number n' =>
      obtain ⟨rfl, hrest⟩ := number_unique hr hr' h
      exact ⟨rfl, hrest⟩
    | bool b => cases b <;> cases hkind
    | _ => cases hkind
  | string s =>
    intro w r r' _ _ h
    have hkind := kind_eq_of_print h
    cases w with
    | string s' =>
      obtain ⟨rfl, hrest⟩ := printString_unique h
      exact ⟨rfl, hrest⟩
    | bool b => cases b <;> cases hkind
    | _ => cases hkind
  | array items ih =>
    intro w r r' _ _ h
    have hkind := kind_eq_of_print h
    cases w with
    | array items' =>
      simp only [print_array, List.cons_append, List.append_assoc, List.nil_append] at h
      have hhead : ∀ v : Json, ∃ c t, print numbers v = c :: t ∧ c ≠ ']' := by
        intro v
        obtain ⟨c, t, hc, hk⟩ := @print_head numbers v
        refine ⟨c, t, hc, ?_⟩
        rintro rfl
        cases v with
        | bool b => cases b <;> exact absurd hk (by decide)
        | _ => exact absurd hk (by simp only [kind]; decide)
      obtain ⟨rfl, hrest⟩ := commaJoin_unique (.inl rfl) hhead ih (List.cons.inj h).2
      exact ⟨rfl, hrest⟩
    | bool b => cases b <;> cases hkind
    | _ => cases hkind
  | object fields ih =>
    intro w r r' _ _ h
    have hkind := kind_eq_of_print h
    cases w with
    | object fields' =>
      simp only [print_object, List.cons_append, List.append_assoc, List.nil_append] at h
      have hhead : ∀ f : String × Json, ∃ c t, fieldText numbers f = c :: t ∧ c ≠ closeBrace :=
        fun f => ⟨quote, _, rfl, by decide⟩
      obtain ⟨rfl, hrest⟩ := commaJoin_unique (.inr rfl) hhead
        (fun f hf => fieldText_unique (ih f hf)) (List.cons.inj h).2
      exact ⟨rfl, hrest⟩
    | bool b => cases b <;> cases hkind
    | _ => cases hkind

theorem print_injective {v w : Json} (h : print numbers v = print numbers w) : v = w := by
  have hstop : Stops [] := fun c hc => by cases hc
  exact (print_unique v w [] [] hstop hstop (by rw [h])).1

end

/-! ### An instance

Integers are printed as `serde_json` prints them; of the floats only zero and one half are, every other
one by its bits.
-/

def digits (n : Nat) : List Char := Nat.toDigits 10 n

theorem isDigit_of_mem_digits {n : Nat} {c : Char} (h : c ∈ digits n) : c.isDigit = true :=
  Nat.isDigit_of_mem_toDigits (by omega) (by omega) h

theorem digits_injective {m n : Nat} (h : digits m = digits n) : m = n := by
  have hread : ∀ n, Nat.ofDigitChars 10 (digits n) 0 = n := fun n =>
    Nat.ofDigitChars_toDigits (by omega) (by omega)
  rw [← hread m, h, hread n]

theorem digits_chars {n : Nat} : ∀ c ∈ digits n, c ∈ numberChars := by
  intro c hc
  have hdigit : 48 ≤ c.val ∧ c.val ≤ 57 := by
    simpa [Char.isDigit] using isDigit_of_mem_digits hc
  have hall : ∀ i, 48 ≤ i → i < 58 → Char.ofNat i ∈ numberChars := by decide
  have hlow : 48 ≤ c.toNat := hdigit.1
  have hhigh : c.toNat ≤ 57 := hdigit.2
  have hmem := hall c.toNat hlow (by omega)
  rwa [Char.ofNat_toNat] at hmem

def floatText (bits : UInt64) : List Char :=
  if bits = 0 then "0.0".toList
  else if bits = 0x3fe0000000000000 then "0.5".toList
  else 'E' :: digits bits.toNat

theorem floatText_cases (bits : UInt64) : bits = 0 ∧ floatText bits = "0.0".toList ∨
    bits = 0x3fe0000000000000 ∧ floatText bits = "0.5".toList ∨
    floatText bits = 'E' :: digits bits.toNat := by
  by_cases h0 : bits = 0
  · exact .inl ⟨h0, by rw [floatText, if_pos h0]⟩
  · by_cases h1 : bits = 0x3fe0000000000000
    · exact .inr (.inl ⟨h1, by rw [floatText, if_neg h0, if_pos h1]⟩)
    · exact .inr (.inr (by rw [floatText, if_neg h0, if_neg h1]))

theorem floatText_injective {b b' : UInt64} (h : floatText b = floatText b') : b = b' := by
  have hE : ∀ n, "0.0".toList ≠ 'E' :: digits n ∧ "0.5".toList ≠ 'E' :: digits n := by
    intro n
    constructor <;> exact fun h => absurd (List.cons.inj h).1 (by decide)
  have hne : "0.0".toList ≠ "0.5".toList := by decide
  rcases floatText_cases b with ⟨rfl, hb⟩ | ⟨rfl, hb⟩ | hb <;>
    rcases floatText_cases b' with ⟨rfl, hb'⟩ | ⟨rfl, hb'⟩ | hb' <;>
    replace h := hb.symm.trans (h.trans hb')
  · rfl
  · exact absurd h hne
  · exact absurd h (hE _).1
  · exact absurd h.symm hne
  · rfl
  · exact absurd h (hE _).2
  · exact absurd h.symm (hE _).1
  · exact absurd h.symm (hE _).2
  · exact UInt64.toNat_inj.1 (digits_injective (List.cons.inj h).2)

def wireNumber : Number → List Char
  | .posInt n => digits n.toNat
  | .negInt n => '-' :: digits n.1.toInt.natAbs
  | .float bits => floatText bits.1

theorem floatText_mem (bits : UInt64) : (∃ c ∈ floatText bits, c.isDigit = false) ∧ '-' ∉ floatText bits := by
  rcases floatText_cases bits with ⟨-, h⟩ | ⟨-, h⟩ | h <;> rw [h]
  · exact ⟨⟨'.', by decide, rfl⟩, by decide⟩
  · exact ⟨⟨'.', by decide, rfl⟩, by decide⟩
  · refine ⟨⟨'E', List.mem_cons_self, rfl⟩, fun hmem => ?_⟩
    rcases List.mem_cons.1 hmem with heq | hmem
    · exact absurd heq (by decide)
    · exact absurd (isDigit_of_mem_digits hmem) (by decide)

theorem wireNumber_injective (m n : Number) (h : wireNumber m = wireNumber n) : m = n := by
  have hdash : ∀ n, '-' ∉ digits n := fun n hmem =>
    absurd (isDigit_of_mem_digits hmem) (by decide)
  have hhead : ∀ {k t}, '-' :: digits k = t → '-' ∈ t := by
    rintro k t rfl
    exact List.mem_cons_self
  have hfloat : ∀ (n : Nat) (bits : UInt64), digits n ≠ floatText bits := by
    intro n bits heq
    obtain ⟨c, hc, hno⟩ := (floatText_mem bits).1
    rw [← heq] at hc
    rw [isDigit_of_mem_digits hc] at hno
    cases hno
  cases m with
  | posInt m =>
    cases n with
    | posInt n => rw [UInt64.toNat_inj.1 (digits_injective h)]
    | negInt n => exact absurd (hhead h.symm) (hdash m.toNat)
    | float b => exact absurd h (hfloat _ _)
  | negInt m =>
    cases n with
    | posInt n => exact absurd (hhead h) (hdash n.toNat)
    | negInt n =>
      have habs := digits_injective (List.cons.inj h).2
      have hm : m.1.toInt < 0 := Int64.lt_iff_toInt_lt.1 m.2
      have hn : n.1.toInt < 0 := Int64.lt_iff_toInt_lt.1 n.2
      rw [Subtype.ext (Int64.toInt_inj.1 (by omega : m.1.toInt = n.1.toInt))]
    | float b => exact absurd (hhead h) (floatText_mem b.1).2
  | float b =>
    cases n with
    | posInt n => exact absurd h.symm (hfloat _ _)
    | negInt n => exact absurd (hhead h.symm) (floatText_mem b.1).2
    | float b' => rw [Subtype.ext (floatText_injective h)]

def wireNumbers : NumberText where
  print := wireNumber
  injective := wireNumber_injective
  ne_nil
    | .posInt _ => Nat.toDigits_ne_nil
    | .negInt _ => List.cons_ne_nil _ _
    | .float bits => by
      obtain ⟨c, hc, -⟩ := (floatText_mem bits.1).1
      exact List.ne_nil_of_mem hc
  chars
    | .posInt _ => digits_chars
    | .negInt _ => List.forall_mem_cons.2 ⟨by decide, digits_chars⟩
    | .float bits => by
      show ∀ c ∈ floatText bits.1, c ∈ numberChars
      rcases floatText_cases bits.1 with ⟨-, h⟩ | ⟨-, h⟩ | h <;> rw [h]
      · have hall : "0.0".toList.all (· ∈ numberChars) = true := by decide
        exact fun c hc => of_decide_eq_true (List.all_eq_true.1 hall c hc)
      · have hall : "0.5".toList.all (· ∈ numberChars) = true := by decide
        exact fun c hc => of_decide_eq_true (List.all_eq_true.1 hall c hc)
      · exact List.forall_mem_cons.2 ⟨by decide, digits_chars⟩

end Json
