import Mathlib.Data.List.Basic
import Mathlib.Order.Basic

/-!
# Decoding UTF-8 with replacements

`lossy` is `String::from_utf8_lossy`: a machine that takes a byte at a time, and a replacement character for each
longest beginning of a character that is not continued, and for each byte that begins none. A text decoded chunk by
chunk stays what it is exactly when no chunk begins inside a character (`flatMap_lossy_eq_iff`).
-/

namespace Utf8

def replacement : Char := Char.ofNat 0xFFFD

def isTail (b : UInt8) : Bool := 0x80 ≤ b.toNat && b.toNat ≤ 0xBF

/-- A character that is not complete: the next byte is between `lo` and `hi`, and `missing` more are after it. -/
structure Pending where
  missing : Nat
  code : Nat
  lo : Nat
  hi : Nat
  tail : 0x80 ≤ lo ∧ hi ≤ 0xBF

inductive Move
  | invalid
  | char (c : Char)
  | more (p : Pending)

def first (n : Nat) : Move :=
  if n ≤ 0x7F then .char (Char.ofNat n)
  else if 0xC2 ≤ n ∧ n ≤ 0xDF then .more ⟨0, n - 0xC0, 0x80, 0xBF, by decide⟩
  else if n = 0xE0 then .more ⟨1, n - 0xE0, 0xA0, 0xBF, by decide⟩
  else if n = 0xED then .more ⟨1, n - 0xE0, 0x80, 0x9F, by decide⟩
  else if 0xE1 ≤ n ∧ n ≤ 0xEF then .more ⟨1, n - 0xE0, 0x80, 0xBF, by decide⟩
  else if n = 0xF0 then .more ⟨2, n - 0xF0, 0x90, 0xBF, by decide⟩
  else if n = 0xF4 then .more ⟨2, n - 0xF0, 0x80, 0x8F, by decide⟩
  else if 0xF1 ≤ n ∧ n ≤ 0xF3 then .more ⟨2, n - 0xF0, 0x80, 0xBF, by decide⟩
  else .invalid

def Pending.next (p : Pending) (n : Nat) : Move :=
  if p.lo ≤ n ∧ n ≤ p.hi then
    match p.missing with
    | 0 => .char (Char.ofNat (p.code * 64 + (n - 0x80)))
    | k + 1 => .more ⟨k, p.code * 64 + (n - 0x80), 0x80, 0xBF, by decide⟩
  else .invalid

def Move.enter (decode : Option Pending → List Char) : Move → List Char
  | .invalid => replacement :: decode none
  | .char c => c :: decode none
  | .more p => decode (some p)

def decode : List UInt8 → Option Pending → List Char
  | [], none => []
  | [], some _ => [replacement]
  | b :: bytes, none => (first b.toNat).enter (decode bytes)
  | b :: bytes, some p =>
    match p.next b.toNat with
    | .invalid => replacement :: (first b.toNat).enter (decode bytes)
    | move => move.enter (decode bytes)

def lossy (bytes : List UInt8) : List Char := decode bytes none

def encode (text : List Char) : List UInt8 := text.flatMap String.utf8EncodeChar

/-! ### Characters -/

section
variable {p : Pending} {n m : Nat} {b : UInt8} {bytes : List UInt8} {c : Char}

theorem first_two (h : 0xC2 ≤ n ∧ n ≤ 0xDF) : first n = .more ⟨0, n - 0xC0, 0x80, 0xBF, by decide⟩ := by
  rw [first, if_neg (by omega), if_pos h]

theorem first_three (h : 0xE0 ≤ n ∧ n ≤ 0xEF) (hm : 0x80 ≤ m ∧ m ≤ 0xBF) (hlow : n = 0xE0 → 0xA0 ≤ m)
    (hsurrogate : n = 0xED → m ≤ 0x9F) :
    ∃ p, first n = .more p ∧ p.missing = 1 ∧ p.code = n - 0xE0 ∧ p.lo ≤ m ∧ m ≤ p.hi := by
  unfold first
  rw [if_neg (by omega), if_neg (by omega)]
  split
  · rename_i hn
    exact ⟨_, rfl, rfl, rfl, hlow hn, hm.2⟩
  · split
    · rename_i hn
      exact ⟨_, rfl, rfl, rfl, hm.1, hsurrogate hn⟩
    · rw [if_pos (by omega)]
      exact ⟨_, rfl, rfl, rfl, hm.1, hm.2⟩

theorem first_four (h : 0xF0 ≤ n ∧ n ≤ 0xF4) (hm : 0x80 ≤ m ∧ m ≤ 0xBF) (hlow : n = 0xF0 → 0x90 ≤ m)
    (hhigh : n = 0xF4 → m ≤ 0x8F) :
    ∃ p, first n = .more p ∧ p.missing = 2 ∧ p.code = n - 0xF0 ∧ p.lo ≤ m ∧ m ≤ p.hi := by
  unfold first
  rw [if_neg (by omega), if_neg (by omega), if_neg (by omega), if_neg (by omega), if_neg (by omega)]
  split
  · rename_i hn
    exact ⟨_, rfl, rfl, rfl, hlow hn, hm.2⟩
  · split
    · rename_i hn
      exact ⟨_, rfl, rfl, rfl, hm.1, hhigh hn⟩
    · rw [if_pos (by omega)]
      exact ⟨_, rfl, rfl, rfl, hm.1, hm.2⟩

theorem next_last (hrange : p.lo ≤ n ∧ n ≤ p.hi) (hmissing : p.missing = 0) :
    p.next n = .char (Char.ofNat (p.code * 64 + (n - 0x80))) := by
  rw [Pending.next, if_pos hrange]
  split
  · rfl
  · rename_i k hk
    rw [hk] at hmissing
    cases hmissing

theorem next_more {k : Nat} (hrange : p.lo ≤ n ∧ n ≤ p.hi) (hmissing : p.missing = k + 1) :
    p.next n = .more ⟨k, p.code * 64 + (n - 0x80), 0x80, 0xBF, by decide⟩ := by
  rw [Pending.next, if_pos hrange]
  split
  · rename_i hk
    rw [hk] at hmissing
    cases hmissing
  · rename_i k' hk
    rw [hk] at hmissing
    cases hmissing
    rfl

theorem decode_first (hfirst : first b.toNat = .more p) : decode (b :: bytes) none = decode bytes (some p) := by
  rw [decode, hfirst]
  rfl

theorem decode_last (hrange : p.lo ≤ b.toNat ∧ b.toNat ≤ p.hi) (hmissing : p.missing = 0) :
    decode (b :: bytes) (some p) = Char.ofNat (p.code * 64 + (b.toNat - 0x80)) :: decode bytes none := by
  rw [decode, next_last hrange hmissing]
  rfl

theorem decode_more {k : Nat} (hrange : p.lo ≤ b.toNat ∧ b.toNat ≤ p.hi) (hmissing : p.missing = k + 1) :
    decode (b :: bytes) (some p) =
      decode bytes (some ⟨k, p.code * 64 + (b.toNat - 0x80), 0x80, 0xBF, by decide⟩) := by
  rw [decode, next_more hrange hmissing]
  rfl

theorem toNat_ofNat (h : n < 256) : (UInt8.ofNat n).toNat = n := UInt8.toNat_ofNat_of_lt' h

theorem ofNat_val (h : n = c.val.toNat) : Char.ofNat n = c := by
  subst h
  exact Char.ofNat_toNat c

/-- A character is decoded from its bytes, whatever comes after them. -/
theorem decode_utf8EncodeChar (c : Char) (bytes : List UInt8) :
    decode (String.utf8EncodeChar c ++ bytes) none = c :: decode bytes none := by
  have hvalid : c.val.toNat < 0xD800 ∨ 0xDFFF < c.val.toNat ∧ c.val.toNat < 0x110000 := c.valid
  unfold String.utf8EncodeChar
  dsimp only
  generalize hv : c.val.toNat = v at hvalid
  split
  · rw [List.singleton_append, decode, toNat_ofNat (by omega), first, if_pos (by omega), Move.enter, ofNat_val hv.symm]
  · split
    · have hb : (UInt8.ofNat (v / 64 % 0x20 + 0xc0)).toNat = v / 64 % 0x20 + 0xc0 := toNat_ofNat (by omega)
      have hb₁ : (UInt8.ofNat (v % 0x40 + 0x80)).toNat = v % 0x40 + 0x80 := toNat_ofNat (by omega)
      rw [List.cons_append, List.singleton_append, decode_first (by rw [hb]; exact first_two (by omega)),
        decode_last (by rw [hb₁]; dsimp only; omega) rfl, hb₁]
      refine List.cons_eq_cons.2 ⟨ofNat_val ?_, rfl⟩
      dsimp only
      omega
    · split
      · have hb : (UInt8.ofNat (v / 4096 % 0x10 + 0xe0)).toNat = v / 4096 % 0x10 + 0xe0 := toNat_ofNat (by omega)
        have hb₁ : (UInt8.ofNat (v / 64 % 0x40 + 0x80)).toNat = v / 64 % 0x40 + 0x80 := toNat_ofNat (by omega)
        have hb₂ : (UInt8.ofNat (v % 0x40 + 0x80)).toNat = v % 0x40 + 0x80 := toNat_ofNat (by omega)
        obtain ⟨p, hfirst, hmissing, hcode, hlo, hhi⟩ := first_three (n := v / 4096 % 0x10 + 0xe0)
          (m := v / 64 % 0x40 + 0x80) (by omega) (by omega) (by omega) (by omega)
        rw [List.cons_append, List.cons_append, List.singleton_append, decode_first (by rw [hb]; exact hfirst),
          decode_more (by rw [hb₁]; exact ⟨hlo, hhi⟩) hmissing, decode_last (by rw [hb₂]; dsimp only; omega) rfl,
          hb₁, hb₂, hcode]
        refine List.cons_eq_cons.2 ⟨ofNat_val ?_, rfl⟩
        dsimp only
        omega
      · have hb : (UInt8.ofNat (v / 262144 % 0x08 + 0xf0)).toNat = v / 262144 % 0x08 + 0xf0 := toNat_ofNat (by omega)
        have hb₁ : (UInt8.ofNat (v / 4096 % 0x40 + 0x80)).toNat = v / 4096 % 0x40 + 0x80 := toNat_ofNat (by omega)
        have hb₂ : (UInt8.ofNat (v / 64 % 0x40 + 0x80)).toNat = v / 64 % 0x40 + 0x80 := toNat_ofNat (by omega)
        have hb₃ : (UInt8.ofNat (v % 0x40 + 0x80)).toNat = v % 0x40 + 0x80 := toNat_ofNat (by omega)
        obtain ⟨p, hfirst, hmissing, hcode, hlo, hhi⟩ := first_four (n := v / 262144 % 0x08 + 0xf0)
          (m := v / 4096 % 0x40 + 0x80) (by omega) (by omega) (by omega) (by omega)
        rw [List.cons_append, List.cons_append, List.cons_append, List.singleton_append,
          decode_first (by rw [hb]; exact hfirst), decode_more (by rw [hb₁]; exact ⟨hlo, hhi⟩) hmissing,
          decode_more (by rw [hb₂]; dsimp only; omega) rfl, decode_last (by rw [hb₃]; dsimp only; omega) rfl,
          hb₁, hb₂, hb₃, hcode]
        refine List.cons_eq_cons.2 ⟨ofNat_val ?_, rfl⟩
        dsimp only
        omega

theorem isTail_ofNat (h : n < 256) : isTail (UInt8.ofNat n) = decide (0x80 ≤ n ∧ n ≤ 0xBF) := by
  rw [isTail, toNat_ofNat h, Bool.decide_and]

theorem utf8EncodeChar_shape (c : Char) : ∃ b tails, String.utf8EncodeChar c = b :: tails ∧ isTail b = false ∧
    ∀ x ∈ tails, isTail x = true := by
  have hvalid : c.val.toNat < 0xD800 ∨ 0xDFFF < c.val.toNat ∧ c.val.toNat < 0x110000 := c.valid
  unfold String.utf8EncodeChar
  dsimp only
  generalize c.val.toNat = v at hvalid
  split
  · refine ⟨_, [], rfl, ?_, by simp⟩
    rw [isTail_ofNat (by omega), decide_eq_false (by omega)]
  · have htail (n : Nat) : isTail (UInt8.ofNat (n % 0x40 + 0x80)) = true := by
      rw [isTail_ofNat (by omega), decide_eq_true (by omega)]
    split
    · refine ⟨_, _, rfl, ?_, by simp only [List.forall_mem_cons, htail]; simp⟩
      rw [isTail_ofNat (by omega), decide_eq_false (by omega)]
    · split
      · refine ⟨_, _, rfl, ?_, by simp only [List.forall_mem_cons, htail]; simp⟩
        rw [isTail_ofNat (by omega), decide_eq_false (by omega)]
      · refine ⟨_, _, rfl, ?_, by simp only [List.forall_mem_cons, htail]; simp⟩
        rw [isTail_ofNat (by omega), decide_eq_false (by omega)]

theorem utf8EncodeChar_wide {tails : List UInt8} (h : String.utf8EncodeChar c = b :: tails) (hne : tails ≠ []) :
    0x7F < c.val.toNat ∧ ∃ p, first b.toNat = .more p ∧ tails.length = p.missing + 1 := by
  have hvalid : c.val.toNat < 0xD800 ∨ 0xDFFF < c.val.toNat ∧ c.val.toNat < 0x110000 := c.valid
  unfold String.utf8EncodeChar at h
  dsimp only at h
  generalize c.val.toNat = v at h hvalid
  split at h
  · exact absurd (List.cons.inj h).2.symm hne
  · refine ⟨by omega, ?_⟩
    split at h
    · obtain ⟨rfl, rfl⟩ := List.cons.inj h
      rw [toNat_ofNat (by omega)]
      exact ⟨_, first_two (by omega), rfl⟩
    · split at h
      · obtain ⟨rfl, rfl⟩ := List.cons.inj h
        rw [toNat_ofNat (by omega)]
        obtain ⟨p, hfirst, hmissing, -⟩ := first_three (n := v / 4096 % 0x10 + 0xe0)
          (m := v / 64 % 0x40 + 0x80) (by omega) (by omega) (by omega) (by omega)
        exact ⟨p, hfirst, by rw [hmissing]; rfl⟩
      · obtain ⟨rfl, rfl⟩ := List.cons.inj h
        rw [toNat_ofNat (by omega)]
        obtain ⟨p, hfirst, hmissing, -⟩ := first_four (n := v / 262144 % 0x08 + 0xf0)
          (m := v / 4096 % 0x40 + 0x80) (by omega) (by omega) (by omega) (by omega)
        exact ⟨p, hfirst, by rw [hmissing]; rfl⟩

theorem first_tail (h : isTail b = true) : first b.toNat = .invalid := by
  rw [isTail, Bool.and_eq_true, decide_eq_true_eq, decide_eq_true_eq] at h
  unfold first
  repeat rw [if_neg (by omega)]

theorem decode_tails {tails : List UInt8} (h : ∀ x ∈ tails, isTail x = true) (bytes : List UInt8) :
    decode (tails ++ bytes) none = List.replicate tails.length replacement ++ decode bytes none := by
  induction tails with
  | nil => rfl
  | cons b tails ih =>
    obtain ⟨hb, htails⟩ := List.forall_mem_cons.1 h
    rw [List.cons_append, decode, first_tail hb, Move.enter, ih htails]
    rfl

theorem decode_unfinished (h : ∀ x ∈ bytes, isTail x = true) (hmissing : bytes.length ≤ p.missing) :
    ∃ n, decode bytes (some p) = List.replicate (n + 1) replacement := by
  induction bytes generalizing p with
  | nil => exact ⟨0, rfl⟩
  | cons b bytes ih =>
    obtain ⟨hb, hbytes⟩ := List.forall_mem_cons.1 h
    obtain ⟨k, hk⟩ := Nat.exists_eq_add_of_le' hmissing
    by_cases hrange : p.lo ≤ b.toNat ∧ b.toNat ≤ p.hi
    · rw [decode_more (k := k + bytes.length) hrange hk]
      exact ih hbytes (Nat.le_add_left _ _)
    · have hnext : p.next b.toNat = .invalid := by rw [Pending.next, if_neg hrange]
      have htails := decode_tails hbytes []
      rw [List.append_nil] at htails
      rw [decode, hnext, first_tail hb, Move.enter, htails]
      exact ⟨bytes.length + 1, by simp [decode, List.replicate_succ]⟩

end

theorem encode_cons (c : Char) (text : List Char) : encode (c :: text) = String.utf8EncodeChar c ++ encode text := rfl

theorem decode_encode (text : List Char) (bytes : List UInt8) :
    decode (encode text ++ bytes) none = text ++ decode bytes none := by
  induction text with
  | nil => rfl
  | cons c text ih => rw [encode_cons, List.append_assoc, decode_utf8EncodeChar, ih, List.cons_append]

theorem lossy_encode (text : List Char) : lossy (encode text) = text := by
  have hdecode := decode_encode text []
  rwa [List.append_nil, decode, List.append_nil] at hdecode

structure Halves (c : Char) (lead tails : List UInt8) : Prop where
  bytes : String.utf8EncodeChar c = lead ++ tails
  lead_ne : lead ≠ []
  tails_ne : tails ≠ []

namespace Halves
variable {c : Char} {lead tails : List UInt8} (h : Halves c lead tails)
include h

theorem isTail_of_mem : ∀ x ∈ tails, isTail x = true := by
  obtain ⟨b, rest, hshape, -, hrest⟩ := utf8EncodeChar_shape c
  obtain ⟨a, front, rfl⟩ := List.exists_cons_of_ne_nil h.lead_ne
  have heq := h.bytes
  rw [hshape, List.cons_append] at heq
  rw [(List.cons.inj heq).2] at hrest
  exact fun x hx => hrest x (List.mem_append_right _ hx)

theorem decode_lead : 0x7F < c.val.toNat ∧ ∃ n, decode lead none = List.replicate (n + 1) replacement := by
  obtain ⟨b, rest, hshape, -, hrest⟩ := utf8EncodeChar_shape c
  obtain ⟨a, front, rfl⟩ := List.exists_cons_of_ne_nil h.lead_ne
  have heq := h.bytes
  have hpos := List.length_pos_iff.2 h.tails_ne
  rw [List.cons_append] at heq
  obtain ⟨hwide, p, hfirst, hmissing⟩ := utf8EncodeChar_wide heq (List.append_ne_nil_of_right_ne_nil _ h.tails_ne)
  rw [hshape] at heq
  rw [(List.cons.inj heq).2] at hrest
  rw [List.length_append] at hmissing
  refine ⟨hwide, ?_⟩
  rw [decode_first hfirst]
  exact decode_unfinished (fun x hx => hrest x (List.mem_append_left _ hx)) (by omega)

end Halves

theorem encode_cut {text : List Char} {front back : List UInt8} (h : encode text = front ++ back) :
    (∃ left right, text = left ++ right ∧ front = encode left ∧ back = encode right) ∨
      ∃ left c right lead tails, text = left ++ c :: right ∧ Halves c lead tails ∧ front = encode left ++ lead ∧
        back = tails ++ encode right := by
  induction text generalizing front with
  | nil =>
    obtain ⟨rfl, rfl⟩ := List.append_eq_nil_iff.1 h.symm
    exact .inl ⟨[], [], rfl, rfl, rfl⟩
  | cons c text ih =>
    rw [encode_cons] at h
    rcases List.append_eq_append_iff.1 h with ⟨w, rfl, hrest⟩ | ⟨w, hchar, hrest⟩
    · rcases ih hrest with ⟨left, right, rfl, rfl, rfl⟩ | ⟨left, d, right, lead, tails, rfl, hhalves, rfl, rfl⟩
      · exact .inl ⟨c :: left, right, rfl, rfl, rfl⟩
      · refine .inr ⟨c :: left, d, right, lead, tails, rfl, hhalves, ?_, rfl⟩
        rw [encode_cons, List.append_assoc]
    · by_cases hfront : front = []
      · subst hfront
        exact .inl ⟨[], c :: text, rfl, rfl, by rw [encode_cons, hchar, hrest, List.nil_append]⟩
      · by_cases hw : w = []
        · subst hw
          rw [List.append_nil] at hchar
          exact .inl ⟨[c], text, rfl, by rw [← hchar, encode, List.flatMap_singleton], hrest⟩
        · exact .inr ⟨[], c, text, front, w, rfl, ⟨hchar, hfront, hw⟩, rfl, hrest⟩

theorem encode_split {text : List Char} {front back : List UInt8} (h : encode text = front ++ back)
    (hback : ∀ b ∈ back.head?, isTail b = false) :
    ∃ left right, text = left ++ right ∧ front = encode left ∧ back = encode right := by
  rcases encode_cut h with hsplit | ⟨left, c, right, lead, tails, -, hhalves, -, rfl⟩
  · exact hsplit
  · obtain ⟨b, rest, rfl⟩ := List.exists_cons_of_ne_nil hhalves.tails_ne
    -- the cut is in the character, so what follows goes on with it
    have hhead := hback b rfl
    rw [hhalves.isTail_of_mem b List.mem_cons_self] at hhead
    cases hhead

/-! ### Chunks -/

def leads (bytes : List UInt8) : Nat := bytes.countP (!isTail ·)

theorem leads_encode (text : List Char) : leads (encode text) = text.length := by
  induction text with
  | nil => rfl
  | cons c text ih =>
    obtain ⟨b, tails, hshape, hb, htails⟩ := utf8EncodeChar_shape c
    have hnone : tails.countP (!isTail ·) = 0 := List.countP_eq_zero.2 fun x hx => by simp [htails x hx]
    rw [encode_cons, leads, List.countP_append, hshape, List.countP_cons, hnone, hb, ← leads, ih, List.length_cons]
    simp
    omega

theorem leads_lt_enter {bytes : List UInt8} (hnone : leads bytes ≤ (decode bytes none).length)
    (hsome : ∀ p, leads bytes < (decode bytes (some p)).length) (move : Move) :
    leads bytes < (move.enter (decode bytes)).length := by
  cases move with
  | invalid | char => exact Nat.lt_succ_of_le hnone
  | more p => exact hsome p

theorem leads_cons_le (b : UInt8) (bytes : List UInt8) : leads (b :: bytes) ≤ leads bytes + 1 := by
  rw [leads, List.countP_cons, leads]
  split <;> omega

theorem leads_cons_of_tail {b : UInt8} (h : isTail b = true) (bytes : List UInt8) : leads (b :: bytes) = leads bytes := by
  rw [leads, List.countP_cons, h]
  rfl

theorem isTail_of_next {p : Pending} {b : UInt8} (h : p.next b.toNat ≠ .invalid) : isTail b = true := by
  unfold Pending.next at h
  split at h
  · rename_i hrange
    have := p.tail
    rw [isTail, Bool.and_eq_true, decide_eq_true_eq, decide_eq_true_eq]
    omega
  · exact absurd rfl h

theorem leads_le_decode (bytes : List UInt8) :
    leads bytes ≤ (decode bytes none).length ∧ ∀ p, leads bytes < (decode bytes (some p)).length := by
  induction bytes with
  | nil => exact ⟨Nat.zero_le _, fun p => Nat.one_pos⟩
  | cons b bytes ih =>
    have henter := leads_lt_enter ih.1 ih.2
    have hcons := leads_cons_le b bytes
    refine ⟨?_, fun p => ?_⟩
    · have := henter (first b.toNat)
      rw [decode]
      omega
    · rw [decode]
      split
      · have := henter (first b.toNat)
        rw [List.length_cons]
        omega
      · -- the byte is in the range, so it continues the character
        rename_i hmove
        rw [leads_cons_of_tail (isTail_of_next hmove)]
        exact henter _

theorem leads_le_lossy (bytes : List UInt8) : leads bytes ≤ (lossy bytes).length := (leads_le_decode bytes).1

theorem leads_lt_lossy {b : UInt8} (h : isTail b = true) (bytes : List UInt8) :
    leads (b :: bytes) < (lossy (b :: bytes)).length := by
  rw [leads_cons_of_tail h, lossy, decode]
  exact leads_lt_enter (leads_le_decode bytes).1 (leads_le_decode bytes).2 _

def Aligned (chunks : List (List UInt8)) : Prop := ∀ chunk ∈ chunks, ∀ b ∈ chunk.head?, isTail b = false

instance (chunks : List (List UInt8)) : Decidable (Aligned chunks) :=
  decidable_of_iff ((chunks.all fun chunk => chunk.head?.all fun b => !isTail b) = true)
    (by simp [Aligned, List.all_eq_true, Option.all_eq_true])

variable {chunks : List (List UInt8)} {text : List Char}

theorem leads_flatten_le (chunks : List (List UInt8)) : leads chunks.flatten ≤ (chunks.flatMap lossy).length := by
  induction chunks with
  | nil => exact Nat.le_refl _
  | cons chunk chunks ih =>
    have := leads_le_lossy chunk
    rw [List.flatten_cons, leads, List.countP_append, ← leads, ← leads, List.flatMap_cons, List.length_append]
    omega

theorem aligned_of_length (h : (chunks.flatMap lossy).length ≤ leads chunks.flatten) : Aligned chunks := by
  induction chunks with
  | nil => exact fun chunk hchunk => absurd hchunk List.not_mem_nil
  | cons chunk chunks ih =>
    have hrest := leads_flatten_le chunks
    have hchunk := leads_le_lossy chunk
    rw [List.flatten_cons, leads, List.countP_append, ← leads, ← leads, List.flatMap_cons, List.length_append] at h
    refine List.forall_mem_cons.2 ⟨fun b hb => ?_, ih (by omega)⟩
    rcases chunk with _ | ⟨a, chunk⟩
    · cases hb
    cases hb
    by_contra htail
    have := leads_lt_lossy (eq_true_of_ne_false htail) chunk
    omega

theorem Aligned.head_flatten (h : Aligned chunks) : ∀ b ∈ chunks.flatten.head?, isTail b = false := by
  induction chunks with
  | nil => exact fun b hb => by cases hb
  | cons chunk chunks ih =>
    obtain ⟨hchunk, hchunks⟩ := List.forall_mem_cons.1 h
    cases chunk with
    | nil => exact ih hchunks
    | cons a chunk => exact hchunk

theorem flatMap_lossy (h : Aligned chunks) (htext : chunks.flatten = encode text) : chunks.flatMap lossy = text := by
  induction chunks generalizing text with
  | nil =>
    have hlength := leads_encode text
    rw [← htext] at hlength
    exact (List.eq_nil_of_length_eq_zero hlength.symm).symm
  | cons chunk chunks ih =>
    obtain ⟨-, hchunks⟩ := List.forall_mem_cons.1 h
    obtain ⟨left, right, rfl, rfl, hright⟩ :=
      encode_split htext.symm (Aligned.head_flatten hchunks)
    rw [List.flatMap_cons, lossy_encode, ih hchunks hright]

/-- Decoding chunk by chunk gives the text when each chunk begins where a character does, and only then. -/
theorem flatMap_lossy_eq_iff (htext : chunks.flatten = encode text) : chunks.flatMap lossy = text ↔ Aligned chunks := by
  refine ⟨fun h => aligned_of_length (Nat.le_of_eq ?_), fun h => flatMap_lossy h htext⟩
  rw [htext, leads_encode, h]

/-! ### Characters that are cut -/

/-- What a text may become when it is decoded in chunks: a character that is cut gives replacements, two at least. -/
inductive Blur : List Char → List Char → Prop
  | nil : Blur [] []
  | keep (c : Char) {text out : List Char} : Blur text out → Blur (c :: text) (c :: out)
  | lost {c : Char} (hwide : 0x7F < c.val.toNat) (n : Nat) {text out : List Char} :
    Blur text out → Blur (c :: text) (List.replicate (n + 2) replacement ++ out)

namespace Blur
variable {text more out outs : List Char} {a : Char}

theorem append (h : Blur text out) (hmore : Blur more outs) : Blur (text ++ more) (out ++ outs) := by
  induction h with
  | nil => exact hmore
  | keep c _ ih => exact .keep c ih
  | lost hwide n _ ih =>
    rw [List.cons_append, List.append_assoc]
    exact .lost hwide n ih

theorem refl (text : List Char) : Blur text text := by
  induction text with
  | nil => exact .nil
  | cons c text ih => exact .keep c ih

theorem reverse (h : Blur text out) : Blur text.reverse out.reverse := by
  induction h with
  | nil => exact .nil
  | keep c _ ih =>
    rw [List.reverse_cons, List.reverse_cons]
    exact ih.append (refl [c])
  | lost hwide n _ ih =>
    rw [List.reverse_cons, List.reverse_append, List.reverse_replicate]
    have hlast := Blur.lost hwide n .nil
    rw [List.append_nil] at hlast
    exact ih.append hlast

theorem of_append (h : Blur (text ++ more) out) : ∃ front back, out = front ++ back ∧ Blur text front ∧ Blur more back := by
  induction text generalizing out with
  | nil => exact ⟨[], out, rfl, .nil, h⟩
  | cons c text ih =>
    cases h with
    | keep _ h =>
      obtain ⟨front, back, rfl, hfront, hback⟩ := ih h
      exact ⟨c :: front, back, rfl, hfront.keep c, hback⟩
    | lost hwide n h =>
      obtain ⟨front, back, rfl, hfront, hback⟩ := ih h
      exact ⟨_, back, (List.append_assoc _ _ _).symm, hfront.lost hwide n, hback⟩

theorem length_le (h : Blur text out) : text.length ≤ out.length := by
  induction h with
  | nil => exact Nat.le_refl _
  | keep c _ ih => exact Nat.succ_le_succ ih
  | lost hwide n _ ih =>
    rw [List.length_cons, List.length_append, List.length_replicate]
    omega

theorem eq_of_length (h : Blur text out) (hlength : out.length ≤ text.length) : out = text := by
  induction h with
  | nil => rfl
  | keep c _ ih => rw [ih (Nat.le_of_succ_le_succ hlength)]
  | lost hwide n h _ =>
    have := h.length_le
    rw [List.length_cons, List.length_append, List.length_replicate] at hlength
    omega

theorem mem (h : Blur text out) (ha : a ∈ out) : a ∈ text ∨ a = replacement := by
  induction h with
  | nil => exact .inl ha
  | keep c _ ih =>
    rcases List.mem_cons.1 ha with rfl | ha
    · exact .inl List.mem_cons_self
    · exact (ih ha).imp_left (List.mem_cons_of_mem c)
  | lost hwide n _ ih =>
    rcases List.mem_append.1 ha with ha | ha
    · exact .inr (List.eq_of_mem_replicate ha)
    · exact (ih ha).imp_left (List.mem_cons_of_mem _)

theorem eq_of_narrow (h : Blur text out) (hnarrow : ∀ c ∈ text, c.val.toNat ≤ 0x7F) : out = text := by
  induction h with
  | nil => rfl
  | keep c _ ih => rw [ih fun d hd => hnarrow d (List.mem_cons_of_mem c hd)]
  | lost hwide n _ _ =>
    have := hnarrow _ List.mem_cons_self
    omega

theorem head?_iff (h : Blur text out) (ha : a.val.toNat ≤ 0x7F) : out.head? = some a ↔ text.head? = some a := by
  cases h with
  | nil | keep => exact Iff.rfl
  | lost hwide n _ =>
    constructor
    · intro hhead
      obtain rfl : replacement = a := Option.some.inj hhead
      exact absurd ha (by decide)
    · intro hhead
      obtain rfl := Option.some.inj hhead
      omega

theorem getLast?_iff (h : Blur text out) (ha : a.val.toNat ≤ 0x7F) : out.getLast? = some a ↔ text.getLast? = some a := by
  rw [← List.head?_reverse, ← List.head?_reverse]
  exact h.reverse.head?_iff ha

end Blur

theorem lossy_tails {tails : List UInt8} (h : ∀ x ∈ tails, isTail x = true) :
    lossy tails = List.replicate tails.length replacement := by
  have htails := decode_tails h []
  rwa [List.append_nil, decode, List.append_nil] at htails

/-- The chunks may begin with the end of a character, which gives replacements of its own. -/
theorem blur_chunks {tails : List UInt8} (htails : ∀ x ∈ tails, isTail x = true)
    (htext : chunks.flatten = tails ++ encode text) :
    ∃ n out, chunks.flatMap lossy = List.replicate n replacement ++ out ∧ Blur text out ∧ (n = 0 ↔ tails = []) := by
  induction chunks generalizing tails text with
  | nil =>
    obtain ⟨rfl, hnil⟩ := List.append_eq_nil_iff.1 htext.symm
    have hlength := leads_encode text
    rw [hnil] at hlength
    rw [List.eq_nil_of_length_eq_zero hlength.symm]
    exact ⟨0, [], rfl, .nil, by simp⟩
  | cons chunk chunks ih =>
    rw [List.flatten_cons] at htext
    rw [List.flatMap_cons]
    rcases List.append_eq_append_iff.1 htext with ⟨rest, rfl, hrest⟩ | ⟨rest, rfl, hrest⟩
    · -- the chunk does not come to the end of the character
      obtain ⟨hchunk, hmore⟩ := List.forall_mem_append.1 htails
      obtain ⟨n, out, hout, hblur, hn⟩ := ih hmore hrest
      refine ⟨chunk.length + n, out, ?_, hblur, ?_⟩
      · rw [hout, lossy_tails hchunk, List.replicate_add, List.append_assoc]
      · rw [Nat.add_eq_zero_iff, hn, List.length_eq_zero_iff, List.append_eq_nil_iff]
    · refine ⟨tails.length, ?_⟩
      rw [lossy, decode_tails htails]
      rcases encode_cut hrest with ⟨left, right, rfl, rfl, hright⟩ |
        ⟨left, c, right, lead, tails', rfl, hhalves, rfl, hright⟩
      · obtain ⟨n, out, hout, hblur, hn⟩ := ih (List.forall_mem_nil (isTail · = true)) hright
        obtain rfl := hn.2 rfl
        refine ⟨left ++ out, ?_, (Blur.refl left).append hblur, List.length_eq_zero_iff⟩
        rw [hout, ← lossy, lossy_encode, List.append_assoc]
        rfl
      · obtain ⟨n, out, hout, hblur, hn⟩ := ih hhalves.isTail_of_mem hright
        obtain ⟨m, rfl⟩ := Nat.exists_eq_succ_of_ne_zero fun h => hhalves.tails_ne (hn.1 h)
        obtain ⟨hwide, k, hlead⟩ := hhalves.decode_lead
        refine ⟨left ++ (List.replicate (k + m + 2) replacement ++ out), ?_,
          (Blur.refl left).append (hblur.lost hwide _), List.length_eq_zero_iff⟩
        have hsum : List.replicate (k + m + 2) replacement =
            List.replicate (k + 1) replacement ++ List.replicate (m + 1) replacement := by
          rw [List.replicate_append_replicate]
          congr 1
          omega
        rw [hout, decode_encode, hlead, hsum]
        simp only [List.append_assoc]

/-- Decoding chunk by chunk changes no character but those that are cut. -/
theorem blur_flatMap_lossy (htext : chunks.flatten = encode text) : Blur text (chunks.flatMap lossy) := by
  obtain ⟨n, out, hout, hblur, hn⟩ := blur_chunks (List.forall_mem_nil (isTail · = true)) htext
  obtain rfl := hn.2 rfl
  rw [hout]
  exact hblur

end Utf8
