import ObeyGateway.Lib.StrSlice

/-!
# Image data in texts (`redact_embedded_image_data_urls`)

The text is searched for `data:image/`, and from there for the next `base64,`; what is between them and the payload
behind are replaced. The two searches are independent: the marker that is found can belong to another sentence. The data
URLs and nothing else are replaced exactly if no `data:image/` outside of them has a `base64,` behind it
(`redaction_law_iff`).
-/

namespace ObeyGateway

open Text StrSlice

def imageDataUrlPlaceholder : List Char := "[image data URL removed]".toList

def imageScheme : List Char := "data:image/".toList

def base64Marker : List Char := "base64,".toList

def isBase64Byte (b : UInt8) : Bool :=
  (48 ≤ b && b ≤ 57) || (65 ≤ b && b ≤ 90) || (97 ≤ b && b ≤ 122) || b = 43 || b = 47 || b = 61

def payloadEnd (bytes : List UInt8) (start : Nat) : Nat := start + ((bytes.drop start).takeWhile isBase64Byte).length

/-- The loop, from the cursor on; `none` is the panic of a slice. -/
def redactLoop (text : List Char) : (fuel cursor : Nat) → List Char → (redacted : Nat) → Option (List Char × Nat)
  | 0, _, _, _ => none
  | fuel + 1, cursor, out, redacted =>
    let lower := toAsciiLowercase text
    (sliceFrom lower cursor).bind fun tail =>
      match find imageScheme tail with
      | none => (sliceFrom text cursor).map fun rest => (out ++ rest, redacted)
      | some rel =>
        let start := cursor + rel
        (slice text cursor start).bind fun verbatim =>
          (sliceFrom lower start).bind fun afterPrefix =>
            match find base64Marker afterPrefix with
            | none =>
              let advance := start + size imageScheme
              (slice text start advance).bind fun token => redactLoop text fuel advance (out ++ verbatim ++ token) redacted
            | some commaRel =>
              let payloadStart := start + commaRel + size base64Marker
              redactLoop text fuel (payloadEnd (Utf8.encode text) payloadStart)
                (out ++ verbatim ++ imageDataUrlPlaceholder) (redacted + 1)

def redactEmbeddedImageDataUrls (text : List Char) : Option (List Char × Nat) :=
  if contains (toAsciiLowercase text) "data:image/" then
    (redactLoop text (text.length + 1) 0 [] 0).map fun (out, redacted) => (if 0 < redacted then out else text, redacted)
  else some (text, 0)

def isParam (c : Char) : Bool := !isWhitespace c && c ≠ '"' && c ≠ '\'' && c ≠ ','

def isBase64 (c : Char) : Bool := c.isAlphanum || c = '+' || c = '/' || c = '='

def Spells (word : List Char) (text : String) : Prop := toAsciiLowercase word = text.toList

/-- `data:image/`, the media type and parameters, `;base64,` and the payload. -/
inductive IsDataUrl : List Char → Prop
  | mk {scheme params marker payload : List Char} : Spells scheme "data:image/" → (∀ c ∈ params, isParam c = true) →
      Spells marker ";base64," → (∀ c ∈ payload, isBase64 c = true) → IsDataUrl (scheme ++ (params ++ (marker ++ payload)))

def BeginsUrl (text : List Char) : Prop := ∃ run back, IsDataUrl run ∧ text = run ++ back

inductive Piece
  | kept (c : Char)
  | url (run : List Char)

def Piece.text : Piece → List Char
  | .kept c => [c]
  | .url run => run

def Piece.output : Piece → List Char
  | .kept c => [c]
  | .url _ => imageDataUrlPlaceholder

def Piece.isUrl : Piece → Bool
  | .kept _ => false
  | .url _ => true

def textOf (pieces : List Piece) : List Char := pieces.flatMap Piece.text

def outputOf (pieces : List Piece) : List Char := pieces.flatMap Piece.output

/-- From the left, each URL is as long as it can be. -/
inductive Segments : List Piece → Prop
  | nil : Segments []
  | kept {c : Char} {pieces : List Piece} : ¬ BeginsUrl (c :: textOf pieces) → Segments pieces → Segments (.kept c :: pieces)
  | url {run : List Char} {pieces : List Piece} : IsDataUrl run → (∀ c ∈ (textOf pieces).head?, isBase64 c = false) →
      Segments pieces → Segments (.url run :: pieces)

structure RedactionLaw (text : List Char) (out : Option (List Char × Nat)) : Prop where
  redacts : ∃ pieces, Segments pieces ∧ textOf pieces = text ∧ out = some (outputOf pieces, pieces.countP Piece.isUrl)
  unchanged : ∀ result, out = some (result, 0) → result = text

def Mentions (text : List Char) : Prop := ∃ word back, Spells word "data:image/" ∧ text = word ++ back

def MarkerIn (text : List Char) : Prop := base64Marker <:+: toAsciiLowercase text

def MentionsLast (text : List Char) : Prop :=
  ∀ front c back, Segments (front ++ .kept c :: back) → textOf (front ++ .kept c :: back) = text →
    Mentions (c :: textOf back) → ¬ MarkerIn (textOf back)

variable {text front back out run rest before : List Char} {pieces : List Piece} {c : Char} {n : Nat}

theorem lower_append : toAsciiLowercase (front ++ back) = toAsciiLowercase front ++ toAsciiLowercase back :=
  List.map_append

theorem length_lower : (toAsciiLowercase text).length = text.length := List.length_map _

theorem lower_eq_append {word more : List Char} (h : toAsciiLowercase text = word ++ more) :
    ∃ front back, text = front ++ back ∧ toAsciiLowercase front = word ∧ toAsciiLowercase back = more :=
  List.map_eq_append_iff.1 h

theorem mentions_iff : Mentions text ↔ imageScheme <+: toAsciiLowercase text := by
  constructor
  · rintro ⟨word, back, hword, rfl⟩
    rw [lower_append, hword]
    exact List.prefix_append _ _
  · rintro ⟨more, hmore⟩
    obtain ⟨word, back, rfl, hword, -⟩ := lower_eq_append hmore.symm
    exact ⟨word, back, hword, rfl⟩

theorem comma_notMem_of_lower (h : ',' ∉ toAsciiLowercase text) : ',' ∉ text := fun hmem =>
  h (List.mem_map.2 ⟨',', hmem, by decide⟩)

theorem comma_of_lower (h : c.toLower = ',') : c = ',' := by
  unfold Char.toLower at h
  split at h
  · rename_i hupper
    have hval : (',' : Char).val = c.val + ('a'.val - 'A'.val) := by rw [← h]
    have hlow : 'A'.val.toNat ≤ c.val.toNat := hupper.1
    have hhigh : c.val.toNat ≤ 'Z'.val.toNat := hupper.2
    have hnat := congrArg UInt32.toNat hval
    rw [UInt32.toNat_add] at hnat
    simp at hnat hlow hhigh
    omega
  · exact h

/-! ### The URLs of a text -/

theorem spells_marker {marker : List Char} (word : String) (h : Spells marker (word ++ ",")) (hword : ',' ∉ word.toList) :
    ∃ front, marker = front ++ [','] ∧ ',' ∉ front := by
  rw [Spells, String.toList_append] at h
  obtain ⟨front, last, rfl, hfront, hlast⟩ := lower_eq_append h
  obtain ⟨c, rfl, hc⟩ := List.map_eq_singleton_iff.1 (show last.map Char.toLower = [','] from hlast)
  exact ⟨front, by rw [comma_of_lower hc], comma_notMem_of_lower (hfront ▸ hword)⟩

theorem IsDataUrl.split (h : IsDataUrl run) :
    ∃ front payload, run = front ++ ',' :: payload ∧ ',' ∉ front ∧ ∀ c ∈ payload, isBase64 c = true := by
  obtain ⟨hscheme, hparams, hmarker, hpayload⟩ := h
  rename_i scheme params marker payload
  obtain ⟨front, rfl, hfront⟩ := spells_marker ";base64" hmarker (by decide)
  refine ⟨scheme ++ (params ++ front), payload, by simp, ?_, hpayload⟩
  have hscheme : ',' ∉ scheme := comma_notMem_of_lower (hscheme ▸ by decide)
  have hparams : ',' ∉ params := fun hmem => absurd (hparams ',' hmem) (by decide)
  simp [hscheme, hparams, hfront]

theorem takeWhile_payload {payload : List Char} (hpayload : ∀ c ∈ payload, isBase64 c = true)
    (hback : ∀ c ∈ back.head?, isBase64 c = false) : (payload ++ back).takeWhile isBase64 = payload := by
  rw [List.takeWhile_append_of_pos hpayload]
  cases back with
  | nil => simp
  | cons c back => rw [List.takeWhile_cons_of_neg (by simp [hback c rfl]), List.append_nil]

theorem IsDataUrl.unique {run' back' : List Char} (h : IsDataUrl run) (h' : IsDataUrl run')
    (hback : ∀ c ∈ back.head?, isBase64 c = false) (hback' : ∀ c ∈ back'.head?, isBase64 c = false)
    (heq : run ++ back = run' ++ back') : run = run' ∧ back = back' := by
  obtain ⟨front, payload, rfl, hfront, hpayload⟩ := h.split
  obtain ⟨front', payload', rfl, hfront', hpayload'⟩ := h'.split
  rw [List.append_assoc, List.append_assoc, List.cons_append, List.cons_append] at heq
  obtain ⟨rfl, hrest⟩ := Search.append_cons_inj hfront hfront' heq
  have htake := congrArg (List.takeWhile isBase64) hrest
  rw [takeWhile_payload hpayload hback, takeWhile_payload hpayload' hback'] at htake
  subst htake
  exact ⟨rfl, List.append_cancel_left hrest⟩

theorem BeginsUrl.mentions (h : BeginsUrl text) : Mentions text := by
  obtain ⟨run, back, ⟨hscheme, -, -, -⟩, rfl⟩ := h
  exact ⟨_, _, hscheme, List.append_assoc _ _ _⟩

theorem BeginsUrl.semicolon (h : BeginsUrl text) : ";base64,".toList <:+: toAsciiLowercase text := by
  obtain ⟨run, back, ⟨-, -, hmarker, -⟩, rfl⟩ := h
  rename_i scheme params marker payload
  refine ⟨toAsciiLowercase scheme ++ toAsciiLowercase params, toAsciiLowercase payload ++ toAsciiLowercase back, ?_⟩
  rw [← show toAsciiLowercase marker = ";base64,".toList from hmarker]
  simp only [lower_append, List.append_assoc]

theorem BeginsUrl.markerIn (h : BeginsUrl text) : MarkerIn text :=
  List.IsInfix.trans ⟨[';'], [], rfl⟩ h.semicolon

theorem BeginsUrl.longest (h : BeginsUrl text) : ∃ run back, IsDataUrl run ∧ (∀ c ∈ back.head?, isBase64 c = false) ∧
    text = run ++ back ∧ back.length < text.length := by
  obtain ⟨run, back, hrun, rfl⟩ := h
  obtain ⟨hscheme, hparams, hmarker, hpayload⟩ := hrun
  rename_i scheme params marker payload
  refine ⟨scheme ++ (params ++ (marker ++ (payload ++ back.takeWhile isBase64))), back.dropWhile isBase64,
    .mk hscheme hparams hmarker ?_, ?_, ?_, ?_⟩
  · intro c hc
    rcases List.mem_append.1 hc with hc | hc
    · exact hpayload c hc
    · exact List.all_eq_true.1 List.all_takeWhile c hc
  · intro c hc
    have hhead := List.head?_dropWhile_not isBase64 back
    rw [hc] at hhead
    exact hhead
  · simp [List.takeWhile_append_dropWhile]
  · have hlength := congrArg List.length hscheme
    rw [length_lower] at hlength
    have hdrop := (List.dropWhile_suffix isBase64 (l := back)).length_le
    simp only [List.length_append]
    have : ("data:image/".toList).length = 11 := by decide
    omega

theorem Segments.exists (text : List Char) : ∃ pieces, Segments pieces ∧ textOf pieces = text := by
  induction h : text.length using Nat.strong_induction_on generalizing text with
  | _ length ih =>
    subst h
    by_cases hurl : BeginsUrl text
    · obtain ⟨run, back, hrun, hback, rfl, hlt⟩ := hurl.longest
      obtain ⟨pieces, hpieces, rfl⟩ := ih _ hlt back rfl
      exact ⟨.url run :: pieces, .url hrun hback hpieces, rfl⟩
    · rcases text with _ | ⟨c, text⟩
      · exact ⟨[], .nil, rfl⟩
      obtain ⟨pieces, hpieces, rfl⟩ := ih text.length (Nat.lt_succ_self _) text rfl
      exact ⟨.kept c :: pieces, .kept hurl hpieces, rfl⟩

def Segmented (text out : List Char) (n : Nat) : Prop :=
  ∃ pieces, Segments pieces ∧ textOf pieces = text ∧ outputOf pieces = out ∧ pieces.countP Piece.isUrl = n

theorem segments_cons_kept (hurl : ¬ BeginsUrl (c :: text)) (h : Segments pieces) (htext : textOf pieces = c :: text) :
    ∃ more, pieces = .kept c :: more ∧ Segments more ∧ textOf more = text := by
  cases h with
  | nil => cases htext
  | kept hfirst hmore =>
    obtain ⟨rfl, htail⟩ := List.cons.inj htext
    exact ⟨_, rfl, hmore, htail⟩
  | url hrun hmax hmore => exact absurd ⟨_, _, hrun, htext.symm⟩ hurl

theorem segments_run (hrun : IsDataUrl run) (hmax : ∀ c ∈ text.head?, isBase64 c = false) (h : Segments pieces)
    (htext : textOf pieces = run ++ text) : ∃ more, pieces = .url run :: more ∧ Segments more ∧ textOf more = text := by
  cases h with
  | nil =>
    obtain ⟨front, payload, rfl, -, -⟩ := hrun.split
    simp [textOf] at htext
  | kept hfirst hmore => exact absurd ⟨run, text, hrun, htext⟩ hfirst
  | url hrun' hmax' hmore =>
    obtain ⟨rfl, htail⟩ := hrun'.unique hrun hmax' hmax htext
    exact ⟨_, rfl, hmore, htail⟩

theorem segmented_kept (hurl : ¬ BeginsUrl (c :: text)) :
    Segmented (c :: text) out n ↔ ∃ more, out = c :: more ∧ Segmented text more n := by
  constructor
  · rintro ⟨pieces, hpieces, htext, rfl, rfl⟩
    obtain ⟨more, rfl, hmore, rfl⟩ := segments_cons_kept hurl hpieces htext
    exact ⟨outputOf more, rfl, more, hmore, rfl, rfl, by simp [Piece.isUrl]⟩
  · rintro ⟨more, rfl, pieces, hpieces, rfl, rfl, rfl⟩
    exact ⟨.kept c :: pieces, .kept hurl hpieces, rfl, rfl, by simp [Piece.isUrl]⟩

theorem segmented_run (hrun : IsDataUrl run) (hmax : ∀ c ∈ text.head?, isBase64 c = false) :
    Segmented (run ++ text) (imageDataUrlPlaceholder ++ out) (n + 1) ↔ Segmented text out n := by
  constructor
  · rintro ⟨pieces, hpieces, htext, hout, hn⟩
    obtain ⟨more, rfl, hmore, rfl⟩ := segments_run hrun hmax hpieces htext
    rw [List.countP_cons_of_pos (by rfl)] at hn
    exact ⟨more, hmore, rfl, List.append_cancel_left hout, Nat.succ.inj hn⟩
  · rintro ⟨pieces, hpieces, rfl, rfl, rfl⟩
    exact ⟨.url run :: pieces, .url hrun hmax hpieces, rfl, rfl, List.countP_cons_of_pos rfl⟩

theorem mentionsLast_kept (hurl : ¬ BeginsUrl (c :: text)) :
    MentionsLast (c :: text) ↔ (Mentions (c :: text) → ¬ MarkerIn text) ∧ MentionsLast text := by
  constructor
  · intro h
    refine ⟨fun hmentions => ?_, fun front d back hpieces htext => ?_⟩
    · obtain ⟨pieces, hpieces, rfl⟩ := Segments.exists text
      exact h [] c pieces (.kept hurl hpieces) rfl hmentions
    · exact h (.kept c :: front) d back (.kept (htext ▸ hurl) hpieces) (congrArg (c :: ·) htext)
  · rintro ⟨hfirst, hrest⟩ front d back hpieces htext
    obtain ⟨more, heq, hmore, rfl⟩ := segments_cons_kept hurl hpieces htext
    rcases front with _ | ⟨p, front⟩
    · cases heq
      exact hfirst
    obtain ⟨-, rfl⟩ := List.cons.inj heq
    exact hrest front d back hmore rfl

theorem mentionsLast_run (hrun : IsDataUrl run) (hmax : ∀ c ∈ text.head?, isBase64 c = false) :
    MentionsLast (run ++ text) ↔ MentionsLast text := by
  constructor
  · intro h front d back hpieces htext
    exact h (.url run :: front) d back (.url hrun (htext ▸ hmax) hpieces) (congrArg (run ++ ·) htext)
  · intro h front d back hpieces htext
    obtain ⟨more, heq, hmore, rfl⟩ := segments_run hrun hmax hpieces htext
    rcases front with _ | ⟨p, front⟩
    · cases heq
    obtain ⟨-, rfl⟩ := List.cons.inj heq
    exact h front d back hmore rfl

theorem segmented_before (h : Search.NoStart imageScheme (toAsciiLowercase before) (toAsciiLowercase text)) :
    Segmented (before ++ text) (before ++ out) n ↔ Segmented text out n := by
  induction before with
  | nil => exact Iff.rfl
  | cons c before ih =>
    have hurl : ¬ BeginsUrl (c :: (before ++ text)) := fun hurl =>
      h.1 (by simpa [toAsciiLowercase] using mentions_iff.1 hurl.mentions)
    rw [List.cons_append, List.cons_append, segmented_kept hurl]
    constructor
    · rintro ⟨more, heq, hmore⟩
      obtain ⟨-, rfl⟩ := List.cons.inj heq
      exact (ih h.2).1 hmore
    · intro hrest
      exact ⟨_, rfl, (ih h.2).2 hrest⟩

theorem mentionsLast_before (h : Search.NoStart imageScheme (toAsciiLowercase before) (toAsciiLowercase text)) :
    MentionsLast (before ++ text) ↔ MentionsLast text := by
  induction before with
  | nil => exact Iff.rfl
  | cons c before ih =>
    have hfirst : ¬ Mentions (c :: (before ++ text)) := fun hmentions =>
      h.1 (by simpa [toAsciiLowercase] using mentions_iff.1 hmentions)
    rw [List.cons_append, mentionsLast_kept fun hurl => hfirst hurl.mentions, ih h.2]
    exact ⟨fun h => h.2, fun h => ⟨fun hmentions => absurd hmentions hfirst, h⟩⟩

theorem MarkerIn.append_left (h : MarkerIn text) (front : List Char) : MarkerIn (front ++ text) := by
  rw [MarkerIn, lower_append]
  exact h.trans (List.suffix_append _ _).isInfix

theorem segmented_unmarked (h : ¬ MarkerIn (front ++ text)) :
    Segmented (front ++ text) (front ++ out) n ↔ Segmented text out n := by
  induction front with
  | nil => exact Iff.rfl
  | cons c front ih =>
    have hurl : ¬ BeginsUrl (c :: (front ++ text)) := fun hurl => h hurl.markerIn
    rw [List.cons_append, List.cons_append, segmented_kept hurl]
    have hrest := ih fun hmarker => h (hmarker.append_left [c])
    constructor
    · rintro ⟨more, heq, hmore⟩
      obtain ⟨-, rfl⟩ := List.cons.inj heq
      exact hrest.1 hmore
    · intro hmore
      exact ⟨_, rfl, hrest.2 hmore⟩

theorem mentionsLast_unmarked (h : ¬ MarkerIn text) : MentionsLast text := by
  rintro front c back - rfl - hmarker
  refine h ?_
  rw [textOf, List.flatMap_append]
  exact (hmarker.append_left [c]).append_left (textOf front)

/-- A URL that begins at the mention has the first marker behind it. -/
theorem isDataUrl_of_first {token middle marker payload : List Char}
    (hfirst : Search.NoStart base64Marker (toAsciiLowercase (token ++ middle)) (base64Marker ++ toAsciiLowercase (payload ++ back)))
    (hmarker : Spells marker "base64,") (hpayload : ∀ c ∈ payload, isBase64 c = true)
    (hurl : BeginsUrl (token ++ (middle ++ (marker ++ (payload ++ back))))) :
    IsDataUrl (token ++ (middle ++ (marker ++ payload))) := by
  obtain ⟨run, behind, ⟨hscheme, hparams, hurlMarker, -⟩, heq⟩ := hurl
  rename_i scheme params urlMarker urlPayload
  obtain ⟨front, rfl, hfront⟩ := spells_marker "base64" hmarker (by decide)
  obtain ⟨urlFront, rfl, hurlFront⟩ := spells_marker ";base64" hurlMarker (by decide)
  have hcomma : ',' ∉ scheme ++ (params ++ urlFront) := by
    have hscheme : ',' ∉ scheme := comma_notMem_of_lower (hscheme ▸ by decide)
    have hparams : ',' ∉ params := fun hmem => absurd (hparams ',' hmem) (by decide)
    simp [hscheme, hparams, hurlFront]
  -- the first marker is not behind the one of the URL, so no comma is in front of it either
  have hmarkerLower : toAsciiLowercase (front ++ [',']) = base64Marker := hmarker
  have hurlLower : toAsciiLowercase (urlFront ++ [',']) = ';' :: base64Marker := hurlMarker
  have hle : (token ++ middle).length ≤ (scheme ++ (params ++ [';'])).length := by
    have hleft : toAsciiLowercase (token ++ (middle ++ (front ++ [','] ++ (payload ++ back)))) =
        toAsciiLowercase (token ++ middle) ++ (base64Marker ++ toAsciiLowercase (payload ++ back)) := by
      rw [← hmarkerLower, ← lower_append, ← lower_append, List.append_assoc token]
    have hright : toAsciiLowercase (scheme ++ (params ++ (urlFront ++ [','] ++ urlPayload)) ++ behind) =
        toAsciiLowercase scheme ++ (toAsciiLowercase params ++ [';']) ++
          (base64Marker ++ (toAsciiLowercase urlPayload ++ toAsciiLowercase behind)) := by
      rw [lower_append, lower_append, lower_append, lower_append, hurlLower]
      simp
    have hpre := hfirst.prefix_of_eq (hleft.symm.trans ((congrArg toAsciiLowercase heq).trans hright))
    simpa [length_lower] using hpre.length_le
  have hlength : front.length + 1 = urlFront.length := by
    have h₁ := congrArg List.length hmarkerLower
    have h₂ := congrArg List.length hurlLower
    simp only [length_lower, List.length_append, List.length_cons, List.length_nil] at h₁ h₂
    omega
  have hsplit : (token ++ (middle ++ front)) ++ ',' :: (payload ++ back) =
      (scheme ++ (params ++ urlFront)) ++ ',' :: (urlPayload ++ behind) := by simpa using heq
  have hpre : token ++ (middle ++ front) <+: scheme ++ (params ++ urlFront) :=
    List.prefix_of_prefix_length_le ⟨_, hsplit⟩ (List.prefix_append _ _) (by
      simp only [List.length_append, List.length_cons, List.length_nil] at hle ⊢
      omega)
  obtain ⟨hsame, -⟩ := Search.append_cons_inj (fun hmem => hcomma (hpre.subset hmem)) hcomma hsplit
  have hrun : token ++ (middle ++ ((front ++ [',']) ++ payload)) = scheme ++ (params ++ ((urlFront ++ [',']) ++ payload)) := by
    simpa using congrArg (· ++ ',' :: payload) hsame
  rw [hrun]
  exact .mk hscheme hparams hurlMarker hpayload

/-! ### What the loop does -/

inductive Scans : List Char → List Char → Nat → Prop
  | done {text : List Char} : Search.NoStart imageScheme (toAsciiLowercase text) [] → Scans text text 0
  | unmarked {before token back out : List Char} {n : Nat} :
      Search.NoStart imageScheme (toAsciiLowercase before) (toAsciiLowercase (token ++ back)) →
      ¬ MarkerIn (token ++ back) → Scans back out n → Scans (before ++ (token ++ back)) (before ++ (token ++ out)) n
  | marked {before token middle marker payload back out : List Char} {n : Nat} :
      Search.NoStart imageScheme (toAsciiLowercase before)
        (toAsciiLowercase (token ++ (middle ++ (marker ++ (payload ++ back))))) →
      Spells token "data:image/" →
      Search.NoStart base64Marker (toAsciiLowercase (token ++ middle)) (base64Marker ++ toAsciiLowercase (payload ++ back)) →
      Spells marker "base64," → (∀ c ∈ payload, isBase64 c = true) → (∀ c ∈ back.head?, isBase64 c = false) →
      Scans back out n →
      Scans (before ++ (token ++ (middle ++ (marker ++ (payload ++ back))))) (before ++ (imageDataUrlPlaceholder ++ out)) (n + 1)

/-- The replaced runs are the URLs exactly if no mention outside of them has a marker behind. -/
theorem Scans.segmented_iff (h : Scans text out n) : Segmented text out n ↔ MentionsLast text := by
  induction h with
  | @done text hnone =>
    have hnil : Segmented [] [] 0 := ⟨[], .nil, rfl, rfl, rfl⟩
    have hkept : Segmented (text ++ []) (text ++ []) 0 := (segmented_before hnone).2 hnil
    have hlast : MentionsLast (text ++ []) := (mentionsLast_before hnone).2 (mentionsLast_unmarked fun hin =>
      absurd (List.infix_nil.1 hin) (by decide))
    rw [List.append_nil] at hkept hlast
    exact ⟨fun _ => hlast, fun _ => hkept⟩
  | @unmarked before token back out n hbefore hnone hback ih =>
    have hback : MentionsLast back := mentionsLast_unmarked fun hmarker => hnone (hmarker.append_left token)
    rw [segmented_before hbefore, mentionsLast_before hbefore, segmented_unmarked hnone]
    exact ⟨fun _ => mentionsLast_unmarked hnone, fun _ => ih.2 hback⟩
  | @marked before token middle marker payload back out n hbefore htoken hfirst hmarker hpayload hmax hback ih =>
    rw [segmented_before hbefore, mentionsLast_before hbefore]
    by_cases hurl : BeginsUrl (token ++ (middle ++ (marker ++ (payload ++ back))))
    · have hrun := isDataUrl_of_first hfirst hmarker hpayload hurl
      have htext : token ++ (middle ++ (marker ++ (payload ++ back))) =
          (token ++ (middle ++ (marker ++ payload))) ++ back := by simp
      rw [htext, segmented_run hrun hmax, mentionsLast_run hrun hmax]
      exact ih
    · obtain ⟨c, token, rfl⟩ : ∃ c rest, token = c :: rest := by
        cases token with
        | nil => cases htoken
        | cons c rest => exact ⟨c, rest, rfl⟩
      have hc : c.toLower = 'd' := (List.cons.inj htoken).1
      constructor
      · intro hsegmented
        obtain ⟨more, heq, -⟩ := (segmented_kept hurl).1 hsegmented
        have hbracket : '[' = c := (List.cons.inj heq).1
        exact absurd (hbracket ▸ hc) (by decide)
      · intro hlast
        refine absurd ?_ (((mentionsLast_kept hurl).1 hlast).1 ⟨_, _, htoken, rfl⟩)
        have hin : MarkerIn (marker ++ (payload ++ back)) := by
          rw [MarkerIn, lower_append, show toAsciiLowercase marker = base64Marker from hmarker]
          exact (List.prefix_append _ _).isInfix
        exact (hin.append_left middle).append_left token

theorem toNat_lt_of_isBase64 (h : isBase64 c = true) : c.toNat < 128 := by
  unfold isBase64 at h
  rw [Bool.or_eq_true, Bool.or_eq_true, Bool.or_eq_true, decide_eq_true_eq, decide_eq_true_eq, decide_eq_true_eq] at h
  rcases h with ((h | rfl) | rfl) | rfl
  · unfold Char.isAlphanum Char.isAlpha Char.isUpper Char.isLower Char.isDigit at h
    simp only [Bool.or_eq_true, Bool.and_eq_true, decide_eq_true_eq, ge_iff_le, UInt32.le_iff_toNat_le] at h
    have hnat : c.toNat = c.val.toNat := rfl
    rcases h with (⟨-, h⟩ | ⟨-, h⟩) | ⟨-, h⟩ <;> simp at h <;> omega
  · decide
  · decide
  · decide

theorem isBase64Byte_encode (c : Char) : ∃ b tails, String.utf8EncodeChar c = b :: tails ∧ isBase64Byte b = isBase64 c ∧
    (isBase64 c = true → tails = []) := by
  by_cases hc : c.toNat < 128
  · have hascii : ∀ n < 128, String.utf8EncodeChar (Char.ofNat n) = [UInt8.ofNat n] ∧
        isBase64Byte (UInt8.ofNat n) = isBase64 (Char.ofNat n) := by decide
    have h := hascii _ hc
    rw [Char.ofNat_toNat] at h
    exact ⟨_, [], h.1, h.2, fun _ => rfl⟩
  · have hnone : isBase64 c = false := Bool.eq_false_iff.2 fun h => hc (toNat_lt_of_isBase64 h)
    obtain ⟨b, tails, hencode, -, -⟩ := Utf8.utf8EncodeChar_shape c
    refine ⟨b, tails, hencode, ?_, fun h => by rw [hnone] at h; cases h⟩
    have htails : tails ≠ [] := by
      rintro rfl
      have hsize := String.length_utf8EncodeChar c
      rw [hencode] at hsize
      have hsmall := UInt32.le_iff_toNat_le.1 (Char.utf8Size_eq_one_iff.1 hsize.symm)
      exact hc (Nat.lt_succ_of_le hsmall)
    obtain ⟨-, p, hmore, -⟩ := Utf8.utf8EncodeChar_wide hencode htails
    have hwide : 0x7F < b.toNat := by
      by_contra hsmall
      rw [Utf8.first, if_pos (by omega)] at hmore
      cases hmore
    rw [hnone]
    simp only [isBase64Byte, Bool.or_eq_false_iff, Bool.and_eq_false_iff, decide_eq_false_iff_not, UInt8.le_iff_toNat_le,
      ← UInt8.toNat_inj]
    simp
    omega

theorem takeWhile_encode (text : List Char) :
    ((Utf8.encode text).takeWhile isBase64Byte).length = size (text.takeWhile isBase64) := by
  induction text with
  | nil => rfl
  | cons c text ih =>
    obtain ⟨b, tails, hencode, hb, htails⟩ := isBase64Byte_encode c
    rw [Utf8.encode_cons, hencode, List.cons_append]
    rcases hc : isBase64 c with _ | _
    · rw [List.takeWhile_cons_of_neg (by simp [hb, hc]), List.takeWhile_cons_of_neg (by simp [hc])]; rfl
    have hsize := String.length_utf8EncodeChar c
    obtain rfl := htails hc
    rw [hencode] at hsize
    rw [List.takeWhile_cons_of_pos (by rw [hb, hc]), List.takeWhile_cons_of_pos hc, List.length_cons, List.nil_append, ih,
      size_cons, ← hsize]
    exact Nat.add_comm _ _

theorem payloadEnd_size (front back : List Char) :
    payloadEnd (Utf8.encode (front ++ back)) (size front) = size (front ++ back.takeWhile isBase64) := by
  have hencode : Utf8.encode (front ++ back) = Utf8.encode front ++ Utf8.encode back := List.flatMap_append
  rw [payloadEnd, hencode, ← length_encode, List.drop_left, takeWhile_encode, length_encode, size_append]

theorem scheme_prefix {behind : List Char} (h : imageScheme ++ front = back ++ (base64Marker ++ behind)) :
    ∃ middle, back = imageScheme ++ middle ∧ front = middle ++ (base64Marker ++ behind) := by
  rcases List.append_eq_append_iff.1 h with ⟨middle, hback, hfront⟩ | ⟨more, hscheme, hmarker⟩
  · exact ⟨middle, hback, hfront⟩
  · rcases more with _ | ⟨c, more⟩
    · exact ⟨[], by rw [hscheme]; simp, by simpa using hmarker.symm⟩
    have hc : 'b' = c := (List.cons.inj hmarker).1
    have hmem : 'b' ∈ imageScheme := by
      rw [hscheme, hc]
      simp
    exact absurd hmem (by decide)

/-- From a cursor between two characters on the loop goes through the rest of the text. -/
theorem redactLoop_scans (htext : text = front ++ rest) (fuel : Nat) (hfuel : rest.length < fuel) (out : List Char) (n : Nat) :
    ∃ more k, redactLoop text fuel (size front) out n = some (out ++ more, n + k) ∧ Scans rest more k := by
  induction fuel generalizing front rest out n with
  | zero => cases hfuel
  | succ fuel ih =>
    subst htext
    have hlower : sliceFrom (toAsciiLowercase (front ++ rest)) (size front) = some (toAsciiLowercase rest) := by
      rw [lower_append, ← size_toAsciiLowercase front, sliceFrom_size]
    rw [redactLoop]
    dsimp only
    rw [hlower, Option.bind_some]
    rcases hfind : find imageScheme (toAsciiLowercase rest) with _ | rel
    · have hnone := (find_eq_none (by decide)).1 hfind
      refine ⟨rest, 0, ?_, .done (Search.noStart_of_absent (by rwa [List.append_nil]))⟩
      dsimp only
      rw [sliceFrom_size]
      rfl
    obtain ⟨low, lowBack, hlow, hfirst, hrel⟩ := find_eq_some hfind
    obtain ⟨before, tail, rfl, rfl, htail⟩ := lower_eq_append hlow
    obtain ⟨token, behind, rfl, htoken, hbehind⟩ := lower_eq_append htail
    rw [← htail] at hfirst
    rw [size_toAsciiLowercase] at hrel
    subst hrel
    have hverbatim : slice (front ++ (before ++ (token ++ behind))) (size front) (size front + size before) = some before :=
      slice_size _ _ _
    have hafter : sliceFrom (toAsciiLowercase (front ++ (before ++ (token ++ behind)))) (size front + size before) =
        some (toAsciiLowercase (token ++ behind)) := by
      rw [← List.append_assoc, lower_append, ← size_append, ← size_toAsciiLowercase (front ++ before), sliceFrom_size]
    have htokenSize : size imageScheme = size token := by rw [← size_toAsciiLowercase token, htoken]
    dsimp only
    rw [hverbatim, Option.bind_some, hafter, Option.bind_some]
    have htokenPos : 0 < token.length := by
      have hlength := congrArg List.length htoken
      rw [length_lower] at hlength
      rw [hlength]
      decide
    rcases hmarker : find base64Marker (toAsciiLowercase (token ++ behind)) with _ | commaRel
    · have hnone := (find_eq_none (by decide)).1 hmarker
      have hslice : slice (front ++ (before ++ (token ++ behind))) (size front + size before)
          (size front + size before + size imageScheme) = some token := by
        rw [htokenSize, ← size_append, ← List.append_assoc]
        exact slice_size _ _ _
      dsimp only
      rw [hslice, Option.bind_some]
      have hrest : front ++ (before ++ (token ++ behind)) = (front ++ (before ++ token)) ++ behind := by simp
      obtain ⟨more, k, hloop, hscans⟩ := ih hrest (by simp only [List.length_append] at hfuel; omega) (out ++ before ++ token) n
      refine ⟨before ++ (token ++ more), k, ?_, .unmarked hfirst hnone hscans⟩
      have hcursor : size front + size before + size imageScheme = size (front ++ (before ++ token)) := by
        rw [htokenSize, size_append, size_append, Nat.add_assoc]
      rw [hcursor, hloop]
      simp
    obtain ⟨lowMiddle, lowPayload, hlowMarker, hfirstMarker, hcommaRel⟩ := find_eq_some hmarker
    rw [lower_append, htoken] at hlowMarker
    obtain ⟨lowMiddle, rfl, hlowBehind⟩ := scheme_prefix hlowMarker
    obtain ⟨middle, tail, rfl, rfl, htail⟩ := lower_eq_append hlowBehind
    obtain ⟨marker, payloadOn, rfl, hmarkerSpells, rfl⟩ := lower_eq_append htail
    have hsplit : payloadOn = payloadOn.takeWhile isBase64 ++ payloadOn.dropWhile isBase64 :=
      List.takeWhile_append_dropWhile.symm
    have hpayload : ∀ c ∈ payloadOn.takeWhile isBase64, isBase64 c = true :=
      fun c hc => List.all_eq_true.1 List.all_takeWhile c hc
    have hmax : ∀ c ∈ (payloadOn.dropWhile isBase64).head?, isBase64 c = false := by
      intro c hc
      have hhead := List.head?_dropWhile_not isBase64 payloadOn
      rw [hc] at hhead
      exact hhead
    have hend : payloadEnd (Utf8.encode (front ++ (before ++ (token ++ (middle ++ (marker ++ payloadOn))))))
        (size front + size before + commaRel + size base64Marker) =
          size (front ++ (before ++ (token ++ (middle ++ (marker ++ payloadOn.takeWhile isBase64))))) := by
      have hstart : size front + size before + commaRel + size base64Marker =
          size (front ++ (before ++ (token ++ (middle ++ marker)))) := by
        rw [← hcommaRel, ← htoken, ← hmarkerSpells, ← lower_append, size_toAsciiLowercase, size_toAsciiLowercase]
        simp only [size_append]
        omega
      have hassoc : front ++ (before ++ (token ++ (middle ++ (marker ++ payloadOn)))) =
          (front ++ (before ++ (token ++ (middle ++ marker)))) ++ payloadOn := by simp
      rw [hstart, hassoc, payloadEnd_size]
      simp
    dsimp only
    rw [hend]
    have hrest : front ++ (before ++ (token ++ (middle ++ (marker ++ payloadOn)))) =
        (front ++ (before ++ (token ++ (middle ++ (marker ++ payloadOn.takeWhile isBase64))))) ++
          payloadOn.dropWhile isBase64 := by
      simp [List.takeWhile_append_dropWhile]
    have hshort : (payloadOn.dropWhile isBase64).length ≤ payloadOn.length := (List.dropWhile_suffix _).length_le
    obtain ⟨more, k, hloop, hscans⟩ := ih hrest (by simp only [List.length_append] at hfuel; omega)
      (out ++ before ++ imageDataUrlPlaceholder) (n + 1)
    refine ⟨before ++ (imageDataUrlPlaceholder ++ more), k + 1, ?_, ?_⟩
    · rw [hloop, List.append_assoc, List.append_assoc, Nat.add_assoc, Nat.add_comm 1 k]
    · rw [hsplit]
      refine .marked ?_ htoken ?_ hmarkerSpells hpayload hmax hscans
      · rw [← hsplit]
        exact hfirst
      · rw [← hsplit, lower_append, htoken]
        exact hfirstMarker

theorem Scans.unchanged (h : Scans text out 0) : out = text := by
  generalize hn : 0 = n at h
  induction h with
  | done => rfl
  | unmarked hbefore hnone hback ih => rw [ih hn]
  | marked => cases hn

theorem redact_scans (text : List Char) : ∃ out n, redactEmbeddedImageDataUrls text = some (out, n) ∧ Scans text out n := by
  rw [redactEmbeddedImageDataUrls]
  split
  · obtain ⟨out, n, hloop, hscans⟩ := redactLoop_scans (List.nil_append text).symm (text.length + 1) (Nat.lt_succ_self _) [] 0
    rw [size_nil] at hloop
    rw [hloop, List.nil_append, Nat.zero_add]
    by_cases hn : 0 < n
    · exact ⟨out, n, congrArg some (Prod.ext (if_pos hn) rfl), hscans⟩
    · obtain rfl : n = 0 := by omega
      obtain rfl := hscans.unchanged
      exact ⟨out, 0, rfl, hscans⟩
  · rename_i hnone
    refine ⟨text, 0, rfl, .done (Search.noStart_of_absent ?_)⟩
    rw [List.append_nil]
    exact fun hin => hnone (decide_eq_true hin)

/-! ### What is left of mentions -/

theorem Scans.of_unmarked (h : Scans text out n) (hnone : ¬ MarkerIn text) : n = 0 := by
  induction h with
  | done => rfl
  | @unmarked before token back _ _ _ _ _ ih => exact ih fun hin => hnone ((hin.append_left token).append_left before)
  | @marked before token middle marker payload back _ _ _ _ _ hmarker =>
    refine absurd ?_ hnone
    have hin : MarkerIn (marker ++ (payload ++ back)) := by
      rw [MarkerIn, lower_append, show toAsciiLowercase marker = base64Marker from hmarker]
      exact (List.prefix_append _ _).isInfix
    exact ((hin.append_left middle).append_left token).append_left before

theorem noStart_placeholder (ys : List Char) : Search.NoStart imageScheme (toAsciiLowercase imageDataUrlPlaceholder) ys := by
  have hopen : ¬ imageScheme <:+: "[image data url removed".toList := by decide
  have hlast : Search.NoStart imageScheme [']'] ys := Search.noStart_of_notMem (by decide) ys
  exact (Search.noStart_cons_of_notMem (by decide) hopen ys).append hlast

theorem Scans.settled (h : Scans text out n) : ∃ front back, out = front ++ back ∧
    Search.NoStart imageScheme (toAsciiLowercase front) (toAsciiLowercase back) ∧ ¬ MarkerIn back := by
  induction h with
  | @done text hnone => exact ⟨text, [], (List.append_nil _).symm, hnone, fun hin => absurd (List.infix_nil.1 hin) (by decide)⟩
  | @unmarked before token back out n hbefore hnone hscans =>
    obtain rfl := hscans.of_unmarked fun hin => hnone (hin.append_left token)
    obtain rfl := hscans.unchanged
    exact ⟨before, token ++ out, rfl, hbefore, hnone⟩
  | @marked before token middle marker payload back out n hbefore _ _ _ _ _ _ ih =>
    obtain ⟨front, rest, rfl, hfront, hrest⟩ := ih
    refine ⟨before ++ (imageDataUrlPlaceholder ++ front), rest, by simp, ?_, hrest⟩
    have hplaceholder : Search.NoStart imageScheme (toAsciiLowercase (imageDataUrlPlaceholder ++ front)) (toAsciiLowercase rest) := by
      rw [lower_append]
      exact (noStart_placeholder _).append hfront
    rw [lower_append]
    exact (hbefore.cons_of_notMem (by decide) _).append hplaceholder

theorem Scans.again {out' : List Char} {k : Nat} (h : Scans text out n) (h' : Scans out out' k) : k = 0 := by
  obtain ⟨front, back, heq, hfront, hback⟩ := h.settled
  cases h' with
  | done => rfl
  | @unmarked before token behind _ _ _ hnone hscans => exact hscans.of_unmarked fun hin => hnone (hin.append_left token)
  | @marked before token middle marker payload behind _ n _ htoken _ hmarker =>
    have hin : MarkerIn (token ++ (middle ++ (marker ++ (payload ++ behind)))) := by
      have hin : MarkerIn (marker ++ (payload ++ behind)) := by
        rw [MarkerIn, lower_append, show toAsciiLowercase marker = base64Marker from hmarker]
        exact (List.prefix_append _ _).isInfix
      exact (hin.append_left middle).append_left token
    have hmention : Mentions (token ++ (middle ++ (marker ++ (payload ++ behind)))) := ⟨_, _, htoken, rfl⟩
    generalize token ++ (middle ++ (marker ++ (payload ++ behind))) = tail at heq hin hmention
    rcases List.append_eq_append_iff.1 heq with ⟨more, rfl, rfl⟩ | ⟨more, rfl, rfl⟩
    · rcases more with _ | ⟨c, more⟩
      · exact absurd hin hback
      rw [lower_append] at hfront
      have hstart := (hfront.right).1
      exact absurd (by simpa [toAsciiLowercase] using mentions_iff.1 hmention) hstart
    · exact absurd (hin.append_left more) hback

theorem Scans.bracket_mem (h : Scans text out n) (hn : n ≠ 0) : '[' ∈ out := by
  cases h with
  | done => exact absurd rfl hn
  | unmarked _ hnone hscans => exact absurd (hscans.of_unmarked fun hin => hnone (hin.append_left _)) hn
  | @marked before token middle marker payload back out =>
    refine List.mem_append_right _ (List.mem_append_left _ ?_)
    decide

theorem Scans.not_begins (h : Scans text out n) (hn : n ≠ 0) : ¬ imageScheme <+: toAsciiLowercase (trimStart out) := by
  cases h with
  | done => exact absurd rfl hn
  | unmarked _ hnone hscans => exact absurd (hscans.of_unmarked fun hin => hnone (hin.append_left _)) hn
  | @marked before token middle marker payload back out n hbefore =>
    intro hbegins
    have hout : imageDataUrlPlaceholder ++ out = '[' :: ("image data URL removed]".toList ++ out) := rfl
    rw [hout, trimStart, List.dropWhile_append] at hbegins
    split at hbegins
    · rw [List.dropWhile_cons_of_neg (by decide)] at hbegins
      exact absurd (List.cons_prefix_cons.1 hbegins).1 (by decide)
    · rename_i hne
      obtain ⟨c, text, htext⟩ := List.exists_cons_of_ne_nil fun hnil => hne (List.isEmpty_iff.2 hnil)
      have hsplit : before = before.takeWhile isWhitespace ++ c :: text := by
        rw [← htext, List.takeWhile_append_dropWhile]
      rw [hsplit, lower_append] at hbefore
      rw [htext, lower_append] at hbegins
      exact hbefore.right.1 ((Search.prefix_of_prefix_append_cons (by decide) hbegins).trans (List.prefix_append _ _))

/-- The data URLs are replaced, and nothing else is, exactly if no mention of image data outside of them has a marker
behind it. -/
theorem redaction_law_iff (text : List Char) : RedactionLaw text (redactEmbeddedImageDataUrls text) ↔ MentionsLast text := by
  obtain ⟨out, n, hredact, hscans⟩ := redact_scans text
  rw [← hscans.segmented_iff, hredact]
  constructor
  · rintro ⟨⟨pieces, hpieces, htext, hout⟩, -⟩
    cases hout
    exact ⟨pieces, hpieces, htext, rfl, rfl⟩
  · rintro ⟨pieces, hpieces, htext, rfl, rfl⟩
    refine ⟨⟨pieces, hpieces, htext, rfl⟩, fun result hresult => ?_⟩
    obtain ⟨rfl, hzero⟩ := Prod.mk.inj (Option.some.inj hresult)
    rw [hzero] at hscans
    exact hscans.unchanged

def proseMention : List Char := "use data:image/ urls, not base64, please".toList

theorem prose_swallowed : redactEmbeddedImageDataUrls proseMention = some ("use [image data URL removed] please".toList, 1) ∧
    ¬ RedactionLaw proseMention (redactEmbeddedImageDataUrls proseMention) := by
  have hout : redactEmbeddedImageDataUrls proseMention = some ("use [image data URL removed] please".toList, 1) := by
    decide +kernel
  refine ⟨hout, fun law => ?_⟩
  obtain ⟨pieces, hpieces, htext, hredact⟩ := law.redacts
  rw [hout] at hredact
  obtain ⟨hpiecesOut, hcount⟩ := Prod.mk.inj (Option.some.inj hredact)
  have hsegmented : Segmented ("use ".toList ++ "data:image/ urls, not base64, please".toList)
      ("use ".toList ++ "[image data URL removed] please".toList) 1 :=
    ⟨pieces, hpieces, htext, hpiecesOut.symm, hcount.symm⟩
  have hbefore : Search.NoStart imageScheme (toAsciiLowercase "use ".toList)
      (toAsciiLowercase "data:image/ urls, not base64, please".toList) :=
    ⟨by decide, by decide, by decide, by decide, trivial⟩
  have hmention := (segmented_before hbefore).1 hsegmented
  have hurl : ¬ BeginsUrl "data:image/ urls, not base64, please".toList := fun hurl =>
    absurd hurl.semicolon (by decide +kernel)
  obtain ⟨more, heq, -⟩ := (segmented_kept hurl).1 hmention
  cases heq

end ObeyGateway
