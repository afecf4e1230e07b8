import ObeyGateway.Lib.Json
import ObeyGateway.Lib.Text
import ObeyGateway.Router.GatewayError
import Mathlib.Data.Nat.Digits.Defs

/-!
# Which errors are rate limits

The dispatch loop applies `is_rate_limited` to the response of the provider, the failover loop to the error that came of
it, whose message is the body behind `HTTP <status>: `. That is never JSON, so there the phrases in the raw text decide
(`isRateLimited_message`), while a JSON body is judged by its fields. The two agree exactly on the bodies where these do
(`rate_limit_class_law`).
-/

namespace ObeyGateway
open Text

def messageIndicatesRateLimit (text : List Char) : Bool :=
  let lower := toAsciiLowercase text
  contains lower "rate limit" || contains lower "rate-limit" || contains lower "rate_limit" ||
    contains lower "ratelimit" || contains lower "too many requests" || contains lower "quota exceeded" ||
    contains lower "insufficient_quota" || contains lower "quota_exceeded"

/-- What `is_rate_limited` looks for in one of the fields `code`, `type`, `status` and `reason`. -/
def fieldIndicatesRateLimit (value : String) : Bool :=
  let v := toAsciiLowercase value.toList
  contains v "rate_limit" || contains v "rate-limit" || contains v "ratelimit" || contains v "rate_limited" ||
    contains v "quota" || contains v "insufficient_quota" || v = "429".toList

/-- The structured part of `is_rate_limited`: the `error` of the body, or the body where it has none. -/
def envelopeIndicatesRateLimit (json : Json) : Bool :=
  let err := (json.get "error").getD json
  (["code", "type", "status", "reason"].any fun field =>
    match (err.get field).bind Json.asStr with
    | some v => fieldIndicatesRateLimit v
    | none => false) ||
  (err.get "code").bind Json.asI64 = some 429 ||
  match (err.get "message").bind Json.asStr with
  | some msg => messageIndicatesRateLimit msg.toList
  | none => false

section Verdict
variable (fromStr : List Char → Option Json)

def isRateLimited (statusCode : Nat) (body : List Char) : Bool :=
  if statusCode = 429 then true
  else if statusCode ≠ 200 ∧ ¬ (400 ≤ statusCode ∧ statusCode < 500) then false
  else
    match fromStr body with
    | some json => envelopeIndicatesRateLimit json
    | none => messageIndicatesRateLimit body

def isRateLimitClassError : GatewayError → Bool
  | .provider _ message statusCode => isRateLimited fromStr (statusCode.getD 0) message
  | _ => false

end Verdict

def isThinkingValidationError (statusCode : Nat) (body : List Char) : Bool :=
  if statusCode ≠ 400 then false
  else
    let lower := toAsciiLowercase body
    contains lower "thinking" || contains lower "budget_tokens"

def httpTag : List Char := "HTTP ".toList

def reasoningCompatTag : List Char := "[reasoning_compat] ".toList

/-- `format!("HTTP {}: {}", status_code, body_text)` -/
def httpMessage (statusCode : Nat) (body : List Char) : List Char :=
  httpTag ++ Nat.toDigits 10 statusCode ++ ':' :: ' ' :: body

/-- `format!("[reasoning_compat] HTTP {}: {}", status_code, body_text)` -/
def reasoningCompatMessage (statusCode : Nat) (body : List Char) : List Char :=
  reasoningCompatTag ++ httpMessage statusCode body

/-- How the loop gives up after a client error: in the branch for 4xx, or because a retry of it was out of attempts. -/
inductive GivenUp
  | clientError
  | retriesSpent
deriving DecidableEq

/-- The branch that decides about the cooldown is not taken for a 408. -/
def GivenUp.Checked (statusCode : Nat) (exit : GivenUp) : Prop := statusCode ≠ 408 ∧ exit = .clientError

instance (statusCode : Nat) (exit : GivenUp) : Decidable (exit.Checked statusCode) :=
  inferInstanceAs (Decidable (_ ∧ _))

/-- What a client error leads to: whether the provider is put into a cooldown, and whether its breaker counts a
failure. -/
structure ClientErrorOutcome where
  cooldown : Bool
  counted : Bool

section Outcome
variable (fromStr : List Char → Option Json)

/-- The end of the 4xx branch: the cooldown it starts and the error it returns. -/
def clientErrorExit (reasoningCompat : Bool) (exit : GivenUp) (provider : String) (statusCode : Nat)
    (body : List Char) : Bool × GatewayError :=
  if exit.Checked statusCode then
    (isRateLimited fromStr statusCode body,
      if reasoningCompat && isThinkingValidationError statusCode body then
        .provider provider (reasoningCompatMessage statusCode body) (some statusCode)
      else .provider provider (httpMessage statusCode body) (some statusCode))
  else (false, .provider provider (httpMessage statusCode body) (some statusCode))

/-- The failover loop on that error: the breaker, and the cooldown that a 429 gets when there is none yet. -/
def clientErrorOutcome (reasoningCompat : Bool) (exit : GivenUp) (provider : String) (statusCode : Nat)
    (body : List Char) : ClientErrorOutcome :=
  let (cooled, e) := clientErrorExit fromStr reasoningCompat exit provider statusCode body
  { cooldown := cooled || statusCode = 429
    counted := !isRateLimitClassError fromStr e }

/-- The two layers agree, and a provider is either paused or held to account. -/
structure RateLimitLaw (reasoningCompat : Bool) (exit : GivenUp) (provider : String) (statusCode : Nat)
    (body : List Char) : Prop where
  agree : isRateLimited fromStr statusCode body = true ↔
    isRateLimitClassError fromStr (clientErrorExit fromStr reasoningCompat exit provider statusCode body).2 = true
  paused : (clientErrorOutcome fromStr reasoningCompat exit provider statusCode body).cooldown = true →
    (clientErrorOutcome fromStr reasoningCompat exit provider statusCode body).counted = false
  counted : (clientErrorOutcome fromStr reasoningCompat exit provider statusCode body).cooldown = false →
    (clientErrorOutcome fromStr reasoningCompat exit provider statusCode body).counted = true

/-- No JSON text begins with `HTTP` or `[reasoning_compat]`. -/
structure RejectsMessages : Prop where
  http : ∀ rest, fromStr ('H' :: rest) = none
  tagged : ∀ rest, fromStr ('[' :: 'r' :: rest) = none

end Outcome

/-! ### The phrases in a message -/

def rateLimitPhrases : List String :=
  ["rate limit", "rate-limit", "rate_limit", "ratelimit", "too many requests", "quota exceeded",
    "insufficient_quota", "quota_exceeded"]

theorem messageIndicatesRateLimit_iff {text : List Char} :
    messageIndicatesRateLimit text = true ↔ ∃ p ∈ rateLimitPhrases, p.toList <:+: toAsciiLowercase text := by
  simp only [messageIndicatesRateLimit, Bool.or_eq_true, contains_iff, rateLimitPhrases, List.mem_cons,
    List.not_mem_nil, or_false, exists_eq_or_imp, exists_eq_left, or_assoc]

def compatWord : List Char := toAsciiLowercase (reasoningCompatTag.take 17)

theorem lower_reasoningCompatTag : toAsciiLowercase reasoningCompatTag = compatWord ++ [']', ' '] := by
  decide +kernel

theorem lower_httpTag : 'e' ∉ toAsciiLowercase httpTag := by
  decide +kernel

theorem phrase_cases : ∀ p ∈ rateLimitPhrases, ':' ∉ p.toList ∧ ']' ∉ p.toList ∧ 'e' ∈ p.toList ∧
    p.toList.head? ≠ some ' ' ∧ ¬ p.toList <:+: compatWord := by
  decide +kernel

theorem toLower_digit_ne {c : Char} (h : c.isDigit = true) : c.toLower ≠ 'e' := by
  intro he
  unfold Char.toLower at he
  split at he
  · rename_i hupper
    simp only [Char.isDigit, ge_iff_le, Bool.and_eq_true, decide_eq_true_eq, UInt32.le_iff_toNat_le] at h hupper
    simp at h hupper
    omega
  · subst he
    simp [Char.isDigit] at h

theorem infix_space_iff {w text : List Char} (hne : w ≠ []) (h : w.head? ≠ some ' ') :
    w <:+: ' ' :: text ↔ w <:+: text := by
  rw [List.infix_cons_iff]
  refine ⟨fun hw => hw.resolve_left fun hpre => ?_, .inr⟩
  rcases List.prefix_cons_iff.1 hpre with rfl | ⟨t, rfl, -⟩
  · exact hne rfl
  · exact h rfl

theorem phrase_httpMessage {p : String} (hp : p ∈ rateLimitPhrases) (statusCode : Nat) (body : List Char) :
    p.toList <:+: toAsciiLowercase (httpMessage statusCode body) ↔ p.toList <:+: toAsciiLowercase body := by
  obtain ⟨hcolon, -, he, hhead, -⟩ := phrase_cases p hp
  have hlower : toAsciiLowercase (httpMessage statusCode body) =
      (toAsciiLowercase httpTag ++ toAsciiLowercase (Nat.toDigits 10 statusCode)) ++
        ':' :: ' ' :: toAsciiLowercase body := by
    rw [httpMessage, toAsciiLowercase_append, toAsciiLowercase_append]
    rfl
  have hnot : ¬ p.toList <:+: toAsciiLowercase httpTag ++ toAsciiLowercase (Nat.toDigits 10 statusCode) := by
    intro h
    rcases List.mem_append.1 (h.mem he) with hmem | hmem
    · exact lower_httpTag hmem
    · obtain ⟨c, hc, hce⟩ := List.mem_map.1 hmem
      exact toLower_digit_ne (Nat.isDigit_of_mem_toDigits (by omega) (by omega) hc) hce
  rw [hlower, infix_append_cons_iff hcolon, infix_space_iff (List.ne_nil_of_mem he) hhead]
  exact ⟨fun h => h.resolve_left hnot, .inr⟩

theorem phrase_reasoningCompatMessage {p : String} (hp : p ∈ rateLimitPhrases) (statusCode : Nat) (body : List Char) :
    p.toList <:+: toAsciiLowercase (reasoningCompatMessage statusCode body) ↔
      p.toList <:+: toAsciiLowercase body := by
  obtain ⟨-, hbracket, he, hhead, hnot⟩ := phrase_cases p hp
  have hlower : toAsciiLowercase (reasoningCompatMessage statusCode body) =
      compatWord ++ ']' :: ' ' :: toAsciiLowercase (httpMessage statusCode body) := by
    rw [reasoningCompatMessage, toAsciiLowercase_append, lower_reasoningCompatTag, List.append_assoc]
    rfl
  rw [hlower, infix_append_cons_iff hbracket, infix_space_iff (List.ne_nil_of_mem he) hhead,
    ← phrase_httpMessage hp statusCode body]
  exact ⟨fun h => h.resolve_left hnot, .inr⟩

theorem messageIndicatesRateLimit_httpMessage (statusCode : Nat) (body : List Char) :
    messageIndicatesRateLimit (httpMessage statusCode body) = messageIndicatesRateLimit body := by
  rw [Bool.eq_iff_iff, messageIndicatesRateLimit_iff, messageIndicatesRateLimit_iff]
  exact exists_congr fun p => and_congr_right fun hp => phrase_httpMessage hp statusCode body

theorem messageIndicatesRateLimit_reasoningCompatMessage (statusCode : Nat) (body : List Char) :
    messageIndicatesRateLimit (reasoningCompatMessage statusCode body) = messageIndicatesRateLimit body := by
  rw [Bool.eq_iff_iff, messageIndicatesRateLimit_iff, messageIndicatesRateLimit_iff]
  exact exists_congr fun p => and_congr_right fun hp => phrase_reasoningCompatMessage hp statusCode body

section Law
variable {fromStr : List Char → Option Json} (hserde : RejectsMessages fromStr) {statusCode : Nat}
include hserde

/-- The failover loop sees the phrases of the body and nothing else. -/
theorem isRateLimited_message (hstatus : 400 ≤ statusCode ∧ statusCode < 500) (body : List Char) :
    isRateLimited fromStr statusCode (httpMessage statusCode body) =
        (decide (statusCode = 429) || messageIndicatesRateLimit body) ∧
      isRateLimited fromStr statusCode (reasoningCompatMessage statusCode body) =
        (decide (statusCode = 429) || messageIndicatesRateLimit body) := by
  have hhttp : fromStr (httpMessage statusCode body) = none := by
    obtain ⟨rest, hrest⟩ : ∃ rest, httpTag = 'H' :: rest := ⟨httpTag.tail, by decide +kernel⟩
    rw [httpMessage, hrest]
    exact hserde.http _
  have htagged : fromStr (reasoningCompatMessage statusCode body) = none := by
    obtain ⟨rest, hrest⟩ : ∃ rest, reasoningCompatTag = '[' :: 'r' :: rest :=
      ⟨reasoningCompatTag.tail.tail, by decide +kernel⟩
    rw [reasoningCompatMessage, hrest]
    exact hserde.tagged _
  unfold isRateLimited
  by_cases h : statusCode = 429
  · simp [h]
  · simp [h, hstatus, hhttp, htagged, messageIndicatesRateLimit_httpMessage,
      messageIndicatesRateLimit_reasoningCompatMessage]

theorem isRateLimitClassError_exit (hstatus : 400 ≤ statusCode ∧ statusCode < 500) (reasoningCompat : Bool)
    (exit : GivenUp) (provider : String) (body : List Char) :
    isRateLimitClassError fromStr (clientErrorExit fromStr reasoningCompat exit provider statusCode body).2 =
      (decide (statusCode = 429) || messageIndicatesRateLimit body) := by
  obtain ⟨hhttp, htagged⟩ := isRateLimited_message hserde hstatus body
  unfold clientErrorExit
  split
  · simp only
    split
    · exact htagged
    · exact hhttp
  · exact hhttp

end Law

def EnvelopeMatchesText (fromStr : List Char → Option Json) (body : List Char) : Prop :=
  ∀ json, fromStr body = some json →
    (envelopeIndicatesRateLimit json = true ↔ messageIndicatesRateLimit body = true)

theorem isRateLimited_iff {fromStr : List Char → Option Json} {statusCode : Nat}
    (hstatus : 400 ≤ statusCode ∧ statusCode < 500) (h429 : statusCode ≠ 429) (body : List Char) :
    (isRateLimited fromStr statusCode body = true ↔ messageIndicatesRateLimit body = true) ↔
      EnvelopeMatchesText fromStr body := by
  unfold isRateLimited EnvelopeMatchesText
  rw [if_neg h429, if_neg fun h => h.2 hstatus]
  cases fromStr body <;> simp

/-- For a client error the two layers agree, and the provider is paused or its breaker counts, exactly if the
status is 429, or the fields of a JSON body agree with the phrases of its text and no phrase is in a body that the
4xx branch did not get to see. -/
theorem rate_limit_class_law (fromStr : List Char → Option Json) (hserde : RejectsMessages fromStr)
    (reasoningCompat : Bool) (exit : GivenUp) (provider : String) (statusCode : Nat)
    (hstatus : 400 ≤ statusCode ∧ statusCode < 500) (body : List Char) :
    RateLimitLaw fromStr reasoningCompat exit provider statusCode body ↔
      statusCode = 429 ∨ EnvelopeMatchesText fromStr body ∧
        (¬ exit.Checked statusCode → messageIndicatesRateLimit body = false) := by
  have hclass := isRateLimitClassError_exit hserde hstatus reasoningCompat exit provider body
  have houtcome : (clientErrorOutcome fromStr reasoningCompat exit provider statusCode body).counted =
      !(decide (statusCode = 429) || messageIndicatesRateLimit body) := by
    rw [← hclass]
    rfl
  have hcooldown : (clientErrorOutcome fromStr reasoningCompat exit provider statusCode body).cooldown =
      (decide (exit.Checked statusCode) && isRateLimited fromStr statusCode body || decide (statusCode = 429)) := by
    by_cases h : exit.Checked statusCode <;> simp [clientErrorOutcome, clientErrorExit, h]
  by_cases h429 : statusCode = 429
  · refine iff_of_true ⟨?_, ?_, ?_⟩ (.inl h429)
    · rw [hclass]
      simp [isRateLimited, h429]
    · intro _
      rw [houtcome]
      simp [h429]
    · rw [hcooldown]
      simp [h429]
  · rw [or_iff_right h429, ← isRateLimited_iff hstatus h429]
    simp only [h429, decide_false, Bool.false_or, Bool.or_false] at hclass houtcome hcooldown
    constructor
    · intro h
      rw [← hclass]
      refine ⟨h.agree, fun hnot => ?_⟩
      have hcounted := h.counted (by rw [hcooldown]; simp [hnot])
      rw [houtcome] at hcounted
      rw [hclass]
      simpa using hcounted
    · rintro ⟨hagree, hnot⟩
      refine ⟨by rw [hclass]; exact hagree, fun hcool => ?_, fun hcool => ?_⟩
      · rw [hcooldown, Bool.and_eq_true] at hcool
        rw [houtcome, hagree.1 hcool.2]
        rfl
      · rw [hcooldown] at hcool
        rw [houtcome]
        by_cases hchecked : exit.Checked statusCode
        · have hlimited : isRateLimited fromStr statusCode body = false := by simpa [hchecked] using hcool
          have hno : messageIndicatesRateLimit body = false := by
            rw [← Bool.not_eq_true, ← hagree, hlimited]
            simp
          rw [hno]
          rfl
        · rw [hnot hchecked]
          rfl

def knowsObject (fields : List Char) (json : Json) (input : List Char) : Option Json :=
  if input = '\x7b' :: fields then some json else none

theorem rejectsMessages_knowsObject (fields : List Char) (json : Json) : RejectsMessages (knowsObject fields json) := by
  constructor <;> intro rest <;> simp [knowsObject]

/-- A message that names the rate limit is found in the field and in the text. -/
theorem rate_limit_class_law_message :
    RateLimitLaw (knowsObject "\"error\":\x7b\"message\":\"Rate limit reached\"\x7d\x7d".toList
        (.object [("error", .object [("message", .string "Rate limit reached")])])) true .clientError "p" 400
      ('\x7b' :: "\"error\":\x7b\"message\":\"Rate limit reached\"\x7d\x7d".toList) := by
  refine (rate_limit_class_law _ (rejectsMessages_knowsObject _ _) true .clientError "p" 400 (by decide) _).2 (.inr ?_)
  refine ⟨fun json hjson => ?_, fun h => absurd ⟨by decide, rfl⟩ h⟩
  rw [knowsObject, if_pos rfl] at hjson
  cases hjson
  exact iff_of_true (by decide +kernel) (by decide +kernel)

/-- A quota in the type alone: the provider is paused, and its breaker counts the failure as well. -/
theorem rate_limit_class_quota_type : ¬ RateLimitLaw (knowsObject "\"error\":\x7b\"type\":\"quota_reached\"\x7d\x7d".toList
        (.object [("error", .object [("type", .string "quota_reached")])])) false .clientError "p" 403
      ('\x7b' :: "\"error\":\x7b\"type\":\"quota_reached\"\x7d\x7d".toList) := by
  intro h
  exact absurd (h.agree.1 (by decide +kernel)) (by decide +kernel)

end ObeyGateway
