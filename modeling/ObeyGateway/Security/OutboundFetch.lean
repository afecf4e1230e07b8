import ObeyGateway.Security.IpAddr

/-!
# The guard of outbound fetches

`security/outbound_fetch.rs`. Each URL of a fetch is validated before it is requested, the first one by the caller and
each redirect by the policy of the client, which gives the URLs requested so far. Of a URL only its scheme and its host
are read, and what the resolver answers may differ from hop to hop.
-/

namespace ObeyGateway.Security

structure CallerFetchConfig where
  allowPrivateHosts : Bool
  allowHttp : Bool
  allowedPrivateHosts : List String

def CallerFetchConfig.default : CallerFetchConfig := ⟨false, false, []⟩

structure OutboundFetchConfig where
  caller : CallerFetchConfig

inductive OutboundFetchError
  | schemeNotAllowed (host scheme : String)
  | forbiddenAddress (host reason : String)
  | unresolvableHost (host : String)
deriving DecidableEq

structure Url where
  scheme : String
  hostStr : Option String
deriving DecidableEq

def toDigit (radix : Nat) (c : Char) : Option Nat :=
  let digit :=
    if '0' ≤ c ∧ c ≤ '9' then some (c.toNat - '0'.toNat)
    else if 'a' ≤ c ∧ c ≤ 'z' then some (c.toNat - 'a'.toNat + 10)
    else if 'A' ≤ c ∧ c ≤ 'Z' then some (c.toNat - 'A'.toNat + 10)
    else none
  digit.filter (· < radix)

/-- All digits that are there, if they are not too many and their value is below the bound. -/
def readNumber (radix maxDigits : Nat) (allowZeroPrefix : Bool) (bound : Nat) (text : List Char) :
    Option (Nat × List Char) :=
  let digits := text.takeWhile fun c => (toDigit radix c).isSome
  let result := digits.foldl (fun result c => result * radix + (toDigit radix c).getD 0) 0
  if digits.isEmpty || maxDigits < digits.length then none
  else if !allowZeroPrefix && text.head? = some '0' && 1 < digits.length then none
  else if result < bound then some (result, text.drop digits.length)
  else none

def readGivenChar (c : Char) : List Char → Option (List Char)
  | [] => none
  | d :: text => if d = c then some text else none

def readSeparator {α : Type} (sep : Char) (index : Nat) (inner : List Char → Option (α × List Char))
    (text : List Char) : Option (α × List Char) :=
  if 0 < index then (readGivenChar sep text).bind inner else inner text

def readOctet (index : Nat) (text : List Char) : Option (Nat × List Char) :=
  readSeparator '.' index (readNumber 10 3 false 256) text

def readIpv4Addr (text : List Char) : Option (Ipv4Addr × List Char) := do
  let (o0, text) ← readOctet 0 text
  let (o1, text) ← readOctet 1 text
  let (o2, text) ← readOctet 2 text
  let (o3, text) ← readOctet 3 text
  return (⟨BitVec.ofNat 8 o0, BitVec.ofNat 8 o1, BitVec.ofNat 8 o2, BitVec.ofNat 8 o3⟩, text)

/-- At most so many groups from this index on, and whether the last two are an address of the fourth version. -/
def readGroups : Nat → Nat → List Char → List (BitVec 16) × Bool × List Char
  | 0, _, text => ([], false, text)
  | left + 1, i, text =>
    match if 0 < left then readSeparator ':' i readIpv4Addr text else none with
    | some (v4, text) => ([v4.o0 ++ v4.o1, v4.o2 ++ v4.o3], true, text)
    | none =>
      match readSeparator ':' i (readNumber 16 4 true 65536) text with
      | some (group, text) =>
        let (groups, ipv4, text) := readGroups left (i + 1) text
        (BitVec.ofNat 16 group :: groups, ipv4, text)
      | none => ([], false, text)

def Ipv6Addr.ofGroups (groups : List (BitVec 16)) : Ipv6Addr :=
  ⟨groups.getD 0 0, groups.getD 1 0, groups.getD 2 0, groups.getD 3 0, groups.getD 4 0, groups.getD 5 0,
    groups.getD 6 0, groups.getD 7 0⟩

def readIpv6Addr (text : List Char) : Option (Ipv6Addr × List Char) :=
  let (head, headIpv4, text) := readGroups 8 0 text
  if head.length = 8 then some (.ofGroups head, text)
  else if headIpv4 then none
  else do
    let text ← readGivenChar ':' text
    let text ← readGivenChar ':' text
    let (tail, _, text) := readGroups (8 - (head.length + 1)) 0 text
    return (.ofGroups (head ++ List.replicate (8 - head.length - tail.length) 0 ++ tail), text)

def parseIpAddr (text : String) : Option IpAddr :=
  let v4 := (readIpv4Addr text.toList).map fun (a, rest) => (IpAddr.v4 a, rest)
  let v6 := (readIpv6Addr text.toList).map fun (a, rest) => (IpAddr.v6 a, rest)
  match v4.or v6 with
  | some (ip, []) => some ip
  | _ => none

namespace Url

def host (url : Url) : String := url.hostStr.getD ""

def trimBrackets (host : String) : String :=
  String.ofList ((((host.toList.dropWhile (· = '[')).reverse).dropWhile (· = ']')).reverse)

def literal (url : Url) : Option IpAddr := parseIpAddr (trimBrackets url.host)

end Url

def hostInPrivateAllowlist (caller : CallerFetchConfig) (host : String) : Bool :=
  caller.allowedPrivateHosts.any fun allowed => allowed.toList.map Char.toLower = host.toList.map Char.toLower

def validateOutboundUrl (url : Url) (config : OutboundFetchConfig) (resolver : String → List IpAddr) :
    Except OutboundFetchError Unit :=
  if url.scheme ≠ "https" && !(url.scheme = "http" && config.caller.allowHttp) then
    .error (.schemeNotAllowed url.host url.scheme)
  else if config.caller.allowPrivateHosts || hostInPrivateAllowlist config.caller url.host then .ok ()
  else if config.caller.allowPrivateHosts then .ok ()
  else
    match url.literal with
    | some ip =>
      match forbiddenIpReason ip with
      | some reason => .error (.forbiddenAddress url.host reason)
      | none => .ok ()
    | none =>
      let resolved := resolver url.host
      if resolved.isEmpty then .error (.unresolvableHost url.host)
      else
        match resolved.findSome? forbiddenIpReason with
        | some reason => .error (.forbiddenAddress url.host reason)
        | none => .ok ()

inductive RedirectError
  | guard (error : OutboundFetchError)
  | tooManyRedirects

def guardedRedirectPolicy (config : OutboundFetchConfig) (resolver : String → List IpAddr) (previous : List Url)
    (url : Url) : Except RedirectError Unit :=
  match validateOutboundUrl url config resolver with
  | .ok () => if previous.length < 10 then .ok () else .error .tooManyRedirects
  | .error error => .error (.guard error)

section
variable (config : OutboundFetchConfig) (resolver : Nat → String → List IpAddr)

/-- The URLs that are requested when the servers redirect to these targets, each hop with its own resolution. -/
def followRedirects : List Url → List Url → List Url
  | previous, [] => previous
  | previous, url :: targets =>
    match guardedRedirectPolicy config (resolver previous.length) previous url with
    | .ok () => followRedirects (previous ++ [url]) targets
    | .error _ => previous

def requested (url : Url) (targets : List Url) : List Url :=
  match validateOutboundUrl url config (resolver 0) with
  | .ok () => followRedirects config resolver [url] targets
  | .error _ => []

end

/-! ### The law -/

def SchemeAllowed (config : OutboundFetchConfig) (url : Url) : Prop :=
  url.scheme = "https" ∨ url.scheme = "http" ∧ config.caller.allowHttp = true

def Url.addresses (url : Url) (resolver : String → List IpAddr) : List IpAddr :=
  match url.literal with
  | some ip => [ip]
  | none => resolver url.host

def Admissible (config : OutboundFetchConfig) (resolver : String → List IpAddr) (url : Url) : Prop :=
  SchemeAllowed config url ∧ (hostInPrivateAllowlist config.caller url.host = true ∨
    url.addresses resolver ≠ [] ∧ ∀ ip ∈ url.addresses resolver, ¬ ip.Forbidden)

section
variable (config : OutboundFetchConfig) (resolver : Nat → String → List IpAddr) (url : Url) (targets : List Url)

def Examined (ip : IpAddr) : Prop :=
  ∃ k hop, (url :: targets)[k]? = some hop ∧ SchemeAllowed config hop ∧
    hostInPrivateAllowlist config.caller hop.host = false ∧ ip ∈ hop.addresses (resolver k)

/-- Only admissible hops are reached, an address is rejected only if it is forbidden, and the redirects are few. -/
structure FetchLaw : Prop where
  reached : ∀ k hop, (requested config resolver url targets)[k]? = some hop → Admissible config (resolver k) hop
  spared : ∀ ip, Examined config resolver url targets ip → ¬ ip.Forbidden → forbiddenIpReason ip = none
  few : (requested config resolver url targets).length ≤ 11

end

section
variable {config : OutboundFetchConfig} {url : Url}

theorem validate_ok {resolver : String → List IpAddr} (hprivate : config.caller.allowPrivateHosts = false)
    (h : validateOutboundUrl url config resolver = .ok ()) : Admissible config resolver url := by
  have hreason : ∀ {ip}, forbiddenIpReason ip = none → ¬ ip.Forbidden := fun hnone hforbidden => by
    have hsome := (forbiddenIpReason_isSome_iff _).2 (.inl hforbidden)
    rw [hnone] at hsome
    cases hsome
  rw [validateOutboundUrl, hprivate, Bool.false_or] at h
  split at h
  · cases h
  · rename_i hscheme
    refine ⟨Classical.or_iff_not_imp_left.2 (by simpa using hscheme), ?_⟩
    split at h
    · rename_i hlisted
      exact .inl hlisted
    · refine .inr ?_
      rw [if_neg (by decide)] at h
      rw [Url.addresses]
      cases hliteral : url.literal with
      | some ip =>
        rw [hliteral] at h
        dsimp only at h
        split at h
        · cases h
        · rename_i hnone
          exact ⟨List.cons_ne_nil _ _, List.forall_mem_singleton.2 (hreason hnone)⟩
      | none =>
        rw [hliteral] at h
        dsimp only at h
        split at h
        · cases h
        · rename_i hsome
          split at h
          · cases h
          · rename_i hfind
            refine ⟨fun hnil => hsome (List.isEmpty_iff.2 hnil), fun ip hip => hreason ?_⟩
            exact List.findSome?_eq_none_iff.1 hfind ip hip

theorem policy_ok {resolver : String → List IpAddr} {previous : List Url}
    (h : guardedRedirectPolicy config resolver previous url = .ok ()) :
    validateOutboundUrl url config resolver = .ok () ∧ previous.length < 10 := by
  rw [guardedRedirectPolicy] at h
  split at h
  · rename_i hvalid
    split at h
    · exact ⟨hvalid, ‹_›⟩
    · cases h
  · cases h

variable {resolver : Nat → String → List IpAddr}

theorem followRedirects_spec (hprivate : config.caller.allowPrivateHosts = false) {previous targets : List Url}
    (hprevious : ∀ k hop, previous[k]? = some hop → Admissible config (resolver k) hop) (hfew : previous.length ≤ 10) :
    (∀ k hop, (followRedirects config resolver previous targets)[k]? = some hop → Admissible config (resolver k) hop) ∧
      (followRedirects config resolver previous targets).length ≤ 10 := by
  induction targets generalizing previous with
  | nil => exact ⟨hprevious, hfew⟩
  | cons url targets ih =>
    rw [followRedirects]
    split
    · rename_i hpolicy
      obtain ⟨hvalid, hlength⟩ := policy_ok hpolicy
      refine ih (fun k hop hk => ?_) (by rw [List.length_append]; exact hlength)
      rcases Nat.lt_or_ge k previous.length with hlt | hge
      · rw [List.getElem?_append_left hlt] at hk
        exact hprevious k hop hk
      · rw [List.getElem?_append_right hge, List.getElem?_singleton] at hk
        split at hk
        · rename_i hzero
          obtain rfl := Option.some.inj hk
          obtain rfl : k = previous.length := Nat.le_antisymm (Nat.le_of_sub_eq_zero hzero) hge
          exact validate_ok hprivate hvalid
        · cases hk
    · exact ⟨hprevious, hfew⟩

theorem requested_spec (hprivate : config.caller.allowPrivateHosts = false) (targets : List Url) :
    (∀ k hop, (requested config resolver url targets)[k]? = some hop → Admissible config (resolver k) hop) ∧
      (requested config resolver url targets).length ≤ 10 := by
  rw [requested]
  split
  · rename_i hvalid
    refine followRedirects_spec hprivate (fun k hop hk => ?_) (show 1 ≤ 10 by decide)
    rw [List.getElem?_singleton] at hk
    split at hk
    · rename_i hzero
      obtain rfl := Option.some.inj hk
      rw [hzero]
      exact validate_ok hprivate hvalid
    · cases hk
  · exact ⟨fun k hop hk => (by cases hk), Nat.zero_le _⟩

/-- The guard lets nothing forbidden through; it rejects more than that exactly where it meets an address that only
looks like a NAT64 one. -/
theorem fetch_law_iff (hprivate : config.caller.allowPrivateHosts = false) (targets : List Url) :
    FetchLaw config resolver url targets ↔ ∀ ip, Examined config resolver url targets ip → ¬ ip.NearNat64 := by
  constructor
  · intro hlaw ip hip hnear
    have hnone := hlaw.spared ip hip hnear.not_forbidden
    have hsome := (forbiddenIpReason_isSome_iff ip).2 (.inr hnear)
    rw [hnone] at hsome
    cases hsome
  · intro h
    have hspec : _ ∧ (requested config resolver url targets).length ≤ 10 := requested_spec hprivate targets
    refine ⟨hspec.1, fun ip hip hallowed => ?_, Nat.le_succ_of_le hspec.2⟩
    rw [← Option.not_isSome_iff_eq_none, forbiddenIpReason_isSome_iff]
    rintro (hforbidden | hnear)
    · exact hallowed hforbidden
    · exact h ip hip hnear

end

def strictConfig : OutboundFetchConfig := ⟨.default⟩

def publicResolver (_ : Nat) (_ : String) : List IpAddr := [.v4 ⟨93, 184, 216, 34⟩]

def nat64Url : Url := ⟨"https", some "[64:ff9b::5db8:d822]"⟩

theorem fetch_law_nat64 : FetchLaw strictConfig publicResolver nat64Url [⟨"https", some "example.org"⟩] := by
  refine (fetch_law_iff rfl _).2 fun ip hexamined => ?_
  obtain ⟨k, hop, hk, -, -, hip⟩ := hexamined
  have hall : ∀ hop ∈ [nat64Url, ⟨"https", some "example.org"⟩], ∀ ip ∈ hop.addresses (publicResolver 0),
      ¬ ip.NearNat64 := by decide +kernel
  exact hall hop (List.mem_of_getElem? hk) ip hip

def nearNat64 : IpAddr := .v6 ⟨0x0064, 0xff9b, 0, 0, 1, 0, 0xc0a8, 0x0101⟩

def nearNat64Url : Url := ⟨"https", some "[64:ff9b::1:0:c0a8:101]"⟩

theorem near_nat64_rejected : validateOutboundUrl nearNat64Url strictConfig (publicResolver 0) =
      .error (.forbiddenAddress "[64:ff9b::1:0:c0a8:101]" "private address") ∧
    Admissible strictConfig (publicResolver 0) nearNat64Url ∧
    ¬ FetchLaw strictConfig publicResolver nearNat64Url [] := by
  have hliteral : nearNat64Url.literal = some nearNat64 := by decide +kernel
  have haddresses : nearNat64Url.addresses (publicResolver 0) = [nearNat64] := by rw [Url.addresses, hliteral]
  have hspared : ¬ nearNat64.Forbidden := by decide +kernel
  have hreason : forbiddenIpReason nearNat64 = some "private address" := by decide +kernel
  have hexamined : Examined strictConfig publicResolver nearNat64Url [] nearNat64 :=
    ⟨0, nearNat64Url, rfl, .inl rfl, rfl, haddresses ▸ List.mem_singleton_self _⟩
  refine ⟨?_, ⟨.inl rfl, .inr ?_⟩, fun hlaw => ?_⟩
  · rw [validateOutboundUrl, if_neg (by decide), if_neg (by decide), if_neg (by decide), hliteral]
    dsimp only
    rw [hreason]
    rfl
  · rw [haddresses]
    exact ⟨List.cons_ne_nil _ _, List.forall_mem_singleton.2 hspared⟩
  · have hnone := hlaw.spared _ hexamined hspared
    rw [hreason] at hnone
    cases hnone

end ObeyGateway.Security
