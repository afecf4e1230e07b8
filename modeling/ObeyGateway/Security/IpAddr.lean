import ObeyGateway.Lib.Cidr

/-!
# Classes of addresses

`forbidden_ip_reason` of `security/outbound_fetch.rs`, with the predicates of `std::net`. A forbidden address is one of
a list of blocks, or an address of the sixth version that embeds one of the fourth. The check for the NAT64 prefix looks
at four of the six words of the prefix (`forbiddenIpReason_isSome_iff`).
-/

namespace ObeyGateway.Security

open Cidr

structure Ipv4Addr where
  o0 : BitVec 8
  o1 : BitVec 8
  o2 : BitVec 8
  o3 : BitVec 8
deriving DecidableEq

structure Ipv6Addr where
  s0 : BitVec 16
  s1 : BitVec 16
  s2 : BitVec 16
  s3 : BitVec 16
  s4 : BitVec 16
  s5 : BitVec 16
  s6 : BitVec 16
  s7 : BitVec 16
deriving DecidableEq

inductive IpAddr
  | v4 (a : Ipv4Addr)
  | v6 (a : Ipv6Addr)
deriving DecidableEq

namespace Ipv4Addr

def toBits (a : Ipv4Addr) : BitVec 32 := a.o0 ++ (a.o1 ++ (a.o2 ++ a.o3))

def isLoopback (a : Ipv4Addr) : Bool := a.o0 = 127

def isLinkLocal (a : Ipv4Addr) : Bool := a.o0 = 169 && a.o1 = 254

def isPrivate (a : Ipv4Addr) : Bool :=
  a.o0 = 10 || (a.o0 = 172 && 16 ≤ a.o1 && a.o1 ≤ 31) || (a.o0 = 192 && a.o1 = 168)

def isMulticast (a : Ipv4Addr) : Bool := 224 ≤ a.o0 && a.o0 ≤ 239

def isBroadcast (a : Ipv4Addr) : Bool := a.toBits = BitVec.allOnes 32

def isUnspecified (a : Ipv4Addr) : Bool := a.toBits = 0

def ofWords (hi lo : BitVec 16) : Ipv4Addr :=
  ⟨(hi >>> 8).setWidth 8, hi.setWidth 8, (lo >>> 8).setWidth 8, lo.setWidth 8⟩

end Ipv4Addr

namespace Ipv6Addr

def toBits (a : Ipv6Addr) : BitVec 128 :=
  a.s0 ++ (a.s1 ++ (a.s2 ++ (a.s3 ++ (a.s4 ++ (a.s5 ++ (a.s6 ++ a.s7))))))

def isLoopback (a : Ipv6Addr) : Bool := a.toBits = 1

def isMulticast (a : Ipv6Addr) : Bool := a.s0 &&& 0xff00 = 0xff00

def isUnspecified (a : Ipv6Addr) : Bool := a.toBits = 0

def toIpv4Mapped (a : Ipv6Addr) : Option Ipv4Addr :=
  if a.s0 = 0 ∧ a.s1 = 0 ∧ a.s2 = 0 ∧ a.s3 = 0 ∧ a.s4 = 0 ∧ a.s5 = 0xffff then some (.ofWords a.s6 a.s7) else none

def toIpv4 (a : Ipv6Addr) : Option Ipv4Addr :=
  if a.s0 = 0 ∧ a.s1 = 0 ∧ a.s2 = 0 ∧ a.s3 = 0 ∧ a.s4 = 0 ∧ (a.s5 = 0 ∨ a.s5 = 0xffff) then
    some (.ofWords a.s6 a.s7)
  else none

end Ipv6Addr

def forbiddenIpv4Reason (ip : Ipv4Addr) : Option String :=
  if ip.isLoopback then some "loopback address"
  else if ip.isLinkLocal then some "link-local address (cloud metadata range)"
  else if ip.o0 = 100 && ip.o1 &&& 0xC0 = 64 then some "CGNAT address"
  else if ip.isPrivate then some "private address"
  else if ip.isMulticast then some "multicast address"
  else if ip.isBroadcast then some "broadcast address"
  else if ip.isUnspecified then some "unspecified address"
  else none

def forbiddenIpv6Reason (ip : Ipv6Addr) : Option String :=
  if ip.isLoopback then some "loopback address"
  else if ip.s0 &&& 0xffc0 = 0xfe80 then some "link-local address"
  else if ip.s0 &&& 0xfe00 = 0xfc00 then some "unique-local address"
  else if ip.isMulticast then some "multicast address"
  else if ip.isUnspecified then some "unspecified address"
  -- the last two words of the prefix are not looked at
  else if ip.s0 = 0x0064 && ip.s1 = 0xff9b && ip.s2 = 0 && ip.s3 = 0 then forbiddenIpv4Reason (.ofWords ip.s6 ip.s7)
  else if let some mapped := ip.toIpv4Mapped then forbiddenIpv4Reason mapped
  else if let some v4 := ip.toIpv4 then forbiddenIpv4Reason v4
  else none

def forbiddenIpReason : IpAddr → Option String
  | .v4 a => forbiddenIpv4Reason a
  | .v6 a => forbiddenIpv6Reason a

def cidr4 (o0 o1 o2 o3 : BitVec 8) (length : Nat) : Block 32 := ⟨o0 ++ (o1 ++ (o2 ++ o3)), length⟩

def cidr6 (s0 s1 s2 s3 s4 s5 s6 s7 : BitVec 16) (length : Nat) : Block 128 :=
  ⟨s0 ++ (s1 ++ (s2 ++ (s3 ++ (s4 ++ (s5 ++ (s6 ++ s7)))))), length⟩

/-- Loopback, link-local, CGNAT, the three private blocks, multicast, broadcast, unspecified. -/
def forbiddenBlocks4 : List (Block 32) :=
  [cidr4 127 0 0 0 8, cidr4 169 254 0 0 16, cidr4 100 64 0 0 10, cidr4 10 0 0 0 8, cidr4 172 16 0 0 12,
    cidr4 192 168 0 0 16, cidr4 224 0 0 0 4, cidr4 255 255 255 255 32, cidr4 0 0 0 0 32]

/-- Loopback, link-local, unique-local, multicast, unspecified. -/
def forbiddenBlocks6 : List (Block 128) :=
  [cidr6 0 0 0 0 0 0 0 1 128, cidr6 0xfe80 0 0 0 0 0 0 0 10, cidr6 0xfc00 0 0 0 0 0 0 0 7, cidr6 0xff00 0 0 0 0 0 0 0 8,
    cidr6 0 0 0 0 0 0 0 0 128]

def nat64 : Block 128 := cidr6 0x0064 0xff9b 0 0 0 0 0 0 96

/-- IPv4-mapped, IPv4-compatible, NAT64. -/
def embeddings : List (Block 128) := [cidr6 0 0 0 0 0 0xffff 0 0 96, cidr6 0 0 0 0 0 0 0 0 96, nat64]

def Forbidden4 (x : BitVec 32) : Prop := ∃ b ∈ forbiddenBlocks4, b.Contains x

def Forbidden6 (x : BitVec 128) : Prop :=
  (∃ b ∈ forbiddenBlocks6, b.Contains x) ∨ (∃ b ∈ embeddings, b.Contains x) ∧ Forbidden4 (x.setWidth 32)

instance : DecidablePred Forbidden4 := fun _ => inferInstanceAs (Decidable (∃ b ∈ forbiddenBlocks4, _))

instance : DecidablePred Forbidden6 := fun _ => inferInstanceAs (Decidable (_ ∨ _))

def IpAddr.Forbidden : IpAddr → Prop
  | .v4 a => Forbidden4 a.toBits
  | .v6 a => Forbidden6 a.toBits

/-- Not a NAT64 address, but with the first four words of one, and with a forbidden address where it would be. -/
def IpAddr.NearNat64 : IpAddr → Prop
  | .v4 _ => False
  | .v6 a => (cidr6 0x0064 0xff9b 0 0 0 0 0 0 64).Contains a.toBits ∧ ¬ nat64.Contains a.toBits ∧
      Forbidden4 (a.toBits.setWidth 32)

instance : DecidablePred IpAddr.Forbidden
  | .v4 _ => inferInstanceAs (Decidable (Forbidden4 _))
  | .v6 _ => inferInstanceAs (Decidable (Forbidden6 _))

instance : DecidablePred IpAddr.NearNat64
  | .v4 _ => inferInstanceAs (Decidable False)
  | .v6 _ => inferInstanceAs (Decidable (_ ∧ _ ∧ _))

section
variable (a : Ipv4Addr) (o0 o1 o2 o3 : BitVec 8)

theorem cidr4_left {n : Nat} (hn : n ≤ 8) : (cidr4 o0 o1 o2 o3 n).Contains a.toBits ↔ (Block.mk o0 n).Contains a.o0 :=
  Block.contains_append_left hn o0 a.o0 _ _

theorem cidr4_right {n : Nat} (hn : n ≤ 8) :
    (cidr4 o0 o1 o2 o3 (8 + n)).Contains a.toBits ↔ a.o0 = o0 ∧ (Block.mk o1 n).Contains a.o1 :=
  (Block.contains_append_right n o0 a.o0 _ _).trans (and_congr_right fun _ => Block.contains_append_left hn o1 a.o1 _ _)

theorem cidr4_full : (cidr4 o0 o1 o2 o3 32).Contains a.toBits ↔ a.toBits = o0 ++ (o1 ++ (o2 ++ o3)) :=
  Block.contains_full

end

theorem range_iff_contains : ∀ o : BitVec 8,
    ((16 ≤ o ∧ o ≤ 31) ↔ (Block.mk 16#8 4).Contains o) ∧ ((224 ≤ o ∧ o ≤ 239) ↔ (Block.mk 224#8 4).Contains o) := by
  decide +kernel

theorem isSome_ite {p : Prop} [Decidable p] {reason : String} {o : Option String} :
    (if p then some reason else o).isSome = true ↔ p ∨ o.isSome = true := by
  by_cases hp : p
  · simp [hp]
  · simp [hp]

theorem forbidden4_iff (a : Ipv4Addr) : (forbiddenIpv4Reason a).isSome = true ↔ Forbidden4 a.toBits := by
  have hloopback := (cidr4_left a 127 0 0 0 (Nat.le_refl 8)).trans Block.contains_full
  have hlinkLocal := (cidr4_right a 169 254 0 0 (Nat.le_refl 8)).trans (and_congr_right fun _ => Block.contains_full)
  have hcgnat := cidr4_right a 100 64 0 0 (show 2 ≤ 8 by decide)
  have htwo : a.o1 &&& 0xC0 = 64 ↔ (Block.mk 64 2).Contains a.o1 :=
    Block.and_mask_eq_iff (w := 8) (n := 2) (a := 64) (by decide)
  have hprivate8 := (cidr4_left a 10 0 0 0 (Nat.le_refl 8)).trans Block.contains_full
  have hprivate12 := (cidr4_right a 172 16 0 0 (show 4 ≤ 8 by decide)).trans
    (and_congr_right fun _ => (range_iff_contains a.o1).1.symm)
  have hprivate16 := (cidr4_right a 192 168 0 0 (Nat.le_refl 8)).trans (and_congr_right fun _ => Block.contains_full)
  have hmulticast := (cidr4_left a 224 0 0 0 (show 4 ≤ 8 by decide)).trans (range_iff_contains a.o0).2.symm
  have hbroadcast : _ ↔ a.toBits = BitVec.allOnes 32 := cidr4_full a 255 255 255 255
  have hunspecified : _ ↔ a.toBits = 0 := cidr4_full a 0 0 0 0
  rw [← htwo] at hcgnat
  simp only [Forbidden4, forbiddenBlocks4, List.mem_cons, List.not_mem_nil, or_false, exists_eq_or_imp, exists_eq_left,
    hloopback, hlinkLocal, hcgnat, hprivate8, hprivate12, hprivate16, hmulticast, hbroadcast, hunspecified]
  simp only [forbiddenIpv4Reason, isSome_ite, Ipv4Addr.isLoopback, Ipv4Addr.isLinkLocal, Ipv4Addr.isPrivate,
    Ipv4Addr.isMulticast, Ipv4Addr.isBroadcast, Ipv4Addr.isUnspecified, Bool.or_eq_true, Bool.and_eq_true,
    decide_eq_true_iff, Option.isSome_none, Bool.false_eq_true, or_false, or_assoc, and_assoc]

/-! ### Blocks of the sixth version -/

theorem Ipv4Addr.toBits_ofWords (hi lo : BitVec 16) : (Ipv4Addr.ofWords hi lo).toBits = hi ++ lo := by
  refine BitVec.eq_of_getLsbD_eq fun i hi' => ?_
  simp only [Ipv4Addr.toBits, Ipv4Addr.ofWords, BitVec.getLsbD_append, BitVec.getLsbD_setWidth, BitVec.getLsbD_ushiftRight]
  grind

section
variable (a : Ipv6Addr)

theorem Ipv6Addr.low_toBits : a.toBits.setWidth 32 = (Ipv4Addr.ofWords a.s6 a.s7).toBits := by
  rw [Ipv4Addr.toBits_ofWords]
  refine BitVec.eq_of_getLsbD_eq fun i hi => ?_
  simp only [Ipv6Addr.toBits, BitVec.getLsbD_append, BitVec.getLsbD_setWidth]
  grind

variable (s0 s1 s2 s3 s4 s5 s6 s7 : BitVec 16)

theorem cidr6_left {n : Nat} (hn : n ≤ 16) :
    (cidr6 s0 s1 s2 s3 s4 s5 s6 s7 n).Contains a.toBits ↔ (Block.mk s0 n).Contains a.s0 :=
  Block.contains_append_left hn s0 a.s0 _ _

theorem cidr6_four : (cidr6 s0 s1 s2 s3 s4 s5 s6 s7 64).Contains a.toBits ↔ a.s0 = s0 ∧ a.s1 = s1 ∧ a.s2 = s2 ∧ a.s3 = s3 :=
  (Block.contains_append_right 48 s0 a.s0 _ _).trans (and_congr_right fun _ =>
    (Block.contains_append_right 32 s1 a.s1 _ _).trans (and_congr_right fun _ =>
      (Block.contains_append_right 16 s2 a.s2 _ _).trans (and_congr_right fun _ =>
        (Block.contains_append_left (Nat.le_refl 16) s3 a.s3 _ _).trans Block.contains_full)))

theorem cidr6_six : (cidr6 s0 s1 s2 s3 s4 s5 s6 s7 96).Contains a.toBits ↔
    a.s0 = s0 ∧ a.s1 = s1 ∧ a.s2 = s2 ∧ a.s3 = s3 ∧ a.s4 = s4 ∧ a.s5 = s5 :=
  (Block.contains_append_right 80 s0 a.s0 _ _).trans (and_congr_right fun _ =>
    (Block.contains_append_right 64 s1 a.s1 _ _).trans (and_congr_right fun _ =>
      (Block.contains_append_right 48 s2 a.s2 _ _).trans (and_congr_right fun _ =>
        (Block.contains_append_right 32 s3 a.s3 _ _).trans (and_congr_right fun _ =>
          (Block.contains_append_right 16 s4 a.s4 _ _).trans (and_congr_right fun _ =>
            (Block.contains_append_left (Nat.le_refl 16) s5 a.s5 _ _).trans Block.contains_full)))))

theorem cidr6_full : (cidr6 s0 s1 s2 s3 s4 s5 s6 s7 128).Contains a.toBits ↔
    a.toBits = s0 ++ (s1 ++ (s2 ++ (s3 ++ (s4 ++ (s5 ++ (s6 ++ s7)))))) :=
  Block.contains_full

end

/-- The words that the check for the prefix reads, and after it those of the other two embeddings. -/
def Ipv6Addr.LooksEmbedded (a : Ipv6Addr) : Prop :=
  (a.s0 = 0x0064 ∧ a.s1 = 0xff9b ∧ a.s2 = 0 ∧ a.s3 = 0) ∨
    (a.s0 = 0 ∧ a.s1 = 0 ∧ a.s2 = 0 ∧ a.s3 = 0 ∧ a.s4 = 0 ∧ (a.s5 = 0 ∨ a.s5 = 0xffff))

theorem forbiddenIpv6Reason_isSome_iff (a : Ipv6Addr) : (forbiddenIpv6Reason a).isSome = true ↔
    (∃ b ∈ forbiddenBlocks6, b.Contains a.toBits) ∨ a.LooksEmbedded ∧ Forbidden4 (a.toBits.setWidth 32) := by
  have hloopback : _ ↔ a.toBits = 1 := cidr6_full a 0 0 0 0 0 0 0 1
  have hlinkLocal : _ ↔ a.s0 &&& 0xffc0 = 0xfe80 :=
    (cidr6_left a 0xfe80 0 0 0 0 0 0 0 (show 10 ≤ 16 by decide)).trans (Block.and_mask_eq_iff (by decide)).symm
  have hunique : _ ↔ a.s0 &&& 0xfe00 = 0xfc00 :=
    (cidr6_left a 0xfc00 0 0 0 0 0 0 0 (show 7 ≤ 16 by decide)).trans (Block.and_mask_eq_iff (by decide)).symm
  have hmulticast : _ ↔ a.s0 &&& 0xff00 = 0xff00 :=
    (cidr6_left a 0xff00 0 0 0 0 0 0 0 (show 8 ≤ 16 by decide)).trans (Block.and_mask_eq_iff (by decide)).symm
  have hunspecified : _ ↔ a.toBits = 0 := cidr6_full a 0 0 0 0 0 0 0 0
  simp only [forbiddenBlocks6, List.mem_cons, List.not_mem_nil, or_false, exists_eq_or_imp, exists_eq_left,
    hloopback, hlinkLocal, hunique, hmulticast, hunspecified]
  simp only [forbiddenIpv6Reason, isSome_ite, Ipv6Addr.isLoopback, Ipv6Addr.isMulticast, Ipv6Addr.isUnspecified,
    decide_eq_true_iff, or_assoc]
  iterate 5 refine or_congr_right ?_
  -- what is left are the embeddings
  rw [Ipv6Addr.low_toBits, ← forbidden4_iff]
  by_cases hnat : a.s0 = 0x0064 ∧ a.s1 = 0xff9b ∧ a.s2 = 0 ∧ a.s3 = 0
  · rw [if_pos (by simp [hnat]), and_iff_right (.inl hnat)]
  · rw [if_neg (by simpa [and_assoc] using hnat)]
    by_cases hzero : a.s0 = 0 ∧ a.s1 = 0 ∧ a.s2 = 0 ∧ a.s3 = 0 ∧ a.s4 = 0 ∧ (a.s5 = 0 ∨ a.s5 = 0xffff)
    · have hcompatible : a.toIpv4 = some (.ofWords a.s6 a.s7) := if_pos hzero
      rw [and_iff_right (show a.LooksEmbedded from .inr hzero), hcompatible]
      rcases hmapped : a.toIpv4Mapped with _ | mapped
      · rfl
      rw [Ipv6Addr.toIpv4Mapped] at hmapped
      split at hmapped
      · cases hmapped
        rfl
      · cases hmapped
    · have hmapped : a.toIpv4Mapped = none := if_neg fun ⟨h0, h1, h2, h3, h4, h5⟩ => hzero ⟨h0, h1, h2, h3, h4, .inr h5⟩
      have hcompatible : a.toIpv4 = none := if_neg hzero
      rw [hmapped, hcompatible]
      refine iff_of_false (fun h => ?_) fun h => not_or.2 ⟨hnat, hzero⟩ h.1
      cases h

theorem looksEmbedded_iff (a : Ipv6Addr) : a.LooksEmbedded ↔ (∃ b ∈ embeddings, b.Contains a.toBits) ∨
    (cidr6 0x0064 0xff9b 0 0 0 0 0 0 64).Contains a.toBits ∧ ¬ nat64.Contains a.toBits := by
  simp only [embeddings, nat64, List.mem_cons, List.not_mem_nil, or_false, exists_eq_or_imp, exists_eq_left,
    cidr6_six, cidr6_four, Ipv6Addr.LooksEmbedded]
  constructor
  · rintro (⟨h0, h1, h2, h3⟩ | ⟨h0, h1, h2, h3, h4, h5 | h5⟩)
    · by_cases hrest : a.s4 = 0 ∧ a.s5 = 0
      · exact .inl (.inr (.inr ⟨h0, h1, h2, h3, hrest⟩))
      · exact .inr ⟨⟨h0, h1, h2, h3⟩, fun ⟨_, _, _, _, h⟩ => hrest h⟩
    · exact .inl (.inr (.inl ⟨h0, h1, h2, h3, h4, h5⟩))
    · exact .inl (.inl ⟨h0, h1, h2, h3, h4, h5⟩)
  · rintro ((⟨h0, h1, h2, h3, h4, h5⟩ | ⟨h0, h1, h2, h3, h4, h5⟩ | ⟨h0, h1, h2, h3, -⟩) | ⟨h, -⟩)
    · exact .inr ⟨h0, h1, h2, h3, h4, .inr h5⟩
    · exact .inr ⟨h0, h1, h2, h3, h4, .inl h5⟩
    · exact .inl ⟨h0, h1, h2, h3⟩
    · exact .inl h

theorem IpAddr.NearNat64.not_forbidden {ip : IpAddr} (h : ip.NearNat64) : ¬ ip.Forbidden := by
  cases ip with
  | v4 a => exact h.elim
  | v6 a =>
    obtain ⟨hwords, hnat, -⟩ := h
    have hfirst := ((cidr6_four a 0x0064 0xff9b 0 0 0 0 0 0).1 hwords).1
    have hlong : ∀ n (b : BitVec 112), ¬ (Block.mk (0#16 ++ b) (16 + n)).Contains a.toBits := fun n b hcontains => by
      have hzero := ((Block.contains_append_right n 0#16 a.s0 _ _).1 hcontains).1
      rw [hfirst] at hzero
      revert hzero
      decide
    have hshort : ∀ s0 n (b : BitVec 112), n ≤ 16 → ¬ (Block.mk s0 n).Contains 0x0064#16 →
        ¬ (Block.mk (s0 ++ b) n).Contains a.toBits := fun s0 n b hn hnot hcontains => by
      have hblock := (Block.contains_append_left hn s0 a.s0 _ _).1 hcontains
      rw [hfirst] at hblock
      exact hnot hblock
    have hclasses : ∀ b ∈ forbiddenBlocks6, ¬ b.Contains a.toBits := by
      simp only [forbiddenBlocks6, List.forall_mem_cons, List.not_mem_nil, false_imp_iff, implies_true, and_true]
      exact ⟨hlong 112 _, hshort _ 10 _ (by decide) (by decide), hshort _ 7 _ (by decide) (by decide),
        hshort _ 8 _ (by decide) (by decide), hlong 112 _⟩
    have hembeddings : ∀ b ∈ embeddings, ¬ b.Contains a.toBits := by
      simp only [embeddings, List.forall_mem_cons, List.not_mem_nil, false_imp_iff, implies_true, and_true]
      exact ⟨hlong 80 _, hlong 80 _, hnat⟩
    rintro (⟨b, hb, hcontains⟩ | ⟨⟨b, hb, hcontains⟩, -⟩)
    · exact hclasses b hb hcontains
    · exact hembeddings b hb hcontains

/-- What is rejected: the forbidden addresses, and those that only look like NAT64 addresses of forbidden ones. -/
theorem forbiddenIpReason_isSome_iff (ip : IpAddr) :
    (forbiddenIpReason ip).isSome = true ↔ ip.Forbidden ∨ ip.NearNat64 := by
  cases ip with
  | v4 a => exact (forbidden4_iff a).trans (or_iff_left id).symm
  | v6 a =>
    rw [forbiddenIpReason, forbiddenIpv6Reason_isSome_iff, looksEmbedded_iff, or_and_right, ← or_assoc, and_assoc]
    rfl

end ObeyGateway.Security
