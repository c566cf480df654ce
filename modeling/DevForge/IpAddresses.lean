import DevForge.CidrBlocks
import DevForge.ToolArguments

/-!
# Addresses that page watches may not read

The predicates on IPv4 and IPv6 addresses as the program computes them, octet
by octet and segment by segment, and the blocks that they cover, in each of
the IPv6 forms that carry an IPv4 address.
-/

set_option autoImplicit false

namespace DevForge.IpAddresses
open Cidr

structure Ipv4Addr where
  o0 : UInt8
  o1 : UInt8
  o2 : UInt8
  o3 : UInt8
  deriving DecidableEq, Repr

structure Ipv6Addr where
  s0 : UInt16
  s1 : UInt16
  s2 : UInt16
  s3 : UInt16
  s4 : UInt16
  s5 : UInt16
  s6 : UInt16
  s7 : UInt16
  deriving DecidableEq, Repr

inductive IpAddr where
  | v4 (a : Ipv4Addr)
  | v6 (a : Ipv6Addr)
  deriving DecidableEq, Repr

namespace Ipv4Addr

def isUnspecified (v4 : Ipv4Addr) : Bool := v4 = ⟨0,0,0,0⟩

def isLoopback (v4 : Ipv4Addr) : Bool := v4.o0 = 127

def isPrivate (v4 : Ipv4Addr) : Bool :=
  v4.o0 = 10 || (v4.o0 = 172 && 16 ≤ v4.o1 && v4.o1 ≤ 31) || (v4.o0 = 192 && v4.o1 = 168)

def isLinkLocal (v4 : Ipv4Addr) : Bool := v4.o0 = 169 && v4.o1 = 254

def isBroadcast (v4 : Ipv4Addr) : Bool := v4 = ⟨255,255,255,255⟩

def isMulticast (v4 : Ipv4Addr) : Bool := 224 ≤ v4.o0 && v4.o0 ≤ 239

def isDocumentation (v4 : Ipv4Addr) : Bool :=
  (v4.o0 = 192 && v4.o1 = 0 && v4.o2 = 2) || (v4.o0 = 198 && v4.o1 = 51 && v4.o2 = 100) ||
    (v4.o0 = 203 && v4.o1 = 0 && v4.o2 = 113)

def toNat (v4 : Ipv4Addr) : ℕ :=
  v4.o0.toNat*2^24+v4.o1.toNat*2^16+v4.o2.toNat*2^8+v4.o3.toNat

end Ipv4Addr

namespace Ipv6Addr

/-- `::ffff:a.b.c.d`. -/
def toIpv4Mapped (v6 : Ipv6Addr) : Option Ipv4Addr :=
  if v6.s0 = 0 && v6.s1 = 0 && v6.s2 = 0 && v6.s3 = 0 && v6.s4 = 0 && v6.s5 = 0xffff then
    some ⟨(v6.s6 >>> 8).toUInt8,v6.s6.toUInt8,(v6.s7 >>> 8).toUInt8,v6.s7.toUInt8⟩
  else none

def isUnspecified (v6 : Ipv6Addr) : Bool := v6 = ⟨0,0,0,0,0,0,0,0⟩

def isLoopback (v6 : Ipv6Addr) : Bool := v6 = ⟨0,0,0,0,0,0,0,1⟩

def isMulticast (v6 : Ipv6Addr) : Bool := v6.s0 &&& 0xff00 = 0xff00

def toNat (v6 : Ipv6Addr) : ℕ :=
  v6.s0.toNat*2^112+v6.s1.toNat*2^96+v6.s2.toNat*2^80+v6.s3.toNat*2^64+
    v6.s4.toNat*2^48+v6.s5.toNat*2^32+v6.s6.toNat*2^16+v6.s7.toNat

end Ipv6Addr

def IpAddr.isLoopback : IpAddr → Bool
  | .v4 a => a.isLoopback
  | .v6 a => a.isLoopback

def ipv4IsForbidden (v4 : Ipv4Addr) : Bool :=
  v4.isUnspecified || v4.isLoopback || v4.isPrivate || v4.isLinkLocal || v4.isBroadcast ||
    v4.isMulticast || v4.isDocumentation || v4.o0 = 0 ||
    (v4.o0 = 100 && v4.o1 &&& 0xc0 = 64) ||
    (v4.o0 = 192 && v4.o1 = 0 && v4.o2 = 0) ||
    (v4.o0 = 198 && v4.o1 &&& 0xfe = 18) ||
    240 ≤ v4.o0

/-- The IPv4 address in two segments. -/
def embedded (hi lo : UInt16) : Ipv4Addr :=
  ⟨(hi >>> 8).toUInt8,hi.toUInt8,(lo >>> 8).toUInt8,lo.toUInt8⟩

def ipv6IsForbidden (v6 : Ipv6Addr) : Bool :=
  match v6.toIpv4Mapped with
  | some v4 => ipv4IsForbidden v4
  | none =>
    v6.isUnspecified || v6.isLoopback || v6.isMulticast ||
      v6.s0 &&& 0xfe00 = 0xfc00 ||
      v6.s0 &&& 0xffc0 = 0xfe80 ||
      v6.s0 &&& 0xffc0 = 0xfec0 ||
      (v6.s0 = 0x2001 && v6.s1 = 0x0db8) ||
      (v6.s0 = 0x2001 && v6.s1 = 0) ||
      (v6.s0 = 0x0064 && v6.s1 = 0xff9b && ipv4IsForbidden (embedded v6.s6 v6.s7)) ||
      (v6.s0 = 0x2002 && ipv4IsForbidden (embedded v6.s1 v6.s2)) ||
      (v6.s0 = 0 && v6.s1 = 0 && v6.s2 = 0 && v6.s3 = 0 && v6.s4 = 0 && v6.s5 = 0)

def ipIsForbidden : IpAddr → Bool
  | .v4 a => ipv4IsForbidden a
  | .v6 a => ipv6IsForbidden a

/-! ## The blocks covered -/

def ipv4 (a b c d : ℕ) : ℕ := a*2^24+b*2^16+c*2^8+d

/-- Unspecified, loopback, private, link-local, shared, multicast and
documentation addresses. -/
def internalBlocks : List Block :=
  [⟨ipv4 0 0 0 0,32⟩,⟨ipv4 127 0 0 0,8⟩,⟨ipv4 10 0 0 0,8⟩,⟨ipv4 172 16 0 0,12⟩,
    ⟨ipv4 192 168 0 0,16⟩,⟨ipv4 169 254 0 0,16⟩,⟨ipv4 100 64 0 0,10⟩,⟨ipv4 224 0 0 0,4⟩,
    ⟨ipv4 192 0 2 0,24⟩,⟨ipv4 198 51 100 0,24⟩,⟨ipv4 203 0 113 0,24⟩]

/-- The same kinds of IPv6 addresses: unspecified, loopback, unique local,
link-local, site-local, multicast and documentation. -/
def internalBlocks6 : List Block :=
  [⟨0,128⟩,⟨1,128⟩,⟨0xfc00*2^112,7⟩,⟨0xfe80*2^112,10⟩,⟨0xfec0*2^112,10⟩,⟨0xff00*2^112,8⟩,
    ⟨0x2001*2^112+0x0db8*2^96,32⟩]

def internal4 (v4 : Ipv4Addr) : Bool := internalBlocks.any (fun b => b.contains 32 v4.toNat)

def internal6 (v6 : Ipv6Addr) : Bool := internalBlocks6.any (fun b => b.contains 128 v6.toNat)

def segment (a b : UInt8) : UInt16 := UInt16.ofNat (a.toNat*256+b.toNat)

/-- The IPv6 addresses that carry an IPv4 address: mapped, compatible, behind
a NAT64 prefix, and the 6to4 networks. -/
inductive Embeds (v4 : Ipv4Addr) : Ipv6Addr → Prop where
  | mapped : Embeds v4 ⟨0,0,0,0,0,0xffff,segment v4.o0 v4.o1,segment v4.o2 v4.o3⟩
  | compatible : Embeds v4 ⟨0,0,0,0,0,0,segment v4.o0 v4.o1,segment v4.o2 v4.o3⟩
  | nat64 (s2 s3 s4 s5 : UInt16) :
      Embeds v4 ⟨0x64,0xff9b,s2,s3,s4,s5,segment v4.o0 v4.o1,segment v4.o2 v4.o3⟩
  | sixToFour (s3 s4 s5 s6 s7 : UInt16) :
      Embeds v4 ⟨0x2002,segment v4.o0 v4.o1,segment v4.o2 v4.o3,s3,s4,s5,s6,s7⟩

theorem segment_high (a b : UInt8) : (segment a b >>> 8).toUInt8 = a := by
  have ha := a.toNat_lt
  have hb := b.toNat_lt
  apply UInt8.toNat_inj.mp
  simp [segment, UInt16.toNat_shiftRight, Nat.shiftRight_eq_div_pow]
  omega

theorem segment_low (a b : UInt8) : (segment a b).toUInt8 = b := by
  have hb := b.toNat_lt
  apply UInt8.toNat_inj.mp
  simp [segment]

theorem embedded_segment (v4 : Ipv4Addr) :
    embedded (segment v4.o0 v4.o1) (segment v4.o2 v4.o3) = v4 := by
  simp [embedded, segment_high, segment_low]

theorem shared_octet (a : UInt8) (h : 64 ≤ a.toNat ∧ a.toNat < 128) : (a &&& 0xc0).toNat = 64 := by
  rw [UInt8.toNat_and]
  exact and_high_eq a.toNat 192 6 64 rfl (by omega)

theorem forbidden4_of_internal (v4 : Ipv4Addr) (h : internal4 v4) : ipv4IsForbidden v4 := by
  have h0 := v4.o0.toNat_lt
  have h1 := v4.o1.toNat_lt
  have h2 := v4.o2.toNat_lt
  have h3 := v4.o3.toNat_lt
  simp only [internal4, internalBlocks, contains_iff, ipv4, Ipv4Addr.toNat,
    List.any_cons, List.any_nil, Bool.or_eq_true, Bool.false_eq_true, or_false, Nat.reduceSub,
    Nat.reducePow, Nat.reduceMul, Nat.reduceAdd, Nat.reduceDiv, Nat.div_one] at h
  simp only [ipv4IsForbidden, Ipv4Addr.isLoopback, Ipv4Addr.isPrivate, Ipv4Addr.isLinkLocal,
    Ipv4Addr.isMulticast, Ipv4Addr.isDocumentation, Bool.or_eq_true, Bool.and_eq_true,
    decide_eq_true_eq, ← UInt8.toNat_inj, UInt8.le_iff_toNat_le, UInt8.reduceToNat]
  rcases h with h | h | h | h | h | h | h | h | h | h | h
  · have hz : v4.o0.toNat = 0 := by omega
    simp [hz]
  · have ho : v4.o0.toNat = 127 := by omega
    simp [ho]
  · have ho : v4.o0.toNat = 10 := by omega
    simp [ho]
  · have ho : v4.o0.toNat = 172 ∧ 16 ≤ v4.o1.toNat ∧ v4.o1.toNat ≤ 31 := by omega
    simp [ho]
  · have ho : v4.o0.toNat = 192 ∧ v4.o1.toNat = 168 := by omega
    simp [ho]
  · have ho : v4.o0.toNat = 169 ∧ v4.o1.toNat = 254 := by omega
    simp [ho]
  · have ho : v4.o0.toNat = 100 ∧ 64 ≤ v4.o1.toNat ∧ v4.o1.toNat < 128 := by omega
    simp [ho.1, shared_octet v4.o1 ho.2]
  · have ho : 224 ≤ v4.o0.toNat ∧ v4.o0.toNat ≤ 239 := by omega
    simp [ho]
  · have ho : v4.o0.toNat = 192 ∧ v4.o1.toNat = 0 ∧ v4.o2.toNat = 2 := by omega
    simp [ho]
  · have ho : v4.o0.toNat = 198 ∧ v4.o1.toNat = 51 ∧ v4.o2.toNat = 100 := by omega
    simp [ho]
  · have ho : v4.o0.toNat = 203 ∧ v4.o1.toNat = 0 ∧ v4.o2.toNat = 113 := by omega
    simp [ho]

theorem masked (a m : UInt16) (k v : ℕ) (hm : m.toNat%2^k = 0) (h : a.toNat/2^k = v/2^k) :
    (a &&& m).toNat = v &&& m.toNat := by
  rw [UInt16.toNat_and]
  exact and_high_eq a.toNat m.toNat k v hm h

theorem toIpv4Mapped_none (v6 : Ipv6Addr) (h : v6.s0.toNat ≠ 0 ∨ v6.s5.toNat ≠ 0xffff) :
    v6.toIpv4Mapped = none := by
  apply if_neg
  simp only [Bool.and_eq_true, decide_eq_true_eq]
  rintro ⟨⟨⟨⟨⟨h0,_⟩,_⟩,_⟩,_⟩,h5⟩
  rcases h with h | h
  · exact h (by rw [h0]; rfl)
  · exact h (by rw [h5]; rfl)

theorem forbidden6_of_internal (v6 : Ipv6Addr) (h : internal6 v6) : ipv6IsForbidden v6 := by
  have h0 := v6.s0.toNat_lt
  have h1 := v6.s1.toNat_lt
  have h2 := v6.s2.toNat_lt
  have h3 := v6.s3.toNat_lt
  have h4 := v6.s4.toNat_lt
  have h5 := v6.s5.toNat_lt
  have h6 := v6.s6.toNat_lt
  have h7 := v6.s7.toNat_lt
  simp only [internal6, internalBlocks6, contains_iff, Ipv6Addr.toNat,
    List.any_cons, List.any_nil, Bool.or_eq_true, Bool.false_eq_true, or_false, Nat.reduceSub,
    Nat.reducePow, Nat.reduceMul, Nat.reduceAdd, Nat.reduceDiv, Nat.div_one] at h
  have hn : v6.toIpv4Mapped = none := by
    apply toIpv4Mapped_none
    rcases h with h | h | h | h | h | h | h <;> omega
  simp only [ipv6IsForbidden, hn, Ipv6Addr.isMulticast, Bool.or_eq_true, Bool.and_eq_true,
    decide_eq_true_eq, ← UInt16.toNat_inj, UInt16.reduceToNat]
  rcases h with h | h | h | h | h | h | h
  · have hz : v6.s0.toNat = 0 ∧ v6.s1.toNat = 0 ∧ v6.s2.toNat = 0 ∧ v6.s3.toNat = 0 ∧
        v6.s4.toNat = 0 ∧ v6.s5.toNat = 0 := by omega
    simp [hz]
  · have hz : v6.s0.toNat = 0 ∧ v6.s1.toNat = 0 ∧ v6.s2.toNat = 0 ∧ v6.s3.toNat = 0 ∧
        v6.s4.toNat = 0 ∧ v6.s5.toNat = 0 := by omega
    simp [hz]
  · have hs : (v6.s0 &&& 0xfe00).toNat = 0xfc00 := masked v6.s0 0xfe00 9 0xfc00 rfl (by omega)
    simp [hs]
  · have hs : (v6.s0 &&& 0xffc0).toNat = 0xfe80 := masked v6.s0 0xffc0 6 0xfe80 rfl (by omega)
    simp [hs]
  · have hs : (v6.s0 &&& 0xffc0).toNat = 0xfec0 := masked v6.s0 0xffc0 6 0xfec0 rfl (by omega)
    simp [hs]
  · have hs : (v6.s0 &&& 0xff00).toNat = 0xff00 := masked v6.s0 0xff00 8 0xff00 rfl (by omega)
    simp [hs]
  · have hs : v6.s0.toNat = 0x2001 ∧ v6.s1.toNat = 0x0db8 := by omega
    simp [hs]

theorem forbidden_embeds (v4 : Ipv4Addr) (v6 : Ipv6Addr) (h : ipv4IsForbidden v4)
    (he : Embeds v4 v6) : ipv6IsForbidden v6 := by
  cases he with
  | mapped => simp [ipv6IsForbidden, Ipv6Addr.toIpv4Mapped, segment_high, segment_low, h]
  | compatible => simp [ipv6IsForbidden, Ipv6Addr.toIpv4Mapped]
  | nat64 s2 s3 s4 s5 => simp [ipv6IsForbidden, Ipv6Addr.toIpv4Mapped, embedded_segment, h]
  | sixToFour s3 s4 s5 s6 s7 =>
    simp [ipv6IsForbidden, Ipv6Addr.toIpv4Mapped, embedded_segment, h]

/-! ## Addresses in texts -/

inductive Sym where
  | digit (v : ℕ)
  | dot
  | colon
  | other
  deriving DecidableEq, Repr

def symOf (n : ℕ) : Sym :=
  if 48 ≤ n && n ≤ 57 then .digit (n-48)
  else if 65 ≤ n && n ≤ 70 then .digit (n-55)
  else if 97 ≤ n && n ≤ 102 then .digit (n-87)
  else if n = 46 then .dot
  else if n = 58 then .colon
  else .other

/-- A character, as the parsers of addresses see it. -/
def sym (c : Char) : Sym := symOf c.toNat

/-- A number of at most `width` digits in this base. -/
def number (base width : ℕ) (cs : List Sym) : Option ℕ :=
  if cs = [] || width < cs.length then none
  else cs.foldl (fun n s => match n, s with
    | some n, .digit v => if v < base then some (n*base+v) else none
    | _, _ => none) (some 0)

/-- An octet has no leading zero. -/
def octet (cs : List Sym) : Option UInt8 :=
  if cs.head? = some (.digit 0) && cs.length ≠ 1 then none
  else ((number 10 3 cs).filter (· < 256)).map UInt8.ofNat

def parseIpv4 (cs : List Sym) : Option Ipv4Addr :=
  match (cs.splitOn .dot).map octet with
  | [some a,some b,some c,some d] => some ⟨a,b,c,d⟩
  | _ => none

def group (cs : List Sym) : Option UInt16 := (number 16 4 cs).map UInt16.ofNat

/-- Groups between colons; the last one may be an IPv4 address. -/
def groups (ipv4Allowed : Bool) (cs : List Sym) : Option (List UInt16) :=
  let parts := cs.splitOn .colon
  let last := parts.getLastD []
  let v4 := if ipv4Allowed then parseIpv4 last else none
  match v4 with
  | some a => (parts.dropLast.mapM group).map (fun gs => gs++[segment a.o0 a.o1,segment a.o2 a.o3])
  | none => if cs = [] then some [] else parts.mapM group

/-- The parts before and after the first double colon. -/
def splitGap : List Sym → Option (List Sym × List Sym)
  | .colon::.colon::cs => some ([],cs)
  | c::cs => (splitGap cs).map (fun p => (c::p.1,p.2))
  | [] => none

def ofGroups : List UInt16 → Option Ipv6Addr
  | [s0,s1,s2,s3,s4,s5,s6,s7] => some ⟨s0,s1,s2,s3,s4,s5,s6,s7⟩
  | _ => none

def parseIpv6 (cs : List Sym) : Option Ipv6Addr :=
  match splitGap cs with
  | none => (groups true cs).bind ofGroups
  | some (head,tail) => match groups false head, groups true tail with
    | some hs, some ts =>
      if hs.length+ts.length ≤ 7 then
        ofGroups (hs++List.replicate (8-hs.length-ts.length) 0++ts)
      else none
    | _, _ => none

/-- `parse::<IpAddr>`. -/
def parseIpAddr (s : String) : Option IpAddr :=
  let cs := s.toList.map sym
  ((parseIpv4 cs).map IpAddr.v4).or ((parseIpv6 cs).map IpAddr.v6)

example : parseIpAddr "fe80::1:10.0.0.1" =
    some (.v6 ⟨0xfe80,0,0,0,0,1,0x0a00,1⟩) := by decide +kernel

end DevForge.IpAddresses
