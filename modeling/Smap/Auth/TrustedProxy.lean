import Mathlib.Algebra.Ring.Nat

/-!
# The address a request is attributed to

`resolve_actor_ip` of `shared_kernel/auth/trusted_proxy.py`.  What the standard library knows of
addresses and networks is a parameter, and so are the characters `str.strip` removes.  A proxy
appends to `X-Forwarded-For`, so a client writes the front of the header only.
-/

namespace Smap.Auth

open List

/-- The module `ipaddress`, as far as it is used; `none` stands for a `ValueError`. -/
structure Ipaddress where
  Address : Type
  Network : Type
  ipAddress : List Char → Option Address
  /-- `ip_network(…, strict=False)`. -/
  ipNetwork : List Char → Option Network
  contains : Network → Address → Bool
  str : Address → List Char
  isSpace : Char → Bool
  ipAddress_nil : ipAddress [] = none

namespace Ipaddress

variable (ip : Ipaddress)

def strip (s : List Char) : List Char :=
  ((s.dropWhile ip.isSpace).reverse.dropWhile ip.isSpace).reverse

def trusted (networks : List ip.Network) (addr : ip.Address) : Bool :=
  networks.any (ip.contains · addr)

/-- The body of the loop: the address of an entry, unless the loop goes on. -/
def untrusted (networks : List ip.Network) (raw : List Char) : Option ip.Address :=
  if raw = [] then none else (ip.ipAddress raw).filter fun addr => !ip.trusted networks addr

/-- `resolve_actor_ip`; `none` if a CIDR does not parse. -/
def resolveActorIp (peerIp : List Char) (forwardedFor : Option (List Char))
    (trustedCidrs : List (List Char)) : Option (Option (List Char)) := do
  let networks ← trustedCidrs.mapM ip.ipNetwork
  match ip.ipAddress peerIp with
  | none => return none
  | some peerAddr =>
    if !ip.trusted networks peerAddr then return some peerIp
    let header := forwardedFor.getD []
    if header = [] then return some peerIp
    let entries := (header.splitOn ',').map ip.strip
    return some (((entries.reverse.findSome? (ip.untrusted networks)).map ip.str).getD peerIp)

/-- No trusted CIDR has the address. -/
def Outside (trustedCidrs : List (List Char)) (addr : ip.Address) : Prop :=
  ∀ networks, trustedCidrs.mapM ip.ipNetwork = some networks → ip.trusted networks addr = false

variable {ip} {networks : List ip.Network} {p s entry : List Char} {addr : ip.Address}

theorem untrusted_eq_some (h : ip.ipAddress entry = some addr)
    (hout : ip.trusted networks addr = false) : ip.untrusted networks entry = some addr := by
  have hne : entry ≠ [] := by
    rintro rfl
    simp [ip.ipAddress_nil] at h
  simp [untrusted, hne, h, hout]

/-- The loop stops in the suffix. -/
theorem findSome?_append_suffix (hentry : entry ∈ s.splitOn ',')
    (h : ip.ipAddress (ip.strip entry) = some addr) (hout : ip.trusted networks addr = false) :
    (((p ++ ',' :: s).splitOn ',').map ip.strip).reverse.findSome? (ip.untrusted networks) =
      ((s.splitOn ',').map ip.strip).reverse.findSome? (ip.untrusted networks) := by
  have hsplit : (p ++ ',' :: s).splitOn ',' = p.splitOn ',' ++ s.splitOn ',' :=
    splitOnP_append_cons _ _ (by simp)
  rw [hsplit, map_append, reverse_append, findSome?_append]
  refine Option.or_of_isSome (findSome?_isSome_iff.mpr ⟨ip.strip entry, ?_, ?_⟩)
  · exact mem_reverse.mpr (mem_map_of_mem hentry)
  · rw [untrusted_eq_some h hout]
    rfl

/-- **A client cannot choose its address**: what stands before a suffix with an address outside
the trusted CIDRs does not matter, and for a peer outside them no header does. -/
theorem client_cannot_choose (ip : Ipaddress) (trustedCidrs : List (List Char))
    (peerIp : List Char) :
    (∀ p₁ p₂ s : List Char, (∃ entry ∈ s.splitOn ',', ∃ addr,
        ip.ipAddress (ip.strip entry) = some addr ∧ ip.Outside trustedCidrs addr) →
      ip.resolveActorIp peerIp (some (p₁ ++ ',' :: s)) trustedCidrs =
        ip.resolveActorIp peerIp (some (p₂ ++ ',' :: s)) trustedCidrs) ∧
    ((∀ addr, ip.ipAddress peerIp = some addr → ip.Outside trustedCidrs addr) →
      ∀ header header', ip.resolveActorIp peerIp header trustedCidrs =
        ip.resolveActorIp peerIp header' trustedCidrs) := by
  simp only [resolveActorIp]
  cases hnetworks : trustedCidrs.mapM ip.ipNetwork with
  | none => exact ⟨fun _ _ _ _ => rfl, fun _ _ _ => rfl⟩
  | some networks =>
    constructor
    · rintro p₁ p₂ s ⟨entry, hentry, addr, haddr, hout⟩
      have hstop := hout networks hnetworks
      simp only [bind, Option.bind, Option.getD_some, append_eq_nil_iff, reduceCtorEq, and_false,
        if_false, findSome?_append_suffix hentry haddr hstop]
    · intro hpeer header header'
      cases hp : ip.ipAddress peerIp with
      | none => rfl
      | some addr => simp [hpeer addr hp networks hnetworks]

def digits (s : List Char) : Option ℕ :=
  if s ≠ [] ∧ s.all Char.isDigit then some (s.foldl (fun n d => 10 * n + (d.toNat - 48)) 0)
  else none

/-- At most three digits without a leading zero, and at most 255. -/
def octet (s : List Char) : Option ℕ :=
  if s.length ≤ 3 ∧ (s.head? = some '0' → s.length = 1) then (digits s).filter (· ≤ 255) else none

def quad (s : List Char) : Option ℕ := do
  let octets ← (s.splitOn '.').mapM octet
  if octets.length = 4 then some (octets.foldl (fun n o => 256 * n + o) 0) else none

/-- The addresses of version 4, and their networks by the number of leading bits. -/
def ipv4 : Ipaddress where
  Address := ℕ
  Network := ℕ × ℕ
  ipAddress := quad
  ipNetwork s :=
    match s.splitOn '/' with
    | [addr] => (quad addr).map (·, 32)
    | [addr, bits] => (quad addr).bind fun a => ((digits bits).filter (· ≤ 32)).map (a, ·)
    | _ => none
  contains net addr := addr / 2 ^ (32 - net.2) == net.1 / 2 ^ (32 - net.2)
  str addr := intercalate ['.'] ([24, 16, 8, 0].map fun k => Nat.toDigits 10 (addr / 2 ^ k % 256))
  isSpace := Char.isWhitespace
  ipAddress_nil := rfl

/-- Behind the proxy 10.0.0.1 both requests come from 203.0.113.7; from a peer that is no proxy
the header is not read. -/
theorem client_cannot_choose_ipv4 :
    let trusted := ["10.0.0.0/8".toList]
    ipv4.resolveActorIp "10.0.0.1".toList (some "1.2.3.4, 5.6.7.8,203.0.113.7, 10.0.0.2".toList)
          trusted =
        ipv4.resolveActorIp "10.0.0.1".toList (some ",203.0.113.7, 10.0.0.2".toList) trusted ∧
      ipv4.resolveActorIp "198.51.100.9".toList (some "203.0.113.7".toList) trusted =
        ipv4.resolveActorIp "198.51.100.9".toList none trusted := by
  have hnetworks : ["10.0.0.0/8".toList].mapM ipv4.ipNetwork = some [(167772160, 8)] := rfl
  refine ⟨(client_cannot_choose ipv4 _ _).1 "1.2.3.4, 5.6.7.8".toList [] _
    ⟨"203.0.113.7".toList, by decide, (3405803783 : ℕ), rfl, fun networks h => ?_⟩,
    (client_cannot_choose ipv4 _ _).2 (fun addr haddr networks h => ?_) _ _⟩
  · cases hnetworks.symm.trans h
    rfl
  · have hquad : ipv4.ipAddress "198.51.100.9".toList = some (3325256713 : ℕ) := rfl
    cases hquad.symm.trans haddr
    cases hnetworks.symm.trans h
    rfl

end Ipaddress

end Smap.Auth
