/-
UDP addresses: `net.UDPAddr` and `net.ResolveUDPAddr`.

A host that is an IP address is taken as it stands, and so is a port that is a number; what
names resolve to is an input (`Resolver`).

* `resolveUDPAddr_join` — the text of an IP address and a port resolves to them.
-/

import Glider.Go.HostPort
import Glider.Go.Io

namespace Glider.Go

/-- `net.UDPAddr`. -/
structure UDPAddr where
  ip : List UInt8
  port : Nat
  zone : GoString := []
deriving DecidableEq, Repr

/-- `UDPAddr.String`. -/
def UDPAddr.String (a : UDPAddr) : GoString :=
  let ip := if a.ip = [] then [] else ipString a.ip
  joinHostPort (if a.zone = [] then ip else ip ++ 37 :: a.zone) (formatUint a.port)

/-- What the names of hosts and services stand for. -/
structure Resolver where
  host : GoString → Except IoErr (List UInt8 × GoString)
  service : GoString → Except IoErr Nat

/-- `AddrError.Error`. -/
def AddrError.message (e : AddrError) : GoString :=
  ascii "address " ++ e.addr ++ ascii ": " ++ ascii e.err

/-- `IP.To16`. -/
def to16 (ip : List UInt8) : List UInt8 := if ip.length = 4 then v4InV6Prefix ++ ip else ip

/-- `net.ResolveUDPAddr("udp", address)`. -/
def resolveUDPAddr (R : Resolver) (address : GoString) : Except IoErr UDPAddr := do
  let (host, port) ← (splitHostPort address).mapError fun e => .text e.message
  let portnum ← match parseUint16 port with
    | (n, none) => .ok n
    | (_, some _) => R.service port
  if host = [] then .ok ⟨[], portnum, []⟩
  else
    match parseAddr host with
    | .ok ip => .ok ⟨to16 ip.asSlice, portnum, ip.zone⟩
    | .error _ =>
      let (ip, zone) ← R.host host
      .ok ⟨ip, portnum, zone⟩

/-! ### IP addresses -/

section

variable {ip : List UInt8} (hlen : ip.length = 4 ∨ ip.length = 16)
include hlen

/-- The bytes of the address that a text denotes: those of an IPv4 address are the last four. -/
theorem asSlice_ipAddr :
    (ipAddr ip).asSlice =
      if ip.length = 16 ∧ v4InV6Prefix <+: ip then ip.drop 12 else ip := by
  have fours : ∀ {bytes : List UInt8}, bytes.length = 4 →
      (Addr.v4 (BitVec.ofNat 32 (bigEndian bytes))).asSlice = bytes := by
    intro bytes hbytes
    have hlt : bigEndian bytes < 2 ^ 32 := by
      have hlt := bigEndian_lt bytes
      rw [hbytes] at hlt
      exact hlt
    have hback := bigEndianBytes_bigEndian bytes
    rw [hbytes] at hback
    rw [Addr.asSlice, BitVec.toNat_ofNat, Nat.mod_eq_of_lt hlt, hback]
  unfold ipAddr
  by_cases h4 : ip.length = 4
  · have hnot : ¬ (ip.length = 16 ∧ v4InV6Prefix <+: ip) := by omega
    rw [if_pos h4, if_neg hnot, fours h4]
  · have h16 : ip.length = 16 := hlen.resolve_left h4
    rw [if_neg h4]
    by_cases hmapped : v4InV6Prefix <+: ip
    · rw [if_pos hmapped, if_pos ⟨h16, hmapped⟩, fours]
      rw [List.length_drop, h16]
    · have hlt : bigEndian ip < 2 ^ 128 := by
        have hlt := bigEndian_lt ip
        rw [h16] at hlt
        exact hlt
      have hback := bigEndianBytes_bigEndian ip
      rw [h16] at hback
      rw [if_neg hmapped, if_neg (fun h => hmapped h.2), Addr.asSlice, BitVec.toNat_ofNat,
        Nat.mod_eq_of_lt hlt, hback]

/-- Taking the bytes of an address does not change what they denote. -/
theorem to16_asSlice_ipAddr : to16 (ipAddr ip).asSlice = to16 ip := by
  rw [asSlice_ipAddr hlen]
  split
  · rename_i hmapped
    obtain ⟨h16, rest, rfl⟩ := hmapped
    have hprefix : v4InV6Prefix.length = 12 := rfl
    have hrest : rest.length = 4 := by
      rw [List.length_append, hprefix] at h16
      omega
    have hdrop : (v4InV6Prefix ++ rest).drop 12 = rest := List.drop_left' hprefix
    rw [hdrop, to16, if_pos hrest, to16, if_neg (by omega)]
  · rfl

theorem ipString_ne_nil : ipString ip ≠ [] := by
  intro hnil
  have hparse := parseAddr_ipString hlen
  rw [hnil] at hparse
  cases hparse

/-- **The text of an IP address and a port** resolves to them, without a lookup. -/
theorem resolveUDPAddr_join (R : Resolver) {n : Nat} (hn : n < 65536) :
    resolveUDPAddr R (joinHostPort (ipString ip) (formatUint n)) = .ok ⟨to16 ip, n, []⟩ := by
  have hsplit := splitHostPort_join (noBrackets_ipString hlen) n
  have hresolve : ∀ {address : GoString}, splitHostPort address = .ok (ipString ip, formatUint n) →
      resolveUDPAddr R address = .ok ⟨to16 (ipAddr ip).asSlice, n, (ipAddr ip).zone⟩ := by
    intro address haddress
    unfold resolveUDPAddr
    rw [haddress]
    simp only [Except.mapError, Except.bind, bind, parseUint16_formatUint hn,
      if_neg (ipString_ne_nil hlen), parseAddr_ipString hlen]
  rw [hresolve hsplit, to16_asSlice_ipAddr hlen, zone_ipAddr]

end

end Glider.Go
