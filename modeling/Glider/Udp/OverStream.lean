/-
Datagrams over a stream: the packet connections of trojan (`proxy/trojan/packet.go`) and of VLESS
(`proxy/vless/packet.go`).

A trojan datagram is a SOCKS address, the length, an empty line and the payload; a VLESS one is
the length and the payload, and its target is that of the connection. Both read the length into
the buffer of the caller, which the payload then overwrites.

Trojan's `ReadFrom` reads the connection through a `Tee`, as `ReadAddr` does; what the tee copies is
not used.

* `Trojan.ReadFrom_datagram`, `Vless.ReadFrom_datagram` — one call takes one datagram.
* `udp_over_stream` — so a list of datagrams is read back as it was written, however the stream is
  cut.
-/

import Glider.Go.UDPAddr
import Glider.Socks.Addr

namespace Glider.Udp

open Glider.Go Glider.Lib

/-- What `ReadFrom` returns: the part of the buffer it filled, the address and the error. -/
structure ReadResult where
  data : List UInt8
  addr : Option UDPAddr
  err : Option IoErr
deriving DecidableEq, Repr

def errBufSize : IoErr := .text (ascii "buf size is not enough")

def crlf : List UInt8 := [13, 10]

/-- A datagram for an IP address and a port. An IPv6 address may have a zone. -/
structure Datagram where
  payload : List UInt8
  ip : List UInt8
  port : UInt16
  zone : GoString
  payload_le : payload.length ≤ 65535
  ip_length : ip.length = 4 ∨ ip.length = 16
  zone_ok : zone = [] ∨ (ip.length = 16 ∧ ¬ v4InV6Prefix <+: ip) ∧ NoBrackets zone

/-- The address as the caller of `WriteTo` gives it. -/
def Datagram.target (d : Datagram) : UDPAddr := ⟨d.ip, d.port.toNat, d.zone⟩

/-- The same address as `ReadFrom` returns it, with the IP in its 16-byte form and without its zone,
for which a SOCKS address has no place. -/
def Datagram.resolved (d : Datagram) : UDPAddr := ⟨to16 d.ip, d.port.toNat, []⟩

/-- The buffer has room for the datagram and for its length. -/
def Datagram.Fits (d : Datagram) (size : Nat) : Prop := max 2 d.payload.length ≤ size

instance (d : Datagram) (size : Nat) : Decidable (d.Fits size) :=
  inferInstanceAs (Decidable (_ ≤ _))

theorem Datagram.length_bytes (d : Datagram) :
    bigEndian (bigEndianBytes 2 d.payload.length) = d.payload.length := by
  rw [bigEndian_bigEndianBytes]
  exact Nat.mod_eq_of_lt (Nat.lt_succ_of_le d.payload_le)

/-! ### Trojan -/

namespace Trojan

def errInvalidAddr : IoErr := .text (ascii "invalid addr")

/-- `PktConn.WriteTo`; an address is what its `String` method gives. -/
def WriteTo (target : Option Socks.Addr) (b : List UInt8) (addr : Option GoString) (conn : Sink) :
    Sink × Nat × Option IoErr :=
  let target := match addr with
    | some addr => Socks.ParseAddr addr
    | none => target
  match target with
  | none => (conn, 0, some errInvalidAddr)
  | some target =>
    let (conn, n, err) := conn.write (target ++ (bigEndianBytes 2 b.length ++ (crlf ++ b)))
    if target.length + 4 < n then (conn, n - target.length - 4, none) else (conn, 0, err)

/-- `PktConn.ReadFrom`, with a buffer of `size` bytes. -/
def ReadFrom (R : Resolver) (size : Nat) (s : Tee) : ReadResult × Tee :=
  match Socks.ReadAddr s with
  | (.error e, s) => (⟨[], none, some e⟩, s)
  | (.ok tgtAddr, s) =>
    match resolveUDPAddr R (Socks.Addr.String tgtAddr) with
    | .error e => (⟨[], none, some e⟩, s)
    | .ok target =>
      if size < 2 then (⟨[], none, some errBufSize⟩, s)
      else
        match Tee.readFull 2 s with
        | (.error e, s) => (⟨[], none, some e⟩, s)
        | (.ok b, s) =>
          if size < bigEndian b then (⟨[], none, some errBufSize⟩, s)
          else
            -- the empty line is not looked at
            match Tee.readFull 2 s with
            | (.error e, s) => (⟨[], none, some e⟩, s)
            | (.ok _, s) =>
              match s.conn.readFull (bigEndian b) with
              | (data, none, conn) => (⟨data, some target, none⟩, ⟨conn, s.head ++ data⟩)
              | (data, some e, conn) => (⟨data, none, some e⟩, ⟨conn, s.head ++ data⟩)

/-- The SOCKS address of a datagram's target. -/
def address (d : Datagram) : Socks.Addr :=
  (if (ipAddr d.ip).is4 then Socks.ATypIP4 else Socks.ATypIP6) :: (ipAddr d.ip).asSlice ++
    bigEndianBytes 2 d.port.toNat

/-- A datagram on the stream. -/
def encode (d : Datagram) : List UInt8 :=
  address d ++ (bigEndianBytes 2 d.payload.length ++ (crlf ++ d.payload))

/-- Write a datagram to its target. -/
def send (target : Option Socks.Addr) (d : Datagram) (conn : Sink) :
    (Nat × Option IoErr) × Sink :=
  let (conn, n, err) := WriteTo target d.payload (some d.target.String) conn
  ((n, err), conn)

/-- The host that `WriteTo` encodes is the address of the datagram in its zone. -/
theorem target_host (d : Datagram) :
    ∃ host ip, d.target.String = joinHostPort host (formatUint d.port.toNat) ∧ NoBrackets host ∧
      parseAddr host = .ok ip ∧ ip.is4 = (ipAddr d.ip).is4 ∧
      ip.asSlice = (ipAddr d.ip).asSlice := by
  have hne : d.ip ≠ [] := by
    intro hnil
    have hlen := d.ip_length
    rw [hnil] at hlen
    cases hlen <;> contradiction
  have hbrackets := noBrackets_ipString d.ip_length
  have hparse := parseAddr_ipString d.ip_length
  by_cases hzone : d.zone = []
  · refine ⟨ipString d.ip, ipAddr d.ip, ?_, hbrackets, hparse, rfl, rfl⟩
    simp only [UDPAddr.String, Datagram.target, hne, hzone, if_false, if_true]
  · obtain ⟨⟨h16, hmapped⟩, hnoBrackets⟩ := d.zone_ok.resolve_left hzone
    have haddr : ipAddr d.ip = .v6 (BitVec.ofNat 128 (bigEndian d.ip)) [] := by
      rw [ipAddr, if_neg (by omega), if_neg hmapped]
    have hpercent : 37 ∉ ipString d.ip := by
      rw [ipString, if_neg hne, if_neg (by omega), if_pos h16, if_neg hmapped]
      exact percent_notMem (isV6Byte_string6 h16)
    rw [haddr] at hparse ⊢
    refine ⟨ipString d.ip ++ 37 :: d.zone, _, ?_, ?_, parseAddr_zone hpercent hzone hparse, rfl,
      rfl⟩
    · simp only [UDPAddr.String, Datagram.target, hne, hzone, if_false]
    · have hsign : NoBrackets [37] := ⟨by decide, by decide⟩
      exact hbrackets.append (hsign.append hnoBrackets)

theorem ParseAddr_target (d : Datagram) : Socks.ParseAddr d.target.String = some (address d) := by
  obtain ⟨host, ip, htext, hbrackets, hparse, hfamily, hbytes⟩ := target_host d
  rw [htext, Socks.ParseAddr, splitHostPort_join hbrackets]
  simp only [Socks.parseHost, hparse, parseUint16_formatUint d.port.toNat_lt, hfamily, hbytes]
  rfl

theorem String_address (d : Datagram) :
    Socks.Addr.String (address d) =
      joinHostPort (ipString (ipAddr d.ip).asSlice) (formatUint d.port.toNat) := by
  have hport : bigEndian (bigEndianBytes 2 d.port.toNat) = d.port.toNat := by
    rw [bigEndian_bigEndianBytes]
    exact Nat.mod_eq_of_lt d.port.toNat_lt
  rw [address, Socks.String_ip (length_bigEndianBytes 2 _), hport]
  cases ipAddr d.ip with
  | v4 bits => exact Or.inl ⟨rfl, length_bigEndianBytes 4 _⟩
  | v6 bits zone => exact Or.inr ⟨rfl, length_bigEndianBytes 16 _⟩

theorem resolve_address (R : Resolver) (d : Datagram) :
    resolveUDPAddr R (Socks.Addr.String (address d)) = .ok d.resolved := by
  rw [String_address, resolveUDPAddr_join (length_asSlice _) R d.port.toNat_lt,
    to16_asSlice_ipAddr d.ip_length]
  rfl

/-- A datagram is written as one piece. -/
theorem send_datagram (target : Option Socks.Addr) (d : Datagram) (data : List UInt8) :
    send target d ⟨data, []⟩ = ((d.payload.length, none), ⟨data ++ encode d, []⟩) := by
  have hlen : (address d ++ (bigEndianBytes 2 d.payload.length ++ (crlf ++ d.payload))).length =
      (address d).length + 4 + d.payload.length := by
    simp only [crlf, List.length_append, length_bigEndianBytes, List.length_cons, List.length_nil]
    omega
  have hwrite : WriteTo target d.payload (some d.target.String) ⟨data, []⟩ =
      (⟨data ++ encode d, []⟩, d.payload.length, none) := by
    simp only [WriteTo, ParseAddr_target, Sink.write_of_works, hlen]
    split
    · rw [Nat.add_assoc, Nat.add_sub_cancel_left, Nat.add_sub_cancel_left]
      rfl
    · -- an empty payload
      have hzero : d.payload.length = 0 := by omega
      exact congrArg (fun n => ((⟨data ++ encode d, []⟩ : Sink), n, none)) hzero.symm
  rw [send, hwrite]

/-- **One call takes one datagram**, into any buffer that has room for it. -/
theorem ReadFrom_datagram (R : Resolver) (d : Datagram) (size : Nat) (rest : List UInt8) (s : Tee)
    (fits : d.Fits size) (hs : s.Unread (encode d ++ rest)) :
    ∃ s', ReadFrom R size s = (⟨d.payload, some d.resolved, none⟩, s') ∧ s'.Unread rest := by
  have hroom : ¬ size < 2 ∧ ¬ size < d.payload.length := by
    unfold Datagram.Fits at fits
    omega
  have layout := (Socks.layout_of_ParseAddr (ParseAddr_target d)).1
  rw [encode, List.append_assoc] at hs
  obtain ⟨s₁, haddr, hs₁⟩ := layout.takes _ s hs
  rw [List.append_assoc] at hs₁
  obtain ⟨s₂, hlength, hs₂⟩ := Tee.readFull_takes (length_bigEndianBytes 2 _) _ s₁ hs₁
  rw [List.append_assoc] at hs₂
  obtain ⟨s₃, hcrlf, hs₃⟩ := Tee.readFull_takes (n := 2) rfl _ s₂ hs₂
  obtain ⟨conn, hpayload, hfinal, hrest⟩ := Transport.readFull_of_final hs₃.final hs₃.bytes_eq
  refine ⟨⟨conn, s₃.head ++ d.payload⟩, ?_, hrest, hfinal⟩
  simp only [ReadFrom, haddr, resolve_address, if_neg hroom.1, hlength, d.length_bytes,
    if_neg hroom.2, hcrlf, hpayload]

end Trojan

/-! ### VLESS -/

namespace Vless

/-- `PktConn.WriteTo`; the address is not looked at. -/
def WriteTo (b : List UInt8) (conn : Sink) : Sink × Nat × Option IoErr :=
  let (conn, n, err) := conn.write (bigEndianBytes 2 b.length ++ b)
  if 2 < n then (conn, n - 2, err) else (conn, 0, err)

/-- `PktConn.ReadFrom`, with a buffer of `size` bytes. -/
def ReadFrom (target : UDPAddr) (size : Nat) (conn : Transport) : ReadResult × Transport :=
  if size < 2 then (⟨[], some target, some errBufSize⟩, conn)
  else
    match conn.readFull 2 with
    | (_, some e, conn) => (⟨[], some target, some e⟩, conn)
    | (b, none, conn) =>
      if size < bigEndian b then (⟨[], some target, some errBufSize⟩, conn)
      else
        let (data, err, conn) := conn.readFull (bigEndian b)
        (⟨data, some target, err⟩, conn)

/-- A datagram on the stream. -/
def encode (d : Datagram) : List UInt8 := bigEndianBytes 2 d.payload.length ++ d.payload

/-- Write a datagram. -/
def send (d : Datagram) (conn : Sink) : (Nat × Option IoErr) × Sink :=
  let (conn, n, err) := WriteTo d.payload conn
  ((n, err), conn)

/-- The bytes are still to come, with no error before their end. -/
structure Unread (input : List UInt8) (conn : Transport) : Prop where
  bytes_eq : conn.bytes = input
  final : conn.Final

theorem send_datagram (d : Datagram) (data : List UInt8) :
    send d ⟨data, []⟩ = ((d.payload.length, none), ⟨data ++ encode d, []⟩) := by
  have hlen : (bigEndianBytes 2 d.payload.length ++ d.payload).length = 2 + d.payload.length := by
    rw [List.length_append, length_bigEndianBytes]
  have hwrite : WriteTo d.payload ⟨data, []⟩ =
      (⟨data ++ encode d, []⟩, d.payload.length, none) := by
    simp only [WriteTo, Sink.write_of_works, hlen]
    split
    · rw [Nat.add_sub_cancel_left]
      rfl
    · -- an empty payload
      have hzero : d.payload.length = 0 := by omega
      exact congrArg (fun n => ((⟨data ++ encode d, []⟩ : Sink), n, none)) hzero.symm
  rw [send, hwrite]

/-- **One call takes one datagram**, into any buffer that has room for it. -/
theorem ReadFrom_datagram (target : UDPAddr) (d : Datagram) (size : Nat) (rest : List UInt8)
    (conn : Transport) (fits : d.Fits size) (hconn : Unread (encode d ++ rest) conn) :
    ∃ conn', ReadFrom target size conn = (⟨d.payload, some target, none⟩, conn') ∧
      Unread rest conn' := by
  have hroom : ¬ size < 2 ∧ ¬ size < d.payload.length := by
    unfold Datagram.Fits at fits
    omega
  have hbytes : conn.bytes = bigEndianBytes 2 d.payload.length ++ (d.payload ++ rest) := by
    rw [hconn.bytes_eq, encode, List.append_assoc]
  obtain ⟨conn₁, hlength, hfinal₁, hrest₁⟩ := Transport.readFull_of_final hconn.final hbytes
  obtain ⟨conn₂, hpayload, hfinal₂, hrest₂⟩ := Transport.readFull_of_final hfinal₁ hrest₁
  rw [length_bigEndianBytes] at hlength
  refine ⟨conn₂, ?_, hrest₂, hfinal₂⟩
  simp only [ReadFrom, if_neg hroom.1, hlength, d.length_bytes, if_neg hroom.2, hpayload]

end Vless

/-! ### Round trip -/

/-- Writes that each append an encoding make up a stream. -/
theorem each_sends {send : Datagram → Sink → (Nat × Option IoErr) × Sink}
    {encode : Datagram → List UInt8}
    (one : ∀ d data, send d ⟨data, []⟩ = ((d.payload.length, none), ⟨data ++ encode d, []⟩))
    (ds : List Datagram) (data : List UInt8) :
    each send ds ⟨data, []⟩ =
      (ds.map fun d => (d.payload.length, none), ⟨data ++ ds.flatMap encode, []⟩) := by
  induction ds generalizing data with
  | nil => simp [each]
  | cons d ds ih =>
    rw [each, one]
    dsimp only
    rw [ih, List.flatMap_cons, List.append_assoc, List.map_cons]

/-- **Datagrams over a stream.** For every list of datagrams, each with the size of a buffer that
has room for it: written one after the other to a connection that works, and read back from
a stream with those bytes, cut in any way, trojan's `ReadFrom` returns the payloads and the targets
in order, without their zones, and VLESS's the payloads with the target of the connection; nothing
is left over. -/
theorem udp_over_stream (items : List (Datagram × Nat)) (fits : ∀ p ∈ items, p.1.Fits p.2) :
    (∀ (R : Resolver) (pcTarget : Option Socks.Addr) (results : List (Nat × Option IoErr))
        (sent : Sink) (s : Tee),
      each (Trojan.send pcTarget) (items.map Prod.fst) {} = (results, sent) →
      s.Unread sent.data →
      results = items.map (fun p => (p.1.payload.length, none)) ∧
        ∃ s', each (Trojan.ReadFrom R) (items.map Prod.snd) s =
          (items.map fun p => ⟨p.1.payload, some p.1.resolved, none⟩, s') ∧ s'.Unread []) ∧
    ∀ (target : UDPAddr) (results : List (Nat × Option IoErr)) (sent : Sink) (conn : Transport),
      each Vless.send (items.map Prod.fst) {} = (results, sent) →
      Vless.Unread sent.data conn →
      results = items.map (fun p => (p.1.payload.length, none)) ∧
        ∃ conn', each (Vless.ReadFrom target) (items.map Prod.snd) conn =
          (items.map fun p => ⟨p.1.payload, some target, none⟩, conn') ∧
          Vless.Unread [] conn' := by
  constructor
  · intro R pcTarget results sent s hsent hs
    rw [each_sends (Trojan.send_datagram pcTarget)] at hsent
    cases hsent
    refine ⟨by simp, ?_⟩
    apply each_items (Trojan.ReadFrom_datagram R) items fits
    rw [List.append_nil]
    exact hs
  · intro target results sent conn hsent hconn
    rw [each_sends Vless.send_datagram] at hsent
    cases hsent
    refine ⟨by simp, ?_⟩
    apply each_items (Vless.ReadFrom_datagram target) items fits
    rw [List.append_nil]
    exact hconn

/-- An empty datagram and one of three bytes, for an IPv4 address in both of its forms. -/
def twoDatagrams : List (Datagram × Nat) :=
  [(⟨[], [192, 0, 2, 1], 53, [], by decide, by decide, .inl rfl⟩, 2),
    (⟨[1, 2, 3], v4InV6Prefix ++ [192, 0, 2, 1], 65535, [], by decide, by decide, .inl rfl⟩, 16)]

/-- A resolver that knows no names. -/
def noNames : Resolver := ⟨fun _ => .error .eof, fun _ => .error .eof⟩

/-- They arrive in three parts, cut within an address and within a payload. -/
def threeParts : Tee :=
  ⟨⟨[⟨[1, 192, 0], none⟩,
    ⟨[2, 1, 0, 53, 0, 0, 13, 10, 1, 192, 0, 2, 1, 255, 255, 0, 3, 13, 10, 1], none⟩,
    ⟨[2, 3], some .eof⟩], .eof⟩, []⟩

theorem udp_over_stream_two :
    ∃ s', each (Trojan.ReadFrom noNames) [2, 16] threeParts =
        ([⟨[], some ⟨v4InV6Prefix ++ [192, 0, 2, 1], 53, []⟩, none⟩,
          ⟨[1, 2, 3], some ⟨v4InV6Prefix ++ [192, 0, 2, 1], 65535, []⟩, none⟩], s') ∧
      s'.Unread [] := by
  have hdata : threeParts.Unread (each (Trojan.send none) (twoDatagrams.map Prod.fst) {}).2.data :=
    ⟨by decide +kernel, by decide⟩
  exact ((udp_over_stream twoDatagrams (by decide)).1 noNames none _ _ threeParts rfl hdata).2

end Glider.Udp
