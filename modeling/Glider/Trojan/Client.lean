/-
The Trojan client (`proxy/trojan/client.go`): the header it sends, and what the server makes of it.

`socks.ParseAddr` returns `nil` for a target that it cannot encode, and the header is then sent
without an address.

* `readHeader_takes` — a header with an address is read back.
* `readHeader_unencoded` — a header without one is refused.
* `dial_roundTrip_iff` — so the targets that can be encoded are those that arrive, unless they have
  a zone, which the encoding drops.
-/

import Glider.Trojan.Server

namespace Glider.Trojan

open Glider.Go Glider.Lib

/-- What `dial` reads of a `Trojan`. -/
structure Client where
  addr : GoString
  pass : Pass
  withTLS : Bool

def crlf : GoString := [13, 10]

/-- The command for a network. -/
def command (network : GoString) : UInt8 :=
  if network = ascii "udp" then Socks.CmdUDPAssociate else Socks.CmdConnect

/-- What is in the buffer of `dial`. -/
def header (pass : Pass) (network addr : GoString) : List UInt8 :=
  pass.bytes ++ crlf ++ command network :: (Socks.ParseAddr addr).getD [] ++ crlf

namespace Client

variable (s : Client) (dialer : (network addr : GoString) → Except IoErr Sink)
  (handshake : Sink → Except IoErr Sink)

/-- The connection `dial` writes to; `handshake` is that of a TLS client. -/
def connect : Except IoErr Sink :=
  match dialer (ascii "tcp") s.addr with
  | .error err => .error err
  | .ok rc => if s.withTLS then handshake rc else .ok rc

/-- `dial`: the connection and the error. -/
def dial (network addr : GoString) : Option Sink × Option IoErr :=
  match s.connect dialer handshake with
  | .error err => (none, some err)
  | .ok rc =>
    match rc.write (header s.pass network addr) with
    | (rc, _, err) => (some rc, err)

variable {s dialer handshake}

/-- What has been written if there is no error. -/
theorem dial_ok {network addr : GoString} {rc : Sink}
    (h : s.dial dialer handshake network addr = (some rc, none)) :
    ∃ conn, s.connect dialer handshake = .ok conn ∧
      rc.data = conn.data ++ header s.pass network addr := by
  unfold dial at h
  split at h
  · cases h
  rename_i conn hconn
  refine ⟨conn, hconn, ?_⟩
  cases hwrite : conn.write (header s.pass network addr) with
  | mk rc' res =>
    obtain ⟨n, err⟩ := res
    rw [hwrite] at h
    cases h
    obtain ⟨sent, hdata, -, hall⟩ := Sink.write_prefix hwrite
    rw [hdata, hall rfl]

end Client

/-! ### The server -/

section

variable (pass : Pass) (cmd : UInt8)

/-- Password, command and the rest. -/
theorem readHeader_start {rest : List UInt8} {s : Tee}
    (hs : Tee.Unread (pass.bytes ++ crlf ++ [cmd] ++ rest) s) :
    ∃ s', Tee.Unread rest s' ∧ readHeader pass s =
      (do
        let tgt ← Socks.ReadAddr.wrap (.after (ascii "read target address error: "))
        let _ ← Tee.readFull 2
        pure (cmd, tgt) : Reads Tee IoErr (UInt8 × Socks.Addr)) s' := by
  have hpass := pass.length_bytes
  have hlen : (pass.bytes ++ crlf ++ [cmd]).length = 59 := by simp [hpass, crlf]
  have htake : (pass.bytes ++ crlf ++ [cmd]).take 56 = pass.bytes := by
    rw [List.append_assoc, List.take_left' hpass]
  have hcmd : (pass.bytes ++ crlf ++ [cmd]).getD 58 0 = cmd := by
    rw [List.getD_eq_getElem?_getD, List.getElem?_append_right (by simp [hpass, crlf])]
    simp [hpass, crlf]
  obtain ⟨s', hread, hs'⟩ := Tee.readFull_takes hlen rest s hs
  refine ⟨s', hs', ?_⟩
  unfold readHeader
  rw [Reads.bind_of_ok hread, if_neg (not_not_intro htake), hcmd]

/-- A header with an address is read back. -/
theorem readHeader_takes {addr : Socks.Addr} (h : Socks.ReadAddr.Takes Tee.Unread addr addr) :
    (readHeader pass).Takes Tee.Unread (pass.bytes ++ crlf ++ cmd :: addr ++ crlf) (cmd, addr) := by
  intro rest s hs
  have hparts : pass.bytes ++ crlf ++ cmd :: addr ++ crlf ++ rest =
      pass.bytes ++ crlf ++ [cmd] ++ (addr ++ crlf ++ rest) := by simp
  rw [hparts] at hs
  obtain ⟨s', hs', hrun⟩ := readHeader_start pass cmd hs
  rw [hrun]
  refine Reads.Takes.bind (.wrap _ h) ?_ rest s' hs'
  exact .map (Tee.readFull_takes rfl) rfl

/-- A header without an address is refused, whatever follows it. -/
theorem readHeader_unencoded {payload : List UInt8} {s : Tee}
    (hs : Tee.Unread (pass.bytes ++ crlf ++ cmd :: [] ++ crlf ++ payload) s) :
    (readHeader pass s).1 =
      .error (.after (ascii "read target address error: ") Socks.errAddressType) := by
  have hparts : pass.bytes ++ crlf ++ cmd :: [] ++ crlf ++ payload =
      pass.bytes ++ crlf ++ [cmd] ++ ([13] ++ (10 :: payload)) := by simp [crlf]
  rw [hparts] at hs
  obtain ⟨s₁, hs₁, hrun⟩ := readHeader_start pass cmd hs
  obtain ⟨s₂, hread, -⟩ := Tee.readFull_takes (n := 1) rfl (10 :: payload) s₁ hs₁
  -- the first byte of the line end is taken for the type of an address
  have haddr : Socks.ReadAddr s₁ = (.error Socks.errAddressType, s₂) := by
    unfold Socks.ReadAddr
    rw [Reads.bind_of_ok hread, if_neg (by decide), if_neg (by decide), if_neg (by decide)]
    rfl
  rw [hrun, Reads.bind_of_error (Reads.wrap_of_error haddr)]

end

/-- **Round trip.** If `dial` returns no error, the server with the same password reads the command
and the target, in its zone, from the bytes written, and leaves the payload, exactly if `ParseAddr`
can encode the target and it has no zone. -/
theorem dial_roundTrip_iff (s : Client) (dialer : GoString → GoString → Except IoErr Sink)
    (handshake : Sink → Except IoErr Sink) (network target : GoString) (rc : Sink)
    (h : s.dial dialer handshake network target = (some rc, none)) :
    ∃ conn written, s.connect dialer handshake = .ok conn ∧ rc.data = conn.data ++ written ∧
      ((∀ payload tee, Tee.Unread (written ++ payload) tee →
        ∃ tgt tee', readHeader s.pass tee = (.ok (command network, tgt), tee') ∧
          SameTarget target (Socks.Addr.String tgt) ∧
          targetZone (Socks.Addr.String tgt) = targetZone target ∧ Tee.Unread payload tee') ↔
        Socks.ParseAddr target ≠ none ∧ targetZone target = []) := by
  obtain ⟨conn, hconn, hdata⟩ := Client.dial_ok h
  refine ⟨conn, _, hconn, hdata, ?_⟩
  unfold header
  cases hparse : Socks.ParseAddr target with
  | some addr =>
    rw [Option.getD_some]
    obtain ⟨layout, hsame, hzone⟩ := Socks.layout_of_ParseAddr hparse
    have takes := readHeader_takes s.pass (command network) layout.takes
    refine ⟨fun hread => ⟨by simp, ?_⟩, fun ⟨_, hnone⟩ payload tee htee => ?_⟩
    · -- the server reads what was encoded, which has no zone
      obtain ⟨tgt, tee', hrun, -, hsameZone, -⟩ := hread [] _ (Tee.unread_piece _)
      obtain ⟨tee'', hrun', -⟩ := takes [] _ (Tee.unread_piece _)
      cases hrun.symm.trans hrun'
      exact hsameZone.symm.trans hzone
    · obtain ⟨tee', hrun, htee'⟩ := takes payload tee htee
      exact ⟨addr, tee', hrun, hsame, hzone.trans hnone.symm, htee'⟩
  | none =>
    rw [Option.getD_none]
    refine ⟨fun hread => ?_, fun ⟨hne, _⟩ => absurd rfl hne⟩
    obtain ⟨tgt, tee', hrun, -⟩ := hread [] _ (Tee.unread_piece _)
    have hrefused := readHeader_unencoded s.pass (command network) (Tee.unread_piece _)
    rw [hrun] at hrefused
    cases hrefused

/-- A client without TLS. -/
def plain : Client := ⟨ascii "server:443", ⟨List.replicate 56 48, rfl⟩, false⟩

/-- A port by its name: `dial` reports no error, and the server refuses the header. -/
theorem dial_accepts_unencodable :
    plain.dial (fun _ _ => .ok {}) .ok (ascii "tcp") (ascii "example.com:http") =
        (some ⟨List.replicate 56 48 ++ [13, 10, 1, 13, 10], []⟩, none) ∧
      (readHeader plain.pass
        ⟨⟨[⟨List.replicate 56 48 ++ [13, 10, 1, 13, 10] ++ ascii "hello", none⟩], .eof⟩, []⟩).1 =
          .error (.text (ascii "read target address error: address type not supported")) := by
  constructor
  · decide
  · rfl

theorem dial_roundTrip_name :
    ∃ rc, plain.dial (fun _ _ => .ok {}) .ok (ascii "udp") (ascii "example.com:443") =
        (some rc, none) ∧
      ∀ payload tee, Tee.Unread (rc.data ++ payload) tee →
        ∃ tgt tee', readHeader plain.pass tee = (.ok (Socks.CmdUDPAssociate, tgt), tee') ∧
          SameTarget (ascii "example.com:443") (Socks.Addr.String tgt) ∧
          targetZone (Socks.Addr.String tgt) = [] ∧ Tee.Unread payload tee' := by
  obtain ⟨conn, written, hconn, hdata, hiff⟩ := dial_roundTrip_iff plain (fun _ _ => .ok {}) .ok
    (ascii "udp") (ascii "example.com:443") _ rfl
  refine ⟨_, rfl, ?_⟩
  cases hconn
  rw [hdata]
  exact hiff.mpr ⟨by decide, rfl⟩

end Glider.Trojan
