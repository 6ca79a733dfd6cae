/-
VLESS addresses (`proxy/vless/addr.go`): a port, a type, and an IP address or a name after its
length.

* `ReadAddrString_takes` — the server reads the target that the client has encoded.
-/

import Glider.Go.HostPort
import Glider.Go.Readers

namespace Glider.Vless

open Glider.Go Glider.Lib

def AtypIP4 : UInt8 := 1

def AtypDomain : UInt8 := 2

def AtypIP6 : UInt8 := 3

def MaxHostLen : Nat := 255

/-- The errors of `ParseAddr`, by the function they come from. -/
inductive ParseErr where
  | split (e : AddrError)
  | ip (e : String)
  | port (e : NumError)
deriving DecidableEq, Repr

/-- The results of `ParseAddr` and of `ReadAddr`. -/
structure Target where
  atyp : UInt8
  addr : List UInt8
  port : UInt16
deriving DecidableEq, Repr

/-- The type and the bytes of a host. -/
def parseHost (host : GoString) : Except ParseErr (UInt8 × List UInt8) :=
  match parseAddr host with
  | .ok ip => .ok (if ip.is6 then AtypIP6 else AtypIP4, ip.asSlice)
  | .error e =>
    if MaxHostLen < host.length then .error (.ip e)
    else .ok (AtypDomain, host.length.toUInt8 :: host)

/-- `ParseAddr`. -/
def ParseAddr (s : GoString) : Except ParseErr Target :=
  match splitHostPort s with
  | .error e => .error (.split e)
  | .ok (host, port) =>
    match parseHost host with
    | .error e => .error e
    | .ok (atyp, addr) =>
      match parseUint16 port with
      | (_, some e) => .error (.port e)
      | (portnum, none) => .ok ⟨atyp, addr, portnum.toUInt16⟩

/-- `ReadAddr`. Nothing follows a type that is not known. -/
def ReadAddr : Reads Tee IoErr Target := do
  let port ← Tee.readFull 2
  let atyp ← Tee.readFull 1
  if atyp = [AtypIP4] then
    let host ← Tee.readFull 4
    pure ⟨AtypIP4, host, (bigEndian port).toUInt16⟩
  else if atyp = [AtypIP6] then
    let host ← Tee.readFull 16
    pure ⟨AtypIP6, host, (bigEndian port).toUInt16⟩
  else if atyp = [AtypDomain] then
    let len ← Tee.readFull 1
    let host ← Tee.readFull (len.headD 0).toNat
    pure ⟨AtypDomain, host, (bigEndian port).toUInt16⟩
  else pure ⟨atyp.headD 0, [], (bigEndian port).toUInt16⟩

/-- `AddrString`. -/
def AddrString (t : Target) : GoString :=
  let host :=
    if t.atyp = AtypIP4 ∨ t.atyp = AtypIP6 then ipString t.addr
    else if t.atyp = AtypDomain then t.addr
    else []
  joinHostPort host (formatUint t.port.toNat)

/-- `ReadAddrString`. -/
def ReadAddrString : Reads Tee IoErr GoString := do
  let t ← ReadAddr
  pure (AddrString t)

theorem ReadAddrString_keeps (stream : List UInt8) : ReadAddrString.Keeps (Tee.Of stream) := by
  refine .bind ?_ fun t => .pure _
  refine .bind (Tee.readFull_keeps stream 2) fun port => ?_
  refine .bind (Tee.readFull_keeps stream 1) fun atyp => .ite ?_ (.ite ?_ (.ite ?_ (.pure _)))
  · exact .bind (Tee.readFull_keeps stream _) fun host => .pure _
  · exact .bind (Tee.readFull_keeps stream _) fun host => .pure _
  · refine .bind (Tee.readFull_keeps stream 1) fun len => ?_
    exact .bind (Tee.readFull_keeps stream _) fun host => .pure _

/-! ### Round trip -/

/-- What the server makes of an address: a name without its length. -/
def Target.read (t : Target) : Target :=
  if t.atyp = AtypDomain then { t with addr := t.addr.drop 1 } else t

/-- A target as it is sent. -/
def Target.encode (t : Target) : List UInt8 := bigEndianBytes 2 t.port.toNat ++ t.atyp :: t.addr

theorem toUInt16_bigEndian (port : UInt16) :
    (bigEndian (bigEndianBytes 2 port.toNat)).toUInt16 = port := by
  rw [bigEndian_bigEndianBytes, Nat.mod_eq_of_lt (by simpa using port.toNat_lt)]
  exact UInt16.ofNat_toNat

/-- The addresses that `ParseAddr` makes. -/
inductive Target.Valid : Target → Prop
  | ip4 {addr : List UInt8} {port : UInt16} : addr.length = 4 → Valid ⟨AtypIP4, addr, port⟩
  | ip6 {addr : List UInt8} {port : UInt16} : addr.length = 16 → Valid ⟨AtypIP6, addr, port⟩
  | domain {host : GoString} {port : UInt16} : host.length ≤ MaxHostLen →
      Valid ⟨AtypDomain, host.length.toUInt8 :: host, port⟩

theorem ReadAddr_takes {t : Target} (valid : t.Valid) :
    ReadAddr.Takes Tee.Unread t.encode t.read := by
  have hencode : t.encode = bigEndianBytes 2 t.port.toNat ++ ([t.atyp] ++ t.addr) := rfl
  rw [hencode]
  refine .bind (Tee.readFull_takes (length_bigEndianBytes 2 _)) (.bind (Tee.readFull_takes rfl) ?_)
  rw [toUInt16_bigEndian]
  cases valid with
  | ip4 hlen => exact .ite_pos rfl (.map (Tee.readFull_takes hlen) rfl)
  | ip6 hlen =>
    have hip4 : [AtypIP6] ≠ [AtypIP4] := by decide
    exact .ite_neg hip4 (.ite_pos rfl (.map (Tee.readFull_takes hlen) rfl))
  | @domain host port hlen =>
    have hlength : host.length.toUInt8.toNat = host.length :=
      Nat.mod_eq_of_lt (Nat.lt_succ_of_le hlen)
    have hname : host.length.toUInt8 :: host = [host.length.toUInt8] ++ host := rfl
    have hip4 : [AtypDomain] ≠ [AtypIP4] := by decide
    have hip6 : [AtypDomain] ≠ [AtypIP6] := by decide
    refine .ite_neg hip4 (.ite_neg hip6 (.ite_pos rfl ?_))
    rw [hname]
    exact .bind (Tee.readFull_takes rfl) (.map (Tee.readFull_takes hlength.symm) rfl)

end Glider.Vless
