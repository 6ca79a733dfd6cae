/-
The VLESS server (`proxy/vless/server.go`): the header of a request, and the connection that puts
the header of the response before the first bytes it sends.
-/

import Glider.Lib.Chunks
import Glider.Proxy.Copy
import Glider.Vless.Addr

namespace Glider.Vless

open Glider.Go Glider.Lib Glider.Proxy

def Version : UInt8 := 0

def CmdTCP : UInt8 := 1

def CmdUDP : UInt8 := 2

/-- `[16]byte`. -/
structure Uuid where
  bytes : List UInt8
  length_bytes : bytes.length = 16

/-! ### Requests -/

def errVersion (version : UInt8) : IoErr :=
  .text (ascii "version " ++ formatUint version.toNat ++ ascii " not supported")

def errAuth (id : List UInt8) : IoErr := .text (ascii "auth failed, client id: " ++ hexString id)

/-- The addons are skipped; that they are missing is not noticed. -/
def ignoreAddons (addonLen : UInt8) : Reads Tee IoErr Unit := fun s =>
  if 0 < addonLen then (.ok (), (CopyN Tee.reader discard () s addonLen.toNat).src) else (.ok (), s)

/-- `readHeader`: the command and the target. -/
def readHeader (uuid : Uuid) : Reads Tee IoErr (UInt8 × GoString) := do
  let buf ← (Tee.readFull 18).wrap (.after (ascii "read header error: "))
  if buf.getD 0 0 ≠ Version then Reads.fail (errVersion (buf.getD 0 0))
  else if uuid.bytes ≠ (buf.take 17).drop 1 then Reads.fail (errAuth (buf.take 16))
  else
    ignoreAddons (buf.getD 17 0)
    let cmd ← (Tee.readFull 1).wrap (.after (ascii "get cmd error: "))
    let target ← ReadAddrString
    pure (cmd.getD 0 0, target)

theorem ignoreAddons_keeps (stream : List UInt8) (addonLen : UInt8) :
    (ignoreAddons addonLen).Keeps (Tee.Of stream) := by
  intro s hs
  unfold ignoreAddons
  split
  · refine CopyN_keeps (fun {n s data err s'} hs h => ?_) () _ hs
    obtain ⟨hbytes, -, -⟩ := Transport.read_bytes (t := s.conn) (n := n) rfl
    cases h
    exact hs.move hbytes (Transport.read_final hs.final rfl).1
  · exact hs

theorem readHeader_keeps (uuid : Uuid) (stream : List UInt8) :
    (readHeader uuid).Keeps (Tee.Of stream) := by
  refine .bind (.wrap _ (Tee.readFull_keeps stream _)) fun buf => .ite (.fail _) (.ite (.fail _) ?_)
  refine .bind (ignoreAddons_keeps stream _) fun _ => ?_
  refine .bind (.wrap _ (Tee.readFull_keeps stream _)) fun cmd => ?_
  exact .bind (ReadAddrString_keeps stream) fun target => .pure _

/-- A header without addons. -/
theorem readHeader_takes (uuid : Uuid) (cmd : UInt8) {addr : List UInt8} {target : GoString}
    (h : ReadAddrString.Takes Tee.Unread addr target) :
    (readHeader uuid).Takes Tee.Unread (Version :: uuid.bytes ++ 0 :: cmd :: addr)
      (cmd, target) := by
  have hlen := uuid.length_bytes
  have hbuf : (Version :: uuid.bytes ++ [0]).length = 18 := by simp [hlen]
  rw [show Version :: uuid.bytes ++ 0 :: cmd :: addr =
    (Version :: uuid.bytes ++ [0]) ++ ([] ++ ([cmd] ++ addr)) by simp]
  refine .bind (.wrap _ (Tee.readFull_takes hbuf)) (.ite_neg (by simp) (.ite_neg ?_ ?_))
  · rw [List.take_left' (by simp [hlen])]
    simp
  · have haddons : (Version :: uuid.bytes ++ [0]).getD 17 0 = 0 := by
      rw [List.getD_eq_getElem?_getD, List.getElem?_append_right (by simp [hlen])]
      simp [hlen]
    rw [haddons]
    refine .bind (a := ()) (fun rest s hs => ⟨s, rfl, hs⟩) ?_
    refine .bind (.wrap _ (Tee.readFull_takes rfl)) ?_
    exact .map h rfl

/-! ### Responses -/

/-- `ServerConn`. -/
structure ServerConn where
  conn : Sink
  sent : Bool

def NewServerConn (c : Sink) : ServerConn := ⟨c, false⟩

/-- `Write`: the number of bytes and the error. The header of the response does not count. -/
def ServerConn.Write (c : ServerConn) (b : List UInt8) : ServerConn × Nat × Option IoErr :=
  if c.sent then
    let (conn, n, err) := c.conn.write b
    (⟨conn, true⟩, n, err)
  else
    let (conn, n, err) := c.conn.write ([Version, 0] ++ b)
    (⟨conn, true⟩, if 2 < n then n - 2 else 0, err)

theorem ServerConn.write_sent {c : ServerConn} (sent : c.sent = true) (works : c.conn.answers = [])
    (b : List UInt8) : c.Write b = (⟨⟨c.conn.data ++ b, []⟩, true⟩, b.length, none) := by
  unfold ServerConn.Write
  rw [if_pos sent, Sink.write_of_works works]

theorem ServerConn.writes_sent (data : List UInt8) (ps : List (List UInt8)) :
    callAll ServerConn.Write ⟨⟨data, []⟩, true⟩ ps =
      (⟨⟨data ++ ps.flatten, []⟩, true⟩, ps.map fun p => (p.length, none)) := by
  induction ps generalizing data with
  | nil => rw [List.flatten_nil, List.append_nil]; rfl
  | cons p ps ih =>
    rw [callAll, ServerConn.write_sent rfl rfl]
    dsimp only
    rw [ih, List.flatten_cons, List.append_assoc]
    rfl

end Glider.Vless
