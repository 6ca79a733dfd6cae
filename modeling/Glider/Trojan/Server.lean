/-
The header of a Trojan request, as the server reads it (`proxy/trojan/server.go`): the hash of the
password, a command and an address.
-/

import Glider.Socks.Addr

namespace Glider.Trojan

open Glider.Go Glider.Lib

/-- The hash of the password, in hexadecimal digits: `[56]byte`. -/
structure Pass where
  bytes : List UInt8
  length_bytes : bytes.length = 56

def errWrongPassword : IoErr := .text (ascii "wrong password")

/-- `readHeader`: the command and the target. -/
def readHeader (pass : Pass) : Reads Tee IoErr (UInt8 × Socks.Addr) := do
  let buf ← Tee.readFull 59
  if buf.take 56 ≠ pass.bytes then Reads.fail errWrongPassword
  else
    let tgt ← Socks.ReadAddr.wrap (.after (ascii "read target address error: "))
    let _ ← Tee.readFull 2
    pure (buf.getD 58 0, tgt)

theorem readHeader_keeps (pass : Pass) (stream : List UInt8) :
    (readHeader pass).Keeps (Tee.Of stream) := by
  refine .bind (Tee.readFull_keeps stream _) fun buf => .ite (.fail _) ?_
  refine .bind (.wrap _ (Socks.ReadAddr_keeps stream)) fun tgt => ?_
  exact .bind (Tee.readFull_keeps stream _) fun _ => .pure _

end Glider.Trojan
