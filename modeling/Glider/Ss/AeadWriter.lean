/-
The writer of a shadowsocks AEAD stream (`proxy/ss/cipher/shadowaead/stream.go`), and what the
reader makes of its output.

`Write` cuts its argument in chunks of at most `maxPayload` bytes. Each is sent as two sealed
blocks, the length and the payload, under two consecutive nonces. The calls of `Seal` are kept
in a log, for what is said about a stream that somebody else has put together.

* `Write_sent`, `writes_sent` — on a connection that works, `Write` sends the chunks of its
  argument and returns its length.
* `decode_wire` — what the reader's `decode` makes of the chunks.
-/

import Glider.Go.Transport
import Glider.Lib.Chunks
import Glider.Ss.AeadStream

namespace Glider.Ss

open Glider.Go Glider.Lib

/-! ### writer -/

/-- `writer`. The log is a history variable: nonce and plaintext of every call of `Seal`. -/
structure Writer where
  sink : Sink
  nonce : List UInt8
  log : List (List UInt8 × List UInt8)

section Writer

variable (aead : AEAD)

def newWriter (sink : Sink) : Writer := ⟨sink, List.replicate aead.nonceSize 0, []⟩

/-- `Seal` under the current nonce, which is then incremented. -/
def Writer.sealNext (w : Writer) (p : List UInt8) : Writer × List UInt8 :=
  ({ w with nonce := increment w.nonce, log := w.log ++ [(w.nonce, p)] }, aead.Seal w.nonce p)

/-- One turn of the loop of `Write`. -/
def Writer.writeChunk (w : Writer) (p : List UInt8) : Writer × Option IoErr :=
  let (w, size) := w.sealNext aead (bigEndianBytes lenSize p.length)
  let (w, payload) := w.sealNext aead p
  let (sink, _, err) := w.sink.write (size ++ payload)
  ({ w with sink := sink }, err)

/-- `Write`: the number of bytes, and the error. -/
def Writer.Write (w : Writer) (p : List UInt8) : Writer × Nat × Option IoErr :=
  writeChunks maxPayload (Writer.writeChunk aead) w 0 p

end Writer

/-! ### The stream it writes -/

/-- The two blocks of a chunk, with their nonces. -/
def blockCode : BlockCode (List UInt8) UInt8 (List UInt8 × List UInt8) where
  encode nonce c := [(nonce, bigEndianBytes lenSize c.length), (increment nonce, c)]
  next nonce := increment (increment nonce)

/-- Blocks as they are sent. -/
def wire (aead : AEAD) (blocks : List (List UInt8 × List UInt8)) : List UInt8 :=
  blocks.flatMap fun b => aead.Seal b.1 b.2

/-- A writer on a connection that works, after the blocks of its log. -/
def Writer.sent (aead : AEAD) (before : List UInt8) (nonce : List UInt8)
    (blocks : List (List UInt8 × List UInt8)) : Writer :=
  ⟨⟨before ++ wire aead blocks, []⟩, nonce, blocks⟩

variable {aead : AEAD} {before nonce : List UInt8} {blocks : List (List UInt8 × List UInt8)}

@[simp] theorem wire_nil : wire aead [] = [] := rfl

theorem wire_append (bs bs' : List (List UInt8 × List UInt8)) :
    wire aead (bs ++ bs') = wire aead bs ++ wire aead bs' := List.flatMap_append

theorem writeChunk_sent (p : List UInt8) :
    (Writer.sent aead before nonce blocks).writeChunk aead p =
      (.sent aead before (blockCode.next nonce) (blocks ++ blockCode.encode nonce p), none) := by
  have hwire : wire aead (blockCode.encode nonce p) =
      aead.Seal nonce (bigEndianBytes lenSize p.length) ++ aead.Seal (increment nonce) p := by
    simp [wire, blockCode]
  unfold Writer.writeChunk Writer.sealNext Writer.sent
  dsimp only
  rw [Sink.write_of_works rfl, wire_append, hwire, List.append_assoc before,
    List.append_assoc blocks]
  rfl

/-- **One call.** On a connection that works, `Write` sends the chunks of its argument, two
blocks each, and returns its length. -/
theorem Write_sent (p : List UInt8) :
    (Writer.sent aead before nonce blocks).Write aead p =
      (.sent aead before (blockCode.after nonce (chunks maxPayload p))
        (blocks ++ blockCode.encodeAll nonce (chunks maxPayload p)), p.length, none) := by
  rw [Writer.Write, blockCode.writeChunks_eq (fun _ _ c => writeChunk_sent c) (by decide),
    Nat.zero_add]

/-- All calls. -/
theorem writes_sent (ps : List (List UInt8)) :
    callAll (Writer.Write aead) (.sent aead before nonce blocks) ps =
      (.sent aead before (blockCode.after nonce (ps.flatMap (chunks maxPayload)))
        (blocks ++ blockCode.encodeAll nonce (ps.flatMap (chunks maxPayload))),
        ps.map fun p => (p.length, none)) :=
  blockCode.callAll_write (fun _ _ p => Write_sent p) nonce blocks ps

/-! ### Reading it back -/

/-- A sealed block is opened where it was sealed. -/
theorem openNext_seal (aead : AEAD) (nonce p rest : List UInt8) (fail : IoErr) :
    Cursor.openNext aead ⟨⟨aead.Seal nonce p ++ rest, fail⟩, nonce⟩ (p.length + aead.overhead) =
      (⟨⟨rest, fail⟩, increment nonce⟩, .ok (p ++ (aead.Seal nonce p).drop p.length)) := by
  unfold Cursor.openNext
  rw [readFull_append (aead.length_seal nonce p)]
  dsimp only
  rw [aead.open_seal]

theorem readPayload_seal (aead : AEAD) (nonce p rest : List UInt8) (fail : IoErr) :
    Cursor.readPayload aead ⟨⟨aead.Seal nonce p ++ rest, fail⟩, nonce⟩ p.length =
      (⟨⟨rest, fail⟩, increment nonce⟩, .ok p) := by
  rw [Cursor.readPayload, openNext_seal]
  dsimp only
  rw [List.take_left]

/-- The end of a stream. -/
theorem readSize_nil (aead : AEAD) (nonce : List UInt8) (fail : IoErr) :
    Cursor.readSize aead ⟨⟨[], fail⟩, nonce⟩ = (⟨⟨[], fail⟩, nonce⟩, .error fail) := by
  have hpos : 0 < lenSize + aead.overhead := Nat.add_pos_left (by decide) _
  unfold Cursor.readSize Cursor.openNext
  rw [readFull_nil hpos]

/-- **The chunks come back.** -/
theorem decode_wire (aead : AEAD) {cs : List (List UInt8)} (hcs : ∀ c ∈ cs, c.length ≤ maxPayload)
    (nonce : List UInt8) (fail : IoErr) :
    decode aead ⟨⟨wire aead (blockCode.encodeAll nonce cs), fail⟩, nonce⟩ =
      ⟨cs.map List.length, cs.flatten, fail⟩ := by
  induction cs generalizing nonce with
  | nil => exact decode_of_size_error (readSize_nil aead nonce fail)
  | cons c cs ih =>
    have hc : c.length < 65536 :=
      Nat.lt_of_le_of_lt (hcs c List.mem_cons_self) (by decide)
    have hstream : wire aead (blockCode.encodeAll nonce (c :: cs)) =
        aead.Seal nonce (bigEndianBytes lenSize c.length) ++ (aead.Seal (increment nonce) c ++
          wire aead (blockCode.encodeAll (blockCode.next nonce) cs)) := rfl
    have hrest := ih (fun c' hc' => hcs c' (List.mem_cons_of_mem c hc')) (blockCode.next nonce)
    rw [hstream, decode_of_chunk (readSize_seal aead hc _ _ _) (readPayload_seal aead _ _ _ _)]
    rw [show increment (increment nonce) = blockCode.next nonce from rfl, hrest]
    rfl

end Glider.Ss
