/-
The body of a VMess stream without encryption (`proxy/vmess/chunk.go`, `size.go`): chunks of at
most `chunkSize` bytes, each after its masked size.

Both sides draw the masks from a hash of the same nonce (`ShakeSizeParser`), one for each chunk,
so that the stream of masks is the same sequence on both, and the position in it has to stay
the same. The reader passes the reads of a payload on to the transport, which may answer with
less.

* `decode_encode` — the size is read back at the same position.
* `Write_sent` — what `Write` sends.
* `chunked_delivered` — the reader delivers exactly the bytes written, however the transport cuts
  them.
-/

import Glider.Go.Binary
import Glider.Go.Transport
import Glider.Lib.Chunks
import Glider.Lib.Delivery
import Mathlib.Data.PNat.Defs

namespace Glider.Vmess

open Glider.Go Glider.Lib

def chunkSize : Nat := 16 <<< 10

/-! ### ShakeSizeParser -/

/-- `ShakeSizeParser`: the output of the hash in 16-bit words, and how many have been used. -/
structure ShakeSizeParser where
  masks : Nat → UInt16
  pos : Nat

namespace ShakeSizeParser

variable (s : ShakeSizeParser)

/-- `SizeBytes`. -/
def sizeBytes : Nat := 2

/-- The parser after a call of `next`. -/
def advance : ShakeSizeParser := { s with pos := s.pos + 1 }

/-- `Encode`. -/
def Encode (size : UInt16) : List UInt8 × ShakeSizeParser :=
  (bigEndianBytes sizeBytes (s.masks s.pos ^^^ size).toNat, s.advance)

/-- `Decode`. -/
def Decode (b : List UInt8) : UInt16 × ShakeSizeParser :=
  (s.masks s.pos ^^^ (bigEndian b).toUInt16, s.advance)

theorem length_encode (size : UInt16) : (s.Encode size).1.length = sizeBytes :=
  length_bigEndianBytes _ _

theorem decode_encode (size : UInt16) : s.Decode (s.Encode size).1 = (size, s.advance) := by
  have hword : (bigEndian (bigEndianBytes sizeBytes (s.masks s.pos ^^^ size).toNat)).toUInt16 =
      s.masks s.pos ^^^ size := by
    have hlt : (s.masks s.pos ^^^ size).toNat < 256 ^ sizeBytes := UInt16.toNat_lt _
    rw [bigEndian_bigEndianBytes, Nat.mod_eq_of_lt hlt]
    exact UInt16.ofNat_toNat
  unfold Decode Encode
  rw [hword, ← UInt16.xor_assoc, UInt16.xor_self, UInt16.zero_xor]

end ShakeSizeParser

/-! ### chunkedWriter -/

structure ChunkedWriter where
  sink : Sink
  parser : ShakeSizeParser

/-- One turn of the loop of `Write`. -/
def ChunkedWriter.writeChunk (w : ChunkedWriter) (p : List UInt8) : ChunkedWriter × Option IoErr :=
  let (lenBuf, parser) := w.parser.Encode p.length.toUInt16
  let (sink, _, err) := w.sink.write (lenBuf ++ p)
  (⟨sink, parser⟩, err)

/-- `Write`: the number of bytes, and the error. -/
def ChunkedWriter.Write (w : ChunkedWriter) (p : List UInt8) : ChunkedWriter × Nat × Option IoErr :=
  writeChunks chunkSize ChunkedWriter.writeChunk w 0 p

/-- A chunk after its size. -/
def chunkCode : BlockCode ShakeSizeParser UInt8 UInt8 where
  encode s c := (s.Encode c.length.toUInt16).1 ++ c
  next s := s.advance

/-- A writer on a connection that works, after `data`. -/
def ChunkedWriter.sent (s : ShakeSizeParser) (data : List UInt8) : ChunkedWriter := ⟨⟨data, []⟩, s⟩

theorem writeChunk_sent (s : ShakeSizeParser) (data c : List UInt8) :
    (ChunkedWriter.sent s data).writeChunk c =
      (.sent (chunkCode.next s) (data ++ chunkCode.encode s c), none) := by
  unfold ChunkedWriter.writeChunk ChunkedWriter.sent
  dsimp only
  rw [Sink.write_of_works rfl]
  rfl

theorem Write_sent (s : ShakeSizeParser) (data p : List UInt8) :
    (ChunkedWriter.sent s data).Write p =
      (.sent (chunkCode.after s (chunks chunkSize p))
        (data ++ chunkCode.encodeAll s (chunks chunkSize p)), p.length, none) := by
  rw [ChunkedWriter.Write, chunkCode.writeChunks_eq writeChunk_sent (by decide), Nat.zero_add]

theorem writes_sent (s : ShakeSizeParser) (data : List UInt8) (ps : List (List UInt8)) :
    callAll ChunkedWriter.Write (.sent s data) ps =
      (.sent (chunkCode.after s (ps.flatMap (chunks chunkSize)))
        (data ++ chunkCode.encodeAll s (ps.flatMap (chunks chunkSize))),
        ps.map fun p => (p.length, none)) :=
  chunkCode.callAll_write Write_sent s data ps

/-! ### chunkedReader -/

structure ChunkedReader where
  src : Transport
  parser : ShakeSizeParser
  left : Nat

namespace ChunkedReader

/-- The second half of `Read`: one read of the transport. -/
def readData (r : ChunkedReader) (len : Nat) : ChunkedReader × List UInt8 × Option IoErr :=
  match r.src.read (min len r.left) with
  | (_, some err, src) => ({ r with src := src }, [], some err)
  | (data, none, src) => ({ r with src := src, left := r.left - data.length }, data, none)

/-- `Read` with a buffer of `len` bytes. -/
def Read (r : ChunkedReader) (len : Nat) : ChunkedReader × List UInt8 × Option IoErr :=
  if r.left = 0 then
    match r.src.readFull ShakeSizeParser.sizeBytes with
    | (_, some err, src) => ({ r with src := src }, [], some err)
    | (b, none, src) =>
      let (n, parser) := r.parser.Decode b
      let r := { r with src := src, parser := parser, left := n.toNat }
      -- a size of zero ends the stream
      if r.left = 0 then (r, [], none) else r.readData len
  else r.readData len

end ChunkedReader

/-! ### Round trip -/

/-- What a reader still has to deliver: the rest of a chunk, and the chunks after it. -/
def Remains (fail : IoErr) (r : ChunkedReader) (text : List UInt8) : Prop :=
  ∃ (b : List UInt8) (cs : List (List UInt8)), r.src.Clean ∧ r.src.fail = fail ∧
    r.src.bytes = b ++ chunkCode.encodeAll r.parser cs ∧ r.left = b.length ∧
    (∀ c ∈ cs, 1 ≤ c.length ∧ c.length ≤ chunkSize) ∧ text = b ++ cs.flatten

/-- The calls of `Read`, with buffers that are not empty. -/
def chunkedFeed : Feed ChunkedReader ℕ+ UInt8 IoErr where
  read r len := r.Read len

/-- One read of the transport delivers a part of the chunk. -/
theorem readData_steps {fail : IoErr} {r : ChunkedReader} {b : List UInt8} {cs : List (List UInt8)}
    (len : ℕ+) (clean : r.src.Clean) (hfail : r.src.fail = fail)
    (hbytes : r.src.bytes = b ++ chunkCode.encodeAll r.parser cs) (hleft : r.left = b.length)
    (hcs : ∀ c ∈ cs, 1 ≤ c.length ∧ c.length ≤ chunkSize) (hb : b ≠ []) :
    ∃ r' data text', r.readData len = (r', data, none) ∧ b ++ cs.flatten = data ++ text' ∧
      Remains fail r' text' ∧ r'.src.size < r.src.size := by
  have hpos := List.length_pos_iff.mpr hb
  have hlen := len.pos
  obtain ⟨data, src, hread, clean'⟩ := Transport.read_of_clean clean
    (by rw [hbytes]; exact List.append_ne_nil_of_left_ne_nil hb _) (min len r.left)
  obtain ⟨hsplit, hle, hfail'⟩ := Transport.read_bytes hread
  -- what is read does not go beyond the chunk
  obtain ⟨b', rfl⟩ : ∃ b', b = data ++ b' := by
    have hdata : data <+: r.src.bytes := ⟨src.bytes, hsplit.symm⟩
    have hchunk : b <+: r.src.bytes := ⟨_, hbytes.symm⟩
    exact (List.prefix_of_prefix_length_le hdata hchunk (by omega)).imp fun _ h => h.symm
  refine ⟨{ r with src := src, left := r.left - data.length }, data, b' ++ cs.flatten, ?_,
    List.append_assoc .., ⟨b', cs, clean', hfail'.trans hfail, ?_, ?_, hcs, rfl⟩,
    Transport.read_size_lt (by omega) hread⟩
  · unfold ChunkedReader.readData
    rw [hread]
  · rw [hbytes, List.append_assoc] at hsplit
    exact (List.append_cancel_left hsplit).symm
  · dsimp only
    rw [hleft, List.length_append]
    omega

theorem chunkedFeed_steps (fail : IoErr) :
    chunkedFeed.StepsOn (Remains fail) (fun r => r.src.size) fail := by
  rintro r text len ⟨b, cs, clean, hfail, hbytes, hleft, hcs, rfl⟩
  by_cases hzero : r.left = 0
  · -- at the end of a chunk
    have hb : b = [] := List.length_eq_zero_iff.mp (hleft.symm.trans hzero)
    subst hb
    rw [List.nil_append] at hbytes
    obtain ⟨got, err, src, hread, clean', hfail', hsource⟩ :=
      Transport.readFull_of_clean clean ShakeSizeParser.sizeBytes
    have hsize := Transport.readFull_size hread
    cases cs with
    | nil =>
      rw [hbytes, BlockCode.encodeAll_nil, readFull_nil (by decide)] at hsource
      obtain ⟨rfl, hrest⟩ := Prod.mk.inj hsource
      refine .inr ⟨{ r with src := src }, ?_⟩
      show r.Read len = _
      unfold ChunkedReader.Read
      rw [if_pos hzero, hread, ← (Prod.mk.inj hrest).1, hfail]
      rfl
    | cons c cs =>
      obtain ⟨hc, hc'⟩ := hcs c List.mem_cons_self
      have hcode : chunkCode.encodeAll r.parser (c :: cs) =
          (r.parser.Encode c.length.toUInt16).1 ++ (c ++ chunkCode.encodeAll r.parser.advance cs) :=
        List.append_assoc ..
      rw [hbytes, hcode, readFull_append (r.parser.length_encode _)] at hsource
      obtain ⟨rfl, hrest⟩ := Prod.mk.inj hsource
      obtain ⟨rfl, hrest⟩ := Prod.mk.inj hrest
      have hsrc := congrArg Source.data (Prod.mk.inj hrest).2
      have hsmall : c.length.toUInt16.toNat = c.length := by
        refine Nat.mod_eq_of_lt (Nat.lt_of_le_of_lt hc' (by decide))
      -- the size is that of the chunk, and it is not zero
      have hcall : r.Read len =
          ChunkedReader.readData ⟨src, r.parser.advance, c.length⟩ len := by
        unfold ChunkedReader.Read
        rw [if_pos hzero, hread]
        dsimp only
        rw [r.parser.decode_encode, hsmall, if_neg (by omega)]
      obtain ⟨r', data, text', hdata, htext, hremains, hless⟩ :=
        readData_steps (r := ⟨src, r.parser.advance, c.length⟩) len clean' (hfail'.trans hfail)
          hsrc.symm rfl (fun d hd => hcs d (List.mem_cons_of_mem c hd))
          (List.length_pos_iff.mp hc)
      refine .inl ⟨r', data, text', ?_, htext, hremains, ?_⟩
      · show r.Read len = _
        rw [hcall, hdata]
      · dsimp only at hless ⊢
        omega
  · -- within one
    have hb : b ≠ [] := fun h => hzero (by rw [hleft, h]; rfl)
    obtain ⟨r', data, text', hdata, htext, hremains, hless⟩ :=
      readData_steps len clean hfail hbytes hleft hcs hb
    refine .inl ⟨r', data, text', ?_, htext, hremains, hless⟩
    show r.Read len = _
    unfold ChunkedReader.Read
    rw [if_neg hzero, hdata]

/-- **Round trip without encryption.** However the transport cuts what was written. -/
theorem chunked_delivered (masks : Nat → UInt16) (ps : List (List UInt8)) {t : Transport}
    (clean : t.Clean)
    (hbytes : t.bytes = (callAll ChunkedWriter.Write ⟨{}, masks, 0⟩ ps).1.sink.data) :
    chunkedFeed.Delivers ⟨t, ⟨masks, 0⟩, 0⟩ ps.flatten t.fail := by
  refine Feed.delivers_of_left (chunkedFeed_steps t.fail)
    ⟨[], ps.flatMap (chunks chunkSize), clean, rfl, ?_, rfl, ?_, ?_⟩
  · rw [hbytes, show (⟨{}, masks, 0⟩ : ChunkedWriter) = .sent ⟨masks, 0⟩ [] from rfl, writes_sent]
    rfl
  · intro c hc
    obtain ⟨p, -, hp⟩ := List.mem_flatMap.mp hc
    exact length_of_mem_chunks hp
  · exact (flatten_flatMap_chunks (by decide) ps).symm

end Glider.Vmess
