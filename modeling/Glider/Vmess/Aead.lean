/-
The body of a VMess stream under an AEAD (`proxy/vmess/aead.go`).

A chunk is its masked size and one sealed block. The nonce is a 16-bit counter, which goes back
to zero after 65536 chunks, before a part of the initialisation vector; neither it nor the mask
is sent, so both sides have to count alike. A chunk that does not fit the caller's buffer is
kept, and the next calls copy from it.

* `Write_sent` — what `Write` sends.
* `read_sealed`, `read_chunk` — a chunk is read back with the same counter and mask.
* `Read_cases` — `Read` goes on as `read` does, whichever buffer that gets.
* `aead_delivered` — the reader delivers exactly the bytes written.
* `body_roundTrip` — both kinds of body.
-/

import Glider.Vmess.Chunk

namespace Glider.Vmess

open Glider.Go Glider.Lib

/-- `cipher.AEAD`, with a key. The nonce has room for the counter and is not longer than the
initialisation vector, and the overhead leaves room for data in a chunk. -/
structure AEAD where
  nonceSize : Nat
  overhead : Nat
  Seal : List UInt8 → List UInt8 → List UInt8
  Open : List UInt8 → List UInt8 → Option (List UInt8)
  /-- The error of a failed `Open`. -/
  authErr : IoErr
  open_seal : ∀ nonce p, Open nonce (Seal nonce p) = some p
  length_seal : ∀ nonce p, (Seal nonce p).length = p.length + overhead
  two_le_nonceSize : 2 ≤ nonceSize
  nonceSize_le : nonceSize ≤ 16
  overhead_lt : overhead < chunkSize

/-- `iv` of a session. -/
structure Iv where
  bytes : List UInt8
  length_bytes : bytes.length = 16

/-- `nonce[:NonceSize()]` with the counter in its first two bytes. -/
def nonceAt (aead : AEAD) (iv : Iv) (count : UInt16) : List UInt8 :=
  bigEndianBytes 2 count.toNat ++ (iv.bytes.take aead.nonceSize).drop 2

/-! ### aeadWriter -/

/-- The state both sides keep: the position in the masks, and the counter. -/
structure Counters where
  parser : ShakeSizeParser
  count : UInt16

structure AeadWriter extends Counters where
  sink : Sink

section AeadWriter

variable (aead : AEAD) (iv : Iv)

/-- One turn of the loop of `Write`. -/
def AeadWriter.writeChunk (w : AeadWriter) (p : List UInt8) : AeadWriter × Option IoErr :=
  let writeLen := p.length + aead.overhead
  let (lenBuf, parser) := w.parser.Encode writeLen.toUInt16
  let buf := aead.Seal (nonceAt aead iv w.count) p
  let (sink, _, err) := w.sink.write (lenBuf ++ buf)
  ({ parser := parser, count := w.count + 1, sink := sink }, err)

/-- `Write`: a chunk has at most `chunkSize` bytes with the overhead. -/
def AeadWriter.Write (w : AeadWriter) (p : List UInt8) : AeadWriter × Nat × Option IoErr :=
  writeChunks (chunkSize - aead.overhead) (AeadWriter.writeChunk aead iv) w 0 p

/-- A sealed chunk after its size. -/
def aeadCode : BlockCode Counters UInt8 UInt8 where
  encode s c :=
    (s.parser.Encode (c.length + aead.overhead).toUInt16).1 ++ aead.Seal (nonceAt aead iv s.count) c
  next s := ⟨s.parser.advance, s.count + 1⟩

end AeadWriter

variable {aead : AEAD} {iv : Iv}

/-- A writer on a connection that works, after `data`. -/
def AeadWriter.sent (s : Counters) (data : List UInt8) : AeadWriter := ⟨s, ⟨data, []⟩⟩

theorem aead_writeChunk_sent (s : Counters) (data c : List UInt8) :
    (AeadWriter.sent s data).writeChunk aead iv c =
      (.sent ((aeadCode aead iv).next s) (data ++ (aeadCode aead iv).encode s c), none) := by
  unfold AeadWriter.writeChunk AeadWriter.sent
  dsimp only
  rw [Sink.write_of_works rfl]
  rfl

theorem aead_Write_sent (s : Counters) (data p : List UInt8) :
    (AeadWriter.sent s data).Write aead iv p =
      (.sent ((aeadCode aead iv).after s (chunks (chunkSize - aead.overhead) p))
        (data ++ (aeadCode aead iv).encodeAll s (chunks (chunkSize - aead.overhead) p)),
        p.length, none) := by
  have hpos : 0 < chunkSize - aead.overhead := Nat.sub_pos_of_lt aead.overhead_lt
  rw [AeadWriter.Write, (aeadCode aead iv).writeChunks_eq aead_writeChunk_sent hpos, Nat.zero_add]

theorem aead_writes_sent (s : Counters) (data : List UInt8) (ps : List (List UInt8)) :
    callAll (AeadWriter.Write aead iv) (.sent s data) ps =
      (.sent ((aeadCode aead iv).after s (ps.flatMap (chunks (chunkSize - aead.overhead))))
        (data ++ (aeadCode aead iv).encodeAll s (ps.flatMap (chunks (chunkSize - aead.overhead)))),
        ps.map fun p => (p.length, none)) :=
  (aeadCode aead iv).callAll_write aead_Write_sent s data ps

/-! ### aeadReader -/

/-- `aeadReader`; `buf` is `r.buf[r.offset:]`, and empty when `r.buf` is `nil`. -/
structure AeadReader extends Counters where
  src : Source
  buf : List UInt8

section AeadReader

variable (aead : AEAD) (iv : Iv)

/-- `read` into a buffer of `len` bytes: the payload of the next chunk. -/
def AeadReader.read (r : AeadReader) (len : Nat) : AeadReader × Except IoErr (List UInt8) :=
  match readFull ShakeSizeParser.sizeBytes r.src with
  | (_, some err, src) => ({ r with src := src }, .error err)
  | (b, none, src) =>
    let (size, parser) := r.parser.Decode b
    if size.toNat ≤ aead.overhead ∨ len < size.toNat then
      ({ r with parser := parser, src := src }, .error .eof)
    else
      match readFull size.toNat src with
      | (_, some err, src) => ({ r with parser := parser, src := src }, .error err)
      | (p, none, src) =>
        let opened := aead.Open (nonceAt aead iv r.count) p
        ({ r with parser := parser, count := r.count + 1, src := src },
          match opened with
          | none => .error aead.authErr
          | some text => .ok text)

/-- The end of `Read`: copy from `buf`. -/
def AeadReader.copy (r : AeadReader) (len : Nat) : AeadReader × List UInt8 × Option IoErr :=
  ({ r with buf := r.buf.drop len }, r.buf.take len, none)

/-- `Read` with a buffer of `len` bytes. -/
def AeadReader.Read (r : AeadReader) (len : Nat) : AeadReader × List UInt8 × Option IoErr :=
  if r.buf = [] then
    if chunkSize ≤ len then
      match r.read aead iv len with
      | (r, .error err) => (r, [], some err)
      | (r, .ok text) => (r, text, none)
    else
      match r.read aead iv chunkSize with
      | (r, .error err) => (r, [], some err)
      | (r, .ok text) => { r with buf := text : AeadReader }.copy len
  else r.copy len

end AeadReader

/-! ### Round trip -/

variable {r : AeadReader} {fail : IoErr}

/-- A sealed chunk is read back, in any buffer that takes it. -/
theorem read_sealed {c rest : List UInt8} {len : Nat} (hpos : 1 ≤ c.length)
    (hlt : c.length + aead.overhead < 2 ^ 16) (hlen : c.length + aead.overhead ≤ len)
    (hsrc : r.src = ⟨(aeadCode aead iv).encode r.toCounters c ++ rest, fail⟩) :
    r.read aead iv len =
      (⟨(aeadCode aead iv).next r.toCounters, ⟨rest, fail⟩, r.buf⟩, .ok c) := by
  have hsize : (c.length + aead.overhead).toUInt16.toNat = c.length + aead.overhead :=
    Nat.mod_eq_of_lt hlt
  rw [aeadCode, List.append_assoc] at hsrc
  unfold AeadReader.read
  rw [hsrc, readFull_append (r.parser.length_encode _)]
  dsimp only
  rw [r.parser.decode_encode]
  dsimp only
  rw [hsize, if_neg (by omega), readFull_append (aead.length_seal _ c)]
  dsimp only
  rw [aead.open_seal]
  rfl

/-- A chunk that `Write` sends is read back, in any buffer that takes the largest one. -/
theorem read_chunk {c rest : List UInt8} {len : Nat} (hpos : 1 ≤ c.length)
    (hle : c.length ≤ chunkSize - aead.overhead) (hlen : chunkSize ≤ len)
    (hsrc : r.src = ⟨(aeadCode aead iv).encode r.toCounters c ++ rest, fail⟩) :
    r.read aead iv len =
      (⟨(aeadCode aead iv).next r.toCounters, ⟨rest, fail⟩, r.buf⟩, .ok c) := by
  have hoverhead := aead.overhead_lt
  have hword : chunkSize < 2 ^ 16 := by decide
  exact read_sealed hpos (by omega) (by omega) hsrc

theorem read_end (hsrc : r.src = ⟨[], fail⟩) (len : Nat) :
    r.read aead iv len = (r, .error fail) := by
  unfold AeadReader.read
  rw [hsrc, readFull_nil (by decide)]
  dsimp only
  rw [← hsrc]

/-- What a reader still has to deliver: what it has kept of a chunk, and the chunks after it. -/
def AeadRemains (aead : AEAD) (iv : Iv) (fail : IoErr) (r : AeadReader) (text : List UInt8) :
    Prop :=
  ∃ cs : List (List UInt8), r.src = ⟨(aeadCode aead iv).encodeAll r.toCounters cs, fail⟩ ∧
    (∀ c ∈ cs, 1 ≤ c.length ∧ c.length ≤ chunkSize - aead.overhead) ∧ text = r.buf ++ cs.flatten

/-- The calls of `Read`, with buffers that are not empty. -/
def aeadFeed (aead : AEAD) (iv : Iv) : Feed AeadReader ℕ+ UInt8 IoErr where
  read r len := r.Read aead iv len

def AeadReader.work (r : AeadReader) : Nat := r.src.data.length + r.buf.length

/-- What `read` does where `Rest` says what is left, in any buffer that takes the largest chunk:
it ends with `err` when nothing is left, or yields the next chunk. -/
def ReadsOn (aead : AEAD) (iv : Iv) (Rest : Counters → Source → List UInt8 → Prop) (err : IoErr) :
    Prop :=
  ∀ (r : AeadReader) len rest, chunkSize ≤ len → Rest r.toCounters r.src rest →
    (∃ r', r.read aead iv len = (r', .error err) ∧ rest = []) ∨
      ∃ s src data rest', r.read aead iv len = (⟨s, src, r.buf⟩, .ok data) ∧
        rest = data ++ rest' ∧ Rest s src rest' ∧ src.data.length + data.length < r.src.data.length

/-- `Read` follows `read`, whichever buffer that gets. -/
theorem Read_cases {Rest : Counters → Source → List UInt8 → Prop} {err : IoErr} {rest : List UInt8}
    (follows : ReadsOn aead iv Rest err) (len : ℕ+) (hrest : Rest r.toCounters r.src rest) :
    (∃ r' data rest', r.Read aead iv len = (r', data, none) ∧
        r.buf ++ rest = data ++ (r'.buf ++ rest') ∧ Rest r'.toCounters r'.src rest' ∧
        r'.work < r.work) ∨
      ∃ r', r.Read aead iv len = (r', r.buf ++ rest, some err) := by
  have hlen := len.pos
  unfold AeadReader.Read AeadReader.work
  by_cases hbuf : r.buf = []
  · rw [if_pos hbuf, hbuf, List.length_nil]
    by_cases hdirect : chunkSize ≤ (len : Nat)
    · -- the caller's buffer
      rw [if_pos hdirect]
      obtain ⟨r', hread, rfl⟩ | ⟨s, src, data, rest', hread, rfl, hrest', hless⟩ :=
        follows r len rest hdirect hrest
      · rw [hread]
        exact .inr ⟨r', rfl⟩
      · rw [hread, hbuf]
        refine .inl ⟨⟨s, src, []⟩, data, rest', rfl, rfl, hrest', ?_⟩
        dsimp only [List.length_nil]
        omega
    · -- the internal one
      rw [if_neg hdirect]
      obtain ⟨r', hread, rfl⟩ | ⟨s, src, data, rest', hread, rfl, hrest', hless⟩ :=
        follows r chunkSize rest (Nat.le_refl _) hrest
      · rw [hread]
        exact .inr ⟨r', rfl⟩
      · rw [hread]
        refine .inl ⟨⟨s, src, data.drop len⟩, data.take len, rest', rfl, ?_, hrest', ?_⟩
        · show data ++ rest' = data.take len ++ (data.drop len ++ rest')
          rw [← List.append_assoc, List.take_append_drop]
        · dsimp only
          rw [List.length_drop]
          omega
  · -- what was kept
    have hpos := List.length_pos_iff.mpr hbuf
    rw [if_neg hbuf]
    refine .inl ⟨{ r with buf := r.buf.drop len }, r.buf.take len, rest, rfl, ?_, hrest, ?_⟩
    · rw [← List.append_assoc, List.take_append_drop]
    · dsimp only
      rw [List.length_drop]
      omega

theorem length_encode_chunk (s : Counters) (c : List UInt8) :
    c.length < ((aeadCode aead iv).encode s c).length := by
  show c.length < ((s.parser.Encode _).1 ++ aead.Seal _ c).length
  rw [List.length_append, s.parser.length_encode, aead.length_seal, ShakeSizeParser.sizeBytes]
  omega

/-- A stream of chunks is read chunk by chunk. -/
theorem readsOn_chunks (aead : AEAD) (iv : Iv) (fail : IoErr) :
    ReadsOn aead iv
      (fun s src rest => ∃ cs : List (List UInt8), src = ⟨(aeadCode aead iv).encodeAll s cs, fail⟩ ∧
        (∀ c ∈ cs, 1 ≤ c.length ∧ c.length ≤ chunkSize - aead.overhead) ∧ rest = cs.flatten)
      fail := by
  rintro r len rest hlen ⟨cs, hsrc, hcs, rfl⟩
  cases cs with
  | nil => exact .inl ⟨r, read_end hsrc len, rfl⟩
  | cons c cs =>
    obtain ⟨hpos, hle⟩ := hcs c List.mem_cons_self
    have hless : c.length < ((aeadCode aead iv).encode r.toCounters c).length :=
      length_encode_chunk r.toCounters c
    refine .inr ⟨_, _, c, cs.flatten, read_chunk hpos hle hlen hsrc, rfl,
      ⟨cs, rfl, fun d hd => hcs d (List.mem_cons_of_mem c hd), rfl⟩, ?_⟩
    rw [hsrc, BlockCode.encodeAll_cons, List.length_append]
    dsimp only
    omega

theorem aeadFeed_steps (fail : IoErr) :
    (aeadFeed aead iv).StepsOn (AeadRemains aead iv fail) AeadReader.work fail := by
  rintro r text len ⟨cs, hsrc, hcs, rfl⟩
  obtain ⟨r', data, rest, hread, hsplit, ⟨cs', hsrc', hcs', rfl⟩, hless⟩ | ⟨r', hread⟩ :=
    Read_cases (readsOn_chunks aead iv fail) len ⟨cs, hsrc, hcs, rfl⟩
  · exact .inl ⟨r', data, _, hread, hsplit, ⟨cs', hsrc', hcs', rfl⟩, hless⟩
  · exact .inr ⟨r', hread⟩

/-- Round trip under an AEAD. -/
theorem aead_delivered (aead : AEAD) (iv : Iv) (masks : Nat → UInt16) (ps : List (List UInt8))
    (fail : IoErr) :
    (aeadFeed aead iv).Delivers
      ⟨⟨⟨masks, 0⟩, 0⟩,
        ⟨(callAll (AeadWriter.Write aead iv) ⟨⟨⟨masks, 0⟩, 0⟩, {}⟩ ps).1.sink.data, fail⟩, []⟩
      ps.flatten fail := by
  have hpos : 0 < chunkSize - aead.overhead := Nat.sub_pos_of_lt aead.overhead_lt
  refine Feed.delivers_of_left (aeadFeed_steps fail)
    ⟨ps.flatMap (chunks (chunkSize - aead.overhead)), ?_, ?_, ?_⟩
  · rw [show (⟨⟨⟨masks, 0⟩, 0⟩, {}⟩ : AeadWriter) = .sent ⟨⟨masks, 0⟩, 0⟩ [] from rfl,
      aead_writes_sent]
    rfl
  · intro c hc
    obtain ⟨p, -, hp⟩ := List.mem_flatMap.mp hc
    exact length_of_mem_chunks hp
  · rw [flatten_flatMap_chunks hpos]
    rfl

/-- **Round trip of the body.** With the same masks, key and initialisation vector on both sides:
whatever is written, in calls of any length, is what is read, in buffers of any size and however
the transport cuts the stream, for any number of chunks. -/
theorem body_roundTrip (masks : Nat → UInt16) (ps : List (List UInt8)) :
    (∀ t : Transport, t.Clean →
        t.bytes = (callAll ChunkedWriter.Write ⟨{}, masks, 0⟩ ps).1.sink.data →
        chunkedFeed.Delivers ⟨t, ⟨masks, 0⟩, 0⟩ ps.flatten t.fail) ∧
      ∀ (aead : AEAD) (iv : Iv) (fail : IoErr),
        (aeadFeed aead iv).Delivers
          ⟨⟨⟨masks, 0⟩, 0⟩,
            ⟨(callAll (AeadWriter.Write aead iv) ⟨⟨⟨masks, 0⟩, 0⟩, {}⟩ ps).1.sink.data, fail⟩, []⟩
          ps.flatten fail :=
  ⟨fun _ clean hbytes => chunked_delivered masks ps clean hbytes,
    fun aead iv fail => aead_delivered aead iv masks ps fail⟩

/-- Two writes under two masks, on a transport that cuts the stream within a payload and within a
size. -/
theorem body_roundTrip_three_cuts :
    chunkedFeed.Delivers
      ⟨⟨[⟨[1, 1, 7], none⟩, ⟨[8], none⟩, ⟨[9, 1], none⟩, ⟨[2, 10], none⟩], .eof⟩,
        ⟨fun i => UInt16.ofNat (258 + i), 0⟩, 0⟩
      [7, 8, 9, 10] .eof := by
  refine (body_roundTrip (fun i => UInt16.ofNat (258 + i)) [[7, 8, 9], [10]]).1
    ⟨[⟨[1, 1, 7], none⟩, ⟨[8], none⟩, ⟨[9, 1], none⟩, ⟨[2, 10], none⟩], .eof⟩ (by decide) ?_
  rw [show (⟨{}, fun i => UInt16.ofNat (258 + i), 0⟩ : ChunkedWriter) =
      .sent ⟨fun i => UInt16.ofNat (258 + i), 0⟩ [] from rfl, writes_sent, List.flatMap_cons,
    List.flatMap_singleton, chunks_of_length_le (by decide) (by decide),
    chunks_of_length_le (by decide) (by decide)]
  decide

end Glider.Vmess
