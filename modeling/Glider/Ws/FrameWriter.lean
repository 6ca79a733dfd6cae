/-
The websocket frame writer (`proxy/ws/frame.go`), and what the frame reader makes of its output.

`Write` sends its argument as one frame. The length is written in one of three ways, by its
size; a client masks the payload, with a key that is the same for all frames, and a server does
not. A reader in the other mode takes the frame apart again, with its `maskOffset` carried from
one partial read of a payload to the next.

* `readHeader_frame` — the header is read back, for each of the three encodings.
* `readPayload_masked` — a part of the payload, and the mask at the place where it ends.
* `frames_delivered` — the reader delivers exactly the bytes written.
-/

import Glider.Go.Transport
import Glider.Lib.Chunks
import Glider.Lib.Delivery
import Glider.Ws.Frame
import Mathlib.Data.PNat.Defs

namespace Glider.Ws

open Glider.Go Glider.Lib

/-! ### frameWriter -/

/-- The argument of a `Write`: the length of a slice is an `int`. -/
structure Payload where
  bytes : List UInt8
  length_lt : bytes.length < 2 ^ 63

/-- `frameWriter`; the mask key is chosen at random. -/
structure FrameWriter where
  sink : Sink
  server : Bool
  maskKey : Fin 4 → UInt8

def maskBit (server : Bool) : UInt8 := if server then 0 else 0x80

/-- The first bytes of a frame, up to the mask key. -/
def header (server : Bool) (nPayload : Nat) : List UInt8 :=
  if nPayload ≤ 125 then [0x82, maskBit server ||| nPayload.toUInt8]
  else if nPayload < 65536 then 0x82 :: (maskBit server ||| 126) :: bigEndianBytes 2 nPayload
  else 0x82 :: (maskBit server ||| 127) :: bigEndianBytes 8 nPayload

/-- A payload under a mask, from the given position of the mask on. -/
def masked (maskKey : Fin 4 → UInt8) (offset : Nat) (b : List UInt8) : List UInt8 :=
  b.mapIdx fun i x => x ^^^ maskKey ⟨(i + offset) % 4, Nat.mod_lt _ (by decide)⟩

/-- `Write`: the number of payload bytes, and the error. -/
def FrameWriter.Write (w : FrameWriter) (b : Payload) : FrameWriter × Nat × Option IoErr :=
  let hdr := header w.server b.bytes.length
  if w.server then
    let (sink, n, err) := w.sink.write (hdr ++ b.bytes)
    ({ w with sink := sink }, n - hdr.length, err)
  else
    let (sink, n, err) :=
      w.sink.write (hdr ++ List.ofFn w.maskKey ++ masked w.maskKey 0 b.bytes)
    ({ w with sink := sink }, n - hdr.length - 4, err)

/-- A frame as it is sent. -/
def frame (server : Bool) (maskKey : Fin 4 → UInt8) (b : List UInt8) : List UInt8 :=
  header server b.length ++ if server then b else List.ofFn maskKey ++ masked maskKey 0 b

theorem writes_of_works (w : FrameWriter) (works : w.sink.answers = []) (bs : List Payload) :
    (callAll FrameWriter.Write w bs).1.sink.data =
      w.sink.data ++ bs.flatMap fun b => frame w.server w.maskKey b.bytes := by
  induction bs generalizing w with
  | nil => rw [callAll, List.flatMap_nil, List.append_nil]
  | cons b bs ih =>
    have hone : (w.Write b).1 =
        { w with sink := ⟨w.sink.data ++ frame w.server w.maskKey b.bytes, []⟩ } := by
      unfold FrameWriter.Write frame
      dsimp only
      rw [Sink.write_of_works works, Sink.write_of_works works]
      split <;> rename_i hserver <;> simp [hserver]
    rw [callAll]
    dsimp only
    rw [hone, ih _ rfl, List.flatMap_cons, List.append_assoc]

/-! ### The mask -/

section Mask

variable {maskKey : Fin 4 → UInt8} {offset : Nat}

@[simp] theorem length_masked (b : List UInt8) : (masked maskKey offset b).length = b.length := by
  rw [masked, List.length_mapIdx]

/-- A mask that is put on twice is taken off. -/
theorem masked_masked (b : List UInt8) : masked maskKey offset (masked maskKey offset b) = b := by
  apply List.ext_getElem
  · rw [length_masked, length_masked]
  · intro i hi hi'
    simp only [masked, List.getElem_mapIdx, UInt8.xor_assoc, UInt8.xor_self, UInt8.xor_zero]

theorem masked_take (b : List UInt8) (m : Nat) :
    (masked maskKey offset b).take m = masked maskKey offset (b.take m) := by
  apply List.ext_getElem
  · simp
  · intro i hi hi'
    simp [masked]

/-- What is left after `m` bytes has its mask `m` positions further. -/
theorem masked_drop (b : List UInt8) (m : Nat) :
    (masked maskKey offset b).drop m = masked maskKey ((m + offset) % 4) (b.drop m) := by
  apply List.ext_getElem
  · simp
  · intro i hi hi'
    have hpos : (m + i + offset) % 4 = (i + (m + offset) % 4) % 4 := by omega
    simp only [masked, List.getElem_drop, List.getElem_mapIdx, hpos]

theorem FrameReader.unmask_eq (r : FrameReader) (b : List UInt8) :
    r.unmask b = masked r.maskKey r.maskOffset b := rfl

end Mask

/-! ### The header -/

theorem int64_of_lt {n : Nat} (h : n < 2 ^ 63) : int64 n = n := by
  unfold int64
  rw [Int.bmod_def]
  split <;> omega

/-- The second byte of a header, with the mask bit taken off. -/
theorem header_length_byte (server : Bool) (n : Fin 128) :
    ((maskBit server ||| n.val.toUInt8) &&& 0x7f).toNat = n := by
  revert n
  cases server <;> decide

section Header

variable {r : FrameReader} {rest : List UInt8} {fail : IoErr}

variable {server : Bool} {n : Nat}

theorem readLength_short (h : n ≤ 125) (hsrc : r.src = ⟨header server n ++ rest, fail⟩) :
    r.readLength = ({ r with src := ⟨rest, fail⟩, left := n }, none) := by
  have hbyte : ([0x82, maskBit server ||| n.toUInt8].getD 1 0 &&& 0x7f).toNat = n :=
    header_length_byte server ⟨n, by omega⟩
  rw [header, if_pos h] at hsrc
  unfold FrameReader.readLength
  rw [hsrc, readFull_append (n := 2) rfl]
  dsimp only
  rw [hbyte, if_neg (by omega), if_neg (by omega)]

theorem readLength_medium (h : 125 < n) (h' : n < 65536)
    (hsrc : r.src = ⟨header server n ++ rest, fail⟩) :
    r.readLength = ({ r with src := ⟨rest, fail⟩, left := n }, none) := by
  have hbyte : ([0x82, maskBit server ||| 126].getD 1 0 &&& 0x7f).toNat = 126 :=
    header_length_byte server 126
  have hsplit : header server n ++ rest =
      [0x82, maskBit server ||| 126] ++ (bigEndianBytes 2 n ++ rest) := by
    rw [header, if_neg (by omega), if_pos h']
    rfl
  have hvalue : bigEndian (bigEndianBytes 2 n) = n := by
    rw [bigEndian_bigEndianBytes]
    exact Nat.mod_eq_of_lt h'
  unfold FrameReader.readLength
  rw [hsrc, hsplit, readFull_append (n := 2) rfl]
  dsimp only
  rw [hbyte, if_pos rfl, readFull_append (length_bigEndianBytes 2 n)]
  dsimp only
  rw [hvalue]

theorem readLength_long (h : 65536 ≤ n) (h' : n < 2 ^ 63)
    (hsrc : r.src = ⟨header server n ++ rest, fail⟩) :
    r.readLength = ({ r with src := ⟨rest, fail⟩, left := n }, none) := by
  have hbyte : ([0x82, maskBit server ||| 127].getD 1 0 &&& 0x7f).toNat = 127 :=
    header_length_byte server 127
  have hsplit : header server n ++ rest =
      [0x82, maskBit server ||| 127] ++ (bigEndianBytes 8 n ++ rest) := by
    rw [header, if_neg (by omega), if_neg (by omega)]
    rfl
  have hvalue : int64 (bigEndian (bigEndianBytes 8 n)) = n := by
    rw [bigEndian_bigEndianBytes, Nat.mod_eq_of_lt (Nat.lt_trans h' (by decide)), int64_of_lt h']
  unfold FrameReader.readLength
  rw [hsrc, hsplit, readFull_append (n := 2) rfl]
  dsimp only
  rw [hbyte, if_neg (by decide), if_pos rfl, readFull_append (length_bigEndianBytes 8 n)]
  dsimp only
  rw [hvalue]

/-- Each of the three encodings is read back. -/
theorem readLength_header (h : n < 2 ^ 63) (hsrc : r.src = ⟨header server n ++ rest, fail⟩) :
    r.readLength = ({ r with src := ⟨rest, fail⟩, left := n }, none) := by
  by_cases hshort : n ≤ 125
  · exact readLength_short hshort hsrc
  · by_cases hmedium : n < 65536
    · exact readLength_medium (Nat.not_le.mp hshort) hmedium hsrc
    · exact readLength_long (Nat.not_lt.mp hmedium) h hsrc

/-- The rest of a frame is its payload, under the reader's mask. -/
theorem readHeader_frame {b : Payload} {maskKey : Fin 4 → UInt8} (hmode : r.server = !server)
    (hsrc : r.src = ⟨frame server maskKey b.bytes ++ rest, fail⟩) :
    ∃ r', r.readHeader = (r', none) ∧ r'.server = r.server ∧ r'.left = b.bytes.length ∧
      r'.src = ⟨(if r'.server then r'.unmask b.bytes else b.bytes) ++ rest, fail⟩ := by
  rw [frame, List.append_assoc] at hsrc
  unfold FrameReader.readHeader
  rw [readLength_header b.length_lt hsrc]
  dsimp only
  unfold FrameReader.readMaskKey
  dsimp only
  cases server with
  | true =>
    rw [hmode]
    exact ⟨_, rfl, rfl, rfl, rfl⟩
  | false =>
    simp only [hmode, Bool.not_false, Bool.false_eq_true, if_true, if_false, List.append_assoc]
    rw [readFull_append (List.length_ofFn ..)]
    refine ⟨_, rfl, rfl, rfl, ?_⟩
    have hkey : (fun i : Fin 4 => (List.ofFn maskKey).getD i (r.maskKey i)) = maskKey := by
      funext i
      match i with
      | 0 | 1 | 2 | 3 => rfl
    dsimp only
    rw [if_pos rfl, FrameReader.unmask_eq]
    dsimp only
    rw [hkey]

end Header

/-! ### The payload -/

/-- The payload on the wire, as the reader is going to unmask it. -/
def FrameReader.onWire (r : FrameReader) (b : List UInt8) : List UInt8 :=
  if r.server then r.unmask b else b

theorem FrameReader.length_onWire (r : FrameReader) (b : List UInt8) :
    (r.onWire b).length = b.length := by
  unfold FrameReader.onWire
  split
  · rw [FrameReader.unmask_eq, length_masked]
  · rfl

/-- How much of a payload `Read` asks for. -/
theorem FrameReader.readLen_eq (r : FrameReader) {n : Nat} (len : Nat) (hleft : r.left = n) :
    (if r.left < len then r.left else (len : Int)) = (min len n : Nat) := by
  rw [hleft]
  split <;> omega

/-- A read of a payload delivers as much of it as the buffer takes, and leaves the rest. -/
theorem readPayload_masked {r : FrameReader} {b rest : List UInt8} {fail : IoErr} (len : Nat)
    (hleft : r.left = b.length) (hsrc : r.src = ⟨r.onWire b ++ rest, fail⟩) :
    ∃ r' res, r.readPayload len = (r', res) ∧ res.panicked = false ∧ res.err = none ∧
      res.data = b.take len ∧ r'.server = r.server ∧ r'.left = (b.drop len).length ∧
      r'.src = ⟨r'.onWire (b.drop len) ++ rest, fail⟩ := by
  have hmin := r.readLen_eq len hleft
  have hread : readFull (min len b.length) r.src =
      ((r.onWire b).take len, none, ⟨(r.onWire b).drop len ++ rest, fail⟩) := by
    rw [hsrc]
    conv => lhs; rw [← List.take_append_drop len (r.onWire b), List.append_assoc]
    refine readFull_append ?_ _ _
    rw [List.length_take, r.length_onWire]
  have hlen : ((r.onWire b).take len).length = min len b.length := by
    rw [List.length_take, r.length_onWire]
  unfold FrameReader.readPayload
  rw [hmin]
  dsimp only
  rw [if_neg (Int.not_lt.mpr (Int.natCast_nonneg _)), Int.toNat_natCast, hread]
  refine ⟨_, _, rfl, rfl, rfl, ?_, rfl, ?_, ?_⟩
  · unfold FrameReader.onWire
    split
    · rw [FrameReader.unmask_eq, FrameReader.unmask_eq, masked_take, masked_masked]
    · rfl
  · dsimp only
    rw [hleft, hlen, List.length_drop]
    omega
  · dsimp only
    rw [hlen]
    unfold FrameReader.onWire
    cases hserver : r.server with
    | false => rfl
    | true =>
      -- the part that is read ends at the end of the payload or of the buffer
      have hdrop : (r.unmask b).drop len = (r.unmask b).drop (min len b.length) := by
        have hlength : (r.unmask b).length = b.length := length_masked b
        rw [← hlength]
        exact List.drop_eq_drop_min
      have hdrop' : b.drop len = b.drop (min len b.length) := List.drop_eq_drop_min
      simp only [if_true, FrameReader.unmask_eq] at hdrop ⊢
      rw [hdrop, hdrop', masked_drop]

/-! ### All frames -/

/-- What a reader still has to deliver: the rest of a payload, and the payloads of the frames
after it. -/
def Remains (server : Bool) (maskKey : Fin 4 → UInt8) (fail : IoErr) (r : FrameReader)
    (text : List UInt8) : Prop :=
  ∃ (b : List UInt8) (bs : List Payload), r.server = !server ∧ r.left = b.length ∧
    r.src = ⟨r.onWire b ++ bs.flatMap fun p => frame server maskKey p.bytes, fail⟩ ∧
    text = b ++ bs.flatMap Payload.bytes

/-- The calls of `Read`, with buffers that are not empty. -/
def frameFeed : Feed FrameReader ℕ+ UInt8 Stop where
  read r len :=
    let (r, res) := r.read len
    (r, res.data, if res.panicked then some .panic else res.err.map .err)

theorem frameFeed_read_of_ok {r r' : FrameReader} {len : ℕ+} {res : Result}
    (h : r.read len = (r', res)) (hcalm : res.panicked = false) (herr : res.err = none) :
    frameFeed.read r len = (r', res.data, none) := by
  simp only [frameFeed, h, hcalm, herr]
  rfl

theorem length_frame_ge (server : Bool) (maskKey : Fin 4 → UInt8) (b : List UInt8) :
    2 ≤ (header server b.length).length ∧
      (header server b.length).length + b.length ≤ (frame server maskKey b).length := by
  constructor
  · unfold header
    split
    · exact Nat.le_refl _
    · split <;> simp
  · rw [frame, List.length_append]
    split
    · exact Nat.le_refl _
    · rw [List.length_append, length_masked]
      omega

/-- A call that comes to read a payload is a step, if it has read a header before or there is
something to be read. -/
theorem readPayload_steps {server : Bool} {maskKey : Fin 4 → UInt8} {fail : IoErr}
    {r₀ r : FrameReader} {b : List UInt8} {bs : List Payload} {len : ℕ+}
    (hread : r₀.read len = r.readPayload len) (hmode : r.server = !server)
    (hleft : r.left = b.length)
    (hsrc : r.src = ⟨r.onWire b ++ bs.flatMap fun p => frame server maskKey p.bytes, fail⟩)
    (hless : r.src.data.length < r₀.src.data.length ∨ r = r₀ ∧ b ≠ []) :
    ∃ r' data text', frameFeed.read r₀ len = (r', data, none) ∧
      b ++ bs.flatMap Payload.bytes = data ++ text' ∧ Remains server maskKey fail r' text' ∧
      r'.src.data.length < r₀.src.data.length := by
  obtain ⟨r', res, hpayload, hcalm, herr, hdata, hserver, hleft', hsrc'⟩ :=
    readPayload_masked len hleft hsrc
  refine ⟨r', res.data, _, frameFeed_read_of_ok (hread.trans hpayload) hcalm herr, ?_,
    ⟨b.drop len, bs, hserver.trans hmode, hleft', hsrc', rfl⟩, ?_⟩
  · rw [hdata, ← List.append_assoc, List.take_append_drop]
  · have hlen := len.pos
    have hbefore := congrArg (List.length ∘ Source.data) hsrc
    have hafter := congrArg (List.length ∘ Source.data) hsrc'
    simp only [Function.comp_apply, List.length_append, FrameReader.length_onWire,
      List.length_drop] at hbefore hafter
    obtain hless | ⟨rfl, hb⟩ := hless
    · omega
    · have hpos := List.length_pos_iff.mpr hb
      omega

theorem frameFeed_steps (server : Bool) (maskKey : Fin 4 → UInt8) (fail : IoErr) :
    frameFeed.StepsOn (Remains server maskKey fail) (fun r => r.src.data.length) (.err fail) := by
  rintro r text len ⟨b, bs, hmode, hleft, hsrc, rfl⟩
  by_cases hzero : r.left = 0
  · -- at the end of a frame
    have hb : b = [] := List.length_eq_zero_iff.mp (by omega)
    rw [hb] at hsrc
    rw [hb, List.nil_append]
    have hwire : r.onWire [] = [] := List.length_eq_zero_iff.mp (r.length_onWire [])
    rw [hwire, List.nil_append] at hsrc
    cases bs with
    | nil =>
      refine .inr ⟨r, ?_⟩
      have hlength : r.readLength = (r, some fail) := by
        unfold FrameReader.readLength
        rw [hsrc, List.flatMap_nil, readFull_nil (by decide)]
        dsimp only
        rw [← List.flatMap_nil (f := fun p : Payload => frame server maskKey p.bytes), ← hsrc]
      have hread : r.read len = (r, ⟨len, 0, some fail, [], [], false⟩) := by
        unfold FrameReader.read FrameReader.readHeader
        rw [if_pos hzero, hlength]
      simp only [frameFeed, hread]
      rfl
    | cons p bs =>
      rw [List.flatMap_cons] at hsrc
      obtain ⟨r₁, hheader, hserver₁, hleft₁, hsrc₁⟩ := readHeader_frame hmode hsrc
      rw [← FrameReader.onWire] at hsrc₁
      have hread : r.read len = r₁.readPayload len := by
        unfold FrameReader.read
        rw [if_pos hzero, hheader]
      obtain ⟨htwo, hframe⟩ := length_frame_ge server maskKey p.bytes
      rw [List.flatMap_cons]
      refine .inl (readPayload_steps hread (hserver₁.trans hmode) hleft₁ hsrc₁ (.inl ?_))
      rw [hsrc, hsrc₁]
      dsimp only
      rw [List.length_append, List.length_append, r₁.length_onWire]
      omega
  · -- within one
    have hread : r.read len = r.readPayload len := by
      unfold FrameReader.read
      rw [if_neg hzero]
    refine .inl (readPayload_steps hread hmode hleft hsrc (.inr ⟨rfl, fun hb => hzero ?_⟩))
    rw [hleft, hb]
    rfl

/-- **Round trip.** Payloads of any length are written by a client and read by a server, or the
other way round, with any mask key and in buffers of any size: exactly the bytes written are
delivered, and then the end of the stream. -/
theorem frames_delivered (server : Bool) (maskKey : Fin 4 → UInt8) (bs : List Payload)
    (fail : IoErr) :
    frameFeed.Delivers
      (newFrameReader ⟨(callAll FrameWriter.Write ⟨{}, server, maskKey⟩ bs).1.sink.data, fail⟩
        (!server))
      (bs.flatMap Payload.bytes) (.err fail) := by
  refine Feed.delivers_of_left (frameFeed_steps server maskKey fail) ⟨[], bs, rfl, rfl, ?_, rfl⟩
  rw [writes_of_works _ rfl]
  cases server <;> rfl

end Glider.Ws
