/-
The frames of the anytls session protocol (`proxy/anytls/session/frame.go`) and the
sending side of a session (`writeDataFrame`, `writeControlFrame`, `writeConn`,
`flushBuffering` in `session.go`, `Stream.Write` in `stream.go`).

A frame is seven bytes of header (command, stream id, 16-bit length) and a body. The
length field is `uint16(len(data))`: it is truncated, and a write is never split. While
`buffering` is set the bytes are kept; the first write after it is cleared sends them in
front of its own.

* `wire` — the frames whose body fits the length field, as a self-delimiting code.
* `sent_eq` — what has been given to `conn.Write`, together with what is still buffered, is
  the concatenation of the frames of the calls, in call order.
* `send_roundTrips_iff` — the bytes sent decode to the frames of the calls, each write
  carried by one or more data frames, exactly when every body fits the length field.
-/

import Glider.Go.Binary
import Glider.Lib.Framing

namespace Glider.Anytls

open Glider.Go Glider.Lib

/-! ### Frames -/

def cmdWaste : UInt8 := 0
def cmdSYN : UInt8 := 1
def cmdPSH : UInt8 := 2
def cmdFIN : UInt8 := 3
def cmdSettings : UInt8 := 4
def cmdAlert : UInt8 := 5
def cmdUpdatePaddingScheme : UInt8 := 6
def cmdSYNACK : UInt8 := 7
def cmdHeartRequest : UInt8 := 8
def cmdHeartResponse : UInt8 := 9
def cmdServerSettings : UInt8 := 10

def headerSize : Nat := 1 + 4 + 2

/-- `frame`. -/
structure Frame where
  cmd : UInt8
  sid : UInt32
  data : List UInt8
deriving DecidableEq, Repr

/-- `newFrame`. -/
def newFrame (cmd : UInt8) (sid : UInt32) : Frame := ⟨cmd, sid, []⟩

/-- The header of a frame; a length of 2^16 or more loses its high bits. -/
def header (cmd : UInt8) (sid : UInt32) (dataLen : Nat) : List UInt8 :=
  cmd :: (bigEndianBytes 4 sid.toNat ++ bigEndianBytes 2 dataLen)

/-- The bytes `writeDataFrame` and `writeControlFrame` hand to `writeConn`. -/
def Frame.bytes (f : Frame) : List UInt8 := header f.cmd f.sid f.data.length ++ f.data

/-- `rawHeader`. -/
structure RawHeader where
  bytes : List UInt8
  size : bytes.length = headerSize

namespace RawHeader

variable (h : RawHeader)

def cmd : UInt8 := h.bytes.headD 0

def streamID : UInt32 := UInt32.ofNat (bigEndian ((h.bytes.drop 1).take 4))

def length : Nat := bigEndian ((h.bytes.drop 5).take 2)

theorem length_lt : h.length < 2 ^ 16 := by
  have hlt := bigEndian_lt ((h.bytes.drop 5).take 2)
  have hlen : ((h.bytes.drop 5).take 2).length ≤ 2 := List.length_take_le _ _
  exact Nat.lt_of_lt_of_le hlt (Nat.pow_le_pow_right (by decide) hlen)

/-- Seven bytes are the header they read as. -/
theorem header_eq : header h.cmd h.streamID h.length = h.bytes := by
  obtain ⟨bytes, size⟩ := h
  match bytes, size with
  | [b0, b1, b2, b3, b4, b5, b6], size =>
    have hlt : bigEndian [b1, b2, b3, b4] < 256 ^ 4 := bigEndian_lt [b1, b2, b3, b4]
    have hsize : UInt32.size = 256 ^ 4 := by decide
    have hsid : (streamID ⟨[b0, b1, b2, b3, b4, b5, b6], size⟩).toNat
        = bigEndian [b1, b2, b3, b4] := UInt32.toNat_ofNat_of_lt' (hsize ▸ hlt)
    have h4 : bigEndianBytes 4 (bigEndian [b1, b2, b3, b4]) = [b1, b2, b3, b4] :=
      bigEndianBytes_bigEndian [b1, b2, b3, b4]
    have h2 : bigEndianBytes 2 (bigEndian [b5, b6]) = [b5, b6] :=
      bigEndianBytes_bigEndian [b5, b6]
    rw [header, hsid, h4]
    show b0 :: ([b1, b2, b3, b4] ++ bigEndianBytes 2 (bigEndian [b5, b6])) = _
    rw [h2]
    rfl

end RawHeader

section Header

variable (cmd : UInt8) (sid : UInt32) (n : Nat)

@[simp] theorem length_header : (header cmd sid n).length = headerSize := by
  simp [header, headerSize]

/-- The header of a frame as a `rawHeader`. -/
def rawHeader : RawHeader := ⟨header cmd sid n, length_header cmd sid n⟩

@[simp] theorem cmd_rawHeader : (rawHeader cmd sid n).cmd = cmd := rfl

@[simp] theorem streamID_rawHeader : (rawHeader cmd sid n).streamID = sid := by
  have hbytes : ((header cmd sid n).drop 1).take 4 = bigEndianBytes 4 sid.toNat := by
    rw [header, List.drop_one, List.tail_cons]
    exact List.take_left' (length_bigEndianBytes 4 _)
  have hmod : sid.toNat % 256 ^ 4 = sid.toNat := Nat.mod_eq_of_lt sid.toNat_lt
  rw [RawHeader.streamID, rawHeader, hbytes, bigEndian_bigEndianBytes, hmod]
  exact UInt32.ofNat_toNat

@[simp] theorem length_rawHeader : (rawHeader cmd sid n).length = n % 2 ^ 16 := by
  have hbytes : ((header cmd sid n).drop 5).take 2 = bigEndianBytes 2 n := by
    have hdrop : (header cmd sid n).drop 5 = bigEndianBytes 2 n :=
      List.drop_left' (length_bigEndianBytes 4 _)
    rw [hdrop]
    exact List.take_of_length_le (Nat.le_of_eq (length_bigEndianBytes 2 n))
  have hpow : 256 ^ 2 = 2 ^ 16 := by decide
  rw [RawHeader.length, rawHeader, hbytes, bigEndian_bigEndianBytes, hpow]

end Header

/-! ### The code -/

/-- `io.ReadFull` of a header, and what is left of the stream. -/
def readHeader (bytes : List UInt8) : Option (RawHeader × List UInt8) :=
  if h : headerSize ≤ bytes.length then
    some (⟨bytes.take headerSize, List.length_take_of_le h⟩, bytes.drop headerSize)
  else none

theorem readHeader_header (cmd : UInt8) (sid : UInt32) (n : Nat) (rest : List UInt8) :
    readHeader (header cmd sid n ++ rest) = some (rawHeader cmd sid n, rest) := by
  have htake : (header cmd sid n ++ rest).take headerSize = header cmd sid n :=
    List.take_left' (length_header cmd sid n)
  have hdrop : (header cmd sid n ++ rest).drop headerSize = rest :=
    List.drop_left' (length_header cmd sid n)
  unfold readHeader
  rw [dif_pos (by rw [List.length_append, length_header]; exact Nat.le_add_right _ _)]
  simp only [htake, hdrop, rawHeader]

theorem readHeader_eq_some {bytes rest : List UInt8} {h : RawHeader}
    (hread : readHeader bytes = some (h, rest)) : bytes = h.bytes ++ rest := by
  unfold readHeader at hread
  split at hread <;> cases hread
  exact (List.take_append_drop headerSize bytes).symm

/-- The frames a length field can describe. -/
abbrev WireFrame := { f : Frame // f.data.length < 2 ^ 16 }

/-- Read one frame: the header, then as many bytes as it says. -/
def nextFrame (bytes : List UInt8) : Option (WireFrame × List UInt8) :=
  match readHeader bytes with
  | some (h, rest) =>
    if h.length ≤ rest.length then
      some (⟨⟨h.cmd, h.streamID, rest.take h.length⟩,
        Nat.lt_of_le_of_lt (List.length_take_le _ _) h.length_lt⟩, rest.drop h.length)
    else none
  | none => none

theorem nextFrame_bytes (f : WireFrame) (rest : List UInt8) :
    nextFrame (f.1.bytes ++ rest) = some (f, rest) := by
  obtain ⟨⟨cmd, sid, data⟩, hlen⟩ := f
  have hmod : data.length % 2 ^ 16 = data.length := Nat.mod_eq_of_lt hlen
  have htake : (data ++ rest).take data.length = data := List.take_left' rfl
  have hdrop : (data ++ rest).drop data.length = rest := List.drop_left' rfl
  simp only [nextFrame, Frame.bytes, List.append_assoc, readHeader_header, length_rawHeader,
    cmd_rawHeader, streamID_rawHeader, hmod, htake, hdrop]
  rw [if_pos (by rw [List.length_append]; exact Nat.le_add_right _ _)]

theorem bytes_of_nextFrame {bytes rest : List UInt8} {f : WireFrame}
    (h : nextFrame bytes = some (f, rest)) : bytes = f.1.bytes ++ rest := by
  unfold nextFrame at h
  split at h
  · rename_i hdr body hread
    split at h <;> cases h
    rename_i hle
    rw [readHeader_eq_some hread, ← hdr.header_eq, Frame.bytes, List.length_take_of_le hle,
      List.append_assoc, List.take_append_drop]
  · cases h

/-- **The wire format**: the frames whose body fits the length field. -/
def wire : Framing UInt8 WireFrame where
  encode f := f.1.bytes
  next := nextFrame
  encode_ne_nil f := by simp [Frame.bytes, header]
  next_encode := nextFrame_bytes
  encode_of_next := bytes_of_nextFrame

/-! ### The sending side -/

/-- The fields of a session the writers use. `written` records the arguments of
`conn.Write`. -/
structure Sender where
  buffering : Bool
  buffer : List UInt8
  written : List (List UInt8)
  die : Bool
deriving DecidableEq, Repr

/-- A new session. -/
def Sender.new : Sender := ⟨true, [], [], false⟩

/-- A call of one of the writers. `ok` is what `conn.Write` answers if it is called. A
`Stream.Write` is the call `data` unless it finds the stream closed. -/
inductive Call where
  | control (f : Frame) (ok : Bool)
  | data (sid : UInt32) (payload : List UInt8) (ok : Bool)
  | write (sid : UInt32) (closed : Bool) (payload : List UInt8) (ok : Bool)
  | flush
deriving DecidableEq, Repr

namespace Sender

variable (s : Sender)

/-- `writeConn`, and whether it returns no error. -/
def writeConn (b : List UInt8) (ok : Bool) : Sender × Bool :=
  if s.buffering then ({ s with buffer := s.buffer ++ b }, true)
  else ({ s with buffer := [], written := s.written ++ [s.buffer ++ b] }, ok)

/-- `writeDataFrame`, and the number it returns, if no error. -/
def writeDataFrame (sid : UInt32) (data : List UInt8) (ok : Bool) : Sender × Option Nat :=
  match s.writeConn (header cmdPSH sid data.length ++ data) ok with
  | (s, true) => (s, some data.length)
  | (s, false) => (s, none)

/-- `writeControlFrame`: an error closes the session. -/
def writeControlFrame (f : Frame) (ok : Bool) : Sender × Option Nat :=
  match s.writeConn (header f.cmd f.sid f.data.length ++ f.data) ok with
  | (s, true) => (s, some f.data.length)
  | (s, false) => ({ s with die := true }, none)

def flushBuffering : Sender := { s with buffering := false }

def call : Call → Sender
  | .control f ok => (s.writeControlFrame f ok).1
  | .data sid payload ok => (s.writeDataFrame sid payload ok).1
  | .write sid closed payload ok =>
    if closed then s else (s.writeDataFrame sid payload ok).1
  | .flush => s.flushBuffering

/-- The calls in the order in which they take `connLock`. -/
def calls (cs : List Call) : Sender := cs.foldl call s

end Sender

/-- The frame a call stands for, if it writes one. -/
def Call.frame : Call → Option Frame
  | .control f _ => some f
  | .data sid payload _ => some ⟨cmdPSH, sid, payload⟩
  | .write _ true _ _ => none
  | .write sid false payload _ => some ⟨cmdPSH, sid, payload⟩
  | .flush => none

/-- The frames of a sequence of calls. -/
def framesOf (cs : List Call) : List Frame := cs.filterMap Call.frame

/-- All bytes given to `conn.Write`. -/
def Sender.sent (s : Sender) : List UInt8 := s.written.flatten

/-- A frame is written after buffering is off. -/
def WrittenAfterFlush (cs : List Call) : Prop :=
  ∃ before after, cs = before ++ .flush :: after ∧ framesOf after ≠ []

section Send

/-- The bytes of a write reach the connection or the buffer, after all earlier ones. -/
theorem writeConn_sent (s : Sender) (b : List UInt8) (ok : Bool) :
    (s.writeConn b ok).1.sent ++ (s.writeConn b ok).1.buffer = s.sent ++ s.buffer ++ b := by
  unfold Sender.writeConn
  split
  · exact (List.append_assoc _ _ _).symm
  · simp [Sender.sent]

theorem writeConn_unbuffered {s : Sender} (h : s.buffering = false) (b : List UInt8) (ok : Bool) :
    (s.writeConn b ok).1.buffering = false ∧ (s.writeConn b ok).1.buffer = [] := by
  simp [Sender.writeConn, h]

/-- What a call does, apart from the session it may close: one `writeConn` of its
frame. -/
theorem call_cases (s : Sender) (c : Call) :
    (c.frame = none ∧ (s.call c = s ∨ s.call c = s.flushBuffering)) ∨
      ∃ f ok, c.frame = some f ∧
        (s.call c).buffering = (s.writeConn f.bytes ok).1.buffering ∧
        (s.call c).buffer = (s.writeConn f.bytes ok).1.buffer ∧
        (s.call c).written = (s.writeConn f.bytes ok).1.written := by
  have hdata : ∀ sid payload ok,
      (s.writeDataFrame sid payload ok).1
        = (s.writeConn (Frame.bytes ⟨cmdPSH, sid, payload⟩) ok).1 := by
    intro sid payload ok
    unfold Sender.writeDataFrame
    split <;> (rename_i hconn; exact (congrArg Prod.fst hconn).symm)
  cases c with
  | control f ok =>
    refine .inr ⟨f, ok, rfl, ?_⟩
    rw [Sender.call, Sender.writeControlFrame]
    split <;> (rename_i hconn; rw [Frame.bytes, hconn]; exact ⟨rfl, rfl, rfl⟩)
  | data sid payload ok =>
    refine .inr ⟨_, ok, rfl, ?_⟩
    rw [Sender.call, hdata]
    exact ⟨rfl, rfl, rfl⟩
  | write sid closed payload ok =>
    cases closed with
    | true => exact .inl ⟨rfl, .inl rfl⟩
    | false =>
      refine .inr ⟨_, ok, rfl, ?_⟩
      rw [Sender.call, if_neg (by decide), hdata]
      exact ⟨rfl, rfl, rfl⟩
  | flush => exact .inl ⟨rfl, .inr rfl⟩

theorem call_sent (s : Sender) (c : Call) :
    (s.call c).sent ++ (s.call c).buffer
      = s.sent ++ s.buffer ++ c.frame.toList.flatMap Frame.bytes := by
  rcases call_cases s c with ⟨hframe, hcall⟩ | ⟨f, ok, hframe, -, hbuffer, hwritten⟩
  · rw [hframe]
    rcases hcall with hcall | hcall <;> rw [hcall]
    · exact (List.append_nil _).symm
    · exact (List.append_nil _).symm
  · rw [Sender.sent, hbuffer, hwritten, hframe, Option.toList_some, List.flatMap_singleton]
    exact writeConn_sent s f.bytes ok

/-- **Nothing is lost, repeated or reordered by the buffering.** -/
theorem sent_eq (s : Sender) (cs : List Call) :
    (s.calls cs).sent ++ (s.calls cs).buffer
      = s.sent ++ s.buffer ++ (framesOf cs).flatMap Frame.bytes := by
  induction cs generalizing s with
  | nil => simp [Sender.calls, framesOf]
  | cons c cs ih =>
    have hstep : s.calls (c :: cs) = (s.call c).calls cs := rfl
    rw [hstep, ih, call_sent]
    cases hframe : c.frame with
    | none | some f => simp [framesOf, hframe]

theorem calls_append (s : Sender) (cs ds : List Call) :
    s.calls (cs ++ ds) = (s.calls cs).calls ds :=
  List.foldl_append

/-- Once buffering is off it stays off, and a call that writes a frame empties the
buffer. -/
theorem call_unbuffered {s : Sender} (h : s.buffering = false) (c : Call) :
    (s.call c).buffering = false ∧
      (c.frame ≠ none ∨ s.buffer = [] → (s.call c).buffer = []) := by
  rcases call_cases s c with ⟨hframe, hcall⟩ | ⟨f, ok, hframe, hbuffering, hbuffer, -⟩
  · have hempty : c.frame ≠ none ∨ s.buffer = [] → s.buffer = [] := fun hor =>
      hor.resolve_left fun hne => hne hframe
    rcases hcall with hcall | hcall <;> rw [hcall]
    · exact ⟨h, hempty⟩
    · exact ⟨rfl, hempty⟩
  · rw [hbuffering, hbuffer]
    obtain ⟨hoff, hnil⟩ := writeConn_unbuffered h f.bytes ok
    exact ⟨hoff, fun _ => hnil⟩

theorem buffer_of_unbuffered {s : Sender} {cs : List Call} (h : s.buffering = false)
    (hcs : framesOf cs ≠ [] ∨ s.buffer = []) : (s.calls cs).buffer = [] := by
  induction cs generalizing s with
  | nil => exact hcs.resolve_left fun hne => hne rfl
  | cons c cs ih =>
    obtain ⟨hoff, hempty⟩ := call_unbuffered h c
    refine ih hoff ?_
    cases hframe : c.frame with
    | some f => exact .inr (hempty (.inl (by rw [hframe]; exact nofun)))
    | none =>
      rcases hcs with hne | hnil
      · refine .inl ?_
        rwa [framesOf, List.filterMap_cons_none hframe] at hne
      · exact .inr (hempty (.inr hnil))

/-- After a write with buffering off, everything has been given to `conn.Write`. -/
theorem sent_of_writtenAfterFlush {cs : List Call} (h : WrittenAfterFlush cs) :
    (Sender.new.calls cs).sent = (framesOf cs).flatMap Frame.bytes := by
  have hall := sent_eq Sender.new cs
  obtain ⟨before, after, rfl, hne⟩ := h
  have hempty : (Sender.new.calls (before ++ .flush :: after)).buffer = [] := by
    rw [calls_append]
    exact buffer_of_unbuffered (s := (Sender.new.calls before).call .flush) rfl (.inl hne)
  rw [hempty, List.append_nil] at hall
  exact hall

end Send

/-! ### The round trip -/

/-- Frames that say what the calls said: a control frame as it is, and the payload of a
data write cut into one or more data frames of its stream. -/
inductive Splits : List Frame → List Frame → Prop where
  | nil : Splits [] []
  | control {f : Frame} {fs gs : List Frame} : Splits fs gs → Splits (f :: fs) (f :: gs)
  | data {sid : UInt32} {chunks : List (List UInt8)} {fs gs : List Frame} :
      chunks ≠ [] → Splits fs gs →
      Splits (⟨cmdPSH, sid, chunks.flatten⟩ :: fs) (chunks.map (⟨cmdPSH, sid, ·⟩) ++ gs)

/-- The bytes a list of frames carries for one stream. -/
def payload (sid : UInt32) (fs : List Frame) : List UInt8 :=
  (fs.filter fun f => f.cmd = cmdPSH ∧ f.sid = sid).flatMap Frame.data

/-- The bytes decode into the frames of the calls, and the data frames of each stream
carry the bytes written on it. -/
def RoundTrips (fs : List Frame) (bytes : List UInt8) : Prop :=
  ∃ gs : List WireFrame, wire.decodeAll bytes = some gs ∧ Splits fs (gs.map Subtype.val) ∧
    ∀ sid, payload sid (gs.map Subtype.val) = payload sid fs

namespace Splits

variable {fs gs : List Frame}

theorem refl (fs : List Frame) : Splits fs fs := by
  induction fs with
  | nil => exact .nil
  | cons f fs ih => exact .control ih

/-- Cutting never lowers the number of frames. -/
theorem length_le (h : Splits fs gs) : fs.length ≤ gs.length := by
  induction h with
  | nil => exact Nat.le_refl 0
  | control _ ih => exact Nat.succ_le_succ ih
  | data hne _ ih =>
    have := List.length_pos_iff.mpr hne
    rw [List.length_append, List.length_map, List.length_cons]
    omega

theorem length_bytes_chunks (sid : UInt32) (chunks : List (List UInt8)) :
    ((chunks.map (Frame.mk cmdPSH sid)).flatMap Frame.bytes).length
      = chunks.flatten.length + 7 * chunks.length := by
  induction chunks with
  | nil => rfl
  | cons chunk chunks ih =>
    simp only [List.map_cons, List.flatMap_cons, List.length_append, ih, Frame.bytes,
      length_header, headerSize, List.flatten_cons, List.length_cons]
    omega

/-- Cutting keeps the bytes, and adds a header for every additional frame. -/
theorem length_bytes (h : Splits fs gs) :
    (gs.flatMap Frame.bytes).length + 7 * fs.length
      = (fs.flatMap Frame.bytes).length + 7 * gs.length := by
  induction h with
  | nil => rfl
  | control _ ih =>
    simp only [List.flatMap_cons, List.length_append, List.length_cons]
    omega
  | data _ _ ih =>
    simp only [List.flatMap_append, List.flatMap_cons, List.length_append, List.length_cons,
      List.length_map, length_bytes_chunks, Frame.bytes, length_header, headerSize]
    omega

/-- Without an additional frame nothing has been cut. -/
theorem eq_of_length (h : Splits fs gs) (hlen : gs.length = fs.length) : gs = fs := by
  induction h with
  | nil => rfl
  | control _ ih => rw [ih (Nat.succ.inj hlen)]
  | @data sid chunks fs gs hne hrest ih =>
    have hge := hrest.length_le
    have hpos := List.length_pos_iff.mpr hne
    rw [List.length_append, List.length_map, List.length_cons] at hlen
    obtain ⟨chunk, rfl⟩ := List.length_eq_one_iff.mp (by omega : chunks.length = 1)
    rw [ih (by rw [List.length_singleton] at hlen; omega)]
    simp

end Splits

/-- The concatenation of frames is their encoding, if the bodies fit. -/
theorem encodeAll_attach (fs : List Frame) (hfit : ∀ f ∈ fs, f.data.length < 2 ^ 16) :
    ∃ gs : List WireFrame, gs.map Subtype.val = fs ∧
      wire.encodeAll gs = fs.flatMap Frame.bytes := by
  induction fs with
  | nil => exact ⟨[], rfl, rfl⟩
  | cons f fs ih =>
    obtain ⟨gs, hval, hbytes⟩ := ih fun g hg => hfit g (List.mem_cons_of_mem f hg)
    refine ⟨⟨f, hfit f List.mem_cons_self⟩ :: gs, ?_, ?_⟩
    · rw [List.map_cons, hval]
    · rw [Framing.encodeAll_cons, hbytes]
      rfl

theorem encodeAll_eq_flatMap (gs : List WireFrame) :
    wire.encodeAll gs = (gs.map Subtype.val).flatMap Frame.bytes := by
  rw [List.flatMap_map]
  rfl

/-- Frames written one after the other decode to themselves exactly when every body fits
the length field: a longer body would need a second header. -/
theorem roundTrips_iff (fs : List Frame) :
    RoundTrips fs (fs.flatMap Frame.bytes) ↔ ∀ f ∈ fs, f.data.length < 2 ^ 16 := by
  constructor
  · rintro ⟨gs, hdecode, hsplit, -⟩ f hf
    have hbytes := wire.decodeAll_eq_some.mp hdecode
    rw [encodeAll_eq_flatMap] at hbytes
    have hcount := hsplit.length_bytes
    rw [← hbytes] at hcount
    have hlen : (gs.map Subtype.val).length = fs.length := by omega
    rw [← hsplit.eq_of_length hlen] at hf
    obtain ⟨g, -, rfl⟩ := List.mem_map.mp hf
    exact g.2
  · intro hfit
    obtain ⟨gs, hval, hbytes⟩ := encodeAll_attach fs hfit
    refine ⟨gs, wire.decodeAll_eq_some.mpr hbytes.symm, ?_, ?_⟩
    · rw [hval]
      exact .refl fs
    · intro sid
      rw [hval]

/-- **When sending round-trips.** For every sequence of writes with buffering switched off
at any point, once a frame is written with buffering off, the bytes given to `conn.Write`
decode to the frames of the calls exactly when every body is shorter than 2^16. -/
theorem send_roundTrips_iff (cs : List Call) (hflush : WrittenAfterFlush cs) :
    RoundTrips (framesOf cs) (Sender.new.calls cs).sent ↔
      ∀ f ∈ framesOf cs, f.data.length < 2 ^ 16 := by
  rw [sent_of_writtenAfterFlush hflush]
  exact roundTrips_iff (framesOf cs)

/-- A session that buffers its settings and a first `SYN`, then writes on two streams. -/
def openAndWrite : List Call :=
  [.control ⟨cmdSettings, 0, [118, 61, 50]⟩ true, .control (newFrame cmdSYN 1) true, .flush,
    .write 1 false [1, 2, 3] true, .control (newFrame cmdSYN 2) true, .data 2 [4] true]

theorem send_roundTrips_openAndWrite :
    RoundTrips (framesOf openAndWrite) (Sender.new.calls openAndWrite).sent :=
  (send_roundTrips_iff openAndWrite
    ⟨openAndWrite.take 2, openAndWrite.drop 3, rfl, by decide⟩).mpr (by decide)

/-- **A write of 65536 bytes is not received as written**: its length field says 0. -/
theorem large_write_not_roundTrips :
    ¬ RoundTrips (framesOf [.flush, .data 1 (List.replicate 65536 0) true])
      (Sender.new.calls [.flush, .data 1 (List.replicate 65536 0) true]).sent := by
  have hframes : framesOf [.flush, .data 1 (List.replicate 65536 0) true]
      = [⟨cmdPSH, 1, List.replicate 65536 0⟩] := rfl
  have hsent : (Sender.new.calls [.flush, .data 1 (List.replicate 65536 0) true]).sent
      = (framesOf [.flush, .data 1 (List.replicate 65536 0) true]).flatMap Frame.bytes :=
    sent_of_writtenAfterFlush ⟨[], _, rfl, by rw [framesOf]; exact nofun⟩
  rw [hsent, roundTrips_iff, hframes]
  intro hfit
  have hlt := hfit _ (List.mem_singleton_self _)
  rw [List.length_replicate] at hlt
  exact absurd hlt (by decide)

end Glider.Anytls
