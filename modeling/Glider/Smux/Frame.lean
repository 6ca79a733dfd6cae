/-
The configuration of a multiplexed session (`pkg/smux/mux.go`) and its frames (`frame.go`).

A frame is eight bytes of header (version, command, 16-bit length, 32-bit stream id, the numbers
little-endian) and a payload, as `sendLoop` writes it. `recvLoop` reads the payload by the command:
the announced number of bytes for `cmdPSH`, eight for `cmdUPD` whatever the length field says, and
none for the others.

* `verifyConfig_eq_none` — what an accepted configuration guarantees.
* `packets` — what `recvLoop` reads, as a self-delimiting code: every stream is cut in one way only.
* `bytes_eq_encode` — the frames the session makes are such packets.
-/

import Glider.Go.Binary
import Glider.Lib.Framing

namespace Glider.Smux

open Glider.Go Glider.Lib

/-! ### Configurations -/

/-- `Config`; durations in nanoseconds. -/
structure Config where
  version : Int
  keepAliveDisabled : Bool := false
  keepAliveInterval : Int
  keepAliveTimeout : Int
  maxFrameSize : Int
  maxReceiveBuffer : Int
  maxStreamBuffer : Int
deriving DecidableEq, Repr

/-- `DefaultConfig`. -/
def defaultConfig : Config where
  version := 1
  keepAliveInterval := 10000000000
  keepAliveTimeout := 30000000000
  maxFrameSize := 32768
  maxReceiveBuffer := 4194304
  maxStreamBuffer := 65536

/-- `VerifyConfig`: the text of the error, if any. -/
def verifyConfig (config : Config) : Option GoString :=
  if ¬ (config.version = 1 ∨ config.version = 2) then
    some (ascii "unsupported protocol version")
  else if ¬ config.keepAliveDisabled ∧ config.keepAliveInterval = 0 then
    some (ascii "keep-alive interval must be positive")
  else if ¬ config.keepAliveDisabled ∧ config.keepAliveTimeout < config.keepAliveInterval then
    some (ascii "keep-alive timeout must be larger than keep-alive interval")
  else if config.maxFrameSize ≤ 0 then some (ascii "max frame size must be positive")
  else if config.maxFrameSize > 65535 then
    some (ascii "max frame size must not be larger than 65535")
  else if config.maxReceiveBuffer ≤ 0 then some (ascii "max receive buffer must be positive")
  else if config.maxStreamBuffer ≤ 0 then some (ascii "max stream buffer must be positive")
  else if config.maxStreamBuffer > config.maxReceiveBuffer then
    some (ascii "max stream buffer must not be larger than max receive buffer")
  else if config.maxStreamBuffer > 2147483647 then
    some (ascii "max stream buffer cannot be larger than 2147483647")
  else none

/-- The sizes an accepted configuration can have. The receive buffer has no upper bound. -/
theorem verifyConfig_eq_none {config : Config} (h : verifyConfig config = none) :
    (config.version = 1 ∨ config.version = 2) ∧
      0 < config.maxFrameSize ∧ config.maxFrameSize ≤ 65535 ∧
      0 < config.maxStreamBuffer ∧ config.maxStreamBuffer ≤ 2147483647 ∧
      config.maxStreamBuffer ≤ config.maxReceiveBuffer := by
  unfold verifyConfig at h
  repeat' (split at h; · cases h)
  omega

/-- The configurations `Server` and `Client` accept. -/
structure Verified where
  config : Config
  valid : verifyConfig config = none

namespace Verified

/-- `Server(conn, nil)` and `Client(conn, nil)`, as the program calls them. -/
def default : Verified := ⟨defaultConfig, by decide⟩

variable (cfg : Verified)

/-- `byte(s.config.Version)`. -/
def version : UInt8 := UInt8.ofNat cfg.config.version.toNat

def maxFrameSize : Nat := cfg.config.maxFrameSize.toNat

def maxReceiveBuffer : Nat := cfg.config.maxReceiveBuffer.toNat

def maxStreamBuffer : Nat := cfg.config.maxStreamBuffer.toNat

theorem maxFrameSize_pos : 0 < cfg.maxFrameSize := by
  have := (verifyConfig_eq_none cfg.valid).2
  unfold maxFrameSize
  omega

theorem maxFrameSize_le : cfg.maxFrameSize ≤ 65535 := by
  have := (verifyConfig_eq_none cfg.valid).2
  unfold maxFrameSize
  omega

theorem maxReceiveBuffer_pos : 0 < cfg.maxReceiveBuffer := by
  have := (verifyConfig_eq_none cfg.valid).2
  unfold maxReceiveBuffer
  omega

end Verified

/-! ### Frames -/

def cmdSYN : UInt8 := 0
def cmdFIN : UInt8 := 1
def cmdPSH : UInt8 := 2
def cmdNOP : UInt8 := 3
def cmdUPD : UInt8 := 4

def szCmdUPD : Nat := 8

def headerSize : Nat := 1 + 1 + 4 + 2

/-- `Frame`. -/
structure Frame where
  ver : UInt8
  cmd : UInt8
  sid : UInt32
  data : List UInt8
deriving DecidableEq, Repr

/-- `newFrame`. -/
def newFrame (version cmd : UInt8) (sid : UInt32) : Frame := ⟨version, cmd, sid, []⟩

/-- The first bytes of the buffer of `sendLoop`; the length loses its high bits. -/
def header (ver cmd : UInt8) (dataLen : Nat) (sid : UInt32) : List UInt8 :=
  ver :: cmd :: (littleEndianBytes 2 dataLen ++ littleEndianBytes 4 sid.toNat)

/-- What `sendLoop` writes for a frame, in one call or in a vector of two. -/
def Frame.bytes (f : Frame) : List UInt8 := header f.ver f.cmd f.data.length f.sid ++ f.data

/-- `rawHeader`. -/
structure RawHeader where
  bytes : List UInt8
  size : bytes.length = headerSize
deriving DecidableEq, Repr

namespace RawHeader

variable (h : RawHeader)

def version : UInt8 := h.bytes.headD 0

def cmd : UInt8 := (h.bytes.drop 1).headD 0

def length : Nat := littleEndian ((h.bytes.drop 2).take 2)

def streamID : UInt32 := UInt32.ofNat (littleEndian ((h.bytes.drop 4).take 4))

/-- How many bytes `recvLoop` reads after a header. -/
def bodyLength : Nat :=
  if h.cmd = cmdPSH then h.length else if h.cmd = cmdUPD then szCmdUPD else 0

/-- `recvLoop` goes on after the header: its version is the session's, its command is known. -/
def Known (version : UInt8) : Prop :=
  h.version = version ∧
    (h.cmd = cmdSYN ∨ h.cmd = cmdFIN ∨ h.cmd = cmdPSH ∨ h.cmd = cmdNOP ∨ h.cmd = cmdUPD)

instance (version : UInt8) : Decidable (h.Known version) :=
  inferInstanceAs (Decidable (_ ∧ _))

theorem length_lt : h.length < 65536 := by
  have hlt := littleEndian_lt ((h.bytes.drop 2).take 2)
  have hlen : ((h.bytes.drop 2).take 2).length ≤ 2 := List.length_take_le _ _
  exact Nat.lt_of_lt_of_le hlt (Nat.pow_le_pow_right (by decide) hlen)

end RawHeader

section Header

variable (ver cmd : UInt8) (n : Nat) (sid : UInt32)

@[simp] theorem length_header : (header ver cmd n sid).length = headerSize := by
  simp [header, headerSize]

/-- The header of a frame as a `rawHeader`. -/
def rawHeader : RawHeader := ⟨header ver cmd n sid, length_header ver cmd n sid⟩

@[simp] theorem version_rawHeader : (rawHeader ver cmd n sid).version = ver := rfl

@[simp] theorem cmd_rawHeader : (rawHeader ver cmd n sid).cmd = cmd := rfl

@[simp] theorem length_rawHeader : (rawHeader ver cmd n sid).length = n % 65536 := by
  have hbytes : ((header ver cmd n sid).drop 2).take 2 = littleEndianBytes 2 n :=
    List.take_left' (length_littleEndianBytes 2 n)
  have hpow : 256 ^ 2 = 65536 := by decide
  rw [RawHeader.length, rawHeader, hbytes, littleEndian_littleEndianBytes, hpow]

@[simp] theorem streamID_rawHeader : (rawHeader ver cmd n sid).streamID = sid := by
  have hdrop : (header ver cmd n sid).drop 4 = littleEndianBytes 4 sid.toNat :=
    List.drop_left' (length_littleEndianBytes 2 n)
  have hbytes : ((header ver cmd n sid).drop 4).take 4 = littleEndianBytes 4 sid.toNat := by
    rw [hdrop]
    exact List.take_of_length_le (Nat.le_of_eq (length_littleEndianBytes 4 _))
  have hmod : sid.toNat % 256 ^ 4 = sid.toNat := Nat.mod_eq_of_lt sid.toNat_lt
  rw [RawHeader.streamID, rawHeader, hbytes, littleEndian_littleEndianBytes, hmod]
  exact UInt32.ofNat_toNat

end Header

/-! ### Packets -/

/-- A header and what `recvLoop` reads after it. -/
structure Packet where
  header : RawHeader
  body : List UInt8
  size : body.length = header.bodyLength
deriving DecidableEq, Repr

/-- The packets that do not end the session. -/
abbrev KnownPacket (version : UInt8) := { p : Packet // p.header.Known version }

def Packet.bytes (p : Packet) : List UInt8 := p.header.bytes ++ p.body

/-- `io.ReadFull` of a header, and what is left of the stream. -/
def readHeader (bytes : List UInt8) : Option (RawHeader × List UInt8) :=
  if h : headerSize ≤ bytes.length then
    some (⟨bytes.take headerSize, List.length_take_of_le h⟩, bytes.drop headerSize)
  else none

/-- One round of `recvLoop`, as far as the stream is concerned. -/
def nextPacket (version : UInt8) (bytes : List UInt8) :
    Option (KnownPacket version × List UInt8) :=
  match readHeader bytes with
  | some (h, rest) =>
    if hok : h.Known version ∧ h.bodyLength ≤ rest.length then
      some (⟨⟨h, rest.take h.bodyLength, List.length_take_of_le hok.2⟩, hok.1⟩,
        rest.drop h.bodyLength)
    else none
  | none => none

theorem readHeader_append (h : RawHeader) (rest : List UInt8) :
    readHeader (h.bytes ++ rest) = some (h, rest) := by
  have htake : (h.bytes ++ rest).take headerSize = h.bytes := List.take_left' h.size
  have hdrop : (h.bytes ++ rest).drop headerSize = rest := List.drop_left' h.size
  unfold readHeader
  rw [dif_pos (by rw [List.length_append, h.size]; exact Nat.le_add_right _ _)]
  simp only [htake, hdrop]

theorem readHeader_eq_some {bytes rest : List UInt8} {h : RawHeader}
    (hread : readHeader bytes = some (h, rest)) : bytes = h.bytes ++ rest := by
  unfold readHeader at hread
  split at hread <;> cases hread
  exact (List.take_append_drop headerSize bytes).symm

variable {version : UInt8}

theorem nextPacket_bytes (p : KnownPacket version) (rest : List UInt8) :
    nextPacket version (p.1.bytes ++ rest) = some (p, rest) := by
  obtain ⟨⟨h, body, size⟩, known⟩ := p
  have htake : (body ++ rest).take h.bodyLength = body := List.take_left' size
  have hdrop : (body ++ rest).drop h.bodyLength = rest := List.drop_left' size
  have hlen : h.bodyLength ≤ (body ++ rest).length := by
    rw [List.length_append, size]
    exact Nat.le_add_right _ _
  simp only [nextPacket, Packet.bytes, List.append_assoc, readHeader_append, htake, hdrop]
  exact dif_pos ⟨known, hlen⟩

theorem bytes_of_nextPacket {bytes rest : List UInt8} {p : KnownPacket version}
    (h : nextPacket version bytes = some (p, rest)) : bytes = p.1.bytes ++ rest := by
  unfold nextPacket at h
  split at h
  · rename_i hdr body hread
    split at h <;> cases h
    rw [readHeader_eq_some hread, Packet.bytes, List.append_assoc, List.take_append_drop]
  · cases h

/-- **The wire format**, as `recvLoop` reads it. -/
def packets (version : UInt8) : Framing UInt8 (KnownPacket version) where
  encode p := p.1.bytes
  next := nextPacket version
  encode_ne_nil p := by
    have hsize : p.1.header.bytes.length = headerSize := p.1.header.size
    intro hnil
    rw [Packet.bytes, List.append_eq_nil_iff] at hnil
    rw [hnil.1] at hsize
    cases hsize
  next_encode := nextPacket_bytes
  encode_of_next := bytes_of_nextPacket

/-! ### The frames of a session -/

/-- A piece of data that fits a frame; `Write` makes no others. -/
abbrev Piece := { data : List UInt8 // 0 < data.length ∧ data.length ≤ 65535 }

/-- What a session has to say: the frames of `OpenStream`, `Close`, `Write`, `keepalive` and
`sendWindowUpdate`. -/
inductive Op where
  | syn (sid : UInt32)
  | fin (sid : UInt32)
  | psh (sid : UInt32) (piece : Piece)
  | nop
  | upd (sid : UInt32) (consumed : UInt32)
deriving DecidableEq, Repr

namespace Op

/-- `CLASSID`. -/
inductive Class where
  | ctrl
  | data
deriving DecidableEq, Repr

/-- The class a frame is written with: the end of a stream is in that of its data. -/
def cls : Op → Class
  | syn _ | nop | upd _ _ => .ctrl
  | fin _ | psh _ _ => .data

def cmd : Op → UInt8
  | syn _ => cmdSYN
  | fin _ => cmdFIN
  | psh _ _ => cmdPSH
  | nop => cmdNOP
  | upd _ _ => cmdUPD

def sid : Op → UInt32
  | syn sid | fin sid | psh sid _ | upd sid _ => sid
  | nop => 0

variable (cfg : Verified) (op : Op)

/-- The payload; that of `cmdUPD` is an `updHeader`. -/
def data : Op → List UInt8
  | psh _ piece => piece.1
  | upd _ consumed =>
    littleEndianBytes 4 consumed.toNat ++ littleEndianBytes 4 cfg.maxStreamBuffer
  | syn _ | fin _ | nop => []

def frame : Frame := { newFrame cfg.version op.cmd op.sid with data := op.data cfg }

/-- The header of a frame. -/
def rawHeader : RawHeader := Smux.rawHeader cfg.version op.cmd (op.data cfg).length op.sid

theorem length_data_le : (op.data cfg).length ≤ 65535 := by
  cases op with
  | psh sid piece => exact piece.2.2
  | upd sid consumed =>
    rw [data, List.length_append, length_littleEndianBytes, length_littleEndianBytes]
    decide
  | syn sid | fin sid | nop => exact Nat.zero_le _

/-- A frame has the payload the receiver reads after its header. -/
theorem length_data : (op.data cfg).length = (op.rawHeader cfg).bodyLength := by
  have hmod : (op.data cfg).length % 65536 = (op.data cfg).length :=
    Nat.mod_eq_of_lt (Nat.lt_succ_of_le (length_data_le cfg op))
  rw [RawHeader.bodyLength, rawHeader, cmd_rawHeader, length_rawHeader, hmod]
  cases op with
  | upd sid consumed =>
    rw [data, List.length_append, length_littleEndianBytes, length_littleEndianBytes]
    rfl
  | psh sid piece | syn sid | fin sid | nop => rfl

theorem known_rawHeader : (op.rawHeader cfg).Known cfg.version := by
  rw [RawHeader.Known, rawHeader, version_rawHeader, cmd_rawHeader]
  cases op <;> simp [cmd]

/-- A frame as the receiver sees it. -/
def packet : KnownPacket cfg.version :=
  ⟨⟨op.rawHeader cfg, op.data cfg, length_data cfg op⟩, known_rawHeader cfg op⟩

/-- What `sendLoop` writes is what `recvLoop` reads. -/
theorem bytes_eq_encode :
    (op.frame cfg).bytes = (packets cfg.version).encode (op.packet cfg) := rfl

end Op

end Glider.Smux
