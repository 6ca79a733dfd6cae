/-
The reader of a shadowsocks AEAD stream (`proxy/ss/cipher/shadowaead/stream.go`).

A chunk is an encrypted length and an encrypted payload. `Read` decrypts it in the caller's
buffer when that is large enough for a chunk, and otherwise in a buffer of the pool
(`pkg/pool`) from which later calls copy. In both cases `read` re-slices the buffer by the
length the peer has sent; a slice expression is checked against the capacity of the buffer
only, so each one is recorded with the length it should respect.

An `AEAD` is what `crypto/cipher` asks for: `Open` inverts `Seal`, both are exact about the
overhead, and a chunk of the largest size fits the internal buffer, as the comment on
`bufSize` has it.

* `decode` — what the bytes of a stream stand for, whatever the buffers.
* `Tracks` — the invariant: the reader is on its way through `decode`.
* `reads_agree_iff` — the calls agree and stay in bounds exactly when no chunk has a length
  above `maxPayload`.
* `not_agree_of_oversize` — a key-holding peer can send one, whatever the AEAD.
* `oversize_chunk_overruns` — such a chunk and a call that panics.
-/

import Glider.Go.Binary
import Glider.Go.Io
import Glider.Go.Slice
import Glider.Lib.Machine
import Mathlib.Data.Nat.Size

namespace Glider.Ss

open Glider.Go Glider.Lib

/-! ### Ciphers and buffers -/

def lenSize : Nat := 2

def maxPayload : Nat := 0x3FFF

def bufSize : Nat := 17 <<< 10

/-- `cipher.AEAD`, with a key; there is no additional data. -/
structure AEAD where
  nonceSize : Nat
  overhead : Nat
  Seal : List UInt8 → List UInt8 → List UInt8
  Open : List UInt8 → List UInt8 → Option (List UInt8)
  /-- The error of a failed `Open`. -/
  authErr : IoErr
  open_seal : ∀ nonce p, Open nonce (Seal nonce p) = some p
  length_seal : ∀ nonce p, (Seal nonce p).length = p.length + overhead
  length_open : ∀ nonce c p, Open nonce c = some p → c.length = p.length + overhead
  nonceSize_le : nonceSize ≤ 32
  fits : lenSize + overhead + maxPayload + overhead ≤ bufSize

/-- A byte slice that is to be written: its length and its capacity. -/
structure Buffer where
  len : Nat
  cap : Nat
  len_le : len ≤ cap

/-- `pool.GetBuffer`: the capacity is rounded up to a power of two. -/
def getBuffer (size : Nat) : Buffer :=
  if 1 ≤ size ∧ size ≤ 65536 then
    { len := size
      cap := 2 ^ (size - 1).size
      len_le := Nat.le_of_pred_lt (Nat.lt_size_self (size - 1)) }
  else { len := size, cap := size, len_le := Nat.le_refl size }

/-- `increment`: a little-endian counter. -/
def increment : List UInt8 → List UInt8
  | [] => []
  | b :: bs => if b + 1 ≠ 0 then (b + 1) :: bs else (b + 1) :: increment bs

/-! ### reader -/

/-- The embedded reader, and the part of `nonce` that is in use. -/
structure Cursor where
  src : Source
  nonce : List UInt8
deriving DecidableEq, Repr

/-- `reader`; `buf` is `nil` at first. -/
structure Reader extends Cursor where
  buf : Option (List UInt8)
  offset : Nat
deriving DecidableEq, Repr

/-- What a call does: `data` are the bytes in `p[:n]`. A call that panics returns nothing. -/
structure Result where
  data : List UInt8
  err : Option IoErr
  panicked : Bool
  accesses : List Access
deriving DecidableEq, Repr

section Reader

variable (aead : AEAD)

def newReader (src : Source) : Reader :=
  { src := src, nonce := List.replicate aead.nonceSize 0, buf := none, offset := 0 }

/-- The next `n` bytes are decrypted where they were read. -/
def Cursor.openNext (c : Cursor) (n : Nat) : Cursor × Except IoErr (List UInt8) :=
  match readFull n c.src with
  | (_, some err, src) => ({ c with src := src }, .error err)
  | (p, none, src) =>
    match aead.Open c.nonce p with
    | none => (⟨src, increment c.nonce⟩, .error aead.authErr)
    | some text => (⟨src, increment c.nonce⟩, .ok (text ++ p.drop text.length))

/-- The length of a chunk. -/
def Cursor.readSize (c : Cursor) : Cursor × Except IoErr Nat :=
  match c.openNext aead (lenSize + aead.overhead) with
  | (c, .error err) => (c, .error err)
  | (c, .ok p) => (c, .ok (bigEndian (p.take lenSize)))

/-- Its payload. -/
def Cursor.readPayload (c : Cursor) (size : Nat) : Cursor × Except IoErr (List UInt8) :=
  match c.openNext aead (size + aead.overhead) with
  | (c, .error err) => (c, .error err)
  | (c, .ok p) => (c, .ok (p.take size))

/-- `read`, into the buffer `p`. -/
def Reader.read (r : Reader) (p : Buffer) : Reader × Result :=
  let whole : Access := ⟨0, lenSize + aead.overhead, p.len⟩
  if p.cap < lenSize + aead.overhead then (r, ⟨[], none, true, [whole]⟩)
  else
    match r.toCursor.readSize aead with
    | (c, .error err) => ({ r with toCursor := c }, ⟨[], some err, false, [whole]⟩)
    | (c, .ok size) =>
      let part : Access := ⟨0, size + aead.overhead, p.len⟩
      if p.cap < size + aead.overhead then
        ({ r with toCursor := c }, ⟨[], none, true, [whole, part]⟩)
      else
        match c.readPayload aead size with
        | (c, .error err) => ({ r with toCursor := c }, ⟨[], some err, false, [whole, part]⟩)
        | (c, .ok data) => ({ r with toCursor := c }, ⟨data, none, false, [whole, part]⟩)

/-- The rest of `Read`: copy from `buf`, and let go of it at its end. -/
def Reader.copy (r : Reader) (buf : List UInt8) (len : Nat) : Reader × Result :=
  let data := (buf.drop r.offset).take len
  let offset := r.offset + data.length
  ({ r with offset := offset, buf := if offset = buf.length then none else some buf },
    ⟨data, none, false, [⟨r.offset, buf.length, buf.length⟩]⟩)

/-- `Read`. -/
def Reader.Read (r : Reader) (p : Buffer) : Reader × Result :=
  match r.buf with
  | some buf => r.copy buf p.len
  | none =>
    if maxPayload + aead.overhead ≤ p.len then r.read aead p
    else
      let (r, res) := r.read aead (getBuffer bufSize)
      if res.panicked || res.err.isSome then (r, { res with data := [] })
      else
        let (r, out) := { r with offset := 0 : Reader }.copy res.data p.len
        (r, { out with accesses := res.accesses ++ out.accesses })

end Reader

/-! ### The meaning of a stream -/

section Cursor

variable {aead : AEAD} {c c' : Cursor}

theorem openNext_eq_ok {n : Nat} {p : List UInt8} (h : c.openNext aead n = (c', .ok p)) :
    p.length = n ∧ c.src.data.length = n + c'.src.data.length := by
  unfold Cursor.openNext at h
  split at h
  · cases h
  rename_i q src hread
  obtain ⟨hlen, hdata, -⟩ := readFull_eq_ok hread
  split at h <;> cases h
  rename_i text hopen
  have htext := aead.length_open c.nonce q text hopen
  have hsplit := congrArg List.length hdata
  rw [List.length_append] at hsplit
  rw [List.length_append, List.length_drop]
  exact ⟨by omega, by dsimp only; omega⟩

theorem readSize_eq_ok {size : Nat} (h : c.readSize aead = (c', .ok size)) :
    size < 65536 ∧ c'.src.data.length < c.src.data.length := by
  unfold Cursor.readSize at h
  split at h <;> cases h
  rename_i p hopen
  obtain ⟨hlen, hdata⟩ := openNext_eq_ok hopen
  have hlt := bigEndian_lt (p.take lenSize)
  have htwo : (p.take lenSize).length = 2 := by
    rw [List.length_take, hlen]
    exact Nat.min_eq_left (Nat.le_add_right _ _)
  rw [htwo] at hlt
  refine ⟨hlt, ?_⟩
  rw [hdata]
  unfold lenSize
  omega

theorem readPayload_eq_ok {size : Nat} {data : List UInt8}
    (h : c.readPayload aead size = (c', .ok data)) :
    data.length = size ∧ c'.src.data.length ≤ c.src.data.length := by
  unfold Cursor.readPayload at h
  split at h <;> cases h
  rename_i p hopen
  obtain ⟨hlen, hdata⟩ := openNext_eq_ok hopen
  rw [List.length_take]
  exact ⟨by omega, by omega⟩

end Cursor

/-- The lengths of the chunks that can be decrypted, their payloads, and the error at the
end. -/
structure Decoded where
  sizes : List Nat
  text : List UInt8
  err : IoErr

/-- What the bytes from a cursor on stand for. -/
def decode (aead : AEAD) (c : Cursor) : Decoded :=
  match _h : c.readSize aead with
  | (_, .error err) => ⟨[], [], err⟩
  | (c₁, .ok size) =>
    match _h' : c₁.readPayload aead size with
    | (_, .error err) => ⟨[size], [], err⟩
    | (c₂, .ok data) =>
      let rest := decode aead c₂
      ⟨size :: rest.sizes, data ++ rest.text, rest.err⟩
termination_by c.src.data.length
decreasing_by
  have := (readSize_eq_ok _h).2
  have := (readPayload_eq_ok _h').2
  omega

section Decode

variable {aead : AEAD} {c c₁ c₂ : Cursor} {err : IoErr} {size : Nat} {data : List UInt8}

theorem decode_of_size_error (h : c.readSize aead = (c₁, .error err)) :
    decode aead c = ⟨[], [], err⟩ := by
  rw [decode]
  split <;> simp_all

theorem decode_of_payload_error (h : c.readSize aead = (c₁, .ok size))
    (h' : c₁.readPayload aead size = (c₂, .error err)) : decode aead c = ⟨[size], [], err⟩ := by
  rw [decode]
  split
  · simp_all
  · split <;> simp_all

theorem decode_of_chunk (h : c.readSize aead = (c₁, .ok size))
    (h' : c₁.readPayload aead size = (c₂, .ok data)) :
    decode aead c =
      ⟨size :: (decode aead c₂).sizes, data ++ (decode aead c₂).text, (decode aead c₂).err⟩ := by
  rw [decode]
  split
  · simp_all
  · split <;> simp_all

end Decode

/-! ### One call -/

/-- The call returns, and stays within its buffer. -/
structure Result.Safe (p : Buffer) (res : Result) : Prop where
  returns : res.panicked = false
  n_le : res.data.length ≤ p.len
  inBounds : ∀ a ∈ res.accesses, a.InBounds

section Read

variable {aead : AEAD} {r : Reader} {p : Buffer}

/-- `read` does what `decode` says, in a buffer that takes the largest chunk. -/
theorem read_cases (hlen : maxPayload + aead.overhead ≤ p.len)
    (hsizes : ∀ size ∈ (decode aead r.toCursor).sizes, size ≤ maxPayload) :
    ∃ c res, r.read aead p = ({ r with toCursor := c }, res) ∧ res.Safe p ∧
      ((∃ err sizes, res.err = some err ∧ res.data = [] ∧
          decode aead r.toCursor = ⟨sizes, [], err⟩) ∨
        (res.err = none ∧ ∃ size, decode aead r.toCursor =
          ⟨size :: (decode aead c).sizes, res.data ++ (decode aead c).text,
            (decode aead c).err⟩)) := by
  have hcap := p.len_le
  have hwhole : Access.InBounds ⟨0, lenSize + aead.overhead, p.len⟩ := by
    refine ⟨Nat.zero_le _, ?_⟩
    show 2 + aead.overhead ≤ p.len
    unfold maxPayload at hlen
    omega
  unfold Reader.read
  rw [if_neg (by have := hwhole.2; dsimp only at this; omega)]
  cases hsize : r.toCursor.readSize aead with
  | mk c₁ size? =>
    cases size? with
    | error err =>
      have hdecode := decode_of_size_error hsize
      refine ⟨c₁, _, rfl, ⟨rfl, Nat.zero_le _, ?_⟩, .inl ⟨err, [], rfl, rfl, hdecode⟩⟩
      intro a ha
      rw [List.mem_singleton.mp ha]
      exact hwhole
    | ok size =>
      have hle : size ≤ maxPayload := by
        cases hpayload : c₁.readPayload aead size with
        | mk c₂ data? =>
          cases data? with
          | error err =>
            rw [decode_of_payload_error hsize hpayload] at hsizes
            exact hsizes size List.mem_cons_self
          | ok data =>
            rw [decode_of_chunk hsize hpayload] at hsizes
            exact hsizes size List.mem_cons_self
      have hpart : Access.InBounds ⟨0, size + aead.overhead, p.len⟩ :=
        ⟨Nat.zero_le _, by dsimp only; omega⟩
      have hboth : ∀ a ∈ [⟨0, lenSize + aead.overhead, p.len⟩, ⟨0, size + aead.overhead, p.len⟩],
          Access.InBounds a := by
        intro a ha
        obtain rfl | ha := List.mem_cons.mp ha
        · exact hwhole
        · rw [List.mem_singleton.mp ha]
          exact hpart
      dsimp only
      rw [if_neg (by omega)]
      cases hpayload : c₁.readPayload aead size with
      | mk c₂ data? =>
        cases data? with
        | error err =>
          have hdecode := decode_of_payload_error hsize hpayload
          exact ⟨c₂, _, rfl, ⟨rfl, Nat.zero_le _, hboth⟩, .inl ⟨err, [size], rfl, rfl, hdecode⟩⟩
        | ok data =>
          have hdecode := decode_of_chunk hsize hpayload
          have hdata := (readPayload_eq_ok hpayload).1
          exact ⟨c₂, _, rfl, ⟨rfl, by dsimp only; omega, hboth⟩, .inr ⟨rfl, size, hdecode⟩⟩

/-- A length above `maxPayload` is too much for a buffer of just the size `Read` asks for. -/
theorem read_oversize {size : Nat} {c : Cursor} (hsize : r.toCursor.readSize aead = (c, .ok size))
    (hlarge : maxPayload < size) (hlen : p.len = maxPayload + aead.overhead) :
    ¬ (r.read aead p).2.Safe p := by
  intro hsafe
  have hpart : ⟨0, size + aead.overhead, p.len⟩ ∈ (r.read aead p).2.accesses := by
    have hcap := p.len_le
    unfold Reader.read
    rw [if_neg (by unfold lenSize; unfold maxPayload at hlen; omega), hsize]
    dsimp only
    split
    · exact List.mem_cons_of_mem _ List.mem_cons_self
    · split <;> exact List.mem_cons_of_mem _ List.mem_cons_self
  have := (hsafe.inBounds _ hpart).2
  dsimp only at this
  omega

/-- A chunk is read in place, if there is room. -/
theorem read_chunk {size : Nat} {c c' : Cursor} {data : List UInt8}
    (hsize : r.toCursor.readSize aead = (c, .ok size))
    (hpayload : c.readPayload aead size = (c', .ok data))
    (hcap : lenSize + aead.overhead ≤ p.cap) (hroom : size + aead.overhead ≤ p.cap) :
    ∃ accesses, r.read aead p = ({ r with toCursor := c' }, ⟨data, none, false, accesses⟩) := by
  unfold Reader.read
  rw [if_neg (Nat.not_lt.mpr hcap), hsize]
  dsimp only
  rw [if_neg (Nat.not_lt.mpr hroom), hpayload]
  exact ⟨_, rfl⟩

/-- What `buf` still holds. -/
def Reader.pending (r : Reader) : List UInt8 :=
  match r.buf with
  | some buf => buf.drop r.offset
  | none => []

/-- `offset` is within `buf`. -/
def Reader.Fits (r : Reader) : Prop := ∀ buf, r.buf = some buf → r.offset ≤ buf.length

theorem copy_spec {buf : List UInt8} (hoffset : r.offset ≤ buf.length) :
    ∃ r' res, r.copy buf p.len = (r', res) ∧ res.Safe p ∧ res.err = none ∧ r'.Fits ∧
      r'.toCursor = r.toCursor ∧ res.data ++ r'.pending = buf.drop r.offset := by
  have hlen : ((buf.drop r.offset).take p.len).length ≤ buf.length - r.offset := by
    rw [List.length_take, List.length_drop]
    exact Nat.min_le_right _ _
  refine ⟨_, _, rfl, ⟨rfl, List.length_take_le _ _, fun a ha => ?_⟩, rfl, ?_, rfl, ?_⟩
  · rw [List.mem_singleton.mp ha]
    exact ⟨hoffset, Nat.le_refl _⟩
  · intro buf' hbuf
    dsimp only at hbuf ⊢
    split at hbuf <;> cases hbuf
    omega
  · have hdrop : buf.drop (r.offset + ((buf.drop r.offset).take p.len).length) =
        (buf.drop r.offset).drop p.len := by
      rw [← List.drop_drop, List.length_take]
      exact List.drop_eq_drop_min.symm
    unfold Reader.pending
    dsimp only
    split
    · rename_i buf' hbuf
      split at hbuf <;> cases hbuf
      rw [hdrop, List.take_append_drop]
    · rename_i hnone
      split at hnone <;> cases hnone
      rename_i hend
      rw [hend, List.drop_length] at hdrop
      rw [List.append_nil]
      exact (List.take_append_drop p.len _).symm.trans (hdrop ▸ List.append_nil _) |>.symm

theorem getBuffer_len (size : Nat) : (getBuffer size).len = size := by
  unfold getBuffer
  split <;> rfl

/-- `Read` goes on with what `decode` says, whichever way it takes. -/
theorem Read_cases (hfits : r.Fits)
    (hsizes : ∀ size ∈ (decode aead r.toCursor).sizes, size ≤ maxPayload) :
    ∃ r' res, r.Read aead p = (r', res) ∧ res.Safe p ∧ r'.Fits ∧
      ((∃ err, res.err = some err ∧ res.data = [] ∧ r.pending = [] ∧
          (decode aead r.toCursor).text = [] ∧ (decode aead r.toCursor).err = err) ∨
        (res.err = none ∧
          r.pending ++ (decode aead r.toCursor).text =
            res.data ++ (r'.pending ++ (decode aead r'.toCursor).text) ∧
          (decode aead r'.toCursor).err = (decode aead r.toCursor).err ∧
          ∀ size ∈ (decode aead r'.toCursor).sizes, size ∈ (decode aead r.toCursor).sizes)) := by
  unfold Reader.Read
  cases hbuf : r.buf with
  | some buf =>
    have hpending : r.pending = buf.drop r.offset := by
      rw [Reader.pending, hbuf]
    obtain ⟨r', res, hcopy, hsafe, herr, hfits', hcursor, hdata⟩ :=
      copy_spec (p := p) (hfits buf hbuf)
    refine ⟨r', res, hcopy, hsafe, hfits', .inr ⟨herr, ?_, by rw [hcursor], ?_⟩⟩
    · rw [hcursor, hpending, ← hdata, List.append_assoc]
    · rw [hcursor]
      exact fun _ h => h
  | none =>
    have hpending : r.pending = [] := by
      rw [Reader.pending, hbuf]
    dsimp only
    by_cases hlarge : maxPayload + aead.overhead ≤ p.len
    · -- the caller's buffer
      rw [if_pos hlarge]
      obtain ⟨c, res, hread, hsafe, ⟨err, sizes, herr, hdata, hdecode⟩ | ⟨herr, size, hdecode⟩⟩ :=
        read_cases hlarge hsizes
      all_goals
        refine ⟨_, res, hread, hsafe, fun buf h => ?_, ?_⟩
        · cases hbuf.symm.trans h
      · exact .inl ⟨err, herr, hdata, hpending, by rw [hdecode], by rw [hdecode]⟩
      · refine .inr ⟨herr, ?_, by rw [hdecode], ?_⟩
        · have hpending' : { r with toCursor := c }.pending = [] := hpending
          rw [hpending, hpending', hdecode]
          rfl
        · rw [hdecode]
          exact fun size h => List.mem_cons_of_mem _ h
    · -- the internal one
      rw [if_neg hlarge]
      have hpool : maxPayload + aead.overhead ≤ (getBuffer bufSize).len := by
        rw [getBuffer_len]
        have := aead.fits
        omega
      obtain ⟨c, res, hread, hsafe, ⟨err, sizes, herr, hdata, hdecode⟩ | ⟨herr, size, hdecode⟩⟩ :=
        read_cases hpool hsizes
      · rw [hread]
        dsimp only
        rw [herr, Option.isSome_some, Bool.or_true, if_pos rfl]
        refine ⟨_, _, rfl, ⟨hsafe.returns, Nat.zero_le _, hsafe.inBounds⟩, fun buf h => ?_, ?_⟩
        · cases hbuf.symm.trans h
        · exact .inl ⟨err, rfl, rfl, hpending, by rw [hdecode], by rw [hdecode]⟩
      · rw [hread]
        dsimp only
        rw [herr, hsafe.returns, Option.isSome_none, Bool.or_false, if_neg nofun]
        obtain ⟨r', out, hcopy, hsafe', herr', hfits', hcursor, hdata⟩ :=
          copy_spec (r := { r with toCursor := c, offset := 0 }) (p := p)
            (Nat.zero_le res.data.length)
        rw [hcopy]
        have hc : r'.toCursor = c := hcursor
        refine ⟨r', _, rfl, ⟨hsafe'.returns, hsafe'.n_le, fun a ha => ?_⟩, hfits',
          .inr ⟨herr', ?_, ?_, ?_⟩⟩
        · obtain ha | ha := List.mem_append.mp ha
          · exact hsafe.inBounds a ha
          · exact hsafe'.inBounds a ha
        · have hres : out.data ++ r'.pending = res.data := hdata
          show _ = out.data ++ _
          rw [hpending, hc, hdecode, ← hres, List.append_assoc]
          rfl
        · rw [hc, hdecode]
        · rw [hc, hdecode]
          exact fun size h => List.mem_cons_of_mem _ h

end Read

/-! ### All calls -/

/-- A reader, the bytes it has delivered, the error it has ended with, and its calls. -/
structure Reading where
  reader : Reader
  delivered : List UInt8
  final : Option IoErr
  calls : List (Buffer × Result)

def Reading.start (aead : AEAD) (src : Source) : Reading := ⟨newReader aead src, [], none, []⟩

/-- A call with a buffer; after an error or a panic there are no more. -/
def reads (aead : AEAD) : Machine Reading Buffer where
  step s p :=
    if s.final.isSome || s.calls.any fun call => call.2.panicked then some s
    else
      let (reader, res) := s.reader.Read aead p
      some ⟨reader, s.delivered ++ res.data, res.err, s.calls ++ [(p, res)]⟩

def Reading.Safe (s : Reading) : Prop := ∀ call ∈ s.calls, call.2.Safe call.1

/-- The calls are safe, and two sequences of them that come to an end deliver the same bytes
and end with the same error; before that, the one has delivered a prefix of the other. -/
def Agree (aead : AEAD) (src : Source) : Prop :=
  ∀ ps ps' s s', (reads aead).run (.start aead src) ps = some s →
    (reads aead).run (.start aead src) ps' = some s' →
    s.Safe ∧ (s.delivered <+: s'.delivered ∨ s'.delivered <+: s.delivered) ∧
      (s.final.isSome → s'.final.isSome → s.delivered = s'.delivered ∧ s.final = s'.final)

/-- The reader is on its way through the stream, or has come to its end. -/
structure Tracks (aead : AEAD) (whole : Decoded) (s : Reading) : Prop where
  safe : s.Safe
  fits : s.reader.Fits
  going : s.final = none →
    whole.text = s.delivered ++ (s.reader.pending ++ (decode aead s.reader.toCursor).text) ∧
      whole.err = (decode aead s.reader.toCursor).err ∧
      ∀ size ∈ (decode aead s.reader.toCursor).sizes, size ∈ whole.sizes
  ended : ∀ err, s.final = some err → s.delivered = whole.text ∧ err = whole.err

namespace Tracks

variable {aead : AEAD} {whole : Decoded} {s s' : Reading} {p : Buffer}

theorem start (aead : AEAD) (src : Source) :
    Tracks aead (decode aead (newReader aead src).toCursor) (.start aead src) where
  safe := nofun
  fits := nofun
  going _ := ⟨rfl, rfl, fun _ h => h⟩
  ended := nofun

theorem delivered_prefix (inv : Tracks aead whole s) : s.delivered <+: whole.text := by
  cases hfinal : s.final with
  | none =>
    rw [(inv.going hfinal).1]
    exact List.prefix_append _ _
  | some err =>
    have hall := (inv.ended err hfinal).1
    exact hall ▸ List.prefix_rfl

theorem step (inv : Tracks aead whole s) (hsizes : ∀ size ∈ whole.sizes, size ≤ maxPayload)
    (h : (reads aead).step s p = some s') : Tracks aead whole s' := by
  unfold reads at h
  dsimp only at h
  split at h
  · cases h
    exact inv
  · rename_i hgoing
    have hfinal : s.final = none := by
      cases hfinal : s.final with
      | none => rfl
      | some err => simp [hfinal] at hgoing
    obtain ⟨htext, herr, hsub⟩ := inv.going hfinal
    obtain ⟨r', res, hread, hsafe, hfits, hcases⟩ :=
      Read_cases (p := p) inv.fits fun size h => hsizes size (hsub size h)
    rw [hread] at h
    cases h
    have hcalls : ∀ call ∈ s.calls ++ [(p, res)], call.2.Safe call.1 := by
      intro call hcall
      obtain hcall | hcall := List.mem_append.mp hcall
      · exact inv.safe call hcall
      · rw [List.mem_singleton.mp hcall]
        exact hsafe
    obtain ⟨err, hres, hdata, hpending, hend, herr'⟩ | ⟨hres, hdata, herr', hsub'⟩ := hcases
    · -- the stream ends here
      refine ⟨hcalls, hfits, fun hnone => ?_, fun err' hsome => ?_⟩
      · cases hres.symm.trans hnone
      · cases hres.symm.trans hsome
        rw [htext, hdata, hpending, hend, herr, herr']
        exact ⟨rfl, rfl⟩
    · refine ⟨hcalls, hfits, fun _ => ⟨?_, ?_, ?_⟩, fun err' hsome => ?_⟩
      · rw [htext, hdata, List.append_assoc]
      · rw [herr, herr']
      · exact fun size h => hsub size (hsub' size h)
      · cases hres.symm.trans hsome

theorem of_run {src : Source}
    (hsizes : ∀ size ∈ (decode aead (newReader aead src).toCursor).sizes, size ≤ maxPayload)
    {ps : List Buffer} (hrun : (reads aead).run (.start aead src) ps = some s) :
    Tracks aead (decode aead (newReader aead src).toCursor) s :=
  (reads aead).run_invariant (fun _ _ _ inv h => inv.step hsizes h) hrun (start aead src)

end Tracks

/-- A stream with a length above `maxPayload` has a run that leaves its buffer: read every
chunk in place, with a buffer that is just large enough. -/
theorem exists_unsafe {aead : AEAD} (s : Reading) (hbuf : s.reader.buf = none)
    (hfinal : s.final = none) (hcalm : (s.calls.any fun call => call.2.panicked) = false)
    {size : Nat} (hsize : size ∈ (decode aead s.reader.toCursor).sizes)
    (hlarge : maxPayload < size) : ∃ ps s', (reads aead).run s ps = some s' ∧ ¬ s'.Safe := by
  induction hn : s.reader.src.data.length using Nat.strong_induction_on generalizing s with
  | _ n ih =>
    let p : Buffer := ⟨maxPayload + aead.overhead, maxPayload + aead.overhead, Nat.le_refl _⟩
    have hread : s.reader.Read aead p = s.reader.read aead p := by
      unfold Reader.Read
      rw [hbuf]
      exact if_pos (Nat.le_refl _)
    have hstep : (reads aead).step s p = some ⟨(s.reader.read aead p).1,
        s.delivered ++ (s.reader.read aead p).2.data, (s.reader.read aead p).2.err,
        s.calls ++ [(p, (s.reader.read aead p).2)]⟩ := by
      unfold reads
      dsimp only
      rw [hfinal, hcalm, hread]
      rfl
    cases hfirst : s.reader.toCursor.readSize aead with
    | mk c₁ first? =>
      cases first? with
      | error err =>
        rw [decode_of_size_error hfirst] at hsize
        cases hsize
      | ok first =>
        by_cases hover : maxPayload < first
        · refine ⟨[p], _, by rw [Machine.run_cons_of_step _ hstep]; rfl, fun hsafe => ?_⟩
          have hlast := hsafe _ (List.mem_append_right _ List.mem_cons_self)
          exact read_oversize hfirst hover rfl hlast
        · have hne : size ≠ first := by omega
          cases hpayload : c₁.readPayload aead first with
          | mk c₂ data? =>
            cases data? with
            | error err =>
              rw [decode_of_payload_error hfirst hpayload] at hsize
              exact absurd (List.mem_singleton.mp hsize) hne
            | ok data =>
              rw [decode_of_chunk hfirst hpayload] at hsize
              have hrest := (List.mem_cons.mp hsize).resolve_left hne
              obtain ⟨accesses, hchunk⟩ := read_chunk (p := p) hfirst hpayload
                (Nat.add_le_add_right (by decide) _) (Nat.add_le_add_right (Nat.not_lt.mp hover) _)
              rw [hchunk] at hstep
              have hless := (readSize_eq_ok hfirst).2
              have hless' := (readPayload_eq_ok hpayload).2
              obtain ⟨ps, s', hrun, hunsafe⟩ := ih c₂.src.data.length (by omega)
                ⟨{ s.reader with toCursor := c₂ }, s.delivered ++ data, none,
                  s.calls ++ [(p, ⟨data, none, false, accesses⟩)]⟩ hbuf rfl
                (by rw [List.any_append, hcalm]; rfl) hrest rfl
              exact ⟨p :: ps, s', by rw [Machine.run_cons_of_step _ hstep]; exact hrun, hunsafe⟩

/-- **Agreement of the two paths.** For every AEAD and every byte stream: the calls are safe and
agree, whatever their buffers, exactly when every length that can be decrypted is at most
`maxPayload`. -/
theorem reads_agree_iff (aead : AEAD) (src : Source) :
    Agree aead src ↔
      ∀ size ∈ (decode aead (newReader aead src).toCursor).sizes, size ≤ maxPayload := by
  constructor
  · intro hagree size hsize
    by_contra hlarge
    obtain ⟨ps, s, hrun, hunsafe⟩ :=
      exists_unsafe (.start aead src) rfl rfl rfl hsize (Nat.not_le.mp hlarge)
    exact hunsafe (hagree ps ps s s hrun hrun).1
  · intro hsizes ps ps' s s' hrun hrun'
    have inv := Tracks.of_run hsizes hrun
    have inv' := Tracks.of_run hsizes hrun'
    refine ⟨inv.safe, List.prefix_or_prefix_of_prefix inv.delivered_prefix inv'.delivered_prefix,
      fun hfinal hfinal' => ?_⟩
    obtain ⟨err, hfinal⟩ := Option.isSome_iff_exists.mp hfinal
    obtain ⟨err', hfinal'⟩ := Option.isSome_iff_exists.mp hfinal'
    obtain ⟨hdelivered, rfl⟩ := inv.ended err hfinal
    obtain ⟨hdelivered', rfl⟩ := inv'.ended err' hfinal'
    exact ⟨hdelivered.trans hdelivered'.symm, hfinal.trans hfinal'.symm⟩

/-- Any length a key-holding peer seals is what `read` gets. -/
theorem readSize_seal (aead : AEAD) {size : Nat} (hsize : size < 65536) (nonce rest : List UInt8)
    (fail : IoErr) :
    Cursor.readSize aead ⟨⟨aead.Seal nonce (bigEndianBytes lenSize size) ++ rest, fail⟩, nonce⟩ =
      (⟨⟨rest, fail⟩, increment nonce⟩, .ok size) := by
  have hsealed : (aead.Seal nonce (bigEndianBytes lenSize size)).length =
      lenSize + aead.overhead := by
    rw [aead.length_seal, length_bigEndianBytes]
  have hread : readFull (lenSize + aead.overhead)
      ⟨aead.Seal nonce (bigEndianBytes lenSize size) ++ rest, fail⟩ =
        (aead.Seal nonce (bigEndianBytes lenSize size), none, ⟨rest, fail⟩) :=
    readFull_append hsealed rest fail
  have hnumber : bigEndian (bigEndianBytes lenSize size) = size := by
    rw [bigEndian_bigEndianBytes]
    exact Nat.mod_eq_of_lt hsize
  unfold Cursor.readSize Cursor.openNext
  rw [hread]
  dsimp only
  rw [aead.open_seal]
  dsimp only
  rw [List.take_left' (length_bigEndianBytes lenSize size), hnumber]

/-- A peer that seals a length above `maxPayload` has the reader leave its buffer, whatever the
AEAD and whatever follows. -/
theorem not_agree_of_oversize (aead : AEAD) {size : Nat} (hlarge : maxPayload < size)
    (hsize : size < 65536) (rest : List UInt8) (fail : IoErr) :
    ¬ Agree aead ⟨aead.Seal (List.replicate aead.nonceSize 0) (bigEndianBytes lenSize size) ++ rest,
      fail⟩ := by
  intro hagree
  have hfirst := readSize_seal aead hsize (List.replicate aead.nonceSize 0) rest fail
  generalize hsrc : (⟨aead.Seal (List.replicate aead.nonceSize 0) (bigEndianBytes lenSize size) ++
    rest, fail⟩ : Source) = src at hfirst hagree
  have hmem : size ∈ (decode aead (newReader aead src).toCursor).sizes := by
    cases hpayload : Cursor.readPayload aead ⟨⟨rest, fail⟩, _⟩ size with
    | mk c data? =>
      cases data? with
      | error err =>
        rw [newReader, decode_of_payload_error hfirst hpayload]
        exact List.mem_cons_self
      | ok data =>
        rw [newReader, decode_of_chunk hfirst hpayload]
        exact List.mem_cons_self
  obtain ⟨ps, s, hrun, hunsafe⟩ := exists_unsafe (.start aead src) rfl rfl rfl hmem hlarge
  exact hunsafe (hagree ps ps s s hrun hrun).1

/-- An AEAD that hides nothing: `Seal` appends sixteen zeros and `Open` asks for them. -/
def plainAead : AEAD where
  nonceSize := 12
  overhead := 16
  Seal _ p := p ++ List.replicate 16 0
  Open _ c :=
    if 16 ≤ c.length ∧ c.drop (c.length - 16) = List.replicate 16 0 then
      some (c.take (c.length - 16))
    else none
  authErr := .text (ascii "cipher: message authentication failed")
  open_seal _ p := by simp
  length_seal _ p := by simp
  length_open _ c p h := by
    split at h <;> cases h
    rename_i hc
    rw [List.length_take]
    omega
  nonceSize_le := by decide
  fits := by decide

/-- A peer sends a length of 65535. The caller's buffer has the size `Read` asks for, and is
re-sliced far beyond it. -/
theorem oversize_chunk_overruns :
    ((reads plainAead).run
      (.start plainAead ⟨plainAead.Seal (List.replicate 12 0) [0xff, 0xff], .eof⟩)
      [⟨16399, 16399, Nat.le_refl _⟩]).map
        (fun s => s.calls.map fun call => (call.2.accesses, call.2.panicked)) =
      some [([⟨0, 18, 16399⟩, ⟨0, 65551, 16399⟩], true)] := by
  decide +kernel

end Glider.Ss
