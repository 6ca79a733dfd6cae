/-
The reader of the TLS obfuscation (`proxy/obfs/tls.go`): records with a length, after a fixed
number of bytes that imitate the server's part of a handshake.

The connection is read through a `bufio.Reader`. The bytes before a length are dropped with
`Discard`, whose error is ignored: if it was cut short and the connection goes on all the same,
the length is taken from the wrong place. A read of the payload that is as large as the buffer of
the `bufio.Reader` goes past it, and may then return bytes with an error, which are dropped.

* `decoder_tracks` — as long as no ignored error shifts the records, every call accounts for the
  bytes it took, one that fails exactly if the error came alone in the payload.
-/

import Glider.Go.Binary
import Glider.Go.Bufio
import Glider.Lib.Decoder

namespace Glider.Obfs

open Glider.Go Glider.Lib

def lenSize : Nat := 2

/-- Server Hello and Change Cipher Spec. -/
def helloSize : Nat := 102

/-- Content type and version, before the length. -/
def typeSize : Nat := 3

/-- `TLSObfsConn`, as far as it is read from: there is no `bufio.Reader` before the first
`Read`. -/
inductive TLSObfsConn where
  | unread (conn : Transport)
  | reading (reader : Bufio) (leftBytes : Nat)
deriving DecidableEq, Repr

namespace TLSObfsConn

/-- The start of a record: the error that is ignored, the one that is not, and the length. -/
def readLength (reader : Bufio) : Option IoErr × Option IoErr × Nat × Bufio :=
  let (reader, _, ignored) := reader.Discard typeSize
  let (buf, err, reader) := reader.readFull lenSize
  (ignored, err, bigEndian buf, reader)

/-- The last part of `Read`: one read of the `bufio.Reader`. -/
def readData (reader : Bufio) (leftBytes len : Nat) : TLSObfsConn × List UInt8 × Option IoErr :=
  match reader.read (min len leftBytes) with
  | (_, some err, reader) => (.reading reader leftBytes, [], some err)
  | (data, none, reader) => (.reading reader (leftBytes - data.length), data, none)

/-- `Read` after its first lines. -/
def readRecord (reader : Bufio) (leftBytes len : Nat) : TLSObfsConn × List UInt8 × Option IoErr :=
  if leftBytes = 0 then
    match readLength reader with
    | (_, some err, _, reader) => (.reading reader leftBytes, [], some err)
    | (_, none, n, reader) => readData reader n len
  else readData reader leftBytes len

/-- `Read` with a buffer of `len` bytes. -/
def Read (c : TLSObfsConn) (len : Nat) : TLSObfsConn × List UInt8 × Option IoErr :=
  match c with
  | .unread conn => readRecord ((Bufio.new conn).Discard helloSize).1 0 len
  | .reading reader leftBytes => readRecord reader leftBytes len

/-- The reader and the length when a call of `Read` comes to the payload, if it does. -/
def atData (reader : Bufio) (leftBytes : Nat) : Option (Bufio × Nat) :=
  if leftBytes = 0 then
    match readLength reader with
    | (_, some _, _, _) => none
    | (_, none, n, reader) => some (reader, n)
  else some (reader, leftBytes)

/-- The reader after the first lines of `Read`, the bytes left of a record, and the error that was
ignored. -/
def start : TLSObfsConn → Bufio × Nat × Option IoErr
  | .unread conn =>
    let (reader, _, ignored) := (Bufio.new conn).Discard helloSize
    (reader, 0, ignored)
  | .reading reader leftBytes => (reader, leftBytes, none)

/-- No payload byte comes with an error. -/
def Alone (c : TLSObfsConn) (len : Nat) : Prop :=
  ∀ q ∈ atData c.start.1 c.start.2.1,
    (q.1.read (min len q.2)).2.1 = none ∨ (q.1.read (min len q.2)).1 = []

instance (c : TLSObfsConn) (len : Nat) : Decidable (c.Alone len) :=
  inferInstanceAs (Decidable (∀ q ∈ atData c.start.1 c.start.2.1, _ ∨ _))

/-- A `Discard` that is cut short is not followed by a length. -/
def Aligned (c : TLSObfsConn) (_ : Nat) : Prop :=
  c.start.2.1 = 0 → c.start.2.2 ≠ none ∨ (readLength c.start.1).1 ≠ none →
    (readLength c.start.1).2.1 ≠ none

instance (c : TLSObfsConn) (len : Nat) : Decidable (c.Aligned len) :=
  inferInstanceAs (Decidable (_ → _ → _))

end TLSObfsConn

/-- Records of the obfuscation, with any type and version. -/
def recordFormat : RecordFormat Unit UInt8 where
  headerSize := typeSize + lenSize
  headerSize_pos := by decide
  length _ header := bigEndian (header.drop typeSize)
  next _ _ := ()

def TLSObfsConn.payload : TLSObfsConn → List UInt8 → List UInt8
  | .unread _, bs => recordFormat.records () (bs.drop helloSize)
  | .reading _ leftBytes, bs => recordFormat.body () leftBytes bs

def decoder : Decoder TLSObfsConn Nat UInt8 IoErr where
  read := TLSObfsConn.Read
  ahead
    | .unread conn => conn.bytes
    | .reading reader _ => reader.bytes
  below
    | .unread conn => conn.bytes
    | .reading reader _ => reader.src.bytes
  payload := TLSObfsConn.payload

namespace TLSObfsConn

/-- The bytes and the answers that are left. -/
def size : TLSObfsConn → Nat
  | .unread conn => conn.size
  | .reading reader _ => reader.size

/-- The first lines of `Read`. Cut short or not, they do not come to the payload. -/
theorem start_takes (c : TLSObfsConn) :
    ∃ xs, decoder.ahead c = xs ++ c.start.1.bytes ∧ c.start.1.size ≤ c.size ∧
      (c.start.2.2 = none → ∀ ys, c.payload (xs ++ ys) = recordFormat.body () c.start.2.1 ys) ∧
      (c.start.2.1 = 0 → ∀ ys, ys.length < recordFormat.headerSize →
        c.payload (xs ++ ys) = []) := by
  cases c with
  | reading reader leftBytes =>
    refine ⟨[], rfl, Nat.le_refl _, fun _ ys => rfl, fun hleft ys hshort => ?_⟩
    dsimp only [start] at hleft
    rw [hleft]
    exact RecordFormat.records_of_short hshort
  | unread conn =>
    cases hdiscard : (Bufio.new conn).Discard helloSize with
    | mk reader rest =>
      obtain ⟨k, ignored⟩ := rest
      obtain ⟨xs, htakes, hlen, hiff, -⟩ := Bufio.Discard_takes hdiscard
      have hsize : reader.size ≤ conn.size := by
        have hle := htakes.size_le
        simp only [Bufio.new, Bufio.size, List.length_nil] at hle ⊢
        omega
      have hstart : (unread conn).start = (reader, 0, ignored) := by
        simp only [start, hdiscard]
      rw [hstart]
      refine ⟨xs, htakes.bytes_eq, hsize, fun hnone ys => ?_, fun _ ys hshort => ?_⟩
      · have hxs : xs.length = helloSize := by
          have hk := hiff.mp hnone
          omega
        rw [payload, ← hxs, List.drop_left]
        rfl
      · apply RecordFormat.records_of_short
        rw [List.length_drop, List.length_append]
        omega

/-- The start of a record, read or not. -/
theorem readLength_takes {reader reader' : Bufio} {ignored err : Option IoErr} {n : Nat}
    (h : readLength reader = (ignored, err, n, reader')) :
    ∃ header, reader.Takes header reader' ∧
      (err = none → lenSize ≤ header.length ∧ (ignored = none →
        header.length = recordFormat.headerSize ∧ n = recordFormat.length () header)) ∧
      (err ≠ none → reader'.buf = [] ∧ header.length < recordFormat.headerSize) := by
  unfold readLength at h
  cases hdiscard : reader.Discard typeSize with
  | mk mid rest =>
    obtain ⟨k, ignored'⟩ := rest
    cases hread : mid.readFull lenSize with
    | mk buf rest =>
      obtain ⟨err', reader''⟩ := rest
      rw [hdiscard] at h
      dsimp only at h
      rw [hread] at h
      cases h
      obtain ⟨xs, htakes, hlen, hiff, -⟩ := Bufio.Discard_takes hdiscard
      obtain ⟨htakes', hle, hiff', hbuf⟩ := Bufio.readFull_takes hread
      have hheader : recordFormat.headerSize = typeSize + lenSize := rfl
      refine ⟨xs ++ buf, htakes.trans htakes', fun herr => ⟨?_, fun hnone => ⟨?_, ?_⟩⟩,
        fun herr => ⟨hbuf herr, ?_⟩⟩
      · have := hiff'.mp herr
        rw [List.length_append]
        omega
      · have := hiff'.mp herr
        have := hiff.mp hnone
        rw [List.length_append]
        omega
      · have hxs : xs.length = typeSize := by
          have := hiff.mp hnone
          omega
        show _ = bigEndian ((xs ++ buf).drop typeSize)
        rw [← hxs, List.drop_left]
      · have hne : buf.length ≠ lenSize := fun h => herr (hiff'.mpr h)
        rw [List.length_append]
        omega

/-- What `Read` can do: come to the payload, or fail at a length. -/
theorem Read_cases (c : TLSObfsConn) (len : Nat) :
    (∃ xs q, atData c.start.1 c.start.2.1 = some q ∧ decoder.ahead c = xs ++ q.1.bytes ∧
      (q.1.size < c.size ∨ q.2 ≠ 0 ∧ q.1.size ≤ c.size) ∧
      (c.Aligned len → ∀ ys, c.payload (xs ++ ys) = recordFormat.body () q.2 ys) ∧
      c.Read len = readData q.1 q.2 len) ∨
    ∃ xs err reader, atData c.start.1 c.start.2.1 = none ∧
      decoder.ahead c = xs ++ reader.bytes ∧ reader.buf = [] ∧ c.payload xs = [] ∧
      c.Read len = (.reading reader 0, [], some err) := by
  have hcall : c.Read len = readRecord c.start.1 c.start.2.1 len := by cases c <;> rfl
  obtain ⟨xs, hahead, hsize, hpayload, hshort⟩ := c.start_takes
  rw [hcall]
  unfold readRecord atData
  by_cases hleft : c.start.2.1 = 0
  · rw [if_pos hleft, if_pos hleft]
    cases hlength : readLength c.start.1 with
    | mk ignored rest =>
      obtain ⟨err, n, reader⟩ := rest
      obtain ⟨header, htakes, hok, hfail⟩ := readLength_takes hlength
      have hahead' : decoder.ahead c = xs ++ header ++ reader.bytes := by
        rw [hahead, htakes.bytes_eq, List.append_assoc]
      cases err with
      | none =>
        obtain ⟨hlen, hheader⟩ := hok rfl
        refine .inl ⟨xs ++ header, (reader, n), rfl, hahead', .inl ?_, fun aligned ys => ?_, rfl⟩
        · have hle := htakes.size_le
          unfold lenSize at hlen
          dsimp only
          omega
        · -- no error has been ignored, since there is a length
          have hnot := fun h => aligned hleft h (by rw [hlength])
          rw [hlength] at hnot
          have hstart : c.start.2.2 = none := Classical.not_not.mp fun h => hnot (.inl h)
          have hignored : ignored = none := Classical.not_not.mp fun h => hnot (.inr h)
          obtain ⟨hfull, rfl⟩ := hheader hignored
          rw [List.append_assoc, hpayload hstart, hleft, RecordFormat.body_zero,
            RecordFormat.records_header hfull]
      | some err =>
        obtain ⟨hbuf, hless⟩ := hfail (by simp)
        exact .inr ⟨xs ++ header, err, reader, rfl, hahead', hbuf, hshort hleft header hless,
          by rw [hleft]⟩
  · rw [if_neg hleft, if_neg hleft]
    refine .inl ⟨xs, (c.start.1, c.start.2.1), rfl, hahead, .inr ⟨hleft, hsize⟩, fun _ => ?_, rfl⟩
    apply hpayload
    cases c with
    | unread conn => exact absurd rfl hleft
    | reading reader leftBytes => rfl

/-- What the read of the payload can do. -/
theorem readData_cases (reader : Bufio) (leftBytes len : Nat) :
    (∃ data reader', reader.read (min len leftBytes) = (data, none, reader') ∧
      readData reader leftBytes len = (.reading reader' (leftBytes - data.length), data, none)) ∨
    ∃ data err reader', reader.read (min len leftBytes) = (data, some err, reader') ∧
      readData reader leftBytes len = (.reading reader' leftBytes, [], some err) := by
  unfold readData
  cases reader.read (min len leftBytes) with
  | mk data rest =>
    obtain ⟨err, reader'⟩ := rest
    cases err with
    | none => exact .inl ⟨data, reader', rfl, rfl⟩
    | some err => exact .inr ⟨data, err, reader', rfl, rfl⟩

end TLSObfsConn

open TLSObfsConn in
theorem decoder_tracks : decoder.Tracks TLSObfsConn.Aligned TLSObfsConn.Alone where
  going c len c' data aligned hread := by
    obtain ⟨xs, q, hat, hahead, -, hpayload, hcall⟩ | ⟨xs, err, reader, -, -, -, -, hcall⟩ :=
      c.Read_cases len
    · obtain ⟨data', reader, hsrc, hdata⟩ | ⟨data', err, reader, hsrc, hdata⟩ :=
        readData_cases q.1 q.2 len
      · cases hdata.symm.trans (hcall.symm.trans hread)
        obtain ⟨htakes, hle, -⟩ := Bufio.read_takes hsrc
        refine ⟨fun q' hq => ?_, xs ++ data, ?_, fun ys => ?_⟩
        · cases hat.symm.trans hq
          exact .inl (by rw [hsrc])
        · rw [hahead, htakes.bytes_eq, List.append_assoc]
          rfl
        · rw [List.append_assoc]
          exact (hpayload aligned _).trans
            (RecordFormat.body_append (Nat.le_trans hle (Nat.min_le_right ..)) ys)
      · cases hdata.symm.trans (hcall.symm.trans hread)
    · cases hcall.symm.trans hread
  ended c len c' data e aligned hread := by
    obtain ⟨xs, q, hat, hahead, -, hpayload, hcall⟩ |
        ⟨xs, err, reader, hat, hahead, hbuf, hnone, hcall⟩ := c.Read_cases len
    · obtain ⟨data', reader, hsrc, hdata⟩ | ⟨data', err, reader, hsrc, hdata⟩ :=
        readData_cases q.1 q.2 len
      · cases hdata.symm.trans (hcall.symm.trans hread)
      · cases hdata.symm.trans (hcall.symm.trans hread)
        obtain ⟨htakes, hle, hbuf⟩ := Bufio.read_takes hsrc
        have halone : c.Alone len ↔ data' = [] := by simp [Alone, hat, hsrc]
        have hdata' : decoder.payload c (xs ++ data') = data' :=
          (hpayload aligned data').trans
            (RecordFormat.body_of_length_le (Nat.le_trans hle (Nat.min_le_right ..)))
        refine ⟨xs ++ data', ?_, by rw [hdata', halone]⟩
        rw [hahead, htakes.bytes_eq, List.append_assoc, Bufio.bytes, hbuf (by simp)]
        rfl
    · cases hcall.symm.trans hread
      have halone : c.Alone len := fun q hq => by cases hat.symm.trans hq
      refine ⟨xs, ?_, fun _ => halone, fun _ => hnone⟩
      rw [hahead, Bufio.bytes, hbuf]
      rfl

open TLSObfsConn in
theorem decoder_lowers (c : TLSObfsConn) (len : Nat) (c' : TLSObfsConn) (data : List UInt8)
    (hlen : 0 < len) (hread : decoder.read c len = (c', data, none)) : c'.size < c.size := by
  obtain ⟨xs, q, -, -, hsize, -, hcall⟩ | ⟨xs, err, reader, -, -, -, -, hcall⟩ := c.Read_cases len
  · obtain ⟨data', reader, hsrc, hdata⟩ | ⟨data', err, reader, hsrc, hdata⟩ :=
      readData_cases q.1 q.2 len
    · cases hdata.symm.trans (hcall.symm.trans hread)
      have hle := (Bufio.read_takes hsrc).1.size_le
      show reader.size < _
      obtain hlt | ⟨hleft, hle'⟩ := hsize
      · omega
      · have hlt := Bufio.read_size_lt (by omega) hsrc
        omega
    · cases hdata.symm.trans (hcall.symm.trans hread)
  · cases hcall.symm.trans hread

end Glider.Obfs
