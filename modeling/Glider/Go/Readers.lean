/-
Readers built on readers: `io.TeeReader` and `io.LimitReader`.

A `ByteReader` is an `io.Reader` whose state carries a measure that a read without error lowers,
so that loops which read until an error come to an end.

* `Tee.readFull_keeps` — what a tee has copied and what is still to come make up the stream.
* `Tee.readFull_takes` — a full read gets the bytes that come first, however they are cut.
-/

import Glider.Go.Transport
import Glider.Lib.Reads

namespace Glider.Go

open Glider.Lib

/-- An `io.Reader` on states `S`. -/
structure ByteReader (S : Type) where
  read : Nat → S → List UInt8 × Option IoErr × S
  size : S → Nat
  size_lt : ∀ {n s s' data}, 0 < n → read n s = (data, none, s') → size s' < size s

/-- A transport is a reader. -/
def Transport.reader : ByteReader Transport where
  read := Transport.read
  size := Transport.size
  size_lt := Transport.read_size_lt

/-! ### LimitReader -/

/-- `io.LimitedReader`, with the number of bytes it still gives. -/
def limited {S : Type} (R : ByteReader S) : ByteReader (S × Nat) where
  read n s :=
    if s.2 = 0 then ([], some .eof, s)
    else
      let (data, err, r) := R.read (min n s.2) s.1
      (data, err, r, s.2 - data.length)
  size s := R.size s.1
  size_lt {n s s' data} hn h := by
    split at h
    · cases h
    rename_i hlimit
    cases hread : R.read (min n s.2) s.1 with
    | mk got rest =>
      obtain ⟨err, r⟩ := rest
      rw [hread] at h
      cases h
      exact R.size_lt (by omega) hread

/-! ### TeeReader -/

/-- `io.TeeReader` into a buffer: the reader below, and what has been copied. -/
structure Tee where
  conn : Transport
  head : List UInt8
deriving DecidableEq, Repr

namespace Tee

/-- Everything from the first byte on. -/
def stream (s : Tee) : List UInt8 := s.head ++ s.conn.bytes

/-- `Read`. The bytes are copied also if they come with an error. -/
def read (n : Nat) (s : Tee) : List UInt8 × Option IoErr × Tee :=
  let (data, err, conn) := s.conn.read n
  (data, err, ⟨conn, s.head ++ data⟩)

def reader : ByteReader Tee where
  read := read
  size s := s.conn.size
  size_lt {n s s' data} hn h := by
    unfold read at h
    cases hread : s.conn.read n with
    | mk got rest =>
      obtain ⟨err, conn⟩ := rest
      rw [hread] at h
      cases h
      exact Transport.read_size_lt hn hread

/-- `io.ReadFull` through the tee. -/
def readFull (n : Nat) : Reads Tee IoErr (List UInt8) := fun s =>
  match s.conn.readFull n with
  | (data, none, conn) => (.ok data, ⟨conn, s.head ++ data⟩)
  | (data, some err, conn) => (.error err, ⟨conn, s.head ++ data⟩)

/-- The stream is the given one, and no error comes before its end. -/
structure Of (stream : List UInt8) (s : Tee) : Prop where
  stream_eq : s.stream = stream
  final : s.conn.Final

theorem Of.move {stream data : List UInt8} {s : Tee} {conn : Transport} (h : Of stream s)
    (hbytes : s.conn.bytes = data ++ conn.bytes) (hfinal : conn.Final) :
    Of stream ⟨conn, s.head ++ data⟩ := by
  refine ⟨?_, hfinal⟩
  rw [← h.stream_eq, Tee.stream, Tee.stream, hbytes, List.append_assoc]

theorem readFull_keeps (stream : List UInt8) (n : Nat) : (readFull n).Keeps (Of stream) := by
  intro s hs
  unfold readFull
  cases hread : s.conn.readFull n with
  | mk data rest =>
    obtain ⟨err, conn⟩ := rest
    have hmove :=
      hs.move (Transport.readFull_bytes hread).1 (Transport.readFull_final hs.final hread)
    cases err with
    | none => exact hmove
    | some e => exact hmove

/-- The bytes still to be read, with no error before their end. -/
structure Unread (input : List UInt8) (s : Tee) : Prop where
  bytes_eq : s.conn.bytes = input
  final : s.conn.Final

/-- A stream that comes in one piece. -/
theorem unread_piece (data : List UInt8) :
    Unread (data ++ []) ⟨⟨[⟨data, none⟩], .eof⟩, []⟩ :=
  ⟨rfl, fun _ ha => by cases ha⟩

theorem readFull_takes {n : Nat} {data : List UInt8} (h : data.length = n) :
    (readFull n).Takes Unread data data := by
  intro rest s hs
  obtain ⟨conn, hread, hfinal, hrest⟩ := Transport.readFull_of_final hs.final hs.bytes_eq
  refine ⟨⟨conn, s.head ++ data⟩, ?_, hrest, hfinal⟩
  unfold readFull
  rw [← h, hread]

/-- A full read that succeeds has got the bytes that come first. -/
theorem readFull_ok {n : Nat} {input data : List UInt8} {s s' : Tee} (hs : Unread input s)
    (h : readFull n s = (.ok data, s')) :
    data.length = n ∧ ∃ rest, input = data ++ rest ∧ Unread rest s' := by
  unfold readFull at h
  split at h <;> cases h
  rename_i conn hread
  obtain ⟨hbytes, -, -, hfull⟩ := Transport.readFull_bytes hread
  refine ⟨hfull.mp rfl, conn.bytes, hs.bytes_eq.symm.trans hbytes, rfl, ?_⟩
  exact Transport.readFull_final hs.final hread

end Tee

end Glider.Go
