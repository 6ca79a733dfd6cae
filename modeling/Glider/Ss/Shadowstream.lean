/-
The reader of the stream ciphers of shadowsocks (`proxy/ss/cipher/shadowstream/stream.go`).

`Read` passes the read on and decrypts what it got, at the place in the key stream where the last
call stopped. An error of the lower reader is returned without the bytes that came with it.

* `decoder_tracks` — every call accounts for the bytes it took, one that fails exactly if the
  error came alone.
-/

import Glider.Go.Transport
import Glider.Lib.Decoder

namespace Glider.Ss.Shadowstream

open Glider.Go Glider.Lib

/-- `reader`: the lower reader, the key stream of the cipher, and the place in it. -/
structure Reader where
  src : Transport
  keyStream : Nat → UInt8
  pos : Nat

namespace Reader

/-- `XORKeyStream`. -/
def XORKeyStream (r : Reader) (p : List UInt8) : List UInt8 :=
  p.mapIdx fun i x => x ^^^ r.keyStream (r.pos + i)

/-- `Read` with a buffer of `len` bytes. -/
def Read (r : Reader) (len : Nat) : Reader × List UInt8 × Option IoErr :=
  match r.src.read len with
  | (_, some err, src) => ({ r with src := src }, [], some err)
  | (p, none, src) => ({ r with src := src, pos := r.pos + p.length }, r.XORKeyStream p, none)

end Reader

/-- All the bytes are payload. -/
def decoder : Decoder Reader Nat UInt8 IoErr where
  read := Reader.Read
  ahead r := r.src.bytes
  below r := r.src.bytes
  payload := Reader.XORKeyStream

/-- No byte comes with an error. -/
def Alone (r : Reader) (len : Nat) : Prop :=
  (r.src.read len).2.1 = none ∨ (r.src.read len).1 = []

instance (r : Reader) (len : Nat) : Decidable (Alone r len) :=
  inferInstanceAs (Decidable (_ ∨ _))

theorem XORKeyStream_append (r : Reader) (xs ys : List UInt8) :
    r.XORKeyStream (xs ++ ys) =
      r.XORKeyStream xs ++ { r with pos := r.pos + xs.length }.XORKeyStream ys := by
  unfold Reader.XORKeyStream
  rw [List.mapIdx_append]
  simp only [Nat.add_assoc, Nat.add_comm xs.length]

/-- What `Read` can do. -/
theorem Read_cases (r : Reader) (len : Nat) :
    (∃ p src, r.src.read len = (p, none, src) ∧
      r.Read len = ({ r with src := src, pos := r.pos + p.length }, r.XORKeyStream p, none)) ∨
    ∃ p err src, r.src.read len = (p, some err, src) ∧
      r.Read len = ({ r with src := src }, [], some err) := by
  unfold Reader.Read
  cases r.src.read len with
  | mk p rest =>
    obtain ⟨err, src⟩ := rest
    cases err with
    | none => exact .inl ⟨p, src, rfl, rfl⟩
    | some err => exact .inr ⟨p, err, src, rfl, rfl⟩

theorem decoder_tracks : decoder.Tracks (fun _ _ => True) Alone where
  going r len r' data _ hread := by
    obtain ⟨p, src, hsrc, hcall⟩ | ⟨p, err, src, hsrc, hcall⟩ := Read_cases r len
    · cases hcall.symm.trans hread
      exact ⟨.inl (by rw [hsrc]), p, (Transport.read_bytes hsrc).1, XORKeyStream_append r p⟩
    · cases hcall.symm.trans hread
  ended r len r' data e _ hread := by
    obtain ⟨p, src, hsrc, hcall⟩ | ⟨p, err, src, hsrc, hcall⟩ := Read_cases r len
    · cases hcall.symm.trans hread
    · cases hcall.symm.trans hread
      have halone : Alone r len ↔ p = [] := by simp [Alone, hsrc]
      exact ⟨p, (Transport.read_bytes hsrc).1, List.mapIdx_eq_nil_iff.trans halone.symm⟩

theorem decoder_lowers (r : Reader) (len : Nat) (r' : Reader) (data : List UInt8) (hlen : 0 < len)
    (hread : decoder.read r len = (r', data, none)) : r'.src.size < r.src.size := by
  obtain ⟨p, src, hsrc, hcall⟩ | ⟨p, err, src, hsrc, hcall⟩ := Read_cases r len
  · cases hcall.symm.trans hread
    exact Transport.read_size_lt hlen hsrc
  · cases hcall.symm.trans hread

end Glider.Ss.Shadowstream
