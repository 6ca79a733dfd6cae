/-
The end of a VMess stream without encryption (`proxy/vmess/chunk.go`): what the reader does with
bytes that come together with an error.

The size of a chunk is read with `io.ReadFull`, which keeps such bytes. The payload is read with
one call of the lower reader, whose bytes are dropped if there is an error.

* `decoder_tracks` — every call accounts for the bytes it took, one that fails exactly if the
  error came alone in the payload.
-/

import Glider.Lib.Decoder
import Glider.Vmess.Chunk

namespace Glider.Vmess

open Glider.Go Glider.Lib

/-- Chunks as records: the size, under the mask for this chunk, and the payload. -/
def chunkFormat : RecordFormat ShakeSizeParser UInt8 where
  headerSize := ShakeSizeParser.sizeBytes
  headerSize_pos := by decide
  length s header := (s.Decode header).1.toNat
  next s _ := s.advance

namespace ChunkedReader

/-- The reader when it comes to the payload in a call of `Read`, if it does. -/
def atData (r : ChunkedReader) : Option ChunkedReader :=
  if r.left = 0 then
    match r.src.readFull ShakeSizeParser.sizeBytes with
    | (_, some _, _) => none
    | (b, none, src) =>
      let (n, parser) := r.parser.Decode b
      if n.toNat = 0 then none else some ⟨src, parser, n.toNat⟩
  else some r

/-- No byte of the payload comes with an error. -/
def Alone (r : ChunkedReader) (len : Nat) : Prop :=
  ∀ q ∈ r.atData, (q.src.read (min len q.left)).2.1 = none ∨ (q.src.read (min len q.left)).1 = []

instance (r : ChunkedReader) (len : Nat) : Decidable (r.Alone len) :=
  inferInstanceAs (Decidable (∀ q ∈ r.atData, _ ∨ _))

/-- What is payload in the bytes to come. -/
def payload (r : ChunkedReader) : List UInt8 → List UInt8 := chunkFormat.body r.parser r.left

/-- From `r` to `q` the reader has taken `xs`, in which there is no payload. -/
structure Passes (r : ChunkedReader) (xs : List UInt8) (q : ChunkedReader) : Prop where
  bytes_eq : r.src.bytes = xs ++ q.src.bytes
  size_le : q.src.size + xs.length ≤ r.src.size
  payload_eq : ∀ ys, r.payload (xs ++ ys) = q.payload ys

theorem Passes.refl (r : ChunkedReader) : r.Passes [] r := ⟨rfl, Nat.le_refl _, fun _ => rfl⟩

/-- A size that has been read. -/
theorem passes_size {r : ChunkedReader} {b : List UInt8} {src : Transport} (hleft : r.left = 0)
    (hread : r.src.readFull ShakeSizeParser.sizeBytes = (b, none, src)) :
    b.length = ShakeSizeParser.sizeBytes ∧
      r.Passes b ⟨src, r.parser.advance, (r.parser.Decode b).1.toNat⟩ := by
  obtain ⟨hbytes, -, -, hiff⟩ := Transport.readFull_bytes hread
  have hlen := hiff.mp rfl
  refine ⟨hlen, hbytes, Transport.readFull_size hread, fun ys => ?_⟩
  rw [payload, hleft, RecordFormat.body_zero]
  exact RecordFormat.records_header hlen ys

/-- What `Read` can do: come to the payload, fail at a size, or read a size of zero. -/
theorem Read_cases (r : ChunkedReader) (len : Nat) :
    (∃ xs q, r.atData = some q ∧ q.left ≠ 0 ∧ r.Passes xs q ∧ r.Read len = q.readData len) ∨
    (r.atData = none ∧ ∃ b err src, r.left = 0 ∧
      r.src.readFull ShakeSizeParser.sizeBytes = (b, some err, src) ∧
      r.Read len = ({ r with src := src }, [], some err)) ∨
    (r.atData = none ∧ ∃ xs q, r.Passes xs q ∧ xs.length = ShakeSizeParser.sizeBytes ∧
      r.Read len = (q, [], none)) := by
  unfold atData Read
  by_cases hleft : r.left = 0
  · rw [if_pos hleft, if_pos hleft]
    cases hread : r.src.readFull ShakeSizeParser.sizeBytes with
    | mk b rest =>
      obtain ⟨err, src⟩ := rest
      cases err with
      | some err => exact .inr (.inl ⟨rfl, b, err, src, hleft, rfl, rfl⟩)
      | none =>
        obtain ⟨hlen, hpasses⟩ := passes_size hleft hread
        by_cases hn : (r.parser.Decode b).1.toNat = 0
        · exact .inr (.inr ⟨if_pos hn, b, _, hpasses, hlen, if_pos hn⟩)
        · exact .inl ⟨b, _, if_neg hn, hn, hpasses, if_neg hn⟩
  · rw [if_neg hleft, if_neg hleft]
    exact .inl ⟨[], r, rfl, hleft, .refl r, rfl⟩

/-- What the read of the payload can do. -/
theorem readData_cases (r : ChunkedReader) (len : Nat) :
    (∃ data src, r.src.read (min len r.left) = (data, none, src) ∧
      r.readData len = ({ r with src := src, left := r.left - data.length }, data, none)) ∨
    ∃ data err src, r.src.read (min len r.left) = (data, some err, src) ∧
      r.readData len = ({ r with src := src }, [], some err) := by
  unfold readData
  cases r.src.read (min len r.left) with
  | mk data rest =>
    obtain ⟨err, src⟩ := rest
    cases err with
    | none => exact .inl ⟨data, src, rfl, rfl⟩
    | some err => exact .inr ⟨data, err, src, rfl, rfl⟩

end ChunkedReader

def decoder : Decoder ChunkedReader Nat UInt8 IoErr where
  read := ChunkedReader.Read
  ahead r := r.src.bytes
  below r := r.src.bytes
  payload := ChunkedReader.payload

theorem decoder_tracks : decoder.Tracks (fun _ _ => True) ChunkedReader.Alone where
  going r len r' data _ hread := by
    obtain ⟨xs, q, hat, hleft, hpasses, hcall⟩ | ⟨hat, b, err, src, -, -, hcall⟩ |
      ⟨hat, xs, q, hpasses, -, hcall⟩ := r.Read_cases len
    · obtain ⟨data', src, hsrc, hdata⟩ | ⟨data', err, src, hsrc, hdata⟩ := q.readData_cases len
      · cases hdata.symm.trans (hcall.symm.trans hread)
        obtain ⟨hbytes, hle, -⟩ := Transport.read_bytes hsrc
        refine ⟨fun q' hq => ?_, xs ++ data, ?_, fun ys => ?_⟩
        · cases hat.symm.trans hq
          exact .inl (by rw [hsrc])
        · rw [List.append_assoc]
          exact hpasses.bytes_eq.trans (congrArg (xs ++ ·) hbytes)
        · rw [List.append_assoc]
          exact (hpasses.payload_eq _).trans
            (RecordFormat.body_append (Nat.le_trans hle (Nat.min_le_right ..)) ys)
      · cases hdata.symm.trans (hcall.symm.trans hread)
    · cases hcall.symm.trans hread
    · cases hcall.symm.trans hread
      refine ⟨fun q' hq => ?_, xs, hpasses.bytes_eq, hpasses.payload_eq⟩
      cases hat.symm.trans hq
  ended r len r' data e _ hread := by
    obtain ⟨xs, q, hat, hleft, hpasses, hcall⟩ | ⟨hat, b, err, src, hleft, hsrc, hcall⟩ |
      ⟨hat, xs, q, hpasses, -, hcall⟩ := r.Read_cases len
    · obtain ⟨data', src, hsrc, hdata⟩ | ⟨data', err, src, hsrc, hdata⟩ := q.readData_cases len
      · cases hdata.symm.trans (hcall.symm.trans hread)
      · cases hdata.symm.trans (hcall.symm.trans hread)
        obtain ⟨hbytes, hle, -⟩ := Transport.read_bytes hsrc
        have halone : r.Alone len ↔ data' = [] := by simp [ChunkedReader.Alone, hat, hsrc]
        refine ⟨xs ++ data', ?_, ?_⟩
        · rw [List.append_assoc]
          exact hpasses.bytes_eq.trans (congrArg (xs ++ ·) hbytes)
        · have hpayload : decoder.payload r (xs ++ data') = data' :=
            (hpasses.payload_eq data').trans
              (RecordFormat.body_of_length_le (Nat.le_trans hle (Nat.min_le_right ..)))
          rw [hpayload, halone]
    · cases hcall.symm.trans hread
      obtain ⟨hbytes, -, hle, hiff⟩ := Transport.readFull_bytes hsrc
      refine ⟨b, hbytes, ?_⟩
      -- less than a size has been read
      have hshort : b.length < ShakeSizeParser.sizeBytes :=
        Nat.lt_of_le_of_ne hle fun h => by cases hiff.mpr h
      have hpayload : decoder.payload r b = [] := by
        show chunkFormat.body r.parser r.left b = []
        rw [hleft, RecordFormat.body_zero]
        exact RecordFormat.records_of_short hshort
      have halone : r.Alone len := fun q hq => by cases hat.symm.trans hq
      exact ⟨fun _ => halone, fun _ => hpayload⟩
    · cases hcall.symm.trans hread

theorem decoder_lowers (r : ChunkedReader) (len : Nat) (r' : ChunkedReader) (data : List UInt8)
    (hlen : 0 < len) (hread : decoder.read r len = (r', data, none)) :
    r'.src.size < r.src.size := by
  obtain ⟨xs, q, -, hleft, hpasses, hcall⟩ | ⟨-, b, err, src, -, -, hcall⟩ |
    ⟨-, xs, q, hpasses, hxs, hcall⟩ := r.Read_cases len
  · have hle := hpasses.size_le
    obtain ⟨data', src, hsrc, hdata⟩ | ⟨data', err, src, hsrc, hdata⟩ := q.readData_cases len
    · cases hdata.symm.trans (hcall.symm.trans hread)
      have hlt := Transport.read_size_lt (by omega) hsrc
      dsimp only
      omega
    · cases hdata.symm.trans (hcall.symm.trans hread)
  · cases hcall.symm.trans hread
  · cases hcall.symm.trans hread
    have hle := hpasses.size_le
    rw [hxs] at hle
    unfold ShakeSizeParser.sizeBytes at hle
    omega

end Glider.Vmess
