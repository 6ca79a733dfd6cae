/-
The websocket frame reader (`proxy/ws/frame.go`).

`Read` reads the header of a frame when nothing is left of the one before, and then as much of
the payload as the caller's buffer takes. The length a peer sends is kept in the signed
`left`, across calls, and bounds the slice of the caller's buffer; a call that fails half way
through a header leaves in `left` what it has stored so far.

The slices of `buf` and `maskKey` have constant bounds, which the compiler checks. `buf` holds
nothing from one read of it to the next.

* `read_safe_iff` — one call, from any state.
* `reads_safe_iff` — all the calls on a stream: they are safe exactly when no header that
  `Read` gets to has a 64-bit length with the top bit set.
* `top_bit_length_panics` — such a header.
-/

import Glider.Go.Binary
import Glider.Go.Io
import Glider.Lib.Machine
import Mathlib.Algebra.Group.Int.Defs

namespace Glider.Ws

open Glider.Go Glider.Lib

/-! ### frameReader -/

/-- The conversion of a `uint64` to an `int64`. -/
def int64 (n : Nat) : Int := (n : Int).bmod (2 ^ 64)

structure FrameReader where
  /-- The embedded `io.Reader`. -/
  src : Source
  left : Int
  server : Bool
  maskKey : Fin 4 → UInt8
  maskOffset : Nat

/-- A slice expression `b[:hi]` on a buffer. -/
structure Cut where
  hi : Int
  len : Nat
deriving DecidableEq, Repr

/-- What `Read` does to a buffer of `len` bytes: `data` are the bytes in `b[:n]`. A call that
panics returns nothing. -/
structure Result where
  len : Nat
  n : Nat
  err : Option IoErr
  data : List UInt8
  cuts : List Cut
  panicked : Bool
deriving DecidableEq, Repr

/-- `FrameReader`. -/
def newFrameReader (src : Source) (server : Bool) : FrameReader :=
  { src := src, left := 0, server := server, maskKey := fun _ => 0, maskOffset := 0 }

namespace FrameReader

variable (r : FrameReader)

/-- The length of the next frame is read into `left`. -/
def readLength : FrameReader × Option IoErr :=
  match readFull 2 r.src with
  | (_, some err, src) => ({ r with src := src }, some err)
  | (hdr, none, src) =>
    let left := (hdr.getD 1 0 &&& 0x7f).toNat
    if left = 126 then
      match readFull 2 src with
      | (_, some err, src) => ({ r with src := src, left := 126 }, some err)
      | (ext, none, src) => ({ r with src := src, left := bigEndian ext }, none)
    else if left = 127 then
      match readFull 8 src with
      | (_, some err, src) => ({ r with src := src, left := 127 }, some err)
      | (ext, none, src) => ({ r with src := src, left := int64 (bigEndian ext) }, none)
    else ({ r with src := src, left := left }, none)

/-- A server reads the mask key; a read that fails has stored a part of it. -/
def readMaskKey : FrameReader × Option IoErr :=
  if r.server then
    match readFull 4 r.src with
    | (key, some err, src) =>
      ({ r with src := src, maskKey := fun i => key.getD i (r.maskKey i) }, some err)
    | (key, none, src) =>
      ({ r with src := src, maskKey := fun i => key.getD i (r.maskKey i), maskOffset := 0 }, none)
  else (r, none)

def readHeader : FrameReader × Option IoErr :=
  match r.readLength with
  | (r, some err) => (r, some err)
  | (r, none) => r.readMaskKey

def maskAt (i : Nat) : UInt8 := r.maskKey ⟨i % 4, Nat.mod_lt i (by decide)⟩

/-- The payload with the mask taken off. -/
def unmask (data : List UInt8) : List UInt8 :=
  data.mapIdx fun i b => b ^^^ r.maskAt (i + r.maskOffset)

def readPayload (len : Nat) : FrameReader × Result :=
  let readLen : Int := if r.left < len then r.left else len
  if readLen < 0 then
    (r, { len := len, n := 0, err := none, data := [], cuts := [⟨readLen, len⟩], panicked := true })
  else
    match readFull readLen.toNat r.src with
    | (data, some err, src) =>
      ({ r with src := src },
        { len := len, n := data.length, err := some err, data := data, cuts := [⟨readLen, len⟩]
          panicked := false })
    | (data, none, src) =>
      ({ r with
          src := src
          left := r.left - data.length
          maskOffset := if r.server then (data.length + r.maskOffset) % 4 else r.maskOffset },
        { len := len, n := data.length, err := none
          data := if r.server then r.unmask data else data
          cuts := ⟨readLen, len⟩ :: if r.server then [⟨data.length, len⟩] else []
          panicked := false })

/-- `Read` with a buffer of `len` bytes. -/
def read (len : Nat) : FrameReader × Result :=
  if r.left = 0 then
    match r.readHeader with
    | (r, some err) =>
      (r, { len := len, n := 0, err := some err, data := [], cuts := [], panicked := false })
    | (r, none) => r.readPayload len
  else r.readPayload len

end FrameReader

/-! ### One call -/

def Cut.InRange (c : Cut) : Prop := 0 ≤ c.hi ∧ c.hi ≤ c.len

/-- The call returns, within the buffer. -/
structure Result.Safe (res : Result) : Prop where
  returns : res.panicked = false
  n_le : res.n ≤ res.len
  cuts : ∀ c ∈ res.cuts, c.InRange

/-- The bytes begin with a header whose 64-bit length has its top bit set. -/
def TopBitLength (data : List UInt8) : Prop :=
  10 ≤ data.length ∧ data.getD 1 0 &&& 0x7f = 127 ∧ 2 ^ 63 ≤ bigEndian ((data.drop 2).take 8)

instance (data : List UInt8) : Decidable (TopBitLength data) := inferInstanceAs (Decidable (_ ∧ _))

theorem int64_nonneg_iff {n : Nat} (h : n < 2 ^ 64) : 0 ≤ int64 n ↔ n < 2 ^ 63 := by
  unfold int64
  rw [Int.bmod_def]
  split <;> omega

namespace FrameReader

variable {r : FrameReader}

@[simp] theorem readMaskKey_left : r.readMaskKey.1.left = r.left := by
  unfold readMaskKey
  split
  · split <;> rfl
  · rfl

theorem take_getD_one {data : List UInt8} (h : 2 ≤ data.length) :
    (data.take 2).getD 1 0 = data.getD 1 0 := by
  match data, h with
  | _ :: _ :: _, _ => rfl

/-- The length of a header, when it is there. -/
theorem readLength_cases (r : FrameReader) :
    (¬ TopBitLength r.src.data ∧ (0 ≤ r.left → 0 ≤ r.readLength.1.left)) ∨
      (TopBitLength r.src.data ∧ r.readLength.1.left < 0) := by
  unfold readLength readFull
  by_cases hhdr : 2 ≤ r.src.data.length
  · simp only [if_pos hhdr, take_getD_one hhdr, List.length_drop]
    have hmask (n : UInt8) (h : (r.src.data.getD 1 0 &&& 0x7f).toNat = n.toNat) :
        r.src.data.getD 1 0 &&& 0x7f = n := UInt8.toNat_inj.mp h
    split
    · -- a 16-bit length
      rename_i h126
      refine .inl ⟨fun htop => ?_, fun _ => ?_⟩
      · cases (hmask 126 h126).symm.trans htop.2.1
      · split <;> simp
    · split
      · -- a 64-bit length
        rename_i h127
        by_cases hext : 8 ≤ r.src.data.length - 2
        · simp only [if_pos hext]
          have hlt := bigEndian_lt ((r.src.data.drop 2).take 8)
          rw [List.length_take, List.length_drop, Nat.min_eq_left hext] at hlt
          have hnonneg := int64_nonneg_iff hlt
          by_cases htop : 2 ^ 63 ≤ bigEndian ((r.src.data.drop 2).take 8)
          · refine .inr ⟨⟨by omega, hmask 127 h127, htop⟩, ?_⟩
            exact Int.not_le.mp fun h => Nat.not_lt.mpr htop (hnonneg.mp h)
          · exact .inl ⟨fun h => htop h.2.2, fun _ => hnonneg.mpr (Nat.not_le.mp htop)⟩
        · simp only [if_neg hext]
          refine .inl ⟨fun h => ?_, fun _ => by decide⟩
          have := h.1
          omega
      · rename_i hne
        refine .inl ⟨fun h => hne ?_, fun _ => Int.natCast_nonneg _⟩
        rw [h.2.1]
        rfl
  · simp only [if_neg hhdr]
    refine .inl ⟨fun h => ?_, fun h => h⟩
    have := h.1
    omega

theorem readPayload_safe {len : Nat} (h : 0 ≤ r.left) :
    0 ≤ (r.readPayload len).1.left ∧ (r.readPayload len).2.Safe := by
  unfold readPayload
  generalize hlen : (if r.left < len then r.left else (len : Int)) = readLen
  have hpos : ¬ readLen < 0 := by
    rw [← hlen]
    split <;> omega
  have hle : readLen ≤ len ∧ readLen ≤ r.left := by
    rw [← hlen]
    split <;> omega
  have hcut : Cut.InRange ⟨readLen, len⟩ := ⟨Int.not_lt.mp hpos, hle.1⟩
  simp only [if_neg hpos]
  split
  · rename_i data err src hread
    obtain ⟨-, hlt, -, -⟩ := readFull_eq_error hread
    refine ⟨h, rfl, by dsimp only; omega, fun c hc => ?_⟩
    rw [List.mem_singleton.mp hc]
    exact hcut
  · rename_i data src hread
    obtain ⟨hdata, -, -⟩ := readFull_eq_ok hread
    refine ⟨by dsimp only; omega, rfl, by dsimp only; omega, fun c hc => ?_⟩
    obtain rfl | hc := List.mem_cons.mp hc
    · exact hcut
    · split at hc
      · rw [List.mem_singleton.mp hc]
        exact ⟨by dsimp only; omega, by dsimp only; omega⟩
      · cases hc

theorem readPayload_panics {len : Nat} (h : r.left < 0) :
    (r.readPayload len).2.panicked = true := by
  unfold readPayload
  have hlt : r.left < len := by omega
  simp only [if_pos hlt, if_pos h]

theorem readHeader_left (r : FrameReader) : r.readHeader.1.left = r.readLength.1.left := by
  unfold readHeader
  split
  · rename_i hlength
    rw [hlength]
  · rename_i hlength
    rw [hlength, readMaskKey_left]

/-- **One call.** It returns within its buffer and keeps `left` from being negative, unless it
has to read a length with the top bit set. -/
theorem read_safe_iff (h : 0 ≤ r.left) (len : Nat) :
    (0 ≤ (r.read len).1.left ∧ (r.read len).2.Safe) ↔
      (r.left = 0 → ¬ TopBitLength r.src.data) := by
  unfold read
  by_cases hleft : r.left = 0
  · rw [if_pos hleft]
    have hheader := r.readHeader_left
    obtain ⟨htop, hkeeps⟩ | ⟨htop, hneg⟩ := r.readLength_cases
    · -- no top bit, so nothing is negative
      refine iff_of_true ?_ fun _ => htop
      have hnonneg := hkeeps h
      rw [← hheader] at hnonneg
      split
      · rename_i r' err heq
        rw [heq] at hnonneg
        exact ⟨hnonneg, rfl, Nat.zero_le _, nofun⟩
      · rename_i r' heq
        rw [heq] at hnonneg
        exact readPayload_safe hnonneg
    · -- a negative length stays behind, or bounds the slice
      refine iff_of_false (fun hsafe => ?_) fun hno => hno hleft htop
      rw [← hheader] at hneg
      split at hsafe
      · rename_i r' err heq
        rw [heq] at hneg
        exact absurd hsafe.1 (Int.not_le.mpr hneg)
      · rename_i r' heq
        rw [heq] at hneg
        cases (readPayload_panics hneg).symm.trans hsafe.2.returns
  · rw [if_neg hleft]
    exact iff_of_true (readPayload_safe h) fun h0 => absurd h0 hleft

end FrameReader

/-! ### All calls -/

/-- A reader and the results of the calls made so far. -/
structure Reading where
  reader : FrameReader
  results : List Result

def Reading.start (src : Source) (server : Bool) : Reading := ⟨newFrameReader src server, []⟩

/-- A call with a buffer of the given size; after a panic there are no more. -/
def reads : Machine Reading Nat where
  step s len :=
    if s.results.any Result.panicked then some s
    else
      let (reader, res) := s.reader.read len
      some ⟨reader, s.results ++ [res]⟩

/-- `left` is not negative, and every call has been safe. -/
structure Reading.Safe (s : Reading) : Prop where
  left : 0 ≤ s.reader.left
  results : ∀ res ∈ s.results, res.Safe

theorem reads_step_of_safe {s : Reading} (safe : s.Safe) (len : Nat) :
    reads.step s len = some ⟨(s.reader.read len).1, s.results ++ [(s.reader.read len).2]⟩ := by
  have hcalm : s.results.any Result.panicked = false := by
    rw [List.any_eq_false]
    intro res hres
    rw [(safe.results res hres).returns]
    nofun
  unfold reads
  dsimp only
  rw [hcalm]
  rfl

theorem reads_total (s : Reading) (lens : List Nat) : ∃ s', reads.run s lens = some s' := by
  induction lens generalizing s with
  | nil => exact ⟨s, rfl⟩
  | cons len lens ih =>
    have hstep : ∃ next, reads.step s len = some next := by
      unfold reads
      dsimp only
      split <;> exact ⟨_, rfl⟩
    obtain ⟨next, hstep⟩ := hstep
    rw [reads.run_cons_of_step hstep]
    exact ih next

/-- **Safety of the frame reader.** For every byte stream, in both modes and for every sequence
of buffer sizes: all calls are safe exactly when each of them that starts with a header finds
none whose 64-bit length has its top bit set. -/
theorem reads_safe_iff (src : Source) (server : Bool) (lens : List Nat) :
    reads.Always Reading.Safe (.start src server) lens ↔
      reads.Guarded (fun s _ => s.reader.left = 0 → ¬ TopBitLength s.reader.src.data)
        (.start src server) lens := by
  obtain ⟨s', hrun⟩ := reads_total (.start src server) lens
  have start : (Reading.start src server).Safe := ⟨Int.le_refl 0, nofun⟩
  have exact_step : ∀ s len s', True → s.Safe → reads.step s len = some s' →
      (s'.Safe ↔ (s.reader.left = 0 → ¬ TopBitLength s.reader.src.data)) := by
    intro s len s' _ safe hstep
    rw [reads_step_of_safe safe] at hstep
    cases hstep
    rw [← FrameReader.read_safe_iff safe.left len]
    constructor
    · intro safe'
      exact ⟨safe'.left, safe'.results _ (List.mem_append_right _ List.mem_cons_self)⟩
    · rintro ⟨hleft, hres⟩
      refine ⟨hleft, fun res h => ?_⟩
      obtain h | h := List.mem_append.mp h
      · exact safe.results res h
      · rw [List.mem_singleton.mp h]
        exact hres
  exact reads.always_iff_guarded (fun _ _ _ _ _ => trivial) exact_step hrun trivial start

/-- A peer sends a header with the length 2⁶³: the slice of the caller's buffer panics. -/
theorem top_bit_length_panics :
    (reads.run (.start ⟨[0x82, 0x7f, 0x80, 0, 0, 0, 0, 0, 0, 0], .eof⟩ false) [1]).map
      (fun s => s.results.map fun res => (res.cuts, res.panicked)) =
        some [([⟨-2 ^ 63, 1⟩], true)] := by
  decide +kernel

end Glider.Ws
