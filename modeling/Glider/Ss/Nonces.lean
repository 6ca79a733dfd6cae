/-
The nonces of a shadowsocks AEAD stream (`proxy/ss/cipher/shadowaead/stream.go`).

Reader and writer have a counter each, in the first bytes of an array, lowest byte first. Every
`Seal` and every `Open` uses the counter and then increments it, whether it succeeds or not, so that
a chunk takes two numbers.

* `increment_eq` — `increment` is the successor, modulo the size of the counter.
* `Counted.write` — whatever happens to the connection, the blocks of a writer are numbered from
  zero.
* `Read_nonce` — a call of the reader takes two numbers for a chunk and none for a copy.
* `nonces_count` — all of this in one statement: the nonces of a connection are the numbers from
  zero on, different up to the size of the counter, and both sides agree.
-/

import Glider.Ss.AeadWriter
import Mathlib.Algebra.Group.Nat.Defs

namespace Glider.Ss

open Glider.Go Glider.Lib

/-! ### The counter -/

/-- The number a nonce stands for. -/
def littleEndian : List UInt8 → Nat
  | [] => 0
  | b :: bs => b.toNat + 256 * littleEndian bs

@[simp] theorem length_increment (b : List UInt8) : (increment b).length = b.length := by
  induction b with
  | nil => rfl
  | cons b bs ih =>
    rw [increment]
    split
    · rfl
    · rw [List.length_cons, ih, List.length_cons]

theorem littleEndian_lt (b : List UInt8) : littleEndian b < 256 ^ b.length := by
  induction b with
  | nil => exact Nat.one_pos
  | cons b bs ih =>
    have hb := b.toNat_lt
    rw [littleEndian, List.length_cons, Nat.pow_succ]
    omega

/-- `increment` adds one, modulo the size of the counter. -/
theorem littleEndian_increment (b : List UInt8) :
    littleEndian (increment b) = (littleEndian b + 1) % 256 ^ b.length := by
  induction b with
  | nil => rfl
  | cons b bs ih =>
    have hb : b.toNat < 256 := b.toNat_lt
    have hbs := littleEndian_lt bs
    have hsum : (b + 1).toNat = (b.toNat + 1) % 256 := rfl
    rw [increment, List.length_cons, Nat.pow_succ]
    split
    · rename_i hne
      have hno : b.toNat + 1 < 256 := by
        refine Nat.lt_of_le_of_ne hb fun h => hne ?_
        exact UInt8.toNat_inj.mp (by rw [hsum, h]; rfl)
      rw [littleEndian, littleEndian, hsum, Nat.mod_eq_of_lt hno, Nat.mod_eq_of_lt (by omega)]
      omega
    · rename_i hcarry
      have hmax : b.toNat + 1 = 256 := by
        have hzero : (b + 1).toNat = 0 := congrArg UInt8.toNat (not_not.mp hcarry)
        omega
      have htotal : littleEndian (b :: bs) + 1 = 256 * (littleEndian bs + 1) := by
        rw [littleEndian]
        omega
      rw [littleEndian, ih, hsum, hmax, htotal, Nat.mul_comm (256 ^ bs.length),
        Nat.mul_mod_mul_left, Nat.mod_self, Nat.zero_add]

theorem littleEndian_increment_of_lt {b : List UInt8} (h : littleEndian b + 1 < 256 ^ b.length) :
    littleEndian (increment b) = littleEndian b + 1 := by
  rw [littleEndian_increment, Nat.mod_eq_of_lt h]

theorem littleEndian_inj {b b' : List UInt8} (hlen : b.length = b'.length)
    (h : littleEndian b = littleEndian b') : b = b' := by
  induction b generalizing b' with
  | nil => exact (List.length_eq_zero_iff.mp hlen.symm).symm
  | cons b bs ih =>
    cases b' with
    | nil => cases hlen
    | cons c cs =>
      have hb := b.toNat_lt
      have hc := c.toNat_lt
      rw [littleEndian, littleEndian] at h
      have hhead : b = c := UInt8.toNat_inj.mp (by omega)
      have htail : bs = cs := ih (Nat.succ.inj hlen) (by omega)
      rw [hhead, htail]

theorem littleEndian_replicate (n : Nat) : littleEndian (List.replicate n 0) = 0 := by
  induction n with
  | zero => rfl
  | succ n ih =>
    rw [List.replicate_succ, littleEndian, ih]
    rfl

theorem length_iterate_increment (k : Nat) (b : List UInt8) :
    (increment^[k] b).length = b.length := by
  induction k generalizing b with
  | zero => rfl
  | succ k ih => rw [Function.iterate_succ_apply, ih, length_increment]

theorem littleEndian_iterate (k : Nat) (b : List UInt8) :
    littleEndian (increment^[k] b) = (littleEndian b + k) % 256 ^ b.length := by
  induction k with
  | zero => exact (Nat.mod_eq_of_lt (littleEndian_lt b)).symm
  | succ k ih =>
    rw [Function.iterate_succ_apply', littleEndian_increment, ih, length_iterate_increment,
      Nat.mod_add_mod, Nat.add_assoc]

/-- The counter comes round. -/
theorem iterate_increment_wrap (b : List UInt8) : increment^[256 ^ b.length] b = b := by
  apply littleEndian_inj (length_iterate_increment _ _)
  rw [littleEndian_iterate, Nat.add_mod_right, Nat.mod_eq_of_lt (littleEndian_lt b)]

/-- The number `n` in `k` bytes, lowest byte first. -/
def littleEndianBytes : Nat → Nat → List UInt8
  | 0, _ => []
  | k + 1, n => n.toUInt8 :: littleEndianBytes k (n / 256)

@[simp] theorem length_littleEndianBytes (k n : Nat) : (littleEndianBytes k n).length = k := by
  induction k generalizing n with
  | zero => rfl
  | succ k ih => rw [littleEndianBytes, List.length_cons, ih]

theorem littleEndian_littleEndianBytes (k n : Nat) :
    littleEndian (littleEndianBytes k n) = n % 256 ^ k := by
  induction k generalizing n with
  | zero => rw [Nat.pow_zero, Nat.mod_one]; rfl
  | succ k ih =>
    have hbyte : n.toUInt8.toNat = n % 256 := rfl
    rw [littleEndianBytes, littleEndian, ih, hbyte, Nat.pow_succ, Nat.mul_comm (256 ^ k),
      Nat.mod_mul]

/-- **`increment` is the successor**, modulo the size of the counter. -/
theorem increment_eq (b : List UInt8) :
    increment b = littleEndianBytes b.length ((littleEndian b + 1) % 256 ^ b.length) := by
  apply littleEndian_inj
  · rw [length_increment, length_littleEndianBytes]
  · rw [littleEndian_increment, littleEndian_littleEndianBytes, Nat.mod_mod]

theorem increment_littleEndianBytes (k n : Nat) :
    increment (littleEndianBytes k n) = littleEndianBytes k (n + 1) := by
  apply littleEndian_inj
  · rw [length_increment, length_littleEndianBytes, length_littleEndianBytes]
  · rw [littleEndian_increment, littleEndian_littleEndianBytes, littleEndian_littleEndianBytes,
      length_littleEndianBytes, Nat.mod_add_mod]

theorem replicate_zero_eq (k : Nat) : List.replicate k 0 = littleEndianBytes k 0 := by
  apply littleEndian_inj
  · rw [List.length_replicate, length_littleEndianBytes]
  · rw [littleEndian_replicate, littleEndian_littleEndianBytes, Nat.zero_mod]

/-- Numbers below the size of the counter are told apart. -/
theorem nodup_littleEndianBytes {k n : Nat} (hn : n ≤ 256 ^ k) :
    ((List.range n).map (littleEndianBytes k)).Nodup := by
  refine List.pairwise_map.mpr (List.Pairwise.imp_of_mem ?_ List.nodup_range)
  intro i j hi hj hne heq
  have hval := congrArg littleEndian heq
  have hi := List.mem_range.mp hi
  have hj := List.mem_range.mp hj
  rw [littleEndian_littleEndianBytes, littleEndian_littleEndianBytes, Nat.mod_eq_of_lt (by omega),
    Nat.mod_eq_of_lt (by omega)] at hval
  exact hne hval

/-! ### The writer -/

section Writer

variable {aead : AEAD}

/-- The blocks are numbered from zero, and the nonce is the next number. -/
structure Writer.Counted (aead : AEAD) (w : Writer) : Prop where
  log : w.log.map Prod.fst = (List.range w.log.length).map (littleEndianBytes aead.nonceSize)
  nonce : w.nonce = littleEndianBytes aead.nonceSize w.log.length

namespace Writer.Counted

theorem new (sink : Sink) : Counted aead (newWriter aead sink) :=
  ⟨rfl, replicate_zero_eq aead.nonceSize⟩

variable {w : Writer}

theorem sealNext (h : Counted aead w) (p : List UInt8) : Counted aead (w.sealNext aead p).1 := by
  have hlen : (w.log ++ [(w.nonce, p)]).length = w.log.length + 1 := List.length_append
  unfold Writer.sealNext
  constructor
  · dsimp only
    rw [hlen, List.range_succ, List.map_append, List.map_append, h.log, h.nonce]
    rfl
  · dsimp only
    rw [hlen, h.nonce, increment_littleEndianBytes]

theorem writeChunk (h : Counted aead w) (p : List UInt8) :
    Counted aead (w.writeChunk aead p).1 := by
  have hsealed := (h.sealNext (bigEndianBytes lenSize p.length)).sealNext p
  exact ⟨hsealed.log, hsealed.nonce⟩

theorem write (h : Counted aead w) (p : List UInt8) : Counted aead (w.Write aead p).1 :=
  writeChunks_keeps (fun _ c h => h.writeChunk c) maxPayload w 0 p h

/-- **The blocks of a writer are numbered**, over all calls and whether they succeed or not. -/
theorem writes (sink : Sink) (ps : List (List UInt8)) :
    Counted aead (callAll (Writer.Write aead) (newWriter aead sink) ps).1 :=
  callAll_keeps (fun _ p h => h.write p) _ ps (new sink)

end Writer.Counted

end Writer

/-! ### The reader -/

section Reader

variable {aead : AEAD}

/-- The call has come to its end without an error. -/
def Result.Complete (res : Result) : Prop := res.err = none ∧ res.panicked = false

/-- The number of chunks that the calls take off the stream: a call that still has bytes of a chunk
copies from them. -/
def Reader.chunksTaken (aead : AEAD) : Reader → List Buffer → Nat
  | _, [] => 0
  | r, p :: ps => (if r.buf = none then 1 else 0) + Reader.chunksTaken aead (r.Read aead p).1 ps

theorem openNext_nonce {c c' : Cursor} {n : Nat} {p : List UInt8}
    (h : c.openNext aead n = (c', .ok p)) : c'.nonce = increment c.nonce := by
  unfold Cursor.openNext at h
  split at h
  · cases h
  · split at h <;> cases h
    rfl

theorem readSize_nonce {c c' : Cursor} {size : Nat} (h : c.readSize aead = (c', .ok size)) :
    c'.nonce = increment c.nonce := by
  unfold Cursor.readSize at h
  split at h <;> cases h
  rename_i hopen
  exact openNext_nonce hopen

theorem readPayload_nonce {c c' : Cursor} {size : Nat} {data : List UInt8}
    (h : c.readPayload aead size = (c', .ok data)) : c'.nonce = increment c.nonce := by
  unfold Cursor.readPayload at h
  split at h <;> cases h
  rename_i hopen
  exact openNext_nonce hopen

/-- A chunk takes two numbers. -/
theorem read_nonce {r r' : Reader} {p : Buffer} {res : Result}
    (h : r.read aead p = (r', res)) (hres : res.Complete) :
    r'.nonce = increment (increment r.nonce) := by
  unfold Reader.read at h
  dsimp only at h
  split at h
  · cases h
    cases hres.2
  · split at h
    · cases h
      cases hres.1
    · rename_i hsize
      split at h
      · cases h
        cases hres.2
      · split at h
        · cases h
          cases hres.1
        · rename_i hpayload
          cases h
          exact (readPayload_nonce hpayload).trans (congrArg increment (readSize_nonce hsize))

/-- **One call** takes two numbers for a chunk, and none to copy from the one before. -/
theorem Read_nonce {r : Reader} {p : Buffer} (hres : (r.Read aead p).2.Complete) :
    (r.Read aead p).1.nonce =
      if r.buf = none then increment (increment r.nonce) else r.nonce := by
  unfold Reader.Read at hres ⊢
  cases hbuf : r.buf with
  | some buf => rfl
  | none =>
    simp only [hbuf] at hres
    dsimp only
    rw [if_pos rfl]
    by_cases hlarge : maxPayload + aead.overhead ≤ p.len
    · rw [if_pos hlarge] at hres ⊢
      exact read_nonce rfl hres
    · rw [if_neg hlarge] at hres ⊢
      cases hread : r.read aead (getBuffer bufSize) with
      | mk r' res =>
        simp only [hread] at hres ⊢
        by_cases hfailed : (res.panicked || res.err.isSome) = true
        · rw [if_pos hfailed] at hres
          obtain ⟨herr, hpanicked⟩ := hres
          dsimp only at herr hpanicked
          rw [hpanicked, herr] at hfailed
          cases hfailed
        · rw [if_neg hfailed]
          rw [Bool.not_eq_true, Bool.or_eq_false_iff, Option.isSome_eq_false_iff,
            Option.isNone_iff_eq_none] at hfailed
          have hnonce := read_nonce hread ⟨hfailed.2, hfailed.1⟩
          exact hnonce

/-- All calls. -/
theorem reads_nonce {r : Reader} {k n : Nat} (bufs : List Buffer)
    (hres : ∀ res ∈ (callAll (Reader.Read aead) r bufs).2, res.Complete)
    (hn : r.nonce = littleEndianBytes k n) :
    (callAll (Reader.Read aead) r bufs).1.nonce =
      littleEndianBytes k (n + 2 * r.chunksTaken aead bufs) := by
  induction bufs generalizing r n with
  | nil => exact hn
  | cons p bufs ih =>
    have hfirst := Read_nonce (hres _ List.mem_cons_self)
    have hrest : ∀ res ∈ (callAll (Reader.Read aead) (r.Read aead p).1 bufs).2, res.Complete :=
      fun res hmem => hres res (List.mem_cons_of_mem _ hmem)
    rw [hn, increment_littleEndianBytes, increment_littleEndianBytes] at hfirst
    rw [callAll, Reader.chunksTaken]
    dsimp only
    split
    · rename_i hbuf
      rw [if_pos hbuf] at hfirst
      rw [ih hrest hfirst]
      congr 1
      omega
    · rename_i hbuf
      rw [if_neg hbuf] at hfirst
      rw [ih hrest hfirst, Nat.zero_add]

end Reader

/-- **Nonces count without repetition.** `increment` is the successor of a counter. In any run of
`Write`, the `i`-th call of `Seal` uses the number `i`; the nonces are different as long as there
are not more of them than numbers. And a reader that has taken as many chunks off its stream as the
writer has written is at the same nonce. -/
theorem nonces_count (aead : AEAD) (sink : Sink) (ps : List (List UInt8)) :
    (∀ b, increment b = littleEndianBytes b.length ((littleEndian b + 1) % 256 ^ b.length)) ∧
      let w := (callAll (Writer.Write aead) (newWriter aead sink) ps).1
      w.log.map Prod.fst = (List.range w.log.length).map (littleEndianBytes aead.nonceSize) ∧
      (w.log.length ≤ 256 ^ aead.nonceSize → (w.log.map Prod.fst).Nodup) ∧
      ∀ src bufs, (∀ res ∈ (callAll (Reader.Read aead) (newReader aead src) bufs).2, res.Complete) →
        2 * (newReader aead src).chunksTaken aead bufs = w.log.length →
        (callAll (Reader.Read aead) (newReader aead src) bufs).1.nonce = w.nonce := by
  have hcounted := @Writer.Counted.writes aead sink ps
  refine ⟨increment_eq, hcounted.log, ?_, ?_⟩
  · intro hroom
    rw [hcounted.log]
    exact nodup_littleEndianBytes hroom
  · intro src bufs hres hchunks
    rw [reads_nonce bufs hres (replicate_zero_eq aead.nonceSize), hcounted.nonce, Nat.zero_add,
      hchunks]

end Glider.Ss
