/-
Numbers in bytes (`encoding/binary`): `bigEndian` reads what `bigEndianBytes` writes, up to
the width, and the other way round. The little-endian bytes are the same in the other order.
-/

import Glider.Go.Net
import Mathlib.Algebra.Group.Nat.Defs
import Mathlib.Data.List.Induction

namespace Glider.Go

theorem bigEndian_concat (bytes : List UInt8) (b : UInt8) :
    bigEndian (bytes ++ [b]) = bigEndian bytes * 256 + b.toNat := by
  simp [bigEndian]

@[simp] theorem length_bigEndianBytes (k n : Nat) : (bigEndianBytes k n).length = k := by
  simp [bigEndianBytes]

/-- The last byte is the number modulo 256, the others those of the quotient. -/
theorem bigEndianBytes_succ (k n : Nat) :
    bigEndianBytes (k + 1) n = bigEndianBytes k (n / 256) ++ [n.toUInt8] := by
  unfold bigEndianBytes
  rw [List.range_succ, List.map_append, List.map_singleton]
  congr 1
  · apply List.map_congr_left
    intro i hi
    have hlt := List.mem_range.mp hi
    have hshift : 8 * (k + 1 - 1 - i) = 8 + 8 * (k - 1 - i) := by omega
    rw [hshift, Nat.shiftRight_add, Nat.shiftRight_eq_div_pow n 8]
  · rw [Nat.add_sub_cancel, Nat.sub_self]
    rfl

theorem bigEndian_bigEndianBytes (k n : Nat) : bigEndian (bigEndianBytes k n) = n % 256 ^ k := by
  induction k generalizing n with
  | zero => simp [bigEndianBytes, bigEndian, Nat.mod_one]
  | succ k ih =>
    have hbyte : n.toUInt8.toNat = n % 256 := rfl
    rw [bigEndianBytes_succ, bigEndian_concat, ih, hbyte, Nat.pow_succ, Nat.mul_comm (256 ^ k),
      Nat.mod_mul]
    omega

theorem bigEndian_lt (bytes : List UInt8) : bigEndian bytes < 256 ^ bytes.length := by
  induction bytes using List.reverseRecOn with
  | nil => simp [bigEndian]
  | append_singleton bytes b ih =>
    have hb := b.toNat_lt
    rw [bigEndian_concat, List.length_append, List.length_singleton, Nat.pow_succ]
    omega

theorem bigEndianBytes_bigEndian (bytes : List UInt8) :
    bigEndianBytes bytes.length (bigEndian bytes) = bytes := by
  induction bytes using List.reverseRecOn with
  | nil => rfl
  | append_singleton bytes b ih =>
    have hb : b.toNat < 256 := b.toNat_lt
    have hdiv : (bigEndian bytes * 256 + b.toNat) / 256 = bigEndian bytes := by omega
    have hmod : (bigEndian bytes * 256 + b.toNat).toUInt8 = b := by
      apply UInt8.toNat_inj.mp
      show (bigEndian bytes * 256 + b.toNat) % 256 = b.toNat
      omega
    rw [List.length_append, List.length_singleton, bigEndian_concat, bigEndianBytes_succ, hdiv,
      hmod, ih]

/-! ### Little-endian -/

/-- `LittleEndian.Uint16` and its wider versions, on just the bytes of the number. -/
def littleEndian (bytes : List UInt8) : Nat := bigEndian bytes.reverse

/-- `LittleEndian.PutUint16` and its wider versions: the low `k` bytes of a number. -/
def littleEndianBytes (k n : Nat) : List UInt8 := (bigEndianBytes k n).reverse

@[simp] theorem length_littleEndianBytes (k n : Nat) : (littleEndianBytes k n).length = k := by
  simp [littleEndianBytes]

theorem littleEndian_littleEndianBytes (k n : Nat) :
    littleEndian (littleEndianBytes k n) = n % 256 ^ k := by
  rw [littleEndian, littleEndianBytes, List.reverse_reverse, bigEndian_bigEndianBytes]

theorem littleEndian_lt (bytes : List UInt8) : littleEndian bytes < 256 ^ bytes.length := by
  rw [← List.length_reverse]
  exact bigEndian_lt bytes.reverse

end Glider.Go
