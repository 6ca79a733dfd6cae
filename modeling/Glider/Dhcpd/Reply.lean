/-
The checksum of the IP header of a DHCP reply (`service/dhcpd/reply.go`).

* `checksum_eq` — the loops of `checksum` end and do not overflow; the result is the complement of
  the ones' complement sum.
* `checksum_verifies` — with the checksum in its field, the words of a slice come to all ones.
-/

import Glider.Go.Binary
import Glider.Lib.OnesComplement

namespace Glider.Dhcpd

open Glider.Go Glider.Lib

/-! ### checksum -/

/-- `csum`. Whether an addition has gone beyond 32 bits is a history variable. -/
structure Csum where
  val : UInt32 := 0
  overflow : Bool := false
deriving DecidableEq, Repr

namespace Csum

def add (s : Csum) (x : UInt32) : Csum :=
  ⟨s.val + x, s.overflow || 4294967296 ≤ s.val.toNat + x.toNat⟩

/-- The first loop. An odd number of bytes is an index out of range: `none`. -/
def sumBytes : Csum → List UInt8 → Option Csum
  | s, [] => some s
  | _, [_] => none
  | s, hi :: lo :: bytes => sumBytes ((s.add (hi.toUInt32 <<< 8)).add lo.toUInt32) bytes

/-- Add carry to the sum. -/
def addCarry (s : Csum) : Csum := add { s with val := s.val >>> 16 } s.val.toUInt16.toUInt32

theorem toNat_addCarry (s : Csum) :
    s.addCarry = ⟨s.addCarry.val, s.overflow⟩ ∧
      s.addCarry.val.toNat = s.val.toNat / 65536 + s.val.toNat % 65536 := by
  have hhigh : (s.val >>> 16).toNat = s.val.toNat / 65536 := by
    rw [UInt32.toNat_shiftRight]
    exact Nat.shiftRight_eq_div_pow _ 16
  have hlow : s.val.toUInt16.toUInt32.toNat = s.val.toNat % 65536 := by
    rw [UInt16.toNat_toUInt32, UInt32.toNat_toUInt16]
  have hlt := s.val.toNat_lt
  have hsmall : s.val.toNat / 65536 + s.val.toNat % 65536 < 4294967296 := by omega
  unfold addCarry add
  dsimp only
  rw [UInt32.toNat_add, hhigh, hlow, Nat.mod_eq_of_lt hsmall]
  refine ⟨?_, rfl⟩
  rw [decide_eq_false (Nat.not_le.mpr hsmall), Bool.or_false]

/-- The second loop: it ends because a carry makes the sum smaller. -/
def foldCarry (s : Csum) : Csum := if s.val ≤ 65535 then s else foldCarry s.addCarry
termination_by s.val.toNat
decreasing_by
  rename_i hbig
  have hnat : ¬ s.val.toNat ≤ 65535 := fun h => hbig (UInt32.le_iff_toNat_le.mpr h)
  rw [s.toNat_addCarry.2]
  omega

end Csum

/-- The variable `csum` at the end of `checksum`. -/
def finalCsum (bytes : List UInt8) : Option Csum := (Csum.sumBytes {} bytes).map Csum.foldCarry

/-- `checksum`; `none` is a panic. -/
def checksum (bytes : List UInt8) : Option UInt16 :=
  (finalCsum bytes).map fun s => ~~~s.val.toUInt16

/-- The 16-bit words of a slice. -/
def words : List UInt8 → List Nat
  | hi :: lo :: bytes => bigEndian [hi, lo] :: words bytes
  | _ => []

/-- `copy(p[off:], src)`. -/
def copyAt (p : List UInt8) (off : Nat) (src : List UInt8) : List UInt8 :=
  p.take off ++ src.take (p.length - off) ++ p.drop (off + src.length)

/-- `binary.BigEndian.PutUint16(p[off:], n)`. -/
def putUint16At (p : List UInt8) (off : Nat) (n : UInt16) : List UInt8 :=
  copyAt p off (bigEndianBytes 2 n.toNat)

/-- The IP header of a reply, before its checksum. -/
def ipHeader (serverIP yourIP : List UInt8) : List UInt8 :=
  [0x45, 0, 0x02, 0x40, 0, 0, 0, 0, 0x40, 0x11, 0, 0] ++ serverIP ++ yourIP

/-! ### The sum -/

namespace Csum

/-- The sum is that of the natural numbers. -/
structure Exact (s : Csum) (n : Nat) : Prop where
  overflow : s.overflow = false
  toNat : s.val.toNat = n

theorem Exact.add {s : Csum} {n : Nat} (h : s.Exact n) {x : UInt32}
    (hlt : n + x.toNat < 4294967296) : (s.add x).Exact (n + x.toNat) := by
  unfold Csum.add
  constructor
  · dsimp only
    rw [h.overflow, h.toNat, decide_eq_false (Nat.not_le.mpr hlt), Bool.or_false]
  · dsimp only
    rw [UInt32.toNat_add, h.toNat, Nat.mod_eq_of_lt hlt]

theorem toNat_highByte (b : UInt8) : (b.toUInt32 <<< 8).toNat = b.toNat * 256 := by
  have hb := b.toNat_lt
  rw [UInt32.toNat_shiftLeft, UInt8.toNat_toUInt32]
  show b.toNat <<< 8 % 4294967296 = _
  rw [Nat.shiftLeft_eq, Nat.mod_eq_of_lt (by omega)]

/-- The first loop adds up the words. -/
theorem sumBytes_exact : ∀ {s : Csum} {n : Nat} {bytes : List UInt8}, s.Exact n →
    2 ∣ bytes.length → n + 32768 * bytes.length < 4294967296 →
      ∃ s', s.sumBytes bytes = some s' ∧ s'.Exact (n + (words bytes).sum)
  | s, _, [], h, _, _ => ⟨s, rfl, h⟩
  | _, _, [_], _, heven, _ => absurd (Nat.le_of_dvd Nat.one_pos heven) (by decide)
  | s, n, hi :: lo :: bytes, h, heven, hlt => by
    have hhi := hi.toNat_lt
    have hlo := lo.toNat_lt
    simp only [List.length_cons] at heven hlt
    have hnext : ((s.add (hi.toUInt32 <<< 8)).add lo.toUInt32).Exact
        (n + hi.toNat * 256 + lo.toNat) := by
      have hfirst := h.add (x := hi.toUInt32 <<< 8) (by rw [toNat_highByte]; omega)
      rw [toNat_highByte] at hfirst
      exact hfirst.add (x := lo.toUInt32) (by rw [UInt8.toNat_toUInt32]; omega)
    obtain ⟨s', hrun, hs'⟩ := @sumBytes_exact _ _ bytes hnext (by omega) (by omega)
    have hword : bigEndian [hi, lo] = hi.toNat * 256 + lo.toNat := by simp [bigEndian]
    refine ⟨s', hrun, ?_⟩
    rwa [words, List.sum_cons, hword, ← Nat.add_assoc, ← Nat.add_assoc]

/-- The second loop computes the residue. -/
theorem Exact.foldCarry {s : Csum} {n : Nat} (h : s.Exact n) :
    s.foldCarry.Exact (residue 65535 n) := by
  fun_induction Csum.foldCarry s generalizing n with
  | case1 s hsmall =>
    have hle : n ≤ 65535 := h.toNat ▸ UInt32.le_iff_toNat_le.mp hsmall
    rwa [residue_of_le hle]
  | case2 s _ ih =>
    obtain ⟨hcarry, hval⟩ := s.toNat_addCarry
    have hnext : s.addCarry.Exact (n / 65536 + n % 65536) := by
      constructor
      · rw [hcarry]
        exact h.overflow
      · rw [hval, h.toNat]
    rw [← residue_foldCarry 65535 n]
    exact ih hnext

end Csum

theorem words_le : ∀ (bytes : List UInt8), ∀ w ∈ words bytes, w ≤ 65535
  | [], w, hw => by cases hw
  | [_], w, hw => by cases hw
  | hi :: lo :: bytes, w, hw => by
    rcases List.mem_cons.mp hw with rfl | hw
    · have hlt : bigEndian [hi, lo] < 256 ^ 2 := bigEndian_lt [hi, lo]
      omega
    · exact words_le bytes w hw

theorem words_append : ∀ {front : List UInt8}, 2 ∣ front.length → ∀ back : List UInt8,
    words (front ++ back) = words front ++ words back
  | [], _, _ => rfl
  | [_], heven, _ => absurd (Nat.le_of_dvd Nat.one_pos heven) (by decide)
  | hi :: lo :: front, heven, back => by
    simp only [List.length_cons] at heven
    rw [List.cons_append, List.cons_append, words, words, words_append (by omega),
      List.cons_append]

/-- **The checksum.** Nothing overflows, and the result is the complement of the ones' complement
sum. -/
theorem checksum_eq {bytes : List UInt8} (heven : 2 ∣ bytes.length)
    (hlen : bytes.length ≤ 65536) :
    ∃ s r, finalCsum bytes = some s ∧ s.overflow = false ∧ checksum bytes = some r ∧
      r.toNat = 65535 - residue 65535 (words bytes).sum := by
  have hzero : Csum.Exact {} 0 := ⟨rfl, rfl⟩
  obtain ⟨s, hrun, hs⟩ := Csum.sumBytes_exact hzero heven (by omega)
  rw [Nat.zero_add] at hs
  have hfinal : finalCsum bytes = some s.foldCarry := by rw [finalCsum, hrun, Option.map_some]
  have hle := residue_le (show 0 < 65535 by decide) (words bytes).sum
  refine ⟨_, _, hfinal, hs.foldCarry.overflow, by rw [checksum, hfinal, Option.map_some], ?_⟩
  rw [UInt16.toNat_not, UInt32.toNat_toUInt16, hs.foldCarry.toNat]
  show 65535 - _ % 65536 = _
  rw [Nat.mod_eq_of_lt (Nat.lt_succ_of_le hle)]

/-! ### The field of the checksum -/

section Field

variable {bytes : List UInt8} {off : Nat}

/-- A field of two zero bytes, and what is around it. -/
theorem split_field (hhi : bytes[off]? = some 0) (hlo : bytes[off + 1]? = some 0) :
    bytes = bytes.take off ++ [0, 0] ++ bytes.drop (off + 2) ∧ off + 2 ≤ bytes.length := by
  obtain ⟨hlt, hget⟩ := List.getElem?_eq_some_iff.mp hhi
  obtain ⟨hlt', hget'⟩ := List.getElem?_eq_some_iff.mp hlo
  refine ⟨?_, hlt'⟩
  have hdrop : bytes.drop off = 0 :: 0 :: bytes.drop (off + 2) := by
    rw [List.drop_eq_getElem_cons hlt, hget, List.drop_eq_getElem_cons hlt', hget']
  calc bytes = bytes.take off ++ bytes.drop off := (List.take_append_drop off bytes).symm
    _ = _ := by rw [hdrop, List.append_assoc]; rfl

/-- The words of a slice whose field is filled in. -/
theorem sum_words_putUint16At (hoff : 2 ∣ off) (hhi : bytes[off]? = some 0)
    (hlo : bytes[off + 1]? = some 0) (n : UInt16) :
    (words (putUint16At bytes off n)).sum = (words bytes).sum + n.toNat := by
  obtain ⟨hsplit, hroom⟩ := split_field hhi hlo
  have hfront : (bytes.take off).length = off := List.length_take_of_le (by omega)
  have hwords : ∀ field : List UInt8, field.length = 2 →
      (words (bytes.take off ++ field ++ bytes.drop (off + 2))).sum =
        (words (bytes.take off)).sum + bigEndian field + (words (bytes.drop (off + 2))).sum := by
    intro field hfield
    obtain ⟨a, b, rfl⟩ := List.length_eq_two.mp hfield
    rw [List.append_assoc, words_append (by rw [hfront]; exact hoff), List.sum_append,
      List.cons_append, List.cons_append, List.nil_append, words, List.sum_cons, Nat.add_assoc]
  have hput : putUint16At bytes off n =
      bytes.take off ++ bigEndianBytes 2 n.toNat ++ bytes.drop (off + 2) := by
    have hfits : (bigEndianBytes 2 n.toNat).length ≤ bytes.length - off := by
      rw [length_bigEndianBytes]
      omega
    unfold putUint16At copyAt
    rw [List.take_of_length_le hfits, length_bigEndianBytes]
  have hzero : (words bytes).sum =
      (words (bytes.take off)).sum + (words (bytes.drop (off + 2))).sum := by
    calc (words bytes).sum
        = (words (bytes.take off ++ [0, 0] ++ bytes.drop (off + 2))).sum := by rw [← hsplit]
      _ = _ := hwords [0, 0] rfl
  have hn : n.toNat % 256 ^ 2 = n.toNat := Nat.mod_eq_of_lt n.toNat_lt
  rw [hput, hwords _ (length_bigEndianBytes 2 _), hzero, bigEndian_bigEndianBytes, hn]
  omega

/-- The sum with the checksum. -/
theorem onesSum_putUint16At (hoff : 2 ∣ off) (hhi : bytes[off]? = some 0)
    (hlo : bytes[off + 1]? = some 0) {r : UInt16}
    (hr : r.toNat = 65535 - residue 65535 (words bytes).sum) :
    onesSum 65535 (words (putUint16At bytes off r)) = 65535 := by
  rw [onesSum_eq_residue (by decide) (words_le _), sum_words_putUint16At hoff hhi hlo, hr]
  exact residue_add_complement (by decide) _

/-- **The checksum verifies.** -/
theorem checksum_verifies (heven : 2 ∣ bytes.length) (hlen : bytes.length ≤ 65536) (hoff : 2 ∣ off)
    (hhi : bytes[off]? = some 0) (hlo : bytes[off + 1]? = some 0) :
    ∃ s r, finalCsum bytes = some s ∧ s.overflow = false ∧ checksum bytes = some r ∧
      onesSum 65535 (words (putUint16At bytes off r)) = 65535 := by
  obtain ⟨s, r, hfinal, hexact, hsum, hr⟩ := checksum_eq heven hlen
  exact ⟨s, r, hfinal, hexact, hsum, onesSum_putUint16At hoff hhi hlo hr⟩

end Field

/-- An IP header between two addresses of a local network. -/
theorem checksum_verifies_header :
    ∃ s r, finalCsum (ipHeader [192, 168, 1, 1] [192, 168, 1, 50]) = some s ∧
      s.overflow = false ∧ checksum (ipHeader [192, 168, 1, 1] [192, 168, 1, 50]) = some r ∧
      onesSum 65535 (words (putUint16At (ipHeader [192, 168, 1, 1] [192, 168, 1, 50]) 10 r)) =
        65535 :=
  checksum_verifies (by decide) (by decide) (by decide) rfl rfl

end Glider.Dhcpd
