/-
Ones' complement sums: addition of numbers up to `M`, the number whose digits are all ones, where
a carry out of the top comes back in at the bottom.

* `residue` — the value of such a sum: the remainder modulo `M`, with `M` in place of zero unless
  nothing but zeros was added.
* `onesSum_eq_residue` — a sum with carries is the residue of the sum without.
* `residue_foldCarry` — adding the upper digits to the lower ones keeps the residue.
* `residue_add_complement` — with the complement of its residue, a number comes to `M`.
-/

import Mathlib.Data.Nat.ModEq

namespace Glider.Lib

/-- Addition with end-around carry. -/
def carryAdd (M a b : Nat) : Nat := if a + b ≤ M then a + b else a + b - M

/-- The ones' complement sum of a list. -/
def onesSum (M : Nat) (words : List Nat) : Nat := words.foldl (carryAdd M) 0

/-- The number up to `M` that a sum stands for. -/
def residue (M n : Nat) : Nat := if n = 0 then 0 else (n - 1) % M + 1

section Residue

variable {M a b n : Nat}

theorem residue_of_le (hn : n ≤ M) : residue M n = n := by
  unfold residue
  split
  · rename_i hzero
    exact hzero.symm
  · rw [Nat.mod_eq_of_lt (by omega)]
    omega

theorem residue_le (hM : 0 < M) (n : Nat) : residue M n ≤ M := by
  unfold residue
  split
  · exact Nat.zero_le M
  · exact Nat.mod_lt _ hM

theorem residue_eq_zero : residue M n = 0 ↔ n = 0 := by
  unfold residue
  split <;> omega

theorem residue_modEq (M n : Nat) : residue M n ≡ n [MOD M] := by
  unfold residue
  split
  · rename_i hzero
    rw [hzero]
  · have hpred : n - 1 + 1 = n := by omega
    calc (n - 1) % M + 1 ≡ n - 1 + 1 [MOD M] := (Nat.mod_modEq _ _).add_right 1
      _ = n := hpred

/-- The remainder and whether the number is zero tell the residue. -/
theorem residue_congr (hmod : a ≡ b [MOD M]) (hzero : a = 0 ↔ b = 0) :
    residue M a = residue M b := by
  unfold residue
  by_cases ha : a = 0
  · rw [if_pos ha, if_pos (hzero.mp ha)]
  · have hb : b ≠ 0 := fun hb => ha (hzero.mpr hb)
    have hpred : a - 1 ≡ b - 1 [MOD M] := by
      apply Nat.ModEq.add_right_cancel' 1
      rw [Nat.sub_add_cancel (Nat.pos_of_ne_zero ha), Nat.sub_add_cancel (Nat.pos_of_ne_zero hb)]
      exact hmod
    rw [if_neg ha, if_neg hb, hpred]

theorem residue_add (M a b : Nat) : residue M (residue M a + b) = residue M (a + b) := by
  apply residue_congr
  · exact (residue_modEq M a).add_right b
  · rw [Nat.add_eq_zero_iff, Nat.add_eq_zero_iff, residue_eq_zero]

theorem carryAdd_eq_residue (ha : a ≤ M) (hb : b ≤ M) : carryAdd M a b = residue M (a + b) := by
  unfold carryAdd
  split
  · rename_i hle
    exact (residue_of_le hle).symm
  · have hwrap : a + b - M ≡ a + b [MOD M] := by
      have hsum : a + b = a + b - M + M := by omega
      calc a + b - M ≡ a + b - M + M [MOD M] := (Nat.add_modEq_right).symm
        _ = a + b := hsum.symm
    rw [← residue_of_le (show a + b - M ≤ M by omega)]
    exact residue_congr hwrap (by omega)

/-- **A ones' complement sum is a residue.** -/
theorem onesSum_eq_residue (hM : 0 < M) {words : List Nat} (hwords : ∀ w ∈ words, w ≤ M) :
    onesSum M words = residue M words.sum := by
  -- the sum so far is a residue as well
  have hfold : ∀ (words : List Nat) (n : Nat), (∀ w ∈ words, w ≤ M) →
      words.foldl (carryAdd M) (residue M n) = residue M (n + words.sum) := by
    intro words
    induction words with
    | nil => exact fun n _ => rfl
    | cons w words ih =>
      intro n hwords
      have hw := hwords w List.mem_cons_self
      have hrest : ∀ w ∈ words, w ≤ M := fun w hw => hwords w (List.mem_cons_of_mem _ hw)
      rw [List.foldl_cons, carryAdd_eq_residue (residue_le hM n) hw, residue_add, ih _ hrest,
        List.sum_cons, Nat.add_assoc]
  have hstart := hfold words 0 hwords
  rwa [Nat.zero_add] at hstart

/-- Digits above the width of `M` are carried to the bottom. -/
theorem residue_foldCarry (M n : Nat) : residue M (n / (M + 1) + n % (M + 1)) = residue M n := by
  have hdigits : (M + 1) * (n / (M + 1)) + n % (M + 1) = n := Nat.div_add_mod n (M + 1)
  apply residue_congr
  · -- the base is one modulo `M`
    have hbase : M + 1 ≡ 1 [MOD M] := Nat.add_modEq_left
    have hmod := ((hbase.mul_right (n / (M + 1))).add_right (n % (M + 1))).symm
    rwa [Nat.one_mul, hdigits] at hmod
  · constructor
    · intro hzero
      obtain ⟨hdiv, hrem⟩ := Nat.add_eq_zero_iff.mp hzero
      rw [← hdigits, hdiv, hrem, Nat.mul_zero]
    · intro hzero
      rw [hzero, Nat.zero_div, Nat.zero_mod]

/-- **A number and the complement of its residue** come to all ones. -/
theorem residue_add_complement (hM : 0 < M) (n : Nat) :
    residue M (n + (M - residue M n)) = M := by
  have hle := residue_le hM n
  rw [← residue_add, Nat.add_sub_cancel' hle]
  exact residue_of_le (Nat.le_refl M)

end Residue

end Glider.Lib
