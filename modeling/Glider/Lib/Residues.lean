/-
How evenly a counter of bounded width visits the residues of a smaller modulus.

A counter that runs from `a` and wraps at `W` takes the values `(a + k) % W`. Between two
wraps these are consecutive numbers, so no residue modulo `m` is met more than once
oftener than another (`count_block_le`); every wrap starts such a block anew, whether or
not `m` divides `W` (`count_wrapping_le`).
-/

import Mathlib.Data.Int.CardIntervalMod

namespace Glider.Lib

/-- A count below `n` depends on the numbers below `n` only. -/
theorem count_congr {p q : Nat → Prop} [DecidablePred p] [DecidablePred q] {n : Nat}
    (h : ∀ k < n, p k ↔ q k) : Nat.count p n = Nat.count q n := by
  rw [Nat.count_eq_card_filter_range, Nat.count_eq_card_filter_range]
  exact congrArg _ (Finset.filter_congr fun k hk => h k (Finset.mem_range.mp hk))

variable {m r s : Nat}

/-- The numbers below `b` of residue `r`. -/
theorem count_mod_eq (hr : r < m) (b : Nat) :
    Nat.count (fun k => k % m = r) b = b / m + if r < b % m then 1 else 0 := by
  have hm : 0 < m := by omega
  have hcount := Nat.count_modEq_card b hm r
  simpa only [Nat.ModEq, Nat.mod_eq_of_lt hr] using hcount

/-- **A block of consecutive numbers is balanced.** -/
theorem count_block_le (hr : r < m) (hs : s < m) (a n : Nat) :
    Nat.count (fun k => (a + k) % m = r) n ≤ Nat.count (fun k => (a + k) % m = s) n + 1 := by
  -- count up to the end of the block and take off what lies before it
  have hwhole : ∀ {t : Nat}, t < m →
      (a + n) / m + (if t < (a + n) % m then 1 else 0) =
        a / m + (if t < a % m then 1 else 0) + Nat.count (fun k => (a + k) % m = t) n := by
    intro t ht
    rw [← count_mod_eq ht (a + n), ← count_mod_eq ht a, Nat.count_add]
  have hwhole_r := hwhole hr
  have hwhole_s := hwhole hs
  split_ifs at hwhole_r hwhole_s <;> omega

/-- **A wrapping counter is balanced up to its wraps.** -/
theorem count_wrapping_le (hr : r < m) (hs : s < m) {W : Nat} (wraps : Nat) :
    ∀ a n, a ≤ W → a + n ≤ (wraps + 1) * W →
      Nat.count (fun k => (a + k) % W % m = r) n ≤
        Nat.count (fun k => (a + k) % W % m = s) n + (wraps + 1) := by
  -- before the first wrap the counter is not reduced
  have block : ∀ {t : Nat} a n, a + n ≤ W →
      Nat.count (fun k => (a + k) % W % m = t) n = Nat.count (fun k => (a + k) % m = t) n := by
    intro t a n hle
    apply count_congr
    intro k hk
    have hlt : a + k < W := by omega
    rw [Nat.mod_eq_of_lt hlt]
  induction wraps with
  | zero =>
    intro a n _ hle
    rw [block a n (by omega), block a n (by omega)]
    exact count_block_le hr hs a n
  | succ wraps ih =>
    intro a n ha hle
    by_cases hfirst : a + n ≤ W
    · rw [block a n hfirst, block a n hfirst]
      have := count_block_le hr hs a n
      omega
    · -- the rest of the run starts at zero
      obtain ⟨rest, rfl⟩ : ∃ rest, n = W - a + rest := Nat.exists_eq_add_of_le (by omega)
      have hlater : ∀ k, (a + (W - a + k)) % W = (0 + k) % W := by
        intro k
        rw [← Nat.add_assoc, Nat.add_sub_cancel' ha, Nat.add_mod_left, Nat.zero_add]
      have hbound : 0 + rest ≤ (wraps + 1) * W := by
        rw [Nat.succ_mul] at hle
        omega
      have hhead := count_block_le hr hs a (W - a)
      have htail := ih 0 rest (Nat.zero_le W) hbound
      rw [Nat.count_add, Nat.count_add, block a (W - a) (by omega), block a (W - a) (by omega)]
      simp only [hlater]
      omega

end Glider.Lib
