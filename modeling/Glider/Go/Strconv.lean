/-
`strconv.FormatUint` in base 10, and what makes it fit for the last part of a key: it
is injective, and it writes digits only, so that a separator before it is the last one
of the key.
-/

import Glider.Go.Strings
import Mathlib.Data.Nat.Digits.Defs

namespace Glider.Go

/-- `'/'`. -/
def slash : UInt8 := 47

/-- `strconv.FormatUint(n, 10)`. -/
def formatUint (n : Nat) : GoString :=
  if n = 0 then [48] else (Nat.digits 10 n).reverse.map fun d => (48 + d).toUInt8

example : formatUint 28 = ascii "28" := by decide

theorem digit_toNat {d : Nat} (h : d < 10) : ((48 + d).toUInt8).toNat = 48 + d :=
  Nat.mod_eq_of_lt (by omega)

theorem slash_notMem_formatUint (n : Nat) : slash ∉ formatUint n := by
  unfold formatUint
  split
  · decide
  · intro h
    obtain ⟨d, hd, heq⟩ := List.mem_map.mp h
    have hlt := Nat.digits_lt_base (by decide) (List.mem_reverse.mp hd)
    have hnat := congrArg UInt8.toNat heq
    rw [digit_toNat hlt, slash] at hnat
    exact absurd hnat (by simp; omega)

/-- The number can be read back. -/
theorem ofDigits_formatUint (n : Nat) :
    Nat.ofDigits 10 ((formatUint n).reverse.map fun b => b.toNat - 48) = n := by
  unfold formatUint
  split
  · rename_i h
    rw [h]
    rfl
  · have hread : ∀ d ∈ Nat.digits 10 n, (48 + d).toUInt8.toNat - 48 = d := by
      intro d hd
      rw [digit_toNat (Nat.digits_lt_base (by decide) hd), Nat.add_sub_cancel_left]
    have hmap : (Nat.digits 10 n).map (fun d => (48 + d).toUInt8.toNat - 48) = Nat.digits 10 n :=
      (List.map_congr_left hread).trans (List.map_id' _)
    rw [← List.map_reverse, List.reverse_reverse, List.map_map]
    exact (congrArg (Nat.ofDigits 10) hmap).trans (Nat.ofDigits_digits 10 n)

theorem formatUint_injective {n n' : Nat} (h : formatUint n = formatUint n') : n = n' := by
  rw [← ofDigits_formatUint n, h, ofDigits_formatUint n']

/-- A string is cut in one way at its last separator. -/
theorem append_sep_inj {c : UInt8} {s s' post post' : GoString} (h : c ∉ post) (h' : c ∉ post')
    (heq : s ++ c :: post = s' ++ c :: post') : s = s' ∧ post = post' := by
  have cut : ∀ s post : GoString, c ∉ post →
      (s ++ c :: post).reverse.takeWhile (· ≠ c) = post.reverse := by
    intro s post h
    rw [List.reverse_append, List.reverse_cons, List.append_assoc,
      List.takeWhile_append_of_pos fun b hb => ?_]
    · simp
    · have hne : b ≠ c := fun hbc => h (hbc ▸ List.mem_reverse.mp hb)
      simpa using hne
  have hpost : post = post' := by
    have := cut s post h
    rw [heq, cut s' post' h'] at this
    exact (List.reverse_injective this).symm
  subst hpost
  exact ⟨List.append_cancel_right heq, rfl⟩

end Glider.Go
