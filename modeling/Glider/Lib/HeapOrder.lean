/-
The order of a binary heap, as a property of the function from positions to keys.

A position other than zero has a parent, and a heap is a function that does not fall from a parent
to its children. While an element is on its way, the order holds everywhere but at its position.

* `Rises.swap`, `Rises.done` — an element that is too small for its position goes up.
* `Sinks.swap`, `Sinks.done` — an element that is too large goes down.
* `Heaped.root_le` — the first key is the least.

The swap of two positions is the composition with `Equiv.swap`, so that nothing here depends on how
the elements are stored.
-/

import Mathlib.Logic.Equiv.Basic
import Mathlib.Order.Lattice

namespace Glider.Lib.HeapOrder

/-- The position above. -/
def parent (i : Nat) : Nat := (i - 1) / 2

theorem parent_lt {i : Nat} (h : 0 < i) : parent i < i := by
  unfold parent
  omega

/-- The children of a position. -/
theorem parent_eq_iff {c i : Nat} (h : 0 < c) : parent c = i ↔ c = 2 * i + 1 ∨ c = 2 * i + 2 := by
  unfold parent
  omega

variable {κ : Type} [LinearOrder κ] {f : Nat → κ} {n i j c : Nat}

/-- The first `n` keys do not fall from a parent to a child. -/
def Heaped (f : Nat → κ) (n : Nat) : Prop := ∀ i, 0 < i → i < n → f (parent i) ≤ f i

/-- The key at `j` may be smaller than that of its parent. -/
structure Rises (f : Nat → κ) (n j : Nat) : Prop where
  others : ∀ i, 0 < i → i < n → i ≠ j → f (parent i) ≤ f i
  /-- The children of `j` are in order with its parent. -/
  across : 0 < j → ∀ c, 0 < c → c < n → parent c = j → f (parent j) ≤ f c

/-- The key at `i` may be greater than those of its children. -/
structure Sinks (f : Nat → κ) (n i : Nat) : Prop where
  others : ∀ c, 0 < c → c < n → parent c ≠ i → f (parent c) ≤ f c
  across : 0 < i → ∀ c, 0 < c → c < n → parent c = i → f (parent i) ≤ f c

/-- The least key is at the root. -/
theorem Heaped.root_le (h : Heaped f n) (hi : i < n) : f 0 ≤ f i := by
  induction i using Nat.strongRecOn with
  | ind i ih =>
    rcases Nat.eq_zero_or_pos i with rfl | hpos
    · exact le_refl _
    · have hlt := parent_lt hpos
      exact le_trans (ih (parent i) hlt (by omega)) (h i hpos hi)

theorem Heaped.of_le {m : Nat} (h : Heaped f n) (hm : m ≤ n) : Heaped f m :=
  fun i hpos hi => h i hpos (by omega)

theorem Heaped.congr {g : Nat → κ} (h : Heaped f n) (heq : ∀ i, i < n → g i = f i) :
    Heaped g n := by
  intro i hpos hi
  have hlt := parent_lt hpos
  rw [heq i hi, heq (parent i) (by omega)]
  exact h i hpos hi

/-! ### Going up -/

/-- A new last element may have to rise. -/
theorem Heaped.rises (h : Heaped f n) : Rises f (n + 1) n where
  others i hpos hi hne := h i hpos (by omega)
  across _ c hc hcn hparent := by
    have hlt := parent_lt hc
    omega

theorem Rises.done (h : Rises f n j) (hstop : j = 0 ∨ f (parent j) ≤ f j) : Heaped f n := by
  intro i hpos hi
  by_cases hij : i = j
  · subst hij
    exact hstop.resolve_left (Nat.ne_of_gt hpos)
  · exact h.others i hpos hi hij

/-- An element that is smaller than its parent changes places with it. -/
theorem Rises.swap (h : Rises f n j) (hj : 0 < j) (hjn : j < n) (hless : f j < f (parent j)) :
    Rises (f ∘ Equiv.swap (parent j) j) n (parent j) := by
  have hlt := parent_lt hj
  -- what was in order with the old parent is in order with the smaller key that takes its place
  have hold : ∀ c, 0 < c → c < n → c ≠ j → parent c = parent j → f (parent j) ≤ f c :=
    fun c hc hcn hne hparent => hparent ▸ h.others c hc hcn hne
  constructor
  · intro i hi hin hne
    simp only [Function.comp_apply]
    by_cases hij : i = j
    · subst hij
      rw [Equiv.swap_apply_left, Equiv.swap_apply_right]
      exact le_of_lt hless
    · rw [Equiv.swap_apply_of_ne_of_ne hne hij]
      by_cases hup : parent i = parent j
      · rw [hup, Equiv.swap_apply_left]
        exact le_trans (le_of_lt hless) (hold i hi hin hij hup)
      · by_cases hdown : parent i = j
        · rw [hdown, Equiv.swap_apply_right]
          exact h.across hj i hi hin hdown
        · rw [Equiv.swap_apply_of_ne_of_ne hup hdown]
          exact h.others i hi hin hij
  · intro hpj c hc hcn hparent
    have hlt' := parent_lt hpj
    have habove := h.others (parent j) hpj (by omega) (by omega)
    simp only [Function.comp_apply]
    rw [Equiv.swap_apply_of_ne_of_ne (by omega) (by omega)]
    by_cases hcj : c = j
    · rw [hcj, Equiv.swap_apply_right]
      exact habove
    · have hclt := parent_lt hc
      rw [Equiv.swap_apply_of_ne_of_ne (by omega) hcj]
      exact le_trans habove (hold c hc hcn hcj hparent)

/-! ### Going down -/

/-- A new root may have to sink. -/
theorem Heaped.sinks {g : Nat → κ} (h : Heaped f n) (heq : ∀ i, 0 < i → i < n → g i = f i) :
    Sinks g n 0 where
  others c hc hcn hparent := by
    have hlt := parent_lt hc
    rw [heq c hc hcn, heq (parent c) (Nat.pos_of_ne_zero hparent) (by omega)]
    exact h c hc hcn
  across hpos := absurd hpos (Nat.lt_irrefl 0)

theorem Sinks.done (h : Sinks f n i) (hstop : ∀ c, 0 < c → c < n → parent c = i → f i ≤ f c) :
    Heaped f n := by
  intro c hc hcn
  by_cases hparent : parent c = i
  · rw [hparent]
    exact hstop c hc hcn hparent
  · exact h.others c hc hcn hparent

/-- An element without children has come to its place. -/
theorem Sinks.leaf (h : Sinks f n i) (hn : n ≤ 2 * i + 1) : Heaped f n := by
  refine h.done fun c hc hcn hparent => ?_
  have := (parent_eq_iff hc).mp hparent
  omega

/-- An element that is greater than the least of its children changes places with it. -/
theorem Sinks.swap (h : Sinks f n i) (hc : 0 < c) (hcn : c < n) (hparent : parent c = i)
    (hless : f c < f i) (hleast : ∀ d, 0 < d → d < n → parent d = i → f c ≤ f d) :
    Sinks (f ∘ Equiv.swap i c) n c := by
  have hlt : i < c := hparent ▸ parent_lt hc
  constructor
  · intro d hd hdn hne
    have hdlt := parent_lt hd
    simp only [Function.comp_apply]
    by_cases hup : parent d = i
    · rw [hup, Equiv.swap_apply_left]
      by_cases hdc : d = c
      · rw [hdc, Equiv.swap_apply_right]
        exact le_of_lt hless
      · rw [Equiv.swap_apply_of_ne_of_ne (by omega) hdc]
        exact hleast d hd hdn hup
    · rw [Equiv.swap_apply_of_ne_of_ne hup hne]
      by_cases hdi : d = i
      · subst hdi
        rw [Equiv.swap_apply_left]
        exact h.across hd c hc hcn hparent
      · have hdc : d ≠ c := fun hdc => hup (hdc ▸ hparent)
        rw [Equiv.swap_apply_of_ne_of_ne hdi hdc]
        exact h.others d hd hdn hup
  · intro _ d hd hdn hdown
    have hdlt := parent_lt hd
    have hbelow := h.others d hd hdn (by omega)
    simp only [Function.comp_apply]
    rw [hparent, Equiv.swap_apply_left, Equiv.swap_apply_of_ne_of_ne (by omega) (by omega)]
    rw [hdown] at hbelow
    exact hbelow

end Glider.Lib.HeapOrder
