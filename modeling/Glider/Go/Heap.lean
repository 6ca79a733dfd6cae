/-
Binary heaps in a slice (`container/heap`).

`Push` appends an element and lets it rise, `Pop` puts the last element in place of the first one
and lets it sink. The loops of `up` and `down` have fuel; the number they start with is always
enough.

* `push_spec`, `pop_spec` — if `less` compares keys of a linear order, the slice stays a heap, `Pop`
  takes out an element with the least key, and nothing else changes but the order.

That `less` compares keys is asked for the elements of the heap only.
-/

import Glider.Lib.HeapOrder

namespace Glider.Go.Heap

open Glider.Lib.HeapOrder

variable {α : Type} (less : α → α → Bool)

/-- `h.Less(j, i)`. -/
def lessAt (h : Array α) (j i : Nat) : Bool :=
  match h[j]?, h[i]? with
  | some a, some b => less a b
  | _, _ => false

/-- `up`. -/
def up : Nat → Array α → Nat → Array α
  | 0, h, _ => h
  | fuel + 1, h, j =>
    let i := (j - 1) / 2
    if i = j || !lessAt less h j i then h else up fuel (h.swapIfInBounds i j) i

/-- The child of `i` that `down` goes on with, if it has any among the first `n` elements. -/
def child (h : Array α) (i n : Nat) : Nat :=
  if 2 * i + 2 < n && lessAt less h (2 * i + 2) (2 * i + 1) then 2 * i + 2 else 2 * i + 1

/-- `down`, for the first `n` elements. -/
def down : Nat → Array α → Nat → Nat → Array α
  | 0, h, _, _ => h
  | fuel + 1, h, i, n =>
    if n ≤ 2 * i + 1 || !lessAt less h (child less h i n) i then h
    else down fuel (h.swapIfInBounds i (child less h i n)) (child less h i n) n

/-- `heap.Push`. -/
def push (h : Array α) (x : α) : Array α := up less h.size (h.push x) h.size

/-- `heap.Pop`; `none` is a panic. -/
def pop (h : Array α) : Option (α × Array α) :=
  let n := h.size - 1
  let h := down less n (h.swapIfInBounds 0 n) 0 n
  h.back?.map fun x => (x, h.pop)

section Swap

variable {h : Array α} {i j k : Nat}

theorem getElem?_swapIfInBounds (hi : i < h.size) (hj : j < h.size) (k : Nat) :
    (h.swapIfInBounds i j)[k]? = h[Equiv.swap i j k]? := by
  rw [Array.swapIfInBounds_def, dif_pos hi, dif_pos hj, Array.getElem?_swap, Equiv.swap_apply_def]
  by_cases hk : k = j
  · subst hk
    rw [if_pos rfl]
    split
    · rename_i heq
      subst heq
      rw [Array.getElem?_eq_getElem hj]
    · rw [if_pos rfl, Array.getElem?_eq_getElem hi]
  · rw [if_neg (Ne.symm hk), if_neg hk]
    by_cases hki : k = i
    · subst hki
      rw [if_pos rfl, if_pos rfl, Array.getElem?_eq_getElem hj]
    · rw [if_neg (Ne.symm hki), if_neg hki]

theorem swapIfInBounds_perm (h : Array α) (i j : Nat) : (h.swapIfInBounds i j).Perm h := by
  rw [Array.swapIfInBounds_def]
  split
  · split
    · exact Array.swap_perm _ _
    · exact Array.Perm.refl h
  · exact Array.Perm.refl h

end Swap

theorem up_perm (fuel : Nat) (h : Array α) (j : Nat) : (up less fuel h j).Perm h := by
  induction fuel generalizing h j with
  | zero => exact Array.Perm.refl h
  | succ fuel ih =>
    rw [up]
    split
    · exact Array.Perm.refl h
    · exact (ih _ _).trans (swapIfInBounds_perm h _ _)

theorem down_perm (fuel : Nat) (h : Array α) (i n : Nat) : (down less fuel h i n).Perm h := by
  induction fuel generalizing h i with
  | zero => exact Array.Perm.refl h
  | succ fuel ih =>
    rw [down]
    split
    · exact Array.Perm.refl h
    · exact (ih _ _).trans (swapIfInBounds_perm h _ _)

theorem child_lt {h : Array α} {i n : Nat} (hmore : ¬ n ≤ 2 * i + 1) :
    i < child less h i n ∧ child less h i n < n := by
  unfold child
  split
  · rename_i hright
    rw [Bool.and_eq_true, decide_eq_true_eq] at hright
    omega
  · omega

/-- The elements from `n` on stay where they are. -/
theorem getElem?_down (fuel : Nat) {h : Array α} {i n k : Nat} (hn : n ≤ h.size) (hk : n ≤ k) :
    (down less fuel h i n)[k]? = h[k]? := by
  induction fuel generalizing h i with
  | zero => rfl
  | succ fuel ih =>
    rw [down]
    split
    · rfl
    rename_i hgo
    rw [Bool.or_eq_true, decide_eq_true_eq, not_or] at hgo
    obtain ⟨hlt, hchild⟩ := child_lt less (h := h) hgo.1
    rw [ih (by rw [Array.size_swapIfInBounds]; exact hn),
      getElem?_swapIfInBounds (by omega) (by omega),
      Equiv.swap_apply_of_ne_of_ne (by omega) (by omega)]

section Order

/-- The key at a position. -/
def keyAt {κ : Type} [Inhabited κ] (key : α → κ) (h : Array α) (i : Nat) : κ :=
  (h[i]?.map key).getD default

theorem keyAt_swapIfInBounds {κ : Type} [Inhabited κ] {key : α → κ} {h : Array α} {i j : Nat}
    (hi : i < h.size) (hj : j < h.size) :
    keyAt key (h.swapIfInBounds i j) = keyAt key h ∘ Equiv.swap i j := by
  funext k
  rw [keyAt, getElem?_swapIfInBounds hi hj]
  rfl

/-- `less` compares the keys of these elements. -/
def Compares {κ : Type} [LinearOrder κ] (key : α → κ) (h : Array α) : Prop :=
  ∀ a ∈ h, ∀ b ∈ h, less a b = true ↔ key a < key b

theorem Compares.of_perm {κ : Type} [LinearOrder κ] {key : α → κ} {less : α → α → Bool}
    {h h' : Array α} (hless : Compares less key h) (hperm : h'.Perm h) : Compares less key h' :=
  fun a ha b hb => hless a (hperm.mem_iff.mp ha) b (hperm.mem_iff.mp hb)

variable {κ : Type} [LinearOrder κ] [Inhabited κ]

/-- A slice in the order of a heap. -/
def IsHeap (key : α → κ) (h : Array α) : Prop := Heaped (keyAt key h) h.size

variable {less} {key : α → κ} {h : Array α} {i j n : Nat}

theorem lessAt_iff (hless : Compares less key h) (hj : j < h.size) (hi : i < h.size) :
    lessAt less h j i = true ↔ keyAt key h j < keyAt key h i := by
  unfold lessAt keyAt
  rw [Array.getElem?_eq_getElem hj, Array.getElem?_eq_getElem hi]
  exact hless _ (Array.getElem_mem hj) _ (Array.getElem_mem hi)

theorem up_isHeap {fuel : Nat} (hless : Compares less key h) (hj : j < h.size) (hfuel : j ≤ fuel)
    (hrises : Rises (keyAt key h) h.size j) : IsHeap key (up less fuel h j) := by
  induction fuel generalizing h j with
  | zero => exact hrises.done (.inl (Nat.le_zero.mp hfuel))
  | succ fuel ih =>
    rw [up]
    have hparent : (j - 1) / 2 = parent j := rfl
    split
    · rename_i hstop
      rw [Bool.or_eq_true, decide_eq_true_eq, hparent] at hstop
      refine hrises.done ?_
      rcases Nat.eq_zero_or_pos j with hzero | hpos
      · exact .inl hzero
      · have hlt := parent_lt hpos
        have hnot := hstop.resolve_left (Nat.ne_of_lt hlt)
        rw [Bool.not_eq_true', Bool.eq_false_iff, ne_eq, lessAt_iff hless hj (by omega),
          not_lt] at hnot
        exact .inr hnot
    · rename_i hgo
      rw [Bool.or_eq_true, decide_eq_true_eq, not_or, Bool.not_eq_true', Bool.not_eq_false,
        hparent] at hgo
      have hpos : 0 < j := by
        rcases Nat.eq_zero_or_pos j with hzero | hpos
        · exact absurd (by rw [hzero]; rfl) hgo.1
        · exact hpos
      have hlt := parent_lt hpos
      have hsmaller := (lessAt_iff hless hj (by omega)).mp hgo.2
      rw [hparent]
      refine ih (hless.of_perm (swapIfInBounds_perm ..)) ?_ (by omega) ?_
      · rw [Array.size_swapIfInBounds]
        omega
      · rw [keyAt_swapIfInBounds (by omega) hj, Array.size_swapIfInBounds]
        exact hrises.swap hpos hj hsmaller

/-- The child that `down` chooses has the least key. -/
theorem child_spec (hless : Compares less key h) (hn : n ≤ h.size) (_hmore : ¬ n ≤ 2 * i + 1) :
    parent (child less h i n) = i ∧
      ∀ c, 0 < c → c < n → parent c = i → keyAt key h (child less h i n) ≤ keyAt key h c := by
  unfold child
  split
  · rename_i hright
    rw [Bool.and_eq_true, decide_eq_true_eq] at hright
    have hlt := (lessAt_iff hless (by omega) (by omega)).mp hright.2
    refine ⟨(parent_eq_iff (by omega)).mpr (.inr rfl), fun c hc hcn hparent => ?_⟩
    rcases (parent_eq_iff hc).mp hparent with rfl | rfl
    · exact le_of_lt hlt
    · exact le_refl _
  · rename_i hleft
    rw [Bool.and_eq_true, decide_eq_true_eq, not_and] at hleft
    refine ⟨(parent_eq_iff (by omega)).mpr (.inl rfl), fun c hc hcn hparent => ?_⟩
    rcases (parent_eq_iff hc).mp hparent with rfl | rfl
    · exact le_refl _
    · have hnot := hleft hcn
      rw [lessAt_iff hless (by omega) (by omega), not_lt] at hnot
      exact hnot

theorem down_heaped {fuel : Nat} (hless : Compares less key h) (hn : n ≤ h.size)
    (hfuel : n ≤ fuel + i) (hsinks : Sinks (keyAt key h) n i) :
    Heaped (keyAt key (down less fuel h i n)) n := by
  induction fuel generalizing h i with
  | zero => exact hsinks.leaf (by omega)
  | succ fuel ih =>
    rw [down]
    split
    · rename_i hstop
      rw [Bool.or_eq_true, decide_eq_true_eq] at hstop
      by_cases hmore : n ≤ 2 * i + 1
      · exact hsinks.leaf hmore
      · obtain ⟨hlt, hchild⟩ := child_lt less (h := h) hmore
        obtain ⟨-, hleast⟩ := child_spec hless hn hmore
        have hnot := hstop.resolve_left hmore
        rw [Bool.not_eq_true', Bool.eq_false_iff, ne_eq, lessAt_iff hless (by omega) (by omega),
          not_lt] at hnot
        exact hsinks.done fun c hc hcn hparent => le_trans hnot (hleast c hc hcn hparent)
    · rename_i hgo
      rw [Bool.or_eq_true, decide_eq_true_eq, not_or, Bool.not_eq_true', Bool.not_eq_false] at hgo
      obtain ⟨hlt, hchild⟩ := child_lt less (h := h) hgo.1
      obtain ⟨hparent, hleast⟩ := child_spec hless hn hgo.1
      have hsmaller := (lessAt_iff hless (by omega) (by omega)).mp hgo.2
      have hsinks' : Sinks (keyAt key (h.swapIfInBounds i (child less h i n))) n
          (child less h i n) := by
        rw [keyAt_swapIfInBounds (by omega) (by omega)]
        exact hsinks.swap (by omega) hchild hparent hsmaller hleast
      refine ih (hless.of_perm (swapIfInBounds_perm ..)) ?_ (by omega) hsinks'
      rw [Array.size_swapIfInBounds]
      exact hn

/-- **Push.** -/
theorem push_spec {x : α} (hless : Compares less key (h.push x)) (hheap : IsHeap key h) :
    IsHeap key (push less h x) ∧ (push less h x).toList.Perm (x :: h.toList) := by
  have hsize : (h.push x).size = h.size + 1 := Array.size_push x
  have hsame : ∀ i, i < h.size → keyAt key (h.push x) i = keyAt key h i := by
    intro i hi
    rw [keyAt, Array.getElem?_push, if_neg (Nat.ne_of_lt hi)]
    rfl
  constructor
  · refine up_isHeap hless (by omega) (Nat.le_refl _) ?_
    rw [hsize]
    exact (Heaped.congr hheap hsame).rises
  · have hperm := Array.perm_iff_toList_perm.mp (up_perm less h.size (h.push x) h.size)
    rw [Array.toList_push] at hperm
    exact hperm.trans (List.perm_append_singleton x h.toList)

/-- **Pop.** -/
theorem pop_spec (hless : Compares less key h) (hheap : IsHeap key h) (hpos : 0 < h.size) :
    ∃ x rest, pop less h = some (x, rest) ∧ IsHeap key rest ∧
      (x :: rest.toList).Perm h.toList ∧ ∀ y ∈ h, key x ≤ key y := by
  obtain ⟨n, hn⟩ : ∃ n, h.size = n + 1 := ⟨h.size - 1, by omega⟩
  have hsize : h.size - 1 = n := by omega
  generalize hswapped : h.swapIfInBounds 0 n = h₁
  have hperm₁ : h₁.Perm h := hswapped ▸ swapIfInBounds_perm h 0 n
  have hsize₁ : h₁.size = n + 1 := by rw [← hswapped, Array.size_swapIfInBounds, hn]
  generalize hsunk : down less n h₁ 0 n = h₂
  have hperm₂ : h₂.Perm h := hsunk ▸ (down_perm less n h₁ 0 n).trans hperm₁
  have hsize₂ : h₂.size = n + 1 := by rw [hperm₂.size_eq, hn]
  -- the old root is now the last element
  have hlast : h₂[n]? = h[0]? := by
    have hswap : h₁[n]? = h[0]? := by
      rw [← hswapped, getElem?_swapIfInBounds hpos (by omega), Equiv.swap_apply_right]
    rw [← hswap, ← hsunk]
    exact getElem?_down less n (by omega) (Nat.le_refl n)
  have hroot : h[0]? = some h[0] := Array.getElem?_eq_getElem hpos
  have hback : h₂.back? = some h[0] := by
    rw [Array.back?_eq_getElem?, hsize₂, Nat.add_sub_cancel, hlast, hroot]
  have hsplit : h₂ = h₂.pop.push h[0] := by
    refine Array.ext_getElem? fun k => ?_
    rw [Array.getElem?_push, Array.getElem?_pop, Array.size_pop, hsize₂, Nat.add_sub_cancel]
    by_cases hk : k = n
    · rw [if_pos hk, hk, hlast, hroot]
    · rw [if_neg hk]
      split
      · rfl
      · exact Array.getElem?_eq_none (by omega)
  refine ⟨h[0], h₂.pop, ?_, ?_, ?_, ?_⟩
  · rw [pop, hsize, hswapped, hsunk, hback]
    rfl
  · have hheaped : Heaped (keyAt key h₂) n := by
      rw [← hsunk]
      refine down_heaped (hless.of_perm hperm₁) (by omega) (Nat.le_refl n) ?_
      refine (Heaped.of_le hheap (m := n) (by omega)).sinks fun i hi hin => ?_
      rw [← hswapped, keyAt_swapIfInBounds hpos (by omega), Function.comp_apply,
        Equiv.swap_apply_of_ne_of_ne (by omega) (by omega)]
    rw [IsHeap, Array.size_pop, hsize₂, Nat.add_sub_cancel]
    refine hheaped.congr fun i hi => ?_
    rw [keyAt, Array.getElem?_pop, if_pos (by omega)]
    rfl
  · have hlist := Array.perm_iff_toList_perm.mp hperm₂
    rw [hsplit, Array.toList_push] at hlist
    exact (List.perm_append_singleton _ _).symm.trans hlist
  · intro y hy
    obtain ⟨i, hi, rfl⟩ := Array.mem_iff_getElem.mp hy
    have hle := Heaped.root_le hheap hi
    rw [keyAt, keyAt, hroot, Array.getElem?_eq_getElem hi] at hle
    exact hle

end Order

end Glider.Go.Heap
