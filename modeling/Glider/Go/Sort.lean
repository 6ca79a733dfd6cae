/-
`sort.Sort` of the Go standard library, by its documentation only: it permutes
the data, leaves no element after one it is less than, and is *not* stable. A
development over `Sorter` therefore holds for every order the real routine may
leave among equal elements. `Sorter.insertion` shows that the interface is
inhabited (and is the algorithm the library runs on short slices).
-/

import Mathlib.Data.List.Sort

namespace Glider.Go

/-- A strict weak order given as a Boolean `Less`: what `sort.Sort` asks of its
argument. -/
structure StrictWeak {α : Type} (less : α → α → Bool) : Prop where
  asymm : ∀ a b, less a b = true → less b a = false
  negTrans : ∀ a b c, less b a = false → less c b = false → less c a = false

/-- An implementation of `sort.Sort`. -/
structure Sorter where
  sort : ∀ {α : Type}, (α → α → Bool) → List α → List α
  perm : ∀ {α : Type} (less : α → α → Bool) (l : List α), (sort less l).Perm l
  sorted : ∀ {α : Type} {less : α → α → Bool}, StrictWeak less → ∀ l : List α,
    (sort less l).Pairwise fun a b => less b a = false

namespace Sorter

variable (S : Sorter) {α : Type} {less : α → α → Bool} {l : List α}

@[simp] theorem mem_sort {a : α} : a ∈ S.sort less l ↔ a ∈ l :=
  (S.perm less l).mem_iff

theorem nodup_sort (h : l.Nodup) : (S.sort less l).Nodup :=
  (S.perm less l).nodup_iff.mpr h

/-- Insertion sort, the routine `sort.Sort` runs on short slices. -/
def insertion : Sorter where
  sort less l := l.insertionSort fun a b => less b a = false
  perm less l := List.perm_insertionSort _ l
  sorted {α less} weak l := by
    have total : Std.Total fun a b : α => less b a = false := by
      refine ⟨fun a b => ?_⟩
      cases hab : less b a with
      | false => exact Or.inl rfl
      | true => exact Or.inr (weak.asymm b a hab)
    have trans : IsTrans α fun a b : α => less b a = false :=
      ⟨fun a b c hab hbc => weak.negTrans a b c hab hbc⟩
    exact List.pairwise_insertionSort _ l

end Sorter

end Glider.Go
