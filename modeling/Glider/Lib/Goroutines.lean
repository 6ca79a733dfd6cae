/-
Goroutines on a shared state.

A program says what a goroutine does next, one atomic operation at a time. Unlike the calls of
`Concurrent`, a goroutine knows its own index, so that it can hold a lock, and its step depends on a
choice: which case of a `select` is taken, or what the world answers.

* `step_cases` — what an action is: a goroutine is started, or one takes a step.
* `total_set` — a step changes a sum over the goroutines by the change of the one that takes it.
-/

import Glider.Lib.Machine
import Mathlib.Algebra.BigOperators.Group.List.Lemmas
import Mathlib.Algebra.Ring.Int.Defs
import Mathlib.Algebra.Ring.Nat

namespace Glider.Lib

/-- A shared state, and all goroutines started so far, each at its point of execution. -/
structure Goroutines (Shared Proc : Type) where
  shared : Shared
  procs : List Proc

namespace Goroutines

/-- A goroutine is started, or one takes a step. -/
inductive Act (Proc Choice : Type) where
  | go (p : Proc)
  | step (i : Nat) (c : Choice)
deriving DecidableEq, Repr

/-- Which goroutines can be started, and what the one with an index does. -/
structure Program (Shared Proc Choice : Type) where
  start : Shared → Proc → Bool
  step : Nat → Shared → Proc → Choice → Option (Shared × Proc)

variable {Shared Proc Choice : Type} (P : Program Shared Proc Choice)

def machine : Machine (Goroutines Shared Proc) (Act Proc Choice) where
  step s
    | .go p => if P.start s.shared p then some ⟨s.shared, s.procs ++ [p]⟩ else none
    | .step i c =>
      s.procs[i]?.bind fun p =>
        (P.step i s.shared p c).map fun next => ⟨next.1, s.procs.set i next.2⟩

variable {P} {s s' : Goroutines Shared Proc}

/-- What one action does. -/
theorem step_cases {a : Act Proc Choice} (h : (machine P).step s a = some s') :
    (∃ p, a = .go p ∧ P.start s.shared p ∧ s' = ⟨s.shared, s.procs ++ [p]⟩) ∨
    ∃ i c p m p', a = .step i c ∧ s.procs[i]? = some p ∧
      P.step i s.shared p c = some (m, p') ∧ s' = ⟨m, s.procs.set i p'⟩ := by
  cases a with
  | go p =>
    simp only [machine] at h
    split at h <;> cases h
    exact .inl ⟨p, rfl, ‹_›, rfl⟩
  | step i c =>
    obtain ⟨p, hp, h⟩ := Option.bind_eq_some_iff.mp h
    obtain ⟨⟨m, p'⟩, hstep, rfl⟩ := Option.map_eq_some_iff.mp h
    exact .inr ⟨i, c, p, m, p', rfl, hp, hstep, rfl⟩

/-- A goroutine of the list after a step is the one that took it, or another one. -/
theorem getElem?_set_cases {procs : List Proc} {i j : Nat} {p' q : Proc}
    (h : (procs.set i p')[j]? = some q) : (j = i ∧ q = p') ∨ (j ≠ i ∧ procs[j]? = some q) := by
  rw [List.getElem?_set] at h
  split at h
  · rename_i hij
    split at h
    · exact .inl ⟨hij.symm, (Option.some.inj h).symm⟩
    · cases h
  · rename_i hij
    exact .inr ⟨fun hji => hij hji.symm, h⟩

/-- A goroutine of the list after a start is the new one, or another one. -/
theorem getElem?_concat_cases {procs : List Proc} {j : Nat} {p q : Proc}
    (h : (procs ++ [p])[j]? = some q) :
    (j = procs.length ∧ q = p) ∨ (j < procs.length ∧ procs[j]? = some q) := by
  by_cases hlt : j < procs.length
  · exact .inr ⟨hlt, by rwa [List.getElem?_append_left hlt] at h⟩
  · have hj := (List.getElem?_eq_some_iff.mp h).1
    rw [List.length_append, List.length_singleton] at hj
    have heq : j = procs.length := by omega
    rw [heq, List.getElem?_concat_length] at h
    exact .inl ⟨heq, (Option.some.inj h).symm⟩

/-! ### Sums over the goroutines -/

section Total

variable (w : Proc → Int)

/-- What the goroutines hold together. -/
def total (procs : List Proc) : Int := (procs.map w).sum

@[simp] theorem total_concat (procs : List Proc) (p : Proc) :
    total w (procs ++ [p]) = total w procs + w p := by
  simp [total]

theorem total_set {procs : List Proc} {i : Nat} {p : Proc} (h : procs[i]? = some p) (p' : Proc) :
    total w (procs.set i p') = total w procs - w p + w p' := by
  induction procs generalizing i with
  | nil => cases h
  | cons q procs ih =>
    cases i with
    | zero =>
      cases h
      simp only [total, List.set_cons_zero, List.map_cons, List.sum_cons]
      omega
    | succ i =>
      have ih := ih h
      simp only [total] at ih
      simp only [total, List.set_cons_succ, List.map_cons, List.sum_cons, ih]
      omega

end Total

end Goroutines

end Glider.Lib
