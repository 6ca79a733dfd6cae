/-
Following a partial function from a point: `orbit step n a` is where `n` steps from
`a` lead, if they all are defined.

* `orbit_isSome_of_revisits` — a point whose orbit meets some value twice is followed
  for ever.
* `revisits_of_orbit` — when the steps lead to finitely many values, so many steps
  without an end must meet one of them twice.

Together they decide termination: a bounded orbit ends exactly when it never
revisits (`orbit_eq_none_iff`).
-/

import Mathlib.Data.Fintype.Pigeonhole

namespace Glider.Lib

section Orbit

variable {α : Type} (step : α → Option α)

/-- `n` steps from `a`. -/
def orbit : Nat → α → Option α
  | 0, a => some a
  | n + 1, a => (step a).bind (orbit n)

/-- Some value occurs twice in the orbit of `a`. -/
def Revisits (a : α) : Prop :=
  ∃ i j, i < j ∧ ∃ x, orbit step i a = some x ∧ orbit step j a = some x

variable {step} {a : α}

theorem orbit_add (m n : Nat) (a : α) :
    orbit step (m + n) a = (orbit step m a).bind (orbit step n) := by
  induction m generalizing a with
  | zero => simp [orbit]
  | succ m ih =>
    rw [Nat.succ_add, orbit, orbit, Option.bind_assoc]
    exact congrArg _ (funext ih)

/-- An orbit that has ended stays ended. -/
theorem orbit_eq_none_of_le {m n : Nat} (hle : m ≤ n) (h : orbit step m a = none) :
    orbit step n a = none := by
  obtain ⟨k, rfl⟩ := Nat.exists_eq_add_of_le hle
  rw [orbit_add, h, Option.bind_none]

/-- Going round a cycle any number of times. -/
theorem orbit_mul {x : α} {d : Nat} (h : orbit step d x = some x) (k : Nat) :
    orbit step (k * d) x = some x := by
  induction k with
  | zero => simp [orbit]
  | succ k ih => rw [Nat.succ_mul, orbit_add, ih, Option.bind_some, h]

/-- **A revisiting orbit never ends.** -/
theorem orbit_isSome_of_revisits (h : Revisits step a) (n : Nat) : (orbit step n a).isSome := by
  obtain ⟨i, j, hlt, x, hi, hj⟩ := h
  obtain ⟨d, rfl⟩ := Nat.exists_eq_add_of_lt hlt
  have hcycle : orbit step (d + 1) x = some x := by
    rw [Nat.add_assoc, orbit_add, hi, Option.bind_some] at hj
    exact hj
  have hround : orbit step (i + n * (d + 1)) a = some x := by
    rw [orbit_add, hi, Option.bind_some, orbit_mul hcycle]
  have hle : n ≤ i + n * (d + 1) :=
    (Nat.le_mul_of_pos_right n (Nat.succ_pos d)).trans (Nat.le_add_left _ _)
  by_contra hnone
  rw [Option.not_isSome_iff_eq_none] at hnone
  rw [orbit_eq_none_of_le hle hnone] at hround
  cases hround

theorem orbit_isSome_of_le {m n : Nat} (hle : m ≤ n) (h : (orbit step n a).isSome) :
    (orbit step m a).isSome := by
  by_contra hnone
  rw [Option.not_isSome_iff_eq_none] at hnone
  rw [orbit_eq_none_of_le hle hnone] at h
  cases h

end Orbit

section Bounded

variable {step : Nat → Option Nat} {bound : Nat}

theorem orbit_succ_lt (hbound : ∀ a b, step a = some b → b < bound) {n a b : Nat}
    (h : orbit step (n + 1) a = some b) : b < bound := by
  rw [orbit_add n 1] at h
  obtain ⟨x, -, hx⟩ := Option.bind_eq_some_iff.mp h
  obtain ⟨y, hy, hyb⟩ := Option.bind_eq_some_iff.mp hx
  cases hyb
  exact hbound x b hy

/-- **Pigeonhole.** More steps than there are values to lead to meet a value
twice. -/
theorem revisits_of_orbit (hbound : ∀ a b, step a = some b → b < bound) {a : Nat}
    (h : (orbit step (bound + 1) a).isSome) : Revisits step a := by
  have defined : ∀ i : Fin (bound + 1), (orbit step (i + 1) a).isSome := fun i =>
    orbit_isSome_of_le (Nat.succ_le_succ (Nat.lt_succ_iff.mp i.isLt)) h
  let value : Fin (bound + 1) → Fin bound := fun i =>
    ⟨(orbit step (i + 1) a).get (defined i), orbit_succ_lt hbound (Option.some_get _).symm⟩
  obtain ⟨i, j, hne, heq⟩ := Fintype.exists_ne_map_eq_of_card_lt value (by simp)
  have same : orbit step (i + 1) a = orbit step (j + 1) a := by
    rw [← Option.some_get (defined i), ← Option.some_get (defined j)]
    exact congrArg some (Fin.val_eq_of_eq heq)
  obtain ⟨x, hx⟩ := Option.isSome_iff_exists.mp (defined i)
  rcases Nat.lt_or_gt_of_ne (fun hij => hne (Fin.ext hij)) with hlt | hlt
  · exact ⟨i + 1, j + 1, Nat.succ_lt_succ hlt, x, hx, same ▸ hx⟩
  · exact ⟨j + 1, i + 1, Nat.succ_lt_succ hlt, x, same ▸ hx, hx⟩

/-- A bounded orbit ends exactly when it never revisits, and then within
`bound + 1` steps. -/
theorem orbit_eq_none_iff (hbound : ∀ a b, step a = some b → b < bound) {n a : Nat}
    (hn : bound + 1 ≤ n) : orbit step n a = none ↔ ¬ Revisits step a := by
  constructor
  · intro hnone hrevisits
    have := orbit_isSome_of_revisits hrevisits n
    rw [hnone] at this
    cases this
  · intro hnot
    by_contra hsome
    rw [← ne_eq, ← Option.isSome_iff_ne_none] at hsome
    exact hnot (revisits_of_orbit hbound (orbit_isSome_of_le hn hsome))

end Bounded

end Glider.Lib
