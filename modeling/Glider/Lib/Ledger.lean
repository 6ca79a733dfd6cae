/-
Ledgers: who holds what, in a system that lends items out and takes them back.

An owner may hold any number of items, an item waits in the list `idle` or is held by one
owner, and an item that is neither has been closed. The rules say what a step has to show to
keep the books right, whatever the owners and the items are.

* `withdraw` — items leave the list for an owner, or because they are closed.
* `restore`, `move`, `shed` — an owner gives items back, hands one over, or closes them.
* `enter` — a new item comes in with its owner.

A mutex is kept in the same manner, by the one goroutine that is inside: `Mutex`.
-/

import Mathlib.Data.List.Nodup
import Mathlib.Logic.Function.Basic

namespace Glider.Lib

/-- The books are right: nothing is held twice, and nothing is lost. -/
structure Ledger {Owner Item : Type} (held : Owner → Item → Prop) (idle : List Item)
    (closed known : Item → Prop) : Prop where
  nodup : idle.Nodup
  idle_known : ∀ x ∈ idle, known x
  held_known : ∀ o x, held o x → known x
  apart : ∀ o x, held o x → x ∉ idle
  unique : ∀ o o' x, held o x → held o' x → o = o'
  accounted : ∀ x, known x → closed x ∨ (∃ o, held o x) ∨ x ∈ idle

namespace Ledger

variable {Owner Item : Type} {held held' : Owner → Item → Prop} {idle idle' : List Item}
  {closed closed' known known' : Item → Prop}

/-- More items are closed. -/
theorem mono (inv : Ledger held idle closed known) (hclosed : ∀ x, closed x → closed' x) :
    Ledger held idle closed' known :=
  { inv with accounted := fun x hx => (inv.accounted x hx).imp_left (hclosed x) }

/-- The items `out` leave the list for `o₀`, and others because they are closed. -/
theorem withdraw (inv : Ledger held idle closed known) (o₀ : Owner) (out : List Item)
    (hnodup : (idle' ++ out).Nodup) (hsub : ∀ x ∈ idle' ++ out, x ∈ idle)
    (hall : ∀ x ∈ idle, closed x ∨ x ∈ idle' ++ out)
    (hheld : ∀ o x, held' o x ↔ held o x ∨ (o = o₀ ∧ x ∈ out)) :
    Ledger held' idle' closed known where
  nodup := (List.nodup_append.mp hnodup).1
  idle_known x hx := inv.idle_known x (hsub x (List.mem_append_left _ hx))
  held_known o x h := by
    obtain h | ⟨-, hx⟩ := (hheld o x).mp h
    · exact inv.held_known o x h
    · exact inv.idle_known x (hsub x (List.mem_append_right _ hx))
  apart o x h hx := by
    obtain h | ⟨-, hout⟩ := (hheld o x).mp h
    · exact inv.apart o x h (hsub x (List.mem_append_left _ hx))
    · exact (List.nodup_append.mp hnodup).2.2 x hx x hout rfl
  unique o o' x h h' := by
    have hidle : ∀ x ∈ out, x ∈ idle := fun x hx => hsub x (List.mem_append_right _ hx)
    obtain h | ⟨ho, hx⟩ := (hheld o x).mp h <;> obtain h' | ⟨ho', hx'⟩ := (hheld o' x).mp h'
    · exact inv.unique o o' x h h'
    · exact absurd (hidle x hx') (inv.apart o x h)
    · exact absurd (hidle x hx) (inv.apart o' x h')
    · exact ho.trans ho'.symm
  accounted x hx := by
    obtain h | ⟨o, h⟩ | h := inv.accounted x hx
    · exact .inl h
    · exact .inr (.inl ⟨o, (hheld o x).mpr (.inl h)⟩)
    · obtain h | h := hall x h
      · exact .inl h
      · obtain h | h := List.mem_append.mp h
        · exact .inr (.inr h)
        · exact .inr (.inl ⟨o₀, (hheld o₀ x).mpr (.inr ⟨rfl, h⟩)⟩)

variable {x₀ : Item}

/-- The owner `o₀` puts `x₀` back at the end of the list. -/
theorem restore (inv : Ledger held idle closed known) {o₀ : Owner} (hx₀ : held o₀ x₀)
    (hheld : ∀ o x, held' o x ↔ held o x ∧ x ≠ x₀) : Ledger held' (idle ++ [x₀]) closed known where
  nodup := List.nodup_append.mpr ⟨inv.nodup, List.nodup_singleton _, fun x hx y hy hxy => by
    obtain rfl := List.mem_singleton.mp hy
    exact inv.apart o₀ y hx₀ (hxy ▸ hx)⟩
  idle_known x hx := by
    obtain hx | hx := List.mem_append.mp hx
    · exact inv.idle_known x hx
    · exact List.mem_singleton.mp hx ▸ inv.held_known o₀ x₀ hx₀
  held_known o x h := inv.held_known o x ((hheld o x).mp h).1
  apart o x h hx := by
    obtain ⟨h, hne⟩ := (hheld o x).mp h
    obtain hx | hx := List.mem_append.mp hx
    · exact inv.apart o x h hx
    · exact hne (List.mem_singleton.mp hx)
  unique o o' x h h' := inv.unique o o' x ((hheld o x).mp h).1 ((hheld o' x).mp h').1
  accounted x hx := by
    by_cases hx₀ : x = x₀
    · exact .inr (.inr (List.mem_append_right _ (List.mem_singleton.mpr hx₀)))
    · obtain h | ⟨o, h⟩ | h := inv.accounted x hx
      · exact .inl h
      · exact .inr (.inl ⟨o, (hheld o x).mpr ⟨h, hx₀⟩⟩)
      · exact .inr (.inr (List.mem_append_left _ h))

/-- The owner `o₀` hands `x₀` over to `o₁`. -/
theorem move (inv : Ledger held idle closed known) {o₀ : Owner} (o₁ : Owner) (hx₀ : held o₀ x₀)
    (hheld : ∀ o x, held' o x ↔ (held o x ∧ x ≠ x₀) ∨ (o = o₁ ∧ x = x₀)) :
    Ledger held' idle closed known where
  nodup := inv.nodup
  idle_known := inv.idle_known
  held_known o x h := by
    obtain ⟨h, -⟩ | ⟨-, rfl⟩ := (hheld o x).mp h
    · exact inv.held_known o x h
    · exact inv.held_known o₀ x hx₀
  apart o x h := by
    obtain ⟨h, -⟩ | ⟨-, rfl⟩ := (hheld o x).mp h
    · exact inv.apart o x h
    · exact inv.apart o₀ x hx₀
  unique o o' x h h' := by
    obtain ⟨h, hne⟩ | ⟨ho, hx⟩ := (hheld o x).mp h <;>
      obtain ⟨h', hne'⟩ | ⟨ho', hx'⟩ := (hheld o' x).mp h'
    · exact inv.unique o o' x h h'
    · exact absurd hx' hne
    · exact absurd hx hne'
    · exact ho.trans ho'.symm
  accounted x hx := by
    by_cases hx₀ : x = x₀
    · exact .inr (.inl ⟨o₁, (hheld o₁ x).mpr (.inr ⟨rfl, hx₀⟩)⟩)
    · obtain h | ⟨o, h⟩ | h := inv.accounted x hx
      · exact .inl h
      · exact .inr (.inl ⟨o, (hheld o x).mpr (.inl ⟨h, hx₀⟩)⟩)
      · exact .inr (.inr h)

/-- Owners let go of items that are closed. -/
theorem shed (inv : Ledger held idle closed known) (hsub : ∀ o x, held' o x → held o x)
    (hlost : ∀ o x, held o x → ¬ held' o x → closed x) : Ledger held' idle closed known where
  nodup := inv.nodup
  idle_known := inv.idle_known
  held_known o x h := inv.held_known o x (hsub o x h)
  apart o x h := inv.apart o x (hsub o x h)
  unique o o' x h h' := inv.unique o o' x (hsub o x h) (hsub o' x h')
  accounted x hx := by
    obtain h | ⟨o, h⟩ | h := inv.accounted x hx
    · exact .inl h
    · by_cases h' : held' o x
      · exact .inr (.inl ⟨o, h'⟩)
      · exact .inl (hlost o x h h')
    · exact .inr (.inr h)

/-- The new item `x₀` comes in with the owner `o₀`. -/
theorem enter (inv : Ledger held idle closed known) (o₀ : Owner) (hx₀ : ¬ known x₀)
    (hknown : ∀ x, known' x ↔ known x ∨ x = x₀)
    (hheld : ∀ o x, held' o x ↔ held o x ∨ (o = o₀ ∧ x = x₀)) :
    Ledger held' idle closed known' where
  nodup := inv.nodup
  idle_known x hx := (hknown x).mpr (.inl (inv.idle_known x hx))
  held_known o x h := (hknown x).mpr <| by
    obtain h | ⟨-, hx⟩ := (hheld o x).mp h
    · exact .inl (inv.held_known o x h)
    · exact .inr hx
  apart o x h := by
    obtain h | ⟨-, rfl⟩ := (hheld o x).mp h
    · exact inv.apart o x h
    · exact fun hx => hx₀ (inv.idle_known x hx)
  unique o o' x h h' := by
    obtain h | ⟨ho, hx⟩ := (hheld o x).mp h <;> obtain h' | ⟨ho', hx'⟩ := (hheld o' x).mp h'
    · exact inv.unique o o' x h h'
    · exact absurd (hx' ▸ inv.held_known o x h) hx₀
    · exact absurd (hx ▸ inv.held_known o' x h') hx₀
    · exact ho.trans ho'.symm
  accounted x hx := by
    obtain hx | hx := (hknown x).mp hx
    · obtain h | ⟨o, h⟩ | h := inv.accounted x hx
      · exact .inl h
      · exact .inr (.inl ⟨o, (hheld o x).mpr (.inl h)⟩)
      · exact .inr (.inr h)
    · exact .inr (.inl ⟨o₀, (hheld o₀ x).mpr (.inr ⟨rfl, hx⟩)⟩)

/-! One owner at a time changes what it holds. -/

section Update

variable [DecidableEq Owner] {o₀ o : Owner} {x₀ x : Item}

variable {P : Item → Prop}

theorem shed_update (inv : Ledger held idle closed known) (hsub : ∀ x, P x → held o₀ x)
    (hlost : ∀ x, held o₀ x → ¬ P x → closed x) :
    Ledger (Function.update held o₀ P) idle closed known := by
  refine inv.shed (fun o x h => ?_) fun o x h hnot => ?_
  · by_cases ho : o = o₀
    · subst ho
      rw [Function.update_self] at h
      exact hsub x h
    · rwa [Function.update_of_ne ho] at h
  · by_cases ho : o = o₀
    · subst ho
      rw [Function.update_self] at hnot
      exact hlost x h hnot
    · rw [Function.update_of_ne ho] at hnot
      exact absurd h hnot

theorem gain_iff (hnone : ∀ x, ¬ held o₀ x) :
    Function.update held o₀ P o x ↔ held o x ∨ (o = o₀ ∧ P x) := by
  by_cases ho : o = o₀
  · subst ho
    simp [hnone x]
  · simp [ho]

theorem lose_iff (inv : Ledger held idle closed known) (hx₀ : ∀ x, held o₀ x ↔ x = x₀)
    (hP : ∀ x, ¬ P x) : Function.update held o₀ P o x ↔ held o x ∧ x ≠ x₀ := by
  by_cases ho : o = o₀
  · subst ho
    rw [Function.update_self, hx₀ x]
    exact ⟨fun h => absurd h (hP x), fun h => absurd h.1 h.2⟩
  · rw [Function.update_of_ne ho]
    refine ⟨fun h => ⟨h, fun hx => ?_⟩, fun h => h.1⟩
    exact ho (inv.unique o o₀ x h ((hx₀ x).mpr hx))

theorem move_iff {P Q : Item → Prop} {o₁ : Owner} (inv : Ledger held idle closed known)
    (hx₀ : ∀ x, held o₀ x ↔ x = x₀) (hne : o₁ ≠ o₀) (hP : ∀ x, ¬ P x)
    (hQ : ∀ x, Q x ↔ held o₁ x ∨ x = x₀) :
    Function.update (Function.update held o₁ Q) o₀ P o x ↔
      (held o x ∧ x ≠ x₀) ∨ (o = o₁ ∧ x = x₀) := by
  by_cases ho : o = o₀
  · subst ho
    simp [hP x, hx₀ x, hne.symm]
  · rw [Function.update_of_ne ho]
    have hother (h : held o x) : x ≠ x₀ := by
      intro hx
      exact ho (inv.unique o o₀ x h ((hx₀ x).mpr hx))
    by_cases ho₁ : o = o₁
    · subst ho₁
      rw [Function.update_self, hQ]
      exact ⟨fun h => h.imp (fun h => ⟨h, hother h⟩) fun h => ⟨rfl, h⟩,
        fun h => h.imp And.left And.right⟩
    · rw [Function.update_of_ne ho₁]
      exact ⟨fun h => .inl ⟨h, hother h⟩, fun h => (h.resolve_right fun h => ho₁ h.1).1⟩

end Update

end Ledger

/-! ### Mutexes -/

/-- The lock is held by the goroutine inside the critical section. -/
def Mutex {Who : Type} (lock : Option Who) (inside : Who → Bool) : Prop :=
  ∀ who, lock = some who ↔ inside who = true

namespace Mutex

variable {Who : Type} {lock : Option Who} {inside : Who → Bool} {who : Who}

theorem alone (inv : Mutex lock inside) {who' : Who} (h : inside who = true)
    (h' : inside who' = true) : who = who' :=
  Option.some.inj (((inv who).mpr h).symm.trans ((inv who').mpr h'))

variable [DecidableEq Who]

/-- A goroutine goes on, inside or outside as before. -/
theorem stay (inv : Mutex lock inside) {b : Bool} (hb : b = inside who) :
    Mutex lock (Function.update inside who b) := by
  rw [hb, Function.update_eq_self]
  exact inv

theorem acquire (inv : Mutex lock inside) (hfree : lock = none) (who : Who) :
    Mutex (some who) (Function.update inside who true) := by
  intro who'
  by_cases h : who' = who
  · rw [h, Function.update_self]
    exact ⟨fun _ => rfl, fun _ => rfl⟩
  · rw [Function.update_of_ne h, ← inv who', hfree]
    exact ⟨fun heq => absurd (Option.some.inj heq).symm h, nofun⟩

theorem release (inv : Mutex lock inside) (hheld : inside who = true) :
    Mutex none (Function.update inside who false) := by
  intro who'
  refine ⟨nofun, fun hin => ?_⟩
  by_cases h : who' = who
  · rw [h, Function.update_self] at hin
    cases hin
  · rw [Function.update_of_ne h] at hin
    exact absurd (inv.alone hin hheld) h

end Mutex

end Glider.Lib
