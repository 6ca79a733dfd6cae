/-
The failure counter of a forwarder against its status (`rule/forward.go`): `IncFailures`, `Enable`
and `Disable` at the granularity of their atomic operations, any number of them at once.

`IncFailures` compares the counter for equality with the maximum, and `Enable` sets the flag before
it clears the counter. A counter at or above the maximum is nevertheless dealt with: the call whose
increment reached the maximum is still on its way to `Disable`, or a call of `Enable` is on its way
to clear the counter, or the forwarder is disabled.

* `step_pending` — what a step can do to that.
* `run_inv` — so it holds in every run.
* `run_finish` — calls that do not overlap act as one function each.
* `maxFailures_disables` — an enabled forwarder is below its maximum, and calls that do not overlap
  disable it at exactly that failure.
-/

import Glider.Lib.Concurrent
import Glider.Rule.Forward

namespace Glider.Rule

open Glider.Go Glider.Lib

/-- A call of `IncFailures`, `Enable`, `Disable` or `SetMaxFailures(0)`, by what it does next. -/
inductive StatusCall where
  /-- `IncFailures`: the increment. -/
  | incFailures
  /-- The test of `MaxFailures()` for zero, with the counter after the increment. -/
  | loadMax (failures : UInt32)
  /-- `failures == f.MaxFailures()`. -/
  | compare (failures : UInt32)
  /-- `f.Enabled()`. -/
  | loadEnabled
  /-- `Disable`, called by `IncFailures` or by a checker: the swap. -/
  | disable
  | disableHandlers
  /-- `Enable`: the swap. -/
  | enable
  | enableHandlers
  /-- The store that clears the counter. -/
  | storeFailures
  /-- `SetMaxFailures(0)`, called by a checker. -/
  | resetMaxFailures
  | returned
deriving DecidableEq, Repr

namespace StatusCall

def step (f : Forwarder) : StatusCall → Option (Forwarder × StatusCall)
  | incFailures => some (f.addFailure, .loadMax f.addFailure.failures)
  | loadMax failures => some (f, if f.maxFailures = 0 then .returned else .compare failures)
  | compare failures => some (f, if failures = f.maxFailures then .loadEnabled else .returned)
  | loadEnabled => some (f, if f.enabled then .disable else .returned)
  | disable =>
    match f.disableCas with
    | some f' => some (f', .disableHandlers)
    | none => some (f, .returned)
  | disableHandlers => some (f, .returned)
  | enable =>
    match f.enableCas with
    | some f' => some (f', .enableHandlers)
    | none => some (f, .storeFailures)
  | enableHandlers => some (f, .storeFailures)
  | storeFailures => some ({ f with failures := 0 }, .returned)
  | resetMaxFailures => some ({ f with maxFailures := 0 }, .returned)
  | returned => none

def program : Concurrent.Program Forwarder StatusCall where
  entry c := c = incFailures ∨ c = enable ∨ c = disable ∨ c = resetMaxFailures
  returned c := c = returned
  step := step

end StatusCall

open StatusCall (program)
open Concurrent (machine AtMost Idle IsStep made)

/-- A forwarder, and the calls on it. -/
abbrev Status := Concurrent Forwarder StatusCall

/-- A new forwarder with its maximum. -/
def newStatus (maxFailures : UInt32) : Status := ⟨{ maxFailures }, []⟩

/-- No call of `IncFailures`, `Enable` or `Disable` is in progress. -/
def Quiet (s : Status) : Prop :=
  ∀ c ∈ s.calls, c = .returned ∨ c = .resetMaxFailures

/-! ### A counter at its maximum is dealt with -/

/-- The call is on its way to disable the forwarder, or to clear its counter. -/
def StatusCall.Pending (f : Forwarder) : StatusCall → Prop
  | loadMax failures | compare failures => failures = f.maxFailures
  | loadEnabled | disable | enableHandlers | storeFailures => True
  | _ => False

variable {f : Forwarder}

theorem Forwarder.enabled_iff (h : f.disabled = 0 ∨ f.disabled = 1) :
    f.enabled = true ↔ f.disabled ≠ 1 := by
  rcases h with h | h <;> simp [Forwarder.enabled, isTrue, h]

/-- The two swaps. -/
theorem Forwarder.disableCas_cases (h : f.disabled = 0 ∨ f.disabled = 1) :
    (f.disabled = 0 ∧ f.disableCas = some { f with disabled := 1 }) ∨
      (f.disabled = 1 ∧ f.disableCas = none) := by
  rcases h with h | h
  · exact .inl ⟨h, if_pos h⟩
  · exact .inr ⟨h, if_neg (by rw [h]; decide)⟩

theorem Forwarder.enableCas_cases (h : f.disabled = 0 ∨ f.disabled = 1) :
    (f.disabled = 1 ∧ f.enableCas = some { f with disabled := 0 }) ∨
      (f.disabled = 0 ∧ f.enableCas = none) := by
  rcases h with h | h
  · exact .inr ⟨h, if_neg (by rw [h]; decide)⟩
  · exact .inl ⟨h, if_pos h⟩

variable {c c' : StatusCall} {f' : Forwarder}

theorem step_flag (h : c.step f = some (f', c')) (hflag : f.disabled = 0 ∨ f.disabled = 1) :
    f'.disabled = 0 ∨ f'.disabled = 1 := by
  cases c with
  | disable =>
    obtain ⟨-, hcas⟩ | ⟨-, hcas⟩ := Forwarder.disableCas_cases hflag <;>
      simp only [StatusCall.step, hcas] at h <;> cases h
    · exact .inr rfl
    · exact hflag
  | enable =>
    obtain ⟨-, hcas⟩ | ⟨-, hcas⟩ := Forwarder.enableCas_cases hflag <;>
      simp only [StatusCall.step, hcas] at h <;> cases h
    · exact .inl rfl
    · exact hflag
  | returned => cases h
  | _ =>
    cases h
    exact hflag

/-- A counter that is above the maximum after an increment was not below it before, also if it has
wrapped around. -/
theorem le_of_le_succ {max n : UInt32} (hmax : max ≠ 0) (hne : n + 1 ≠ max) (h : max ≤ n + 1) :
    max ≤ n := by
  have hpos : max.toNat ≠ 0 := fun heq => hmax (UInt32.toNat_inj.mp heq)
  have hne' : (n + 1).toNat ≠ max.toNat := fun heq => hne (UInt32.toNat_inj.mp heq)
  have hadd : (n + 1).toNat = (n.toNat + 1) % 4294967296 := UInt32.toNat_add n 1
  rw [UInt32.le_iff_toNat_le] at h ⊢
  omega

/-- If the counter is at or above the maximum after a step, the forwarder is disabled, or the call
is on its way, or the step has made no difference. -/
theorem step_pending (hflag : f.disabled = 0 ∨ f.disabled = 1) (h : c.step f = some (f', c'))
    (hmax : f'.maxFailures ≠ 0) (hreached : f'.maxFailures ≤ f'.failures) :
    f'.disabled = 1 ∨ c'.Pending f' ∨
      (f.maxFailures = f'.maxFailures ∧ f.maxFailures ≤ f.failures ∧
        (f.disabled = 1 → f'.disabled = 1) ∧ ¬ c.Pending f) := by
  cases c with
  | incFailures =>
    cases h
    by_cases heq : f.addFailure.failures = f.maxFailures
    · exact .inr (.inl heq)
    · -- the counter has passed the maximum before
      refine .inr (.inr ⟨rfl, ?_, id, id⟩)
      exact le_of_le_succ hmax heq hreached
  | loadMax failures =>
    cases h
    by_cases heq : failures = f.maxFailures
    · rw [if_neg hmax]
      exact .inr (.inl heq)
    · exact .inr (.inr ⟨rfl, hreached, id, heq⟩)
  | compare failures =>
    cases h
    by_cases heq : failures = f.maxFailures
    · rw [if_pos heq]
      exact .inr (.inl trivial)
    · exact .inr (.inr ⟨rfl, hreached, id, heq⟩)
  | loadEnabled =>
    cases h
    by_cases henabled : f.enabled
    · rw [if_pos henabled]
      exact .inr (.inl trivial)
    · exact .inl (by rwa [Forwarder.enabled_iff hflag, ne_eq, not_not] at henabled)
  | disable =>
    obtain ⟨-, hcas⟩ | ⟨hdisabled, hcas⟩ := Forwarder.disableCas_cases hflag <;>
      simp only [StatusCall.step, hcas] at h <;> cases h
    · exact .inl rfl
    · exact .inl hdisabled
  | enable =>
    obtain ⟨-, hcas⟩ | ⟨-, hcas⟩ := Forwarder.enableCas_cases hflag <;>
      simp only [StatusCall.step, hcas] at h <;> cases h <;> exact .inr (.inl trivial)
  | disableHandlers =>
    cases h
    exact .inr (.inr ⟨rfl, hreached, id, id⟩)
  | enableHandlers =>
    cases h
    exact .inr (.inl trivial)
  | storeFailures =>
    cases h
    exact absurd (UInt32.le_zero_iff.mp hreached) hmax
  | resetMaxFailures =>
    cases h
    exact absurd rfl hmax
  | returned => cases h

structure StatusInv (s : Status) : Prop where
  flag : s.shared.disabled = 0 ∨ s.shared.disabled = 1
  reached : s.shared.maxFailures ≠ 0 → s.shared.maxFailures ≤ s.shared.failures →
    s.shared.disabled = 1 ∨ ∃ c ∈ s.calls, c.Pending s.shared

theorem pending_congr (h : f.maxFailures = f'.maxFailures) (hc : c.Pending f) : c.Pending f' := by
  cases c with
  | loadMax failures => exact hc.trans h
  | compare failures => exact hc.trans h
  | _ => exact hc

variable {s s' : Status}

theorem step_inv {a : Concurrent.Act StatusCall} (inv : StatusInv s)
    (h : (machine program).step s a = some s') : StatusInv s' := by
  obtain ⟨c, rfl, hentry, rfl⟩ | ⟨i, c, f, c', rfl, hc, hcall, rfl⟩ := Concurrent.step_cases h
  · refine ⟨inv.flag, fun hmax hreached => ?_⟩
    refine (inv.reached hmax hreached).imp_right ?_
    rintro ⟨d, hd, hpending⟩
    exact ⟨d, List.mem_append_left _ hd, hpending⟩
  · refine ⟨step_flag hcall inv.flag, fun hmax hreached => ?_⟩
    have hlt := (List.getElem?_eq_some_iff.mp hc).1
    obtain hdisabled | hpending | ⟨hsame, hle, hflag, hnot⟩ :=
      step_pending inv.flag hcall hmax hreached
    · exact .inl hdisabled
    · exact .inr ⟨c', List.mem_set hlt c', hpending⟩
    · obtain hdisabled | ⟨d, hd, hpending⟩ := inv.reached (hsame ▸ hmax) hle
      · exact .inl (hflag hdisabled)
      · have hne : d ≠ c := fun heq => hnot (heq ▸ hpending)
        exact .inr ⟨d, Concurrent.mem_set_of_ne hc hd hne, pending_congr hsame hpending⟩

theorem run_inv {acts : List (Concurrent.Act StatusCall)}
    (h : (machine program).run s acts = some s') (inv : StatusInv s) : StatusInv s' :=
  Machine.run_invariant _ (fun _ _ _ inv h => step_inv inv h) h inv

/-- Once all calls are through, nothing is pending. -/
theorem StatusInv.failures_lt {s : Status} (inv : StatusInv s) (quiet : Quiet s)
    (henabled : s.shared.enabled = true) (hmax : s.shared.maxFailures ≠ 0) :
    s.shared.failures < s.shared.maxFailures := by
  by_contra hnot
  obtain hdisabled | ⟨c, hc, hpending⟩ := inv.reached hmax (UInt32.not_lt.mp hnot)
  · exact (Forwarder.enabled_iff inv.flag).mp henabled hdisabled
  · rcases quiet c hc with rfl | rfl <;> exact hpending

/-! ### Calls that do not overlap -/

namespace Forwarder

def disable (f : Forwarder) : Forwarder := f.disableCas.getD f

def enable (f : Forwarder) : Forwarder := { f.enableCas.getD f with failures := 0 }

def incFailures (f : Forwarder) : Forwarder :=
  if f.addFailure.reachesMaxFailures then f.addFailure.disable else f.addFailure

end Forwarder

/-- What is left for a call to do, if nobody else does anything. -/
def StatusCall.finish (f : Forwarder) : StatusCall → Forwarder
  | incFailures => f.incFailures
  | loadMax failures =>
    if f.maxFailures ≠ 0 ∧ failures = f.maxFailures ∧ f.enabled then f.disable else f
  | compare failures => if failures = f.maxFailures ∧ f.enabled then f.disable else f
  | loadEnabled => if f.enabled then f.disable else f
  | disable => f.disable
  | enable => f.enable
  | enableHandlers | storeFailures => { f with failures := 0 }
  | resetMaxFailures => { f with maxFailures := 0 }
  | disableHandlers | returned => f

theorem finish_step (h : c.step f = some (f', c')) : c'.finish f' = c.finish f := by
  cases c with
  | incFailures =>
    cases h
    simp [StatusCall.finish, Forwarder.incFailures, Forwarder.reachesMaxFailures, and_assoc]
  | loadMax failures =>
    cases h
    by_cases hmax : f.maxFailures = 0 <;> simp [StatusCall.finish, hmax]
  | compare failures =>
    cases h
    by_cases heq : failures = f.maxFailures <;> simp [StatusCall.finish, heq]
  | loadEnabled =>
    cases h
    by_cases henabled : f.enabled = true <;> simp [StatusCall.finish, henabled]
  | disable =>
    simp only [StatusCall.finish, Forwarder.disable, StatusCall.step] at h ⊢
    split at h <;> rename_i hcas <;> cases h <;> simp [hcas]
  | enable =>
    simp only [StatusCall.finish, Forwarder.enable, StatusCall.step] at h ⊢
    split at h <;> rename_i hcas <;> cases h <;> simp [hcas]
  | returned => cases h
  | _ =>
    cases h
    rfl

theorem step_returned (h : program.returned c = true) : program.step f c = none := by
  cases of_decide_eq_true h
  rfl

/-- **Calls that do not overlap** act as one function each. -/
theorem run_finish {acts : List (Concurrent.Act StatusCall)} (start : Idle program s)
    (hrun : (machine program).run s acts = some s')
    (happart : (machine program).Guarded (AtMost program 1) s acts) (idle : Idle program s') :
    s'.shared = (made acts).foldl StatusCall.finish s.shared := by
  have start : Concurrent.Settled program
      (fun history f => f = history.foldl StatusCall.finish s.shared)
      (fun history f c => c.finish f = history.foldl StatusCall.finish s.shared) [] s :=
    .idle start rfl
  refine (Concurrent.run_apart ?_ ?_ ?_ hrun happart start).of_idle idle
  · rintro history _ c hentry rfl
    refine ⟨?_, ?_⟩
    · cases c with
      | returned => cases hentry
      | _ => rfl
    · rw [List.foldl_append]
      rfl
  · exact fun f c => step_returned
  · intro history f₁ c f₂ c' hQ hstep
    rw [← finish_step hstep] at hQ
    split
    · rename_i hreturned
      cases of_decide_eq_true hreturned
      exact hQ
    · exact hQ

def countFailure (k : Nat) : StatusCall → Nat
  | .incFailures => k + 1
  | .enable => 0
  | _ => k

/-- The calls of `IncFailures` since the last call of `Enable`. -/
def sinceEnable (calls : List StatusCall) : Nat := calls.foldl countFailure 0

namespace Forwarder

theorem disable_eq (h : f.disabled = 0 ∨ f.disabled = 1) :
    f.disable = { f with disabled := 1 } := by
  obtain ⟨-, hcas⟩ | ⟨hdisabled, hcas⟩ := disableCas_cases h
  · rw [disable, hcas, Option.getD_some]
  · rw [disable, hcas, Option.getD_none, ← hdisabled]

theorem enable_eq (h : f.disabled = 0 ∨ f.disabled = 1) :
    f.enable = { f with disabled := 0, failures := 0 } := by
  obtain ⟨-, hcas⟩ | ⟨hdisabled, hcas⟩ := enableCas_cases h
  · rw [enable, hcas, Option.getD_some]
  · rw [enable, hcas, Option.getD_none, ← hdisabled]

theorem reachesMaxFailures_iff : f.reachesMaxFailures = true ↔
    f.maxFailures ≠ 0 ∧ f.failures = f.maxFailures ∧ f.enabled = true := by
  simp [reachesMaxFailures, and_assoc]

/-- `IncFailures` counts, and disables the forwarder if the counter is the maximum. -/
theorem incFailures_eq (h : f.disabled = 0 ∨ f.disabled = 1) :
    f.incFailures = { f with
      failures := f.failures + 1
      disabled :=
        if f.maxFailures ≠ 0 ∧ f.failures + 1 = f.maxFailures then 1 else f.disabled } := by
  have hflag : f.addFailure.disabled = 0 ∨ f.addFailure.disabled = 1 := h
  by_cases hreached : f.maxFailures ≠ 0 ∧ f.failures + 1 = f.maxFailures
  · rw [if_pos hreached, incFailures, disable_eq hflag]
    split
    · rfl
    -- it is disabled already
    rename_i hnot
    have hdisabled : f.disabled = 1 := by
      by_contra henabled
      exact hnot (reachesMaxFailures_iff.mpr
        ⟨hreached.1, hreached.2, (enabled_iff hflag).mpr henabled⟩)
    rw [addFailure, ← hdisabled]
  · rw [if_neg hreached, incFailures, if_neg]
    · rfl
    · intro h
      obtain ⟨hmax, hfailures, -⟩ := reachesMaxFailures_iff.mp h
      exact hreached ⟨hmax, hfailures⟩

/-- The counter after `k` failures since it has been cleared. -/
structure Counted (f : Forwarder) (k : Nat) : Prop where
  flag : f.disabled = 0 ∨ f.disabled = 1
  failures : f.failures.toNat = k % 4294967296
  reached : f.maxFailures ≠ 0 → f.maxFailures.toNat ≤ k → f.disabled = 1

theorem Counted.incFailures {k : Nat} (h : f.Counted k) : f.incFailures.Counted (k + 1) := by
  have hadd : (f.failures + 1).toNat = (k + 1) % 4294967296 := by
    have := h.failures
    have : (f.failures + 1).toNat = (f.failures.toNat + 1) % 4294967296 := UInt32.toNat_add _ 1
    omega
  rw [incFailures_eq h.flag]
  refine ⟨?_, hadd, fun hmax hle => ?_⟩
  · dsimp only
    split
    · exact .inr rfl
    · exact h.flag
  · dsimp only at hmax hle ⊢
    split
    · rfl
    rename_i hnot
    refine h.reached hmax ?_
    -- the maximum is not the new count, which is below `2 ^ 32` if it is the maximum
    have hne : (f.failures + 1).toNat ≠ f.maxFailures.toNat := fun heq =>
      hnot ⟨hmax, UInt32.toNat_inj.mp heq⟩
    have := f.maxFailures.toNat_lt
    omega

end Forwarder

variable {k : Nat}

theorem finish_counted (h : f.Counted k) (hentry : program.entry c) :
    (c.finish f).Counted (countFailure k c) := by
  rcases of_decide_eq_true hentry with rfl | rfl | rfl | rfl
  · exact h.incFailures
  · rw [StatusCall.finish, Forwarder.enable_eq h.flag]
    exact ⟨.inl rfl, rfl, fun hmax hle => absurd (UInt32.toNat_inj.mp (Nat.le_zero.mp hle)) hmax⟩
  · rw [StatusCall.finish, Forwarder.disable_eq h.flag]
    exact ⟨.inr rfl, h.failures, fun _ _ => rfl⟩
  · exact ⟨h.flag, h.failures, fun hmax => absurd rfl hmax⟩

/-- Calls one after the other count the failures since the last `Enable`. -/
theorem foldl_counted {calls : List StatusCall} (h : f.Counted k)
    (hentry : ∀ c ∈ calls, program.entry c) :
    (calls.foldl StatusCall.finish f).Counted (calls.foldl countFailure k) := by
  induction calls generalizing f k with
  | nil => exact h
  | cons c calls ih =>
    exact ih (finish_counted h (hentry c List.mem_cons_self))
      fun d hd => hentry d (List.mem_cons_of_mem _ hd)

/-- A failure disables an enabled forwarder exactly if it is the one that makes the maximum. -/
theorem Forwarder.Counted.disables_iff (h : f.Counted k) (henabled : f.enabled = true) :
    f.incFailures.enabled = false ↔ k + 1 = f.maxFailures.toNat := by
  have hnot := (Forwarder.enabled_iff h.flag).mp henabled
  rw [← Bool.not_eq_true, Forwarder.enabled_iff h.incFailures.flag, ne_eq, not_not,
    Forwarder.incFailures_eq h.flag]
  dsimp only
  have hadd := h.incFailures.failures
  rw [Forwarder.incFailures_eq h.flag] at hadd
  dsimp only at hadd
  have hlt := f.maxFailures.toNat_lt
  constructor
  · intro hdisabled
    split at hdisabled
    · rename_i hreached
      rw [hreached.2] at hadd
      have hbelow : ¬ f.maxFailures.toNat ≤ k := fun hle => hnot (h.reached hreached.1 hle)
      -- a count below the maximum has not wrapped around
      omega
    · exact absurd hdisabled hnot
  · intro hk
    refine if_pos ⟨fun hzero => ?_, ?_⟩
    · rw [hzero] at hk
      cases hk
    · exact UInt32.toNat_inj.mp (by omega)

/-! ### All calls return -/

/-- The steps a call has left, at most. -/
def StatusCall.work : StatusCall → Nat
  | incFailures => 6
  | loadMax _ => 5
  | compare _ => 4
  | loadEnabled | enable => 3
  | disable | enableHandlers => 2
  | disableHandlers | storeFailures | resetMaxFailures => 1
  | returned => 0

theorem settles (s : Status) :
    (machine program).Settles IsStep (Idle program) s := by
  refine Concurrent.settles StatusCall.work (fun f c f' c' _ h => ⟨trivial, ?_⟩)
    (fun f c => step_returned) (fun f c _ h => ?_) (I := fun _ => True) trivial
  · cases c with
    | incFailures =>
      cases h
      exact Nat.lt_succ_self 5
    | loadMax failures | compare failures | loadEnabled =>
      cases h
      split <;> simp [StatusCall.work]
    | disable | enable =>
      simp only [program, StatusCall.step] at h
      split at h <;> cases h <;> decide
    | returned => cases h
    | _ =>
      cases h
      decide
  · cases c with
    | returned => cases h
    | disable | enable =>
      simp only [program, StatusCall.step]
      split <;> exact ⟨_, rfl⟩
    | _ => exact ⟨_, rfl⟩

/-- **Failures and status.** In every interleaving, an enabled forwarder on which no call is in
progress is below its maximum, and all calls return. If calls do not overlap, a call of
`IncFailures` on an enabled forwarder disables it exactly if it is the last of as many as the
maximum since the last call of `Enable`. -/
theorem maxFailures_disables (maxFailures : UInt32) :
    (∀ acts s, (machine program).run (newStatus maxFailures) acts = some s →
      (machine program).Settles IsStep (Idle program) s ∧
      (Quiet s → s.shared.enabled = true → 0 < s.shared.maxFailures →
        s.shared.failures < s.shared.maxFailures)) ∧
    ∀ acts steps s s', (machine program).run (newStatus maxFailures) acts = some s →
      (machine program).Guarded (AtMost program 1) (newStatus maxFailures) acts →
      Idle program s → s.shared.enabled = true →
      (machine program).run s (.call .incFailures :: steps) = some s' →
      (∀ a ∈ steps, IsStep a) → Idle program s' →
      (s'.shared.enabled = false ↔
        sinceEnable (made acts) + 1 = s.shared.maxFailures.toNat) := by
  have fresh : StatusInv (newStatus maxFailures) :=
    ⟨.inl rfl, fun hmax hle => absurd (UInt32.le_zero_iff.mp hle) hmax⟩
  refine ⟨fun acts s hrun => ⟨settles s, fun quiet henabled hmax => ?_⟩, ?_⟩
  · exact (run_inv hrun fresh).failures_lt quiet henabled (UInt32.pos_iff_ne_zero.mp hmax)
  · intro acts steps s s' hrun happart hidle henabled hcall hsteps hidle'
    have hstate := run_finish (fun c hc => by cases hc) hrun happart hidle
    have counted : s.shared.Counted (sinceEnable (made acts)) := by
      rw [hstate]
      refine foldl_counted ⟨.inl rfl, rfl, fun hmax hle => ?_⟩ (Concurrent.entry_of_made hrun)
      exact absurd (UInt32.toNat_inj.mp (Nat.le_zero.mp hle)) hmax
    rw [← counted.disables_iff henabled]
    have hstate' := run_finish hidle hcall (Concurrent.apart_single hidle _ hsteps) hidle'
    rw [hstate', made, Concurrent.made_steps hsteps]
    rfl

/-- With a maximum of one, the first failure disables. -/
theorem maxFailures_disables_one :
    ∃ s, (machine program).run (newStatus 1)
        (.call .incFailures :: List.replicate 6 (.step 0)) = some s ∧ Idle program s ∧
      s.shared.enabled = false := by
  refine ⟨⟨{ maxFailures := 1, failures := 1, disabled := 1 }, [.returned]⟩, rfl, by decide, ?_⟩
  refine ((maxFailures_disables 1).2 [] (List.replicate 6 (.step 0)) _ _ rfl trivial
    (fun c hc => by cases hc) rfl rfl (fun a ha => ?_) (by decide)).mpr rfl
  rw [List.eq_of_mem_replicate ha]
  trivial

end Glider.Rule
