/-
The health-check loop of one forwarder (`FwdrGroup.check` and `setLatency` in
`rule/group.go`).

The loop waits `CheckInterval` times the counter `wait`, compares priorities, reads the
enabled flag and runs the checker. It shares the group and the forwarders with every
other goroutine, so between any two of its accesses the machine `checkLoop` lets the
others replace the shared state (`others`). What the checker finds is an input. Durations
are 64-bit nanosecond counts and multiply with wrap-around, as in Go.

`CheckState.delays` records, for every iteration that began, how long it waited first.

* `check_paced_iff` — every iteration but the first waits at least `CheckInterval`, for
  every run in which the first look at the flag sees the given value, exactly when that
  look does not skip the test and sixteen intervals fit a duration.
* `check_spins` — a forwarder found enabled at the first look under
  `CheckDisabledOnly` is looked at again without any wait, for ever.
-/

import Glider.Rule.Dial
import Mathlib.Algebra.Group.Int.Defs
import Mathlib.Algebra.Group.Nat.Defs

namespace Glider.Rule

open Glider.Go Glider.Lib

/-! ### The loop -/

/-- The fields of `Strategy` the check loop reads. -/
structure CheckStrategy where
  checkInterval : Int64
  checkLatencySamples : Int64
  checkDisabledOnly : Bool
deriving DecidableEq, Repr

/-- `time.Duration(p.config.CheckInterval) * time.Second`. -/
def CheckStrategy.intval (c : CheckStrategy) : Int64 := c.checkInterval * Int64.ofNat second

/-- What `checker.Check` returns: the elapsed time, `proxy.ErrNotSupported`, or another
error. -/
inductive CheckResult where
  | ok (elapsed : Int64)
  | notSupported
  | failed
deriving DecidableEq, Repr

/-- `setLatency`: the average over the latest samples. -/
def newLatency (c : CheckStrategy) (lastLatency elapsed : Int64) : Int64 :=
  if 1 < c.checkLatencySamples ∧ 0 < lastLatency then
    (lastLatency * (c.checkLatencySamples - 1) + elapsed) / c.checkLatencySamples
  else elapsed

namespace GroupState

variable (s : GroupState) (f : FwdrId)

/-- A call of `Enable` that is not interrupted. -/
def callEnable : GroupState :=
  let s :=
    match (s.heap f).enableCas with
    | some _ => (s.enable f).handle (.enable f)
    | none => s
  s.write f { s.heap f with failures := 0 }

def setMaxFailures (n : UInt32) : GroupState := s.write f { s.heap f with maxFailures := n }

def setLatency (c : CheckStrategy) (elapsed : Int64) : GroupState :=
  s.write f { s.heap f with latency := newLatency c (s.heap f).latency elapsed }

end GroupState

/-- Where the loop is: at its top, after the wait, after the priority test, after the
flag test, or out of it. -/
inductive CheckStage where
  | top
  | woken
  | passed
  | testing
  | ended
deriving DecidableEq, Repr

structure CheckState where
  base : GroupState
  done : Bool
  wait : UInt8
  stage : CheckStage
  delays : List Int64

/-- `check` is called: `p.done` is open. -/
def CheckState.start (g : GroupState) : CheckState := ⟨g, false, 0, .top, []⟩

inductive CheckAct where
  /-- Other goroutines change forwarders or the group. -/
  | others (g : GroupState)
  /-- `stop` closes `p.done`. -/
  | stop
  /-- `<-p.done` at the top of the loop. -/
  | quit
  /-- The wait at the top of the loop is over. -/
  | wake
  | comparePriority
  | readEnabled
  | test (r : CheckResult)

namespace CheckState

variable (c : CheckStrategy) (f : FwdrId) (s : CheckState)

/-- `d := intval * time.Duration(wait)`. -/
def delay : Int64 := c.intval * Int64.ofNat s.wait.toNat

def move (stage : CheckStage) : CheckState := { s with stage := stage }

/-- The wait at the top is over; it is none if the product is not positive. -/
def awake : CheckState :=
  { s with stage := .woken, delays := s.delays ++ [if 0 < s.delay c then s.delay c else 0] }

/-- `wait++`, at most 16. -/
def backOff : UInt8 := if 16 < s.wait + 1 then 16 else s.wait + 1

/-- What follows `checker.Check`. -/
def tested : CheckResult → CheckState
  | .ok elapsed =>
    { s with wait := 1, base := (s.base.setLatency f c elapsed).callEnable f, stage := .top }
  | .notSupported =>
    { s with base := (s.base.setMaxFailures f 0).callEnable f, stage := .ended }
  | .failed => { s with wait := s.backOff, base := s.base.callDisable f, stage := .top }

end CheckState

/-- The check loop of forwarder `f`. With no time to wait the `select` has a `default`
branch, which is taken only while `p.done` is open. -/
def checkLoop (c : CheckStrategy) (f : FwdrId) : Machine CheckState CheckAct where
  step s
    | .others g => some { s with base := g }
    | .stop => some { s with done := true }
    | .quit => if s.stage = .top ∧ s.done then some (s.move .ended) else none
    | .wake =>
      if s.stage = .top ∧ (0 < s.delay c ∨ s.done = false) then some (s.awake c) else none
    | .comparePriority =>
      if s.stage = .woken then
        if 0 < s.wait ∧ s.base.heap.priority f < s.base.group.priority then
          some (s.move .top)
        else some (s.move .passed)
      else none
    | .readEnabled =>
      if s.stage = .passed then
        if s.base.heap.enabled f ∧ c.checkDisabledOnly then some (s.move .top)
        else some (s.move .testing)
      else none
    | .test r => if s.stage = .testing then some (s.tested c f r) else none

/-- Every iteration but the first has waited at least `CheckInterval` seconds. -/
def Paced (c : CheckStrategy) (delays : List Int64) : Prop :=
  ∀ d ∈ delays.tail, c.checkInterval.toInt * second ≤ d.toInt

/-- The look at the flag in the first iteration sees the value `e`. -/
def FirstLook (f : FwdrId) (e : Bool) (s : CheckState) : CheckAct → Prop
  | .readEnabled => s.delays.length = 1 → s.base.heap.enabled f = e
  | _ => True

/-- Sixteen intervals, the longest wait, fit a `time.Duration`. -/
def IntervalFits (c : CheckStrategy) : Prop := c.checkInterval.toInt * second * 16 < 2 ^ 63

/-! ### Durations -/

section Durations

variable {c : CheckStrategy} {s : CheckState}

/-- The wait before an iteration, wrapped to 64 bits. -/
theorem toInt_delay :
    (s.delay c).toInt = (c.checkInterval.toInt * second * s.wait.toNat).bmod (2 ^ 64) := by
  have hsecond : (Int64.ofNat second).toInt = second := Int64.toInt_ofNat_of_lt (by decide)
  have hwait : (Int64.ofNat s.wait.toNat).toInt = s.wait.toNat :=
    Int64.toInt_ofNat_of_lt (Nat.lt_trans s.wait.toNat_lt (by decide))
  rw [CheckState.delay, CheckStrategy.intval, Int64.toInt_mul, Int64.toInt_mul, hsecond, hwait,
    Int.bmod_mul_bmod]

/-- A product that fits is not wrapped, so the wait is at least one interval. -/
theorem interval_le_delay (hpos : 0 < c.checkInterval.toInt) (hfit : IntervalFits c)
    (hwait : 1 ≤ s.wait.toNat) (hmax : s.wait.toNat ≤ 16) :
    c.checkInterval.toInt * second ≤ (s.delay c).toInt := by
  have hsecond : (0 : Int) < second := by decide
  have hinterval : 0 < c.checkInterval.toInt * second := Int.mul_pos hpos hsecond
  have hle : c.checkInterval.toInt * second * s.wait.toNat ≤ c.checkInterval.toInt * second * 16 :=
    Int.mul_le_mul_of_nonneg_left (by omega) (Int.le_of_lt hinterval)
  have hge : c.checkInterval.toInt * second * 1 ≤ c.checkInterval.toInt * second * s.wait.toNat :=
    Int.mul_le_mul_of_nonneg_left (by omega) (Int.le_of_lt hinterval)
  unfold IntervalFits at hfit
  rw [toInt_delay, Int.bmod_eq_of_le (by omega) (by omega)]
  omega

/-- A multiple that does not fit wraps to less than one interval: the first multiple
beyond the range is negative. -/
theorem exists_short_multiple {x : Int} (hwrap : 2 ^ 63 ≤ x * 16) :
    ∃ w : Nat, 1 ≤ w ∧ w ≤ 16 ∧ (x * w).bmod (2 ^ 64) < x := by
  by_cases hbig : 2 ^ 63 ≤ x
  · refine ⟨1, by decide, by decide, ?_⟩
    have : (x * (1 : Nat)).bmod (2 ^ 64) < ((2 ^ 64 : Nat) + 1) / 2 := Int.bmod_lt (by decide)
    omega
  · -- the least multiple that reaches the bound stays below it by less than `x`
    obtain ⟨w, hw, least⟩ : ∃ w : Nat, 2 ^ 63 ≤ x * w ∧ ∀ v < w, x * v < 2 ^ 63 := by
      classical
      have hex : ∃ w : Nat, 2 ^ 63 ≤ x * w := ⟨16, hwrap⟩
      exact ⟨Nat.find hex, Nat.find_spec hex, fun v hv => by
        have := Nat.find_min hex hv
        omega⟩
    have hw1 : 1 ≤ w := by
      rcases Nat.eq_zero_or_pos w with rfl | hw0
      · simp at hw
      · exact hw0
    have hw16 : w ≤ 16 := by
      by_contra hlt
      have := least 16 (by omega)
      omega
    refine ⟨w, hw1, hw16, ?_⟩
    have hprev := least (w - 1) (by omega)
    have hsplit : x * w = x * (w - 1 : Nat) + x := by
      have : (w : Int) = ((w - 1 : Nat) : Int) + 1 := by omega
      rw [this, Int.mul_add, Int.mul_one]
    have hneg : (x * w).bmod (2 ^ 64) = (x * w - (2 ^ 64 : Nat)).bmod (2 ^ 64) :=
      (Int.sub_bmod_right _ _).symm
    rw [hneg, Int.bmod_eq_of_le (by omega) (by omega)]
    omega

end Durations

/-! ### The loop keeps its pace -/

section Pace

variable {c : CheckStrategy} {f : FwdrId} {e : Bool} {s s' : CheckState} {a : CheckAct}

theorem toNat_backOff (h : s.wait.toNat ≤ 16) : s.backOff.toNat = min (s.wait.toNat + 1) 16 := by
  have hsucc : (s.wait + 1).toNat = s.wait.toNat + 1 := by
    rw [UInt8.toNat_add]
    exact Nat.mod_eq_of_lt (by have : (1 : UInt8).toNat = 1 := rfl; omega)
  unfold CheckState.backOff
  have hlt : (16 : UInt8) < s.wait + 1 ↔ 16 < s.wait.toNat + 1 := by
    rw [UInt8.lt_iff_toNat_lt, hsucc]
    rfl
  split
  · rename_i hover
    have := hlt.mp hover
    show 16 = _
    omega
  · rename_i hunder
    have := mt hlt.mpr hunder
    rw [hsucc]
    omega

/-- The invariant: the counter stays within its bounds, it is zero only up to the first
test, and the waits so far are long enough. -/
structure CheckInv (c : CheckStrategy) (s : CheckState) : Prop where
  wait_le : s.wait.toNat ≤ 16
  top : s.wait.toNat = 0 → s.stage = .top → s.delays = []
  first : s.wait.toNat = 0 → s.stage ≠ .top → s.stage ≠ .ended → s.delays.length = 1
  paced : Paced c s.delays

theorem checkInv_start (g : GroupState) : CheckInv c (.start g) where
  wait_le := Nat.zero_le 16
  top _ _ := rfl
  first _ h := absurd rfl h
  paced d hd := by cases hd

theorem Paced.concat {delays : List Int64} {d : Int64} (paced : Paced c delays)
    (hd : delays ≠ [] → c.checkInterval.toInt * second ≤ d.toInt) : Paced c (delays ++ [d]) := by
  intro d' hd'
  cases delays with
  | nil => cases hd'
  | cons d₀ ds =>
    rcases List.mem_append.mp hd' with hold | hnew
    · exact paced d' hold
    · rw [List.mem_singleton.mp hnew]
      exact hd (List.cons_ne_nil _ _)

theorem wake_eq_some (h : (checkLoop c f).step s .wake = some s') :
    s.stage = .top ∧ s' = s.awake c := by
  simp only [checkLoop] at h
  split at h <;> cases h
  rename_i hready
  exact ⟨hready.1, rfl⟩

/-- A wait with a positive counter is long enough, and one with the counter at zero is
the first. -/
theorem checkInv_wake (hpos : 0 < c.checkInterval.toInt) (hfit : IntervalFits c)
    (inv : CheckInv c s) (h : (checkLoop c f).step s .wake = some s') : CheckInv c s' := by
  obtain ⟨htop, rfl⟩ := wake_eq_some h
  refine ⟨inv.wait_le, fun _ => nofun, fun hzero _ _ => ?_, ?_⟩
  · show (s.delays ++ [_]).length = 1
    rw [inv.top hzero htop]
    rfl
  · refine inv.paced.concat fun hlater => ?_
    have hwait : 1 ≤ s.wait.toNat := by
      rcases Nat.eq_zero_or_pos s.wait.toNat with hzero | hwait
      · exact absurd (inv.top hzero htop) hlater
      · exact hwait
    have hle := interval_le_delay hpos hfit hwait inv.wait_le
    have hdelay : 0 < s.delay c := by
      rw [Int64.lt_iff_toInt_lt]
      have : 0 < c.checkInterval.toInt * second := Int.mul_pos hpos (by decide)
      exact Int.lt_of_lt_of_le this hle
    rwa [if_pos hdelay]

theorem checkInv_comparePriority (inv : CheckInv c s)
    (h : (checkLoop c f).step s .comparePriority = some s') : CheckInv c s' := by
  simp only [checkLoop] at h
  split at h
  · rename_i hwoken
    have hfirst : s.wait.toNat = 0 → s.delays.length = 1 := fun hzero =>
      inv.first hzero (by rw [hwoken]; decide) (by rw [hwoken]; decide)
    split at h <;> cases h
    · -- skipping needs a positive counter
      rename_i hskip
      have hwait : 0 < s.wait.toNat := UInt8.lt_iff_toNat_lt.mp hskip.1
      exact ⟨inv.wait_le, fun hzero => absurd hzero (Nat.ne_of_gt hwait),
        fun hzero => absurd hzero (Nat.ne_of_gt hwait), inv.paced⟩
    · exact ⟨inv.wait_le, fun _ => nofun, fun hzero _ _ => hfirst hzero,
        inv.paced⟩
  · cases h

/-- The first look goes on to the test, so the counter leaves zero. -/
theorem checkInv_readEnabled (htests : ¬ (e = true ∧ c.checkDisabledOnly = true))
    (inv : CheckInv c s) (look : FirstLook f e s .readEnabled)
    (h : (checkLoop c f).step s .readEnabled = some s') : CheckInv c s' := by
  simp only [checkLoop] at h
  split at h
  · rename_i hpassed
    have hfirst : s.wait.toNat = 0 → s.delays.length = 1 := fun hzero =>
      inv.first hzero (by rw [hpassed]; decide) (by rw [hpassed]; decide)
    split at h <;> cases h
    · rename_i hskip
      have hwait : s.wait.toNat ≠ 0 := fun hzero =>
        htests ⟨(look (hfirst hzero)).symm.trans hskip.1, hskip.2⟩
      exact ⟨inv.wait_le, fun hzero => absurd hzero hwait, fun hzero => absurd hzero hwait,
        inv.paced⟩
    · exact ⟨inv.wait_le, fun _ => nofun, fun hzero _ _ => hfirst hzero,
        inv.paced⟩
  · cases h

theorem checkInv_test {r : CheckResult} (inv : CheckInv c s)
    (h : (checkLoop c f).step s (.test r) = some s') : CheckInv c s' := by
  simp only [checkLoop] at h
  split at h <;> cases h
  cases r with
  | ok elapsed =>
    have hone : (1 : UInt8).toNat ≠ 0 := by decide
    exact ⟨(by decide : (1 : UInt8).toNat ≤ 16), fun hzero => absurd hzero hone,
      fun hzero => absurd hzero hone, inv.paced⟩
  | notSupported =>
    exact ⟨inv.wait_le, fun _ => nofun, fun _ _ hended => absurd rfl hended,
      inv.paced⟩
  | failed =>
    have hnat := toNat_backOff inv.wait_le
    have hpos : s.backOff.toNat ≠ 0 := by omega
    exact ⟨(by omega : s.backOff.toNat ≤ 16), fun hzero => absurd hzero hpos,
      fun hzero => absurd hzero hpos, inv.paced⟩

theorem checkInv_step (hpos : 0 < c.checkInterval.toInt) (hfit : IntervalFits c)
    (htests : ¬ (e = true ∧ c.checkDisabledOnly = true)) (s : CheckState) (a : CheckAct)
    (s' : CheckState) (inv : CheckInv c s) (look : FirstLook f e s a)
    (h : (checkLoop c f).step s a = some s') : CheckInv c s' := by
  cases a with
  | others g | stop =>
    cases h
    exact ⟨inv.wait_le, inv.top, inv.first, inv.paced⟩
  | quit =>
    simp only [checkLoop] at h
    split at h <;> cases h
    exact ⟨inv.wait_le, fun _ => nofun, fun _ _ hended => absurd rfl hended,
      inv.paced⟩
  | wake => exact checkInv_wake hpos hfit inv h
  | comparePriority => exact checkInv_comparePriority inv h
  | readEnabled => exact checkInv_readEnabled htests inv look h
  | test r => exact checkInv_test inv h

end Pace

/-! ### Where the loop loses its pace -/

section Spin

variable {c : CheckStrategy} {f : FwdrId} {s : CheckState} {g : GroupState}

theorem wake_step (htop : s.stage = .top) (hopen : s.done = false) :
    (checkLoop c f).step s .wake = some (s.awake c) :=
  if_pos ⟨htop, .inr hopen⟩

theorem comparePriority_step (hwoken : s.stage = .woken)
    (hno : ¬ (0 < s.wait ∧ s.base.heap.priority f < s.base.group.priority)) :
    (checkLoop c f).step s .comparePriority = some (s.move .passed) := by
  simp only [checkLoop]
  rw [if_pos hwoken, if_neg hno]

theorem readEnabled_skip (hpassed : s.stage = .passed)
    (hskip : s.base.heap.enabled f = true ∧ c.checkDisabledOnly = true) :
    (checkLoop c f).step s .readEnabled = some (s.move .top) := by
  simp only [checkLoop]
  rw [if_pos hpassed, if_pos hskip]

theorem readEnabled_step (hpassed : s.stage = .passed)
    (htests : ¬ (s.base.heap.enabled f = true ∧ c.checkDisabledOnly = true)) :
    (checkLoop c f).step s .readEnabled = some (s.move .testing) := by
  simp only [checkLoop]
  rw [if_pos hpassed, if_neg htests]

/-- The state in which the loop starts its first iteration, with the waits so far. -/
def glanced (g : GroupState) (delays : List Int64) : CheckState := ⟨g, false, 0, .top, delays⟩

/-- An iteration that finds the forwarder enabled and goes back to the top. -/
def glance : List CheckAct := [.wake, .comparePriority, .readEnabled]

theorem delay_of_wait_zero (h : s.wait = 0) : s.delay c = 0 := by
  have hzero : Int64.ofNat (0 : UInt8).toNat = 0 := rfl
  rw [CheckState.delay, h, hzero, Int64.mul_zero]

theorem awake_glanced (delays : List Int64) :
    (glanced g delays).awake c = (glanced g (delays ++ [0])).move .woken := by
  unfold CheckState.awake
  rw [delay_of_wait_zero rfl]
  rfl

/-- With the counter at zero, an enabled forwarder and `CheckDisabledOnly`, an iteration
waits for nothing and changes nothing. -/
theorem glance_run (henabled : g.heap.enabled f = true) (honly : c.checkDisabledOnly = true)
    (delays : List Int64) :
    (checkLoop c f).run (glanced g delays) glance = some (glanced g (delays ++ [0])) ∧
      (checkLoop c f).Guarded (FirstLook f true) (glanced g delays) glance := by
  have hwake := wake_step (c := c) (f := f) (s := glanced g delays) rfl rfl
  rw [awake_glanced] at hwake
  have hcompare := comparePriority_step (c := c) (f := f)
    (s := (glanced g (delays ++ [0])).move .woken) rfl fun h =>
      absurd h.1 (UInt8.not_lt.mpr (UInt8.le_refl 0))
  have hread := readEnabled_skip (c := c) (f := f)
    (s := ((glanced g (delays ++ [0])).move .woken).move .passed) rfl ⟨henabled, honly⟩
  constructor
  · rw [glance, (checkLoop c f).run_cons_of_step hwake, (checkLoop c f).run_cons_of_step hcompare,
      (checkLoop c f).run_cons_of_step hread]
    rfl
  · refine (checkLoop c f).guarded_cons trivial hwake ?_
    refine (checkLoop c f).guarded_cons trivial hcompare ?_
    exact (checkLoop c f).guarded_cons (fun _ => henabled) hread trivial

/-- **The loop spins.** A forwarder that is enabled when its check loop starts, as
`warmCheck` leaves it, is looked at again and again without any wait if
`CheckDisabledOnly` is set and nobody disables it. -/
theorem check_spins (henabled : g.heap.enabled f = true) (honly : c.checkDisabledOnly = true)
    (n : Nat) :
    (checkLoop c f).run (.start g) (List.replicate n glance).flatten
      = some (glanced g (List.replicate n 0)) := by
  induction n with
  | zero => rfl
  | succ n ih =>
    rw [List.replicate_succ', List.flatten_append, (checkLoop c f).run_append ih,
      List.replicate_succ', List.flatten_singleton]
    exact (glance_run henabled honly _).1

/-- An iteration whose test fails, after which the others bring back the state `g`. -/
def retry (g : GroupState) : List CheckAct :=
  [.wake, .comparePriority, .readEnabled, .test .failed, .others g]

/-- A group of no active priority whose forwarders are all enabled or all disabled. -/
def quietGroup (e : Bool) : GroupState where
  heap _ := { disabled := if e then 0 else 1 }
  group := { name := [], config := {}, fwdrs := [], avail := [], index := 0, priority := 0
             next := .rr, dialAttempts := 1, dialBudget := 0 }
  pending := []
  resets := []

theorem quietGroup_enabled (e : Bool) : (quietGroup e).heap.enabled f = e := by
  show (!isTrue (if e then 0 else 1)) = e
  cases e <;> decide

/-- The state after `n` failed tests: the counter has gone up by one for each. -/
structure Retried (e : Bool) (n : Nat) (s : CheckState) : Prop where
  base : s.base = quietGroup e
  done : s.done = false
  stage : s.stage = .top
  wait : s.wait.toNat = n
  delays : s.delays.length = n

variable {e : Bool}

theorem Retried.retry {n : Nat} (h : Retried e n s) (hn : n < 16)
    (htests : ¬ (e = true ∧ c.checkDisabledOnly = true)) :
    ∃ s', (checkLoop c f).run s (retry (quietGroup e)) = some s' ∧ Retried e (n + 1) s' ∧
      (checkLoop c f).Guarded (FirstLook f e) s (retry (quietGroup e)) := by
  have henabled : s.base.heap.enabled f = e := by rw [h.base, quietGroup_enabled]
  have hwake := wake_step (c := c) (f := f) h.stage h.done
  have hcompare := comparePriority_step (c := c) (f := f) (s := s.awake c) rfl fun hskip => by
    have hlt : s.base.heap.priority f < s.base.group.priority := hskip.2
    rw [h.base] at hlt
    exact absurd hlt (UInt32.not_lt.mpr (UInt32.le_refl _))
  have hread := readEnabled_step (c := c) (f := f) (s := (s.awake c).move .passed) rfl
    fun hskip => htests ⟨henabled.symm.trans hskip.1, hskip.2⟩
  refine ⟨{ s.awake c with stage := .top, wait := s.backOff, base := quietGroup e }, ?_, ?_, ?_⟩
  · rw [Rule.retry, (checkLoop c f).run_cons_of_step hwake,
      (checkLoop c f).run_cons_of_step hcompare, (checkLoop c f).run_cons_of_step hread]
    rfl
  · refine ⟨rfl, h.done, rfl, ?_, ?_⟩
    · have hwait := toNat_backOff (s := s) (by rw [h.wait]; exact Nat.le_of_lt hn)
      rw [h.wait, Nat.min_eq_left hn] at hwait
      exact hwait
    · show (s.delays ++ [_]).length = n + 1
      rw [List.length_append, h.delays]
      rfl
  · refine (checkLoop c f).guarded_cons trivial hwake ?_
    refine (checkLoop c f).guarded_cons trivial hcompare ?_
    refine (checkLoop c f).guarded_cons (fun _ => henabled) hread ?_
    exact (checkLoop c f).guarded_cons trivial rfl
      ((checkLoop c f).guarded_cons trivial rfl trivial)

/-- Failed tests raise the counter to any value up to 16. -/
theorem exists_retried (htests : ¬ (e = true ∧ c.checkDisabledOnly = true)) {n : Nat}
    (hn : n ≤ 16) :
    ∃ as s, (checkLoop c f).run (.start (quietGroup e)) as = some s ∧ Retried e n s ∧
      (checkLoop c f).Guarded (FirstLook f e) (.start (quietGroup e)) as := by
  induction n with
  | zero => exact ⟨[], _, rfl, ⟨rfl, rfl, rfl, rfl, rfl⟩, trivial⟩
  | succ n ih =>
    obtain ⟨as, s, hrun, hs, hguard⟩ := ih (Nat.le_of_succ_le hn)
    obtain ⟨s', hrun', hs', hguard'⟩ := hs.retry (f := f) hn htests
    refine ⟨as ++ retry (quietGroup e), s', ?_, hs', ?_⟩
    · rw [(checkLoop c f).run_append hrun, hrun']
    · exact (checkLoop c f).guarded_append hrun hguard hguard'

theorem not_paced_awake (hpos : 0 < c.checkInterval.toInt) (hne : s.delays ≠ [])
    (hshort : (s.delay c).toInt < c.checkInterval.toInt * second) :
    ¬ Paced c (s.awake c).delays := by
  have hmem : ∀ d, d ∈ (s.delays ++ [d]).tail := fun d => by
    rw [List.tail_append_of_ne_nil hne]
    exact List.mem_append_right _ (List.mem_singleton_self d)
  intro paced
  have hle := paced _ (hmem _)
  split at hle
  · exact absurd hle (Int.not_le.mpr hshort)
  · exact absurd hle (Int.not_le.mpr (Int.mul_pos hpos (by decide)))

/-- A run that ends at the top with too short a wait ahead goes on to break the pace. -/
theorem exists_not_paced (hpos : 0 < c.checkInterval.toInt) {as : List CheckAct}
    (hrun : (checkLoop c f).run (.start g) as = some s)
    (hguard : (checkLoop c f).Guarded (FirstLook f e) (.start g) as)
    (htop : s.stage = .top) (hopen : s.done = false) (hne : s.delays ≠ [])
    (hshort : (s.delay c).toInt < c.checkInterval.toInt * second) :
    ∃ g as s, (checkLoop c f).run (.start g) as = some s ∧
      (checkLoop c f).Guarded (FirstLook f e) (.start g) as ∧ ¬ Paced c s.delays := by
  have hwake := wake_step (c := c) (f := f) htop hopen
  refine ⟨g, as ++ [.wake], s.awake c, ?_, ?_, not_paced_awake hpos hne hshort⟩
  · rw [(checkLoop c f).run_append hrun, (checkLoop c f).run_cons_of_step hwake]
    rfl
  · exact (checkLoop c f).guarded_append hrun hguard
      ((checkLoop c f).guarded_cons trivial hwake trivial)

/-- **When the check loop keeps its pace.** For a positive `CheckInterval` and a first
look at the flag that sees `e`, every iteration but the first waits at least
`CheckInterval`, whatever the others do and the checks find, exactly when the first look
goes on to the test and sixteen intervals fit a duration. -/
theorem check_paced_iff (c : CheckStrategy) (f : FwdrId) (e : Bool) (hpos : 0 < c.checkInterval) :
    (∀ g as s, (checkLoop c f).run (.start g) as = some s →
      (checkLoop c f).Guarded (FirstLook f e) (.start g) as → Paced c s.delays) ↔
    ¬ (e = true ∧ c.checkDisabledOnly = true) ∧ IntervalFits c := by
  have hpos' : 0 < c.checkInterval.toInt := Int64.lt_iff_toInt_lt.mp hpos
  constructor
  · intro all
    have not_broken : ¬ ∃ g as s, (checkLoop c f).run (.start g) as = some s ∧
        (checkLoop c f).Guarded (FirstLook f e) (.start g) as ∧ ¬ Paced c s.delays := by
      rintro ⟨g, as, s, hrun, hguard, hnot⟩
      exact hnot (all g as s hrun hguard)
    have htests : ¬ (e = true ∧ c.checkDisabledOnly = true) := by
      rintro ⟨rfl, honly⟩
      have hglance := glance_run (f := f) (quietGroup_enabled true) honly []
      refine not_broken (exists_not_paced hpos' hglance.1 hglance.2 rfl rfl
        (List.cons_ne_nil _ _) ?_)
      rw [delay_of_wait_zero rfl]
      exact Int.mul_pos hpos' (by decide)
    refine ⟨htests, Classical.byContradiction fun hfit => ?_⟩
    obtain ⟨w, hw1, hw16, hshort⟩ := exists_short_multiple (Int.not_lt.mp hfit)
    obtain ⟨as, s, hrun, hs, hguard⟩ := exists_retried (c := c) (f := f) htests hw16
    refine not_broken (exists_not_paced hpos' hrun hguard hs.stage hs.done ?_ ?_)
    · intro hnil
      have hlen := hs.delays
      rw [hnil] at hlen
      exact absurd hlen (Nat.ne_of_lt hw1)
    · rw [toInt_delay, hs.wait]
      exact hshort
  · rintro ⟨htests, hfit⟩ g as s hrun hguard
    exact ((checkLoop c f).guarded_invariant (checkInv_step hpos' hfit htests) hrun hguard
      (checkInv_start g)).paced

/-- The default interval of 30 seconds, and an enabled forwarder that is checked. -/
theorem check_paced_default :
    (0 : Int64) < 30 ∧ ∀ g as s, (checkLoop ⟨30, 10, false⟩ 0).run (.start g) as = some s →
      (checkLoop ⟨30, 10, false⟩ 0).Guarded (FirstLook 0 true) (.start g) as →
      Paced ⟨30, 10, false⟩ s.delays := by
  have hpos : (0 : Int64) < 30 := by decide
  have hfits : IntervalFits ⟨30, 10, false⟩ := by unfold IntervalFits; decide
  exact ⟨hpos, (check_paced_iff ⟨30, 10, false⟩ 0 true hpos).mpr ⟨by decide, hfits⟩⟩

/-- **The loop spins from its second iteration on**: 30 seconds are configured, the
forwarder is enabled, and the second iteration has not waited at all. -/
theorem check_second_look_at_once :
    ∃ s, (checkLoop ⟨30, 10, true⟩ 0).run (.start (quietGroup true)) (glance ++ glance) = some s ∧
      s.delays = [0, 0] ∧ ¬ Paced ⟨30, 10, true⟩ s.delays := by
  refine ⟨_, check_spins (quietGroup_enabled true) rfl 2, rfl, fun paced => ?_⟩
  have := paced 0 (List.mem_singleton_self _)
  revert this
  decide

end Spin

end Glider.Rule
