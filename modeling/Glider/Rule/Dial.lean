/-
`FwdrGroup.Dial` (`rule/group.go`): candidates are tried in order until one
succeeds, they are used up, or the time budget leaves no room for another attempt
as slow as the last one.

What an attempt returns and how long it takes is an input: `attempts i` is the
outcome of the attempt with index `i`, and the clock is the sum of the costs so far.
A failed attempt charges its forwarder (`incFailures`), which may disable it and so
run the group's handler.

* `dial_contract` — the attempts made, the result, the failure counters and the
  time of every dial from every reachable state.
* `dial_panics` — with 2^32 healthy forwarders, the first dial divides by zero.
* `dial_reachable` — a dial takes the group through steps of the rotation machine,
  so whatever holds of every reachable group holds after a dial.
-/

import Glider.Rule.Schedule

namespace Glider.Rule

open Glider.Go Glider.Lib

/-- What one attempt to dial returns, and the time it takes. -/
structure Attempt (Conn Err : Type) where
  result : Except Err Conn
  cost : Nat

/-- The attempt returns an error. -/
def Attempt.failed {Conn Err : Type} (a : Attempt Conn Err) : Bool :=
  match a.result with
  | .ok _ => false
  | .error _ => true

namespace GroupState

variable (s : GroupState)

/-- A call of `Disable` that runs to its end. -/
def callDisable (f : FwdrId) : GroupState :=
  match (s.heap f).disableCas with
  | some _ => (s.disable f).handle (.disable f)
  | none => s

/-- `IncFailures`. -/
def incFailures (f : FwdrId) : GroupState :=
  let s := s.write f (s.heap f).addFailure
  if (s.heap f).reachesMaxFailures then s.callDisable f else s

/-- The same group with other retry bounds. -/
def withBounds (dialAttempts : Int) (dialBudget : Nat) : GroupState :=
  { s with group := { s.group with dialAttempts := dialAttempts, dialBudget := dialBudget } }

end GroupState

/-- What `Dial` returns, and its effect: the forwarders tried, the time taken and
the state of the group afterwards. -/
structure DialResult (Conn Err : Type) where
  conn : Option Conn
  dialer : Option FwdrId
  err : Option Err
  tried : List FwdrId
  elapsed : Nat
  state : GroupState

/-- The variables of the loop of `Dial`. -/
structure DialLoop (Err : Type) where
  i : Nat := 0
  elapsed : Nat := 0
  lastCost : Nat := 0
  lastDialer : Option FwdrId := none
  lastErr : Option Err := none
  tried : List FwdrId := []
  state : GroupState

section Dial

variable {Conn Err : Type} (attempts : Nat → Attempt Conn Err) (dialBudget : Nat)

/-- Leaving the loop without a connection. -/
def DialLoop.giveUp (v : DialLoop Err) : DialResult Conn Err where
  conn := none
  dialer := v.lastDialer
  err := v.lastErr
  tried := v.tried
  elapsed := v.elapsed
  state := v.state

/-- The gate: after a first attempt, a budget that has no room for another one as
slow as the last ends the loop. -/
def DialLoop.outOfBudget (v : DialLoop Err) : Prop :=
  0 < v.i ∧ 0 < dialBudget ∧ dialBudget ≤ v.elapsed + v.lastCost

instance (v : DialLoop Err) : Decidable (v.outOfBudget dialBudget) :=
  inferInstanceAs (Decidable (_ ∧ _ ∧ _))

/-- The variables after a failed attempt through `nd`. -/
def DialLoop.failed (v : DialLoop Err) (nd : FwdrId) (cost : Nat) (e : Err) : DialLoop Err where
  i := v.i + 1
  elapsed := v.elapsed + cost
  lastCost := cost
  lastDialer := some nd
  lastErr := some e
  tried := v.tried ++ [nd]
  state := v.state.incFailures nd

/-- Leaving the loop with the connection `c` through `nd`. -/
def DialLoop.connected (v : DialLoop Err) (nd : FwdrId) (cost : Nat) (c : Conn) :
    DialResult Conn Err where
  conn := some c
  dialer := some nd
  err := none
  tried := v.tried ++ [nd]
  elapsed := v.elapsed + cost
  state := v.state

/-- The loop of `Dial` over the candidates that are left. -/
def dialLoop : List FwdrId → DialLoop Err → DialResult Conn Err
  | [], v => v.giveUp
  | nd :: rest, v =>
    if v.outOfBudget dialBudget then v.giveUp
    else
      let attempt := attempts v.i
      match attempt.result with
      | .ok c => v.connected nd attempt.cost c
      | .error e => dialLoop rest (v.failed nd attempt.cost e)

/-- `FwdrGroup.Dial`; `none` is a panic of the scheduler. -/
def GroupState.dial (s : GroupState) (addr : GoString) : Option (DialResult Conn Err) :=
  match s.group.dialCandidates s.heap addr s.group.dialAttempts with
  | (none, _) => none
  | (some cands, p) =>
    some (dialLoop attempts s.group.dialBudget cands { state := { s with group := p } })

end Dial

/-! ### Charging a failure -/

section Charge

variable (s : GroupState) (f g : FwdrId)

theorem GroupState.callDisable_failures :
    ((s.callDisable f).heap g).failures = (s.heap g).failures := by
  unfold GroupState.callDisable
  split
  · rename_i v hcas
    obtain ⟨-, rfl⟩ := Forwarder.casDisabled_eq_some hcas
    rw [GroupState.handle_heap]
    simp only [GroupState.disable, hcas, GroupState.write, Heap.set_apply]
    split
    · rename_i hgf
      rw [hgf]
    · rfl
  · rfl

/-- A charge adds one to the counter of its forwarder and to no other. -/
theorem GroupState.incFailures_failures :
    ((s.incFailures f).heap g).failures =
      if g = f then (s.heap g).failures + 1 else (s.heap g).failures := by
  have hwrite : (((s.write f (s.heap f).addFailure).heap g).failures) =
      if g = f then (s.heap g).failures + 1 else (s.heap g).failures := by
    simp only [GroupState.write, Heap.set_apply]
    split
    · rename_i hgf
      rw [hgf]
      rfl
    · rfl
  unfold GroupState.incFailures
  simp only
  split
  · rw [GroupState.callDisable_failures, hwrite]
  · exact hwrite

/-- A charge is a run of the rotation machine. -/
theorem GroupState.incFailures_run (hf : f ∈ s.group.fwdrs) :
    ∃ acts, rotation.run s acts = some (s.incFailures f) := by
  have hcount : rotation.step s (.count f) = some (s.write f (s.heap f).addFailure) := rfl
  unfold GroupState.incFailures GroupState.callDisable
  simp only
  split
  · split
    · rename_i v hcas
      refine ⟨[.count f, .disable f, .handle (.disable f)], ?_⟩
      have hdisable : rotation.step (s.write f (s.heap f).addFailure) (.disable f) =
          some ((s.write f (s.heap f).addFailure).disable f) := by
        simp [rotation, GroupState.write, hf]
      have hpending : Call.disable f ∈
          ((s.write f (s.heap f).addFailure).disable f).pending := by
        simp [GroupState.disable, hcas]
      rw [rotation.run_cons_of_step hcount, rotation.run_cons_of_step hdisable, rotation.run_cons]
      simp [rotation, hpending]
    · exact ⟨[.count f], by rw [rotation.run_cons_of_step hcount, rotation.run_nil]⟩
  · exact ⟨[.count f], by rw [rotation.run_cons_of_step hcount, rotation.run_nil]⟩

end Charge

/-! ### The contract -/

section Contract

variable {Conn Err : Type} (attempts : Nat → Attempt Conn Err) (dialBudget : Nat)

/-- The clock when attempt `i` may start. -/
def spent : Nat → Nat
  | 0 => 0
  | i + 1 => spent i + (attempts i).cost

/-- The budget has room for an attempt as slow as the one before attempt `i`. -/
def Admitted (i : Nat) : Prop :=
  dialBudget = 0 ∨ spent attempts i + (attempts (i - 1)).cost < dialBudget

/-- What a dial over the candidates `cands` from the state `s` does. -/
structure DialContract (cands : List FwdrId) (s : GroupState) (r : DialResult Conn Err) :
    Prop where
  in_order : r.tried <+: cands
  nonempty : r.tried ≠ []
  distinct : r.tried.Nodup
  /-- A further attempt starts iff all earlier ones were made and failed, a
  candidate is left and the budget admits it. -/
  starts : ∀ i, 0 < i → (i < r.tried.length ↔
    (i ≤ r.tried.length ∧ ∀ j < i, (attempts j).failed = true) ∧ i < cands.length ∧
      Admitted attempts dialBudget i)
  /-- The first success, or the last failure. -/
  result : ∃ i f, r.tried.length = i + 1 ∧ cands[i]? = some f ∧ r.dialer = some f ∧
    (∀ j < i, (attempts j).failed = true) ∧
    ((∃ c, (attempts i).result = .ok c ∧ r.conn = some c ∧ r.err = none) ∨
      ∃ e, (attempts i).result = .error e ∧ r.conn = none ∧ r.err = some e)
  charged : ∀ i f, r.tried[i]? = some f → (attempts i).failed = true →
    (r.state.heap f).failures = (s.heap f).failures + 1
  uncharged : ∀ f, (∀ i, r.tried[i]? = some f → (attempts i).failed = false) →
    (r.state.heap f).failures = (s.heap f).failures
  clock : r.elapsed = spent attempts r.tried.length
  /-- The overshoot of the budget is bounded by how much slower the last attempt
  was than the one before. -/
  in_budget : ∀ k, 0 < k → r.tried.length = k + 1 → 0 < dialBudget →
    r.elapsed < dialBudget + ((attempts k).cost - (attempts (k - 1)).cost)

/-- The loop invariant: everything tried so far failed, was admitted and has been
charged. -/
structure Dialing (cands : List FwdrId) (s : GroupState) (rest : List FwdrId)
    (v : DialLoop Err) : Prop where
  nodup : cands.Nodup
  split : cands = v.tried ++ rest
  index : v.i = v.tried.length
  failed : ∀ j < v.i, (attempts j).failed = true
  admitted : ∀ j, 0 < j → j < v.i → Admitted attempts dialBudget j
  elapsed : v.elapsed = spent attempts v.i
  lastCost : 0 < v.i → v.lastCost = (attempts (v.i - 1)).cost
  last : ∀ i, v.i = i + 1 → ∃ f e, v.tried[i]? = some f ∧ (attempts i).result = .error e ∧
    v.lastDialer = some f ∧ v.lastErr = some e
  failures : ∀ f, (v.state.heap f).failures =
    if f ∈ v.tried then (s.heap f).failures + 1 else (s.heap f).failures

variable {attempts dialBudget} {cands rest : List FwdrId} {s : GroupState} {v : DialLoop Err}

theorem Attempt.failed_of_error {a : Attempt Conn Err} {e : Err} (h : a.result = .error e) :
    a.failed = true := by
  simp [Attempt.failed, h]

theorem Attempt.not_failed_of_ok {a : Attempt Conn Err} {c : Conn} (h : a.result = .ok c) :
    a.failed = false := by
  simp [Attempt.failed, h]

/-- The last attempt of a dial is bounded by the budget that admitted it. -/
theorem spent_lt_of_admitted {k : Nat} (hbudget : 0 < dialBudget)
    (admitted : Admitted attempts dialBudget k) :
    spent attempts (k + 1) < dialBudget + ((attempts k).cost - (attempts (k - 1)).cost) := by
  rcases admitted with hzero | hroom
  · omega
  · rw [spent]
    omega

namespace Dialing

/-- Past the gate the next attempt is admitted. -/
theorem admitted_now (inv : Dialing attempts dialBudget cands s rest v)
    (open_ : ¬ v.outOfBudget dialBudget) (hpos : 0 < v.i) : Admitted attempts dialBudget v.i := by
  unfold DialLoop.outOfBudget at open_
  unfold Admitted
  rw [← inv.elapsed, ← inv.lastCost hpos]
  omega

/-- A closed gate admits no further attempt. -/
theorem not_admitted (inv : Dialing attempts dialBudget cands s rest v)
    (closed : v.outOfBudget dialBudget) : ¬ Admitted attempts dialBudget v.i := by
  obtain ⟨hpos, hbudget, hover⟩ := closed
  unfold Admitted
  rw [← inv.elapsed, ← inv.lastCost hpos]
  omega

theorem tried_nodup (inv : Dialing attempts dialBudget cands s rest v) : v.tried.Nodup := by
  have nodup := inv.nodup
  rw [inv.split] at nodup
  exact (List.nodup_append.mp nodup).1

theorem failures_of_mem (inv : Dialing attempts dialBudget cands s rest v) {f : FwdrId}
    (hf : f ∈ v.tried) : (v.state.heap f).failures = (s.heap f).failures + 1 := by
  rw [inv.failures f, if_pos hf]

theorem failures_of_not_mem (inv : Dialing attempts dialBudget cands s rest v) {f : FwdrId}
    (hf : f ∉ v.tried) : (v.state.heap f).failures = (s.heap f).failures := by
  rw [inv.failures f, if_neg hf]

/-- Whoever was tried so far was tried in a failed attempt. -/
theorem failed_of_mem (inv : Dialing attempts dialBudget cands s rest v) {f : FwdrId}
    (hf : f ∈ v.tried) : ∃ i, v.tried[i]? = some f ∧ (attempts i).failed = true := by
  obtain ⟨i, hi⟩ := List.mem_iff_getElem?.mp hf
  have hlt : i < v.tried.length := (List.getElem?_eq_some_iff.mp hi).1
  exact ⟨i, hi, inv.failed i (inv.index ▸ hlt)⟩

/-- Out of candidates or out of budget, the loop returns the last failure. -/
theorem giveUp (inv : Dialing attempts dialBudget cands s rest v) (hpos : 0 < v.i)
    (stop : rest = [] ∨ v.outOfBudget dialBudget) :
    DialContract attempts dialBudget cands s v.giveUp := by
  have hindex := inv.index
  have hlen : cands.length = v.i + rest.length := by simp [inv.split, hindex]
  obtain ⟨last, hlast⟩ := Nat.exists_eq_succ_of_ne_zero hpos.ne'
  constructor
  case in_order => exact ⟨rest, inv.split.symm⟩
  case nonempty => exact List.length_pos_iff.mp (hindex ▸ hpos)
  case distinct => exact inv.tried_nodup
  case starts =>
    intro i hi
    simp only [DialLoop.giveUp, ← hindex]
    constructor
    · intro hlt
      exact ⟨⟨hlt.le, fun j hj => inv.failed j (hj.trans hlt)⟩, by omega, inv.admitted i hi hlt⟩
    · rintro ⟨⟨hle, -⟩, hcands, admitted⟩
      rcases stop with rfl | closed
      · simpa [hlen] using hcands
      · have hne : i ≠ v.i := by
          rintro rfl
          exact inv.not_admitted closed admitted
        omega
  case result =>
    obtain ⟨f, e, hf, herr, hdialer, herr'⟩ := inv.last last hlast
    refine ⟨last, f, hindex.symm.trans hlast, ?_, hdialer, fun j hj => inv.failed j (by omega),
      Or.inr ⟨e, herr, rfl, herr'⟩⟩
    rw [inv.split, List.getElem?_append_left (by omega), hf]
  case charged =>
    intro i f hf _
    exact inv.failures_of_mem (List.mem_of_getElem? hf)
  case uncharged =>
    intro f hf
    apply inv.failures_of_not_mem
    intro hmem
    obtain ⟨i, hi, hfailed⟩ := inv.failed_of_mem hmem
    exact Bool.noConfusion ((hf i hi).symm.trans hfailed)
  case clock =>
    simp only [DialLoop.giveUp, ← hindex]
    exact inv.elapsed
  case in_budget =>
    intro k hk hlen hbudget
    have hi : v.i = k + 1 := hindex.trans hlen
    have helapsed : v.elapsed = spent attempts (k + 1) := hi ▸ inv.elapsed
    simp only [DialLoop.giveUp, helapsed]
    exact spent_lt_of_admitted hbudget (inv.admitted k hk (by omega))

section Attempt

variable {nd : FwdrId}

theorem nd_not_mem (inv : Dialing attempts dialBudget cands s (nd :: rest) v) : nd ∉ v.tried := by
  intro hmem
  have nodup := inv.nodup
  rw [inv.split] at nodup
  exact List.disjoint_of_nodup_append nodup hmem List.mem_cons_self

/-- The attempts up to and including the current one are admitted. -/
theorem admitted_le (inv : Dialing attempts dialBudget cands s (nd :: rest) v)
    (open_ : ¬ v.outOfBudget dialBudget) {j : Nat} (hpos : 0 < j) (hle : j ≤ v.i) :
    Admitted attempts dialBudget j := by
  rcases hle.lt_or_eq with hlt | rfl
  · exact inv.admitted j hpos hlt
  · exact inv.admitted_now open_ hpos

/-- The first success ends the loop. -/
theorem succeed (inv : Dialing attempts dialBudget cands s (nd :: rest) v)
    (open_ : ¬ v.outOfBudget dialBudget) {c : Conn} (hok : (attempts v.i).result = .ok c) :
    DialContract attempts dialBudget cands s (v.connected nd (attempts v.i).cost c) := by
  have hindex := inv.index
  have hlen : cands.length = v.i + (rest.length + 1) := by simp [inv.split, hindex]
  have hsplit : cands = (v.tried ++ [nd]) ++ rest := by simp [inv.split]
  have hlength : (v.tried ++ [nd]).length = v.i + 1 := by simp [hindex]
  have hcurrent : (v.tried ++ [nd])[v.i]? = some nd := by simp [hindex]
  unfold DialLoop.connected
  constructor
  case in_order => exact ⟨rest, hsplit.symm⟩
  case nonempty => simp
  case distinct =>
    have nodup := inv.nodup
    rw [hsplit] at nodup
    exact (List.nodup_append.mp nodup).1
  case starts =>
    intro i hi
    simp only [hlength]
    constructor
    · intro hlt
      exact ⟨⟨hlt.le, fun j hj => inv.failed j (by omega)⟩, by omega,
        inv.admitted_le open_ hi (by omega)⟩
    · rintro ⟨⟨hle, hfailed⟩, -, -⟩
      have hne : i ≠ v.i + 1 := by
        rintro rfl
        exact Bool.noConfusion ((Attempt.not_failed_of_ok hok).symm.trans (hfailed v.i (by omega)))
      omega
  case result =>
    refine ⟨v.i, nd, hlength, ?_, rfl, inv.failed, Or.inl ⟨c, hok, rfl, rfl⟩⟩
    rw [hsplit, List.getElem?_append_left (by omega), hcurrent]
  case charged =>
    intro i f hf hfailed
    have hlt : i < v.i + 1 := hlength ▸ (List.getElem?_eq_some_iff.mp hf).1
    rcases (Nat.lt_succ_iff.mp hlt).lt_or_eq with hlt | rfl
    · rw [List.getElem?_append_left (by omega)] at hf
      exact inv.failures_of_mem (List.mem_of_getElem? hf)
    · exact Bool.noConfusion ((Attempt.not_failed_of_ok hok).symm.trans hfailed)
  case uncharged =>
    intro f hf
    apply inv.failures_of_not_mem
    intro hmem
    obtain ⟨i, hi, hfailed⟩ := inv.failed_of_mem hmem
    have hi' : (v.tried ++ [nd])[i]? = some f := by
      rw [List.getElem?_append_left (List.getElem?_eq_some_iff.mp hi).1, hi]
    exact Bool.noConfusion ((hf i hi').symm.trans hfailed)
  case clock =>
    simp only [hlength, spent, inv.elapsed]
  case in_budget =>
    intro k hk hk' hbudget
    have hi : v.i = k := by
      rw [hlength] at hk'
      omega
    subst hi
    simp only [inv.elapsed]
    exact spent_lt_of_admitted hbudget (inv.admitted_now open_ hk)

/-- A failed attempt keeps the invariant. -/
theorem fail (inv : Dialing attempts dialBudget cands s (nd :: rest) v)
    (open_ : ¬ v.outOfBudget dialBudget) {e : Err} (herr : (attempts v.i).result = .error e) :
    Dialing attempts dialBudget cands s rest (v.failed nd (attempts v.i).cost e) := by
  unfold DialLoop.failed
  constructor
  case nodup => exact inv.nodup
  case split => simp [inv.split]
  case index => simp [inv.index]
  case failed =>
    intro j hj
    rcases (Nat.lt_succ_iff.mp hj).lt_or_eq with hlt | rfl
    · exact inv.failed j hlt
    · exact Attempt.failed_of_error herr
  case admitted => exact fun j hpos hj => inv.admitted_le open_ hpos (Nat.lt_succ_iff.mp hj)
  case elapsed => rw [inv.elapsed, spent]
  case lastCost => exact fun _ => rfl
  case last =>
    rintro i hi
    obtain rfl : v.i = i := Nat.succ.inj hi
    exact ⟨nd, e, by simp [inv.index], herr, rfl, rfl⟩
  case failures =>
    intro f
    rw [GroupState.incFailures_failures]
    by_cases hf : f = nd
    · subst hf
      rw [if_pos rfl, if_pos (by simp), inv.failures_of_not_mem inv.nd_not_mem]
    · rw [if_neg hf, inv.failures f]
      simp [hf]

end Attempt

/-- **Loop lemma.** -/
theorem dialLoop (inv : Dialing attempts dialBudget cands s rest v)
    (first : v.i = 0 → rest ≠ []) :
    DialContract attempts dialBudget cands s (dialLoop attempts dialBudget rest v) := by
  induction rest generalizing v with
  | nil =>
    have hpos : 0 < v.i := Nat.pos_of_ne_zero fun hzero => first hzero rfl
    exact inv.giveUp hpos (Or.inl rfl)
  | cons nd rest ih =>
    rw [Rule.dialLoop]
    split
    · rename_i closed
      exact inv.giveUp closed.1 (Or.inr closed)
    · rename_i open_
      cases hresult : (attempts v.i).result with
      | ok c => simpa only [hresult] using inv.succeed open_ hresult
      | error e =>
        simp only [hresult]
        exact ih (inv.fail open_ hresult) (fun hzero => absurd hzero (Nat.succ_ne_zero _))

end Dialing

end Contract

/-! ### Dials from reachable states -/

section Reachable

variable {Conn Err : Type} (attempts : Nat → Attempt Conn Err)

/-- The candidates of a well-shaped group: distinct forwarders, at least one. -/
theorem Shape.dialCandidates {h : Heap} {p : FwdrGroup} (shape : Shape h p)
    (hlen : p.pool.length % 4294967296 ≠ 0) (addr : GoString) (n : Int) :
    ∃ cands, p.dialCandidates h addr n = (some cands, (p.nextDialer h addr).2) ∧
      cands ≠ [] ∧ cands.Nodup ∧ ∀ f ∈ cands, f ∈ p.fwdrs := by
  have nodup : p.pool.Nodup := FwdrGroup.nodup_pool shape.fwdrs_nodup shape.avail_nodup
  obtain ⟨first, pre, post, hsplit, -, hcands⟩ := FwdrGroup.dialCandidates_eq_rotate
    (h := h) hlen nodup n
  refine ⟨_, hcands, ?_, (List.nodup_rotate.mpr nodup).take, fun f hf => ?_⟩
  · simp [hsplit, List.take_eq_nil_iff]
  · exact FwdrGroup.pool_subset shape.avail_sub (List.mem_rotate.mp (List.mem_of_mem_take hf))

/-- The attempts of a dial over forwarders of the group are steps of the rotation
machine. -/
theorem dialLoop_run (dialBudget : Nat) (rest : List FwdrId) (v : DialLoop Err)
    (hrest : ∀ f ∈ rest, f ∈ v.state.group.fwdrs) :
    ∃ acts, rotation.run v.state acts = some (dialLoop attempts dialBudget rest v).state := by
  induction rest generalizing v with
  | nil => exact ⟨[], rfl⟩
  | cons nd rest ih =>
    rw [dialLoop]
    split
    · exact ⟨[], rfl⟩
    · cases hresult : (attempts v.i).result with
      | ok c =>
        simp only [hresult]
        exact ⟨[], rfl⟩
      | error e =>
        obtain ⟨acts, hcharge⟩ := v.state.incFailures_run nd (hrest nd List.mem_cons_self)
        obtain ⟨acts', hrun⟩ := ih (v.failed nd (attempts v.i).cost e) fun f hf => by
          rw [DialLoop.failed, rotation_run_fwdrs hcharge]
          exact hrest f (List.mem_cons_of_mem nd hf)
        simp only [hresult]
        exact ⟨acts ++ acts', by rw [rotation.run_append hcharge]; exact hrun⟩

theorem dial_of_candidates {s : GroupState} {addr : GoString} {cands : List FwdrId}
    {p : FwdrGroup}
    (hcands : s.group.dialCandidates s.heap addr s.group.dialAttempts = (some cands, p)) :
    s.dial attempts addr =
      some (dialLoop attempts s.group.dialBudget cands { state := { s with group := p } }) := by
  rw [GroupState.dial, hcands]

/-- A dial is a run of the rotation machine. -/
theorem dial_reachable {s : GroupState} (shape : Shape s.heap s.group)
    (hlen : s.group.pool.length % 4294967296 ≠ 0) (addr : GoString) :
    ∃ r acts, s.dial attempts addr = some r ∧ rotation.run s acts = some r.state := by
  obtain ⟨cands, hcands, -, -, hsub⟩ := shape.dialCandidates hlen addr s.group.dialAttempts
  have hstep : rotation.step s (.nextDialer addr) =
      some { s with group := (s.group.nextDialer s.heap addr).2 } := rfl
  obtain ⟨acts, hrun⟩ := dialLoop_run attempts s.group.dialBudget cands
    { state := { s with group := (s.group.nextDialer s.heap addr).2 } } fun f hf => by
      rw [rotation_step_fwdrs hstep]
      exact hsub f hf
  refine ⟨_, .nextDialer addr :: acts, dial_of_candidates attempts hcands, ?_⟩
  rw [rotation.run_cons_of_step hstep]
  exact hrun

/-- **The contract of `Dial`.** From every reachable state of a group whose pool has a
length that is no multiple of 2^32, for every destination, attempt limit and budget and
whatever the attempts return and cost. -/
theorem dial_contract (S : Sorter) (name : GoString) (fs : List Forwarder) (c : Strategy)
    (acts : List GroupAct) (s : GroupState)
    (hrun : rotation.run (boot S name fs c) acts = some s)
    (hlen : s.group.pool.length % 4294967296 ≠ 0) (addr : GoString) (n : Int) (B : Nat) :
    ∃ cands r, ((s.withBounds n B).group.dialCandidates s.heap addr n).1 = some cands ∧
      (s.withBounds n B).dial attempts addr = some r ∧ DialContract attempts B cands s r := by
  obtain ⟨inv, -⟩ := rotation_run_rotating hrun
  have shape : Shape s.heap (s.withBounds n B).group := inv.shape.later ⟨rfl, rfl, rfl⟩ fun _ => rfl
  obtain ⟨cands, hcands, hcandsne, nodup, -⟩ := shape.dialCandidates hlen addr n
  refine ⟨cands, _, congrArg Prod.fst hcands, dial_of_candidates attempts hcands, ?_⟩
  refine Dialing.dialLoop ⟨nodup, rfl, rfl, ?_, ?_, rfl, ?_, ?_, ?_⟩ fun _ => hcandsne
  · intro j hj
    cases hj
  · intro j _ hj
    cases hj
  · intro hpos
    cases hpos
  · intro i hi
    cases hi
  · intro f
    rfl

end Reachable

/-- The first attempt fails after 3 units of time, every later one succeeds after 9. -/
def failOnce (i : Nat) : Attempt Nat Unit := if i = 0 then ⟨.error (), 3⟩ else ⟨.ok i, 9⟩

/-- A budget of 10 leaves room for the second attempt. -/
theorem dial_contract_second_attempt :
    ∃ cands r,
      (((boot Sorter.insertion [] [{}, {}] {}).withBounds 3 10).group.dialCandidates
        (boot Sorter.insertion [] [{}, {}] {}).heap [] 3).1 = some cands ∧
      ((boot Sorter.insertion [] [{}, {}] {}).withBounds 3 10).dial failOnce [] = some r ∧
      DialContract failOnce 10 cands (boot Sorter.insertion [] [{}, {}] {}) r :=
  dial_contract failOnce Sorter.insertion [] [{}, {}] {} [] _ rfl (by decide) [] 3 10

/-- A group of healthy forwarders has all of them in its pool. -/
theorem length_pool_boot (S : Sorter) (m : Nat) :
    (boot S [] (List.replicate m {}) {}).group.pool.length = m := by
  have hheap : ∀ f, Heap.ofList (List.replicate m {}) f = {} := by
    intro f
    rw [Heap.ofList, List.getD_eq_getElem?_getD, List.getElem?_replicate]
    split <;> rfl
  have havail : ∀ p : FwdrGroup, p.priority = 0 →
      (p.init (Heap.ofList (List.replicate m {}))).pool = p.fwdrs := by
    intro p hp
    have hpriority : (p.choosePriority (Heap.ofList (List.replicate m {}))).priority = 0 := by
      unfold FwdrGroup.choosePriority
      split
      · rw [Heap.priority, hheap]
      · exact hp
    have hfill : ((p.choosePriority (Heap.ofList (List.replicate m {}))).fillAvail
        (Heap.ofList (List.replicate m {}))).avail = p.fwdrs := by
      rw [FwdrGroup.fillAvail, hpriority, FwdrGroup.choosePriority_fwdrs]
      refine List.filter_eq_self.mpr fun f _ => ?_
      rw [Heap.enabled, Heap.priority, hheap]
      rfl
    rw [FwdrGroup.pool, FwdrGroup.init_fwdrs, FwdrGroup.init, FwdrGroup.resetIfEmpty_avail, hfill]
    exact ite_id _
  rw [boot, newFwdrGroup, havail _ rfl, (S.perm _ _).length_eq, Heap.ids, List.length_range,
    List.length_replicate]

theorem dial_eq_none {Conn Err : Type} (attempts : Nat → Attempt Conn Err) {s : GroupState}
    (hnext : s.group.next = .rr) (hlen : s.group.pool.length % 4294967296 = 0) (addr : GoString) :
    s.dial attempts addr = none := by
  have hnone := FwdrGroup.dialCandidates_eq_none
    (@FwdrGroup.nextDialer_eq_none s.heap _ addr hnext hlen) s.group.dialAttempts
  unfold GroupState.dial
  split
  · rfl
  · rename_i heq
    rw [heq] at hnone
    cases hnone

theorem next_boot (S : Sorter) (fs : List Forwarder) : (boot S [] fs {}).group.next = .rr := by
  have hinit : ∀ h p, (FwdrGroup.init h p).next = p.next := by
    intro h p
    unfold FwdrGroup.init FwdrGroup.resetIfEmpty FwdrGroup.fillAvail FwdrGroup.choosePriority
    split <;> split <;> rfl
  rw [boot, newFwdrGroup, hinit]
  dsimp only [FwdrGroup.chooseNext]
  split <;> rfl

/-- 4294967296 healthy forwarders: the first `Dial` divides by `uint32(4294967296) = 0`. -/
theorem dial_panics :
    ∃ fs, fs ≠ [] ∧ ∀ (S : Sorter) (attempts : Nat → Attempt Nat Unit) (addr : GoString),
      (boot S [] fs {}).dial attempts addr = none := by
  have hpos : 0 < 4294967296 := by omega
  refine ⟨List.replicate 4294967296 {}, List.ne_nil_of_length_pos ?_, fun S attempts addr => ?_⟩
  · rw [List.length_replicate]
    exact hpos
  · refine dial_eq_none attempts (next_boot S _) ?_ addr
    exact (congrArg (· % 4294967296) (length_pool_boot S _)).trans (Nat.mod_self _)

end Glider.Rule
