/-
The rotation when flags flip *inside* a handler.

`Glider.Rule.Rotation` runs `onStatusChanged` in one step. The group's mutex only
serialises handlers: a swap of `Enable` or `Disable` can fall between any two of
the `Enabled()` reads one handler makes. Here a running handler is a `Stage` that
moves on by one read at a time, and swaps interleave with the reads.

`init` reads the flags twice. When the forwarder its first pass chose is disabled
before the second pass reaches it, the rotation is left empty with priority 0
although lower tiers are enabled. The handlers that are still due normally run
`init` again, but a handler for a forwarder of priority 0 appends it to the empty
rotation instead, and then nobody looks at the other tiers any more.

* `race_run_inv`, `RaceInv.complete` — as long as no handler returns that way in a
  group where it matters (`LosesTier`), no healthy forwarder is lost.
-/

import Glider.Rule.Rotation

namespace Glider.Rule

open Glider.Go Glider.Lib

/-! ### Handlers in steps -/

/-- Where a running handler stands. `retry` tells whether `onStatusChanged` still
has its final emptiness check to make after this call of `init`. -/
inductive Stage where
  /-- Before the read of `fwdr.Enabled()`. -/
  | enter
  /-- In the first loop of `init`, with `rest` still to be read. -/
  | choose (rest : List FwdrId) (retry : Bool)
  /-- In the second loop of `init`; `chosen` is the forwarder the first loop
  stopped at. -/
  | fill (chosen : Option FwdrId) (rest : List FwdrId) (retry : Bool)
deriving DecidableEq, Repr

/-- A group with at most one handler running, since handlers hold its mutex. -/
structure RaceState where
  base : GroupState
  running : Option (Call × Stage)

inductive RaceAct where
  /-- A step of another goroutine. -/
  | other (a : GroupAct)
  /-- The handler of a pending call takes the mutex. -/
  | start (c : Call)
  /-- The running handler goes on through its next read. -/
  | read
deriving DecidableEq, Repr

namespace RaceState

variable (s : RaceState)

def withGroup (p : FwdrGroup) : RaceState := { s with base := { s.base with group := p } }

def atStage (c : Call) (st : Stage) : RaceState := { s with running := some (c, st) }

/-- The handler returns, leaving the group as `p`. -/
def ret (c : Call) (p : FwdrGroup) : RaceState where
  base := { s.base.finish c with group := p }
  running := none

/-- The check at the end of `onStatusChanged`. -/
def emptyCheck (c : Call) (p : FwdrGroup) : RaceState :=
  if p.avail = [] then (s.withGroup p).atStage c (.choose p.fwdrs false) else s.ret c p

/-- The handler of `c` from its current stage to the next. -/
def advance (c : Call) : Stage → RaceState
  | .enter =>
    let h := s.base.heap
    let p := s.base.group
    if h.enabled c.fwdr then
      if h.priority c.fwdr = p.priority then s.emptyCheck c (p.addAvail c.fwdr)
      else if p.priority < h.priority c.fwdr then s.atStage c (.choose p.fwdrs true)
      else s.emptyCheck c p
    else s.emptyCheck c (p.removeAvail c.fwdr)
  | .choose [] retry =>
    (s.withGroup { s.base.group with avail := [] }).atStage c
      (.fill none s.base.group.fwdrs retry)
  | .choose (f :: rest) retry =>
    if s.base.heap.enabled f then
      (s.withGroup { s.base.group with priority := s.base.heap.priority f, avail := [] }).atStage c
        (.fill (some f) s.base.group.fwdrs retry)
    else s.atStage c (.choose rest retry)
  | .fill chosen (f :: rest) retry =>
    if s.base.heap.enabled f && decide (s.base.group.priority ≤ s.base.heap.priority f) then
      (s.withGroup { s.base.group with avail := s.base.group.avail ++ [f] }).atStage c
        (.fill chosen rest retry)
    else s.atStage c (.fill chosen rest retry)
  | .fill _ [] true => s.emptyCheck c s.base.group.resetIfEmpty
  | .fill _ [] false => s.ret c s.base.group.resetIfEmpty

end RaceState

/-- The interleaving machine. `nextDialer` takes the mutex for reading, so it
excludes a running handler; every other step of another goroutine is lock-free. -/
def race : Machine RaceState RaceAct where
  step s
    | .other (.handle _) => none
    | .other (.nextDialer dstAddr) =>
      if s.running = none then
        (rotation.step s.base (.nextDialer dstAddr)).map fun b => { s with base := b }
      else none
    | .other a => (rotation.step s.base a).map fun b => { s with base := b }
    | .start c =>
      if s.running = none ∧ c ∈ s.base.pending then
        some
          { base := { s.base with pending := s.base.pending.erase c }
            running := some (c, .enter) }
      else none
    | .read =>
      match s.running with
      | some (c, st) => some (s.advance c st)
      | none => none

/-- The group as `newFwdrGroup` leaves it. -/
def raceBoot (S : Sorter) (name : GoString) (fs : List Forwarder) (c : Strategy) : RaceState where
  base := boot S name fs c
  running := none

/-- Every enabled forwarder of the highest enabled priority is in the rotation,
and that priority is the active one. -/
def RotationComplete (h : Heap) (p : FwdrGroup) : Prop :=
  ∀ f ∈ p.fwdrs, h.enabled f = true →
    (∀ g ∈ p.fwdrs, h.enabled g = true → h.priority g ≤ h.priority f) →
    f ∈ p.avail ∧ p.priority = h.priority f

/-- No handler is pending or running. -/
def RaceState.Quiet (s : RaceState) : Prop := s.running = none ∧ s.base.pending = []

instance (s : RaceState) : Decidable s.Quiet := inferInstanceAs (Decidable (_ ∧ _))

/-- Emptying the tier of `f` can hide another tier of the group for good: there is
a forwarder of lower priority, and another one of priority 0 that may be appended
to the empty rotation. -/
def Fragile (h : Heap) (p : FwdrGroup) (f : FwdrId) : Prop :=
  f ∈ p.fwdrs ∧
    ∃ g ∈ p.fwdrs, ∃ k ∈ p.fwdrs, g ≠ k ∧ h.priority g < h.priority f ∧ h.priority k = 0

/-- A handler is about to return from an `init` whose first pass found a
forwarder and whose second pass found none, in a group where that matters. -/
def LosesTier (s : RaceState) : Prop :=
  ∃ c f, s.running = some (c, .fill (some f) [] false) ∧ s.base.group.avail = [] ∧
    Fragile s.base.heap s.base.group f

/-! ### The invariant -/

section Invariant

variable (h : Heap) (p : FwdrGroup) (noted : FwdrId → Prop)

/-- The state a handler may leave behind when the tier it chose vanished: the
rotation is empty, and whoever is enabled without being noted has a priority below
that of a noted forwarder. -/
structure Emptied : Prop where
  shape : Shape h p
  avail : p.avail = []
  priority : p.priority = 0
  hidden : ∃ f ∈ p.fwdrs, noted f ∧ ¬ Fragile h p f ∧
    ∀ g ∈ p.fwdrs, ¬ noted g → h.enabled g = true → h.priority g < h.priority f

/-- The first pass of `init` has read everything before `rest` as disabled. -/
structure Choosing (rest : List FwdrId) : Prop where
  shape : Shape h p
  read : ∃ pre, p.fwdrs = pre ++ rest ∧ ∀ g ∈ pre, ¬ noted g → ¬ h.enabled g = true

/-- What the first pass of `init` established. -/
def Chose : Option FwdrId → Prop
  | none => ∀ g ∈ p.fwdrs, ¬ noted g → ¬ h.enabled g = true
  | some f => f ∈ p.fwdrs ∧ p.priority = h.priority f ∧ (¬ noted f → h.enabled f = true) ∧
      ∀ g ∈ p.fwdrs, ¬ noted g → h.enabled g = true → h.priority g ≤ h.priority f

/-- The second pass of `init` has collected what it wants from everything before
`rest`. -/
structure Filling (chosen : Option FwdrId) (rest : List FwdrId) : Prop where
  shape : Shape h p
  chose : Chose h p noted chosen
  read : ∃ pre, p.fwdrs = pre ++ rest ∧ (∀ g ∈ p.avail, g ∈ pre) ∧
    ∀ g ∈ pre, ¬ noted g →
      (g ∈ p.avail ↔ h.enabled g = true ∧ p.priority ≤ h.priority g)

/-- Between two handlers. -/
def Idle : Prop := Rotating h p noted ∨ Emptied h p noted

end Invariant

/-- The invariant of the interleaving machine, by the stage of the running
handler. A handler that has not read its flag yet still counts as pending. -/
def StageInv (h : Heap) (p : FwdrGroup) (noted : FwdrId → Prop) : Option (Call × Stage) → Prop
  | none => Idle h p noted
  | some (c, .enter) => c.fwdr ∈ p.fwdrs ∧ Idle h p fun g => noted g ∨ g = c.fwdr
  | some (_, .choose rest _) => Choosing h p noted rest
  | some (_, .fill chosen rest _) => Filling h p noted chosen rest

structure RaceInv (s : RaceState) : Prop where
  stage : StageInv s.base.heap s.base.group s.base.Noted s.running
  pending : ∀ c ∈ s.base.pending, c.fwdr ∈ s.base.group.fwdrs

/-! ### Flips keep the invariant -/

section Later

variable {h h' : Heap} {p p' : FwdrGroup} {noted noted' : FwdrId → Prop}

theorem Fragile.later {f : FwdrId} (same : SameGroup p p')
    (priorities : ∀ f, h'.priority f = h.priority f) (fragile : Fragile h' p' f) :
    Fragile h p f := by
  simpa only [Fragile, same.fwdrs, priorities] using fragile

/-- Whoever is enabled and not noted now was so before. -/
theorem Later.was_enabled (later : Later h h' noted noted') {f : FwdrId} (hnot : ¬ noted' f)
    (enabled : h'.enabled f = true) : ¬ noted f ∧ h.enabled f = true :=
  ⟨fun hold => hnot (later.noted f hold), by rw [← later.enabled f hnot]; exact enabled⟩

theorem Emptied.later (inv : Emptied h p noted) (same : SameGroup p p')
    (later : Later h h' noted noted') : Emptied h' p' noted' where
  shape := inv.shape.later same later.priorities
  avail := by rw [same.avail]; exact inv.avail
  priority := by rw [same.priority]; exact inv.priority
  hidden := by
    obtain ⟨f, hf, hnoted, sturdy, below⟩ := inv.hidden
    refine ⟨f, same.fwdrs ▸ hf, later.noted f hnoted,
      fun fragile => sturdy (fragile.later same later.priorities), ?_⟩
    intro g hg hnot enabled
    obtain ⟨hold, was⟩ := later.was_enabled hnot enabled
    rw [later.priorities, later.priorities]
    exact below g (same.fwdrs ▸ hg) hold was

theorem Choosing.later {rest : List FwdrId} (inv : Choosing h p noted rest)
    (same : SameGroup p p') (later : Later h h' noted noted') : Choosing h' p' noted' rest where
  shape := inv.shape.later same later.priorities
  read := by
    obtain ⟨pre, hsplit, disabled⟩ := inv.read
    refine ⟨pre, same.fwdrs.trans hsplit, fun g hg hnot enabled => ?_⟩
    obtain ⟨hold, was⟩ := later.was_enabled hnot enabled
    exact disabled g hg hold was

theorem Chose.later {chosen : Option FwdrId} (inv : Chose h p noted chosen)
    (same : SameGroup p p') (later : Later h h' noted noted') : Chose h' p' noted' chosen := by
  cases chosen with
  | none =>
    intro g hg hnot enabled
    obtain ⟨hold, was⟩ := later.was_enabled hnot enabled
    exact inv g (same.fwdrs ▸ hg) hold was
  | some f =>
    obtain ⟨hf, hpri, still, top⟩ := inv
    refine ⟨same.fwdrs ▸ hf, ?_, fun hnot => ?_, fun g hg hnot enabled => ?_⟩
    · rw [same.priority, later.priorities]
      exact hpri
    · rw [later.enabled f hnot]
      exact still fun hold => hnot (later.noted f hold)
    · obtain ⟨hold, was⟩ := later.was_enabled hnot enabled
      rw [later.priorities, later.priorities]
      exact top g (same.fwdrs ▸ hg) hold was

theorem Filling.later {chosen : Option FwdrId} {rest : List FwdrId}
    (inv : Filling h p noted chosen rest) (same : SameGroup p p')
    (later : Later h h' noted noted') : Filling h' p' noted' chosen rest where
  shape := inv.shape.later same later.priorities
  chose := inv.chose.later same later
  read := by
    obtain ⟨pre, hsplit, hsub, collected⟩ := inv.read
    refine ⟨pre, same.fwdrs.trans hsplit, by rw [same.avail]; exact hsub, fun g hg hnot => ?_⟩
    rw [same.avail, same.priority, later.priorities, later.enabled g hnot]
    exact collected g hg fun hold => hnot (later.noted g hold)

theorem Idle.later (inv : Idle h p noted) (same : SameGroup p p')
    (later : Later h h' noted noted') : Idle h' p' noted' :=
  inv.imp (fun rotating => rotating.later same later) fun emptied => emptied.later same later

theorem StageInv.later {running : Option (Call × Stage)} (inv : StageInv h p noted running)
    (same : SameGroup p p') (later : Later h h' noted noted') : StageInv h' p' noted' running := by
  match running, inv with
  | none, inv => exact Idle.later inv same later
  | some (c, .enter), ⟨hf, inv⟩ =>
    refine ⟨same.fwdrs ▸ hf, inv.later same ⟨later.priorities, ?_, ?_⟩⟩
    · intro f hor
      exact hor.imp (later.noted f) id
    · intro f hnot
      exact later.enabled f fun hnoted => hnot (Or.inl hnoted)
  | some (_, .choose _ _), inv => exact Choosing.later inv same later
  | some (_, .fill _ _ _), inv => exact Filling.later inv same later

end Later

/-! ### One read -/

section Read

variable {h : Heap} {p : FwdrGroup} {noted : FwdrId → Prop}

/-- `init` starts with nothing read. -/
theorem Shape.choosing (shape : Shape h p) : Choosing h p noted p.fwdrs where
  shape := shape
  read := ⟨[], rfl, by simp⟩

variable {f : FwdrId} {rest : List FwdrId}

/-- The first pass reads a disabled forwarder. -/
theorem Choosing.skip (inv : Choosing h p noted (f :: rest)) (disabled : ¬ h.enabled f = true) :
    Choosing h p noted rest where
  shape := inv.shape
  read := by
    obtain ⟨pre, hsplit, hpre⟩ := inv.read
    refine ⟨pre ++ [f], by rw [hsplit]; simp, fun g hg hnot => ?_⟩
    rcases List.mem_append.mp hg with hg | hg
    · exact hpre g hg hnot
    · rw [List.mem_singleton.mp hg]
      exact disabled

/-- Emptying the rotation keeps the shape, whatever the priority. -/
theorem Shape.cleared (shape : Shape h p) (m : UInt32) :
    Shape h { p with priority := m, avail := [] } where
  fwdrs_nodup := shape.fwdrs_nodup
  fwdrs_sorted := shape.fwdrs_sorted
  avail_nodup := List.nodup_nil
  avail_sub := by simp
  avail_priority := by simp

/-- The first pass ends without a find. -/
theorem Choosing.none (inv : Choosing h p noted []) :
    Filling h { p with avail := [] } noted Option.none p.fwdrs where
  shape := inv.shape.cleared p.priority
  chose := by
    obtain ⟨pre, hsplit, hpre⟩ := inv.read
    intro g hg hnot
    rw [List.append_nil] at hsplit
    exact hpre g (hsplit ▸ hg) hnot
  read := ⟨[], rfl, by simp, by simp⟩

/-- The first pass stops at an enabled forwarder: those after it have no higher
priority, and those before it were read as disabled. -/
theorem Choosing.some (inv : Choosing h p noted (f :: rest)) (enabled : h.enabled f = true) :
    Filling h { p with priority := h.priority f, avail := [] } noted (Option.some f) p.fwdrs where
  shape := inv.shape.cleared (h.priority f)
  chose := by
    obtain ⟨pre, hsplit, hpre⟩ := inv.read
    have sorted := inv.shape.fwdrs_sorted
    rw [hsplit] at sorted
    refine ⟨by simp [hsplit], rfl, fun _ => enabled, fun g hg hnot genabled => ?_⟩
    rw [hsplit] at hg
    rcases List.mem_append.mp hg with hg | hg
    · exact absurd genabled (hpre g hg hnot)
    · rcases List.mem_cons.mp hg with rfl | hg
      · exact UInt32.le_refl _
      · exact List.rel_of_pairwise_cons (List.pairwise_append.mp sorted).2.1 hg
  read := ⟨[], rfl, by simp, by simp⟩

variable {chosen : Option FwdrId}

/-- The second pass collects a forwarder. -/
theorem Filling.take (inv : Filling h p noted chosen (f :: rest)) (enabled : h.enabled f = true)
    (hpri : p.priority ≤ h.priority f) :
    Filling h { p with avail := p.avail ++ [f] } noted chosen rest where
  shape := by
    obtain ⟨pre, hsplit, hsub, -⟩ := inv.read
    have nodup := inv.shape.fwdrs_nodup
    rw [hsplit] at nodup
    have hnew : f ∉ p.avail := fun hf =>
      (List.nodup_append.mp nodup).2.2 f (hsub f hf) f List.mem_cons_self rfl
    refine ⟨inv.shape.fwdrs_nodup, inv.shape.fwdrs_sorted, ?_, ?_, ?_⟩
    · refine List.nodup_append.mpr ⟨inv.shape.avail_nodup, List.nodup_singleton f, ?_⟩
      intro a ha b hb hab
      rw [hab, List.mem_singleton.mp hb] at ha
      exact hnew ha
    · intro g hg
      rcases List.mem_append.mp hg with hg | hg
      · exact inv.shape.avail_sub g hg
      · rw [List.mem_singleton.mp hg, hsplit]
        simp
    · intro g hg
      rcases List.mem_append.mp hg with hg | hg
      · exact inv.shape.avail_priority g hg
      · rw [List.mem_singleton.mp hg]
        exact hpri
  chose := by
    have chose := inv.chose
    cases chosen <;> exact chose
  read := by
    obtain ⟨pre, hsplit, hsub, collected⟩ := inv.read
    refine ⟨pre ++ [f], by rw [hsplit]; simp, ?_, ?_⟩
    · intro g hg
      exact (List.mem_append.mp hg).elim (fun hg => List.mem_append_left _ (hsub g hg))
        (List.mem_append_right _)
    · intro g hg hnot
      by_cases hgf : g = f
      · simp [hgf, enabled, hpri]
      · have hpre : g ∈ pre := by simpa [hgf] using hg
        simpa [hgf] using collected g hpre hnot

/-- The second pass passes over a forwarder. -/
theorem Filling.skip (inv : Filling h p noted chosen (f :: rest))
    (unfit : ¬ (h.enabled f = true ∧ p.priority ≤ h.priority f)) :
    Filling h p noted chosen rest where
  shape := inv.shape
  chose := inv.chose
  read := by
    obtain ⟨pre, hsplit, hsub, collected⟩ := inv.read
    have nodup := inv.shape.fwdrs_nodup
    rw [hsplit] at nodup
    refine ⟨pre ++ [f], by rw [hsplit]; simp, fun g hg => List.mem_append_left _ (hsub g hg), ?_⟩
    intro g hg hnot
    rcases List.mem_append.mp hg with hg | hg
    · exact collected g hg hnot
    · rw [List.mem_singleton.mp hg]
      refine ⟨fun hf => ?_, fun fit => absurd fit unfit⟩
      exact absurd rfl ((List.nodup_append.mp nodup).2.2 f (hsub f hf) f List.mem_cons_self)

/-- The second pass is over with a rotation: it is settled for everyone not
noted. -/
theorem Filling.settled (inv : Filling h p noted chosen []) (hne : p.avail ≠ []) :
    Rotating h p noted where
  shape := inv.shape
  empty_priority := fun hempty => absurd hempty hne
  settled := by
    obtain ⟨pre, hsplit, -, collected⟩ := inv.read
    rw [List.append_nil] at hsplit
    intro g hg hnot
    have hiff := collected g (hsplit ▸ hg) hnot
    cases chosen with
    | none =>
      have disabled := inv.chose g hg hnot
      exact ⟨fun hmem => absurd (hiff.mp hmem).1 disabled, fun enabled => absurd enabled disabled⟩
    | some f =>
      obtain ⟨-, hpri, -, top⟩ := inv.chose
      constructor
      · intro hmem
        obtain ⟨enabled, hle⟩ := hiff.mp hmem
        have := top g hg hnot enabled
        exact ⟨enabled, UInt32.le_antisymm (hpri ▸ this) hle⟩
      · intro enabled
        refine ⟨hpri ▸ top g hg hnot enabled, fun heq => hiff.mpr ⟨enabled, ?_⟩⟩
        rw [heq]
        exact UInt32.le_refl _

/-- The second pass is over with nothing collected and the priority reset. Either
nobody who is not noted is enabled, or the chosen forwarder was disabled in
between and is noted. -/
theorem Filling.emptied (inv : Filling h p noted chosen []) (hempty : p.avail = [])
    (sturdy : ∀ f, chosen = Option.some f → ¬ Fragile h p f) :
    Idle h { p with priority := 0 } noted := by
  obtain ⟨pre, hsplit, -, collected⟩ := inv.read
  rw [List.append_nil] at hsplit
  have shape : Shape h { p with priority := 0 } :=
    ⟨inv.shape.fwdrs_nodup, inv.shape.fwdrs_sorted, inv.shape.avail_nodup, inv.shape.avail_sub,
      by simp [hempty]⟩
  have unfit : ∀ g ∈ p.fwdrs, ¬ noted g → h.enabled g = true → ¬ p.priority ≤ h.priority g := by
    intro g hg hnot enabled hle
    have hmem := (collected g (hsplit ▸ hg) hnot).mpr ⟨enabled, hle⟩
    simp [hempty] at hmem
  cases chosen with
  | none =>
    refine Or.inl ⟨shape, fun _ => rfl, fun g hg hnot => ?_⟩
    have disabled := inv.chose g hg hnot
    exact ⟨fun hmem => by simp [hempty] at hmem, fun enabled => absurd enabled disabled⟩
  | some f =>
    obtain ⟨hf, hpri, still, top⟩ := inv.chose
    refine Or.inr ⟨shape, hempty, rfl, f, hf, ?_, sturdy f rfl, fun g hg hnot enabled => ?_⟩
    · by_contra hnot
      exact unfit f hf hnot (still hnot) (by rw [hpri]; exact UInt32.le_refl _)
    · have hle := top g hg hnot enabled
      have hlt := unfit g hg hnot enabled
      rw [hpri] at hlt
      exact UInt32.not_le.mp hlt

variable {g : FwdrId}

/-- A handler that finds its forwarder enabled and of the active priority leaves
a settled rotation, even when it found the rotation emptied. -/
theorem Idle.settled_addAvail (hf : f ∈ p.fwdrs) (inv : Idle h p fun g => noted g ∨ g = f)
    (enabled : h.enabled f = true) (heq : h.priority f = p.priority) (hg : g ∈ p.fwdrs)
    (hnot : ¬ noted g) : Settled h (p.addAvail f) g := by
  rcases inv with rotating | emptied
  · exact rotating.settled_addAvail enabled heq hg hnot
  · by_cases hgf : g = f
    · rw [hgf]
      exact Settled.addAvail_self enabled heq
    · -- an enabled `g` would make the group fragile, with `f` in the part of priority 0
      obtain ⟨f', hf', -, sturdy, below⟩ := emptied.hidden
      have disabled : ¬ h.enabled g = true := by
        intro genabled
        have hlt := below g hg (fun hor => hor.elim hnot hgf) genabled
        exact sturdy ⟨hf', g, hg, f, hf, hgf, hlt, heq.trans emptied.priority⟩
      refine ⟨fun hmem => ?_, fun genabled => absurd genabled disabled⟩
      rcases FwdrGroup.mem_addAvail.mp hmem with hmem | hmem
      · simp [emptied.avail] at hmem
      · exact absurd hmem hgf

theorem Idle.settled_lower (inv : Idle h p fun g => noted g ∨ g = f)
    (hlt : h.priority f < p.priority) (hg : g ∈ p.fwdrs) (hnot : ¬ noted g) : Settled h p g := by
  rcases inv with rotating | emptied
  · exact rotating.settled_lower hlt hg hnot
  · rw [emptied.priority] at hlt
    grind

theorem Idle.settled_removeAvail (inv : Idle h p fun g => noted g ∨ g = f)
    (disabled : ¬ h.enabled f = true) (hne : (p.removeAvail f).avail ≠ []) (hg : g ∈ p.fwdrs)
    (hnot : ¬ noted g) : Settled h (p.removeAvail f) g := by
  rcases inv with rotating | emptied
  · exact rotating.settled_removeAvail disabled hg hnot
  · simp [FwdrGroup.removeAvail, emptied.avail, swapRemove] at hne

theorem Idle.shape (inv : Idle h p noted) : Shape h p :=
  inv.elim Rotating.shape Emptied.shape

end Read

/-! ### Runs -/

namespace RaceState

variable (s : RaceState) (c : Call) (p : FwdrGroup)

@[simp] theorem ret_heap : (s.ret c p).base.heap = s.base.heap := by cases c <;> rfl

@[simp] theorem ret_group : (s.ret c p).base.group = p := rfl

@[simp] theorem ret_pending : (s.ret c p).base.pending = s.base.pending := by cases c <;> rfl

@[simp] theorem ret_running : (s.ret c p).running = none := rfl

@[simp] theorem ret_noted : (s.ret c p).base.Noted = s.base.Noted := by
  funext f
  simp [GroupState.Noted]

end RaceState

variable {s : RaceState}

variable {c : Call} {p : FwdrGroup}

/-- Returning keeps the invariant when the group is idle again. -/
theorem RaceInv.ret (inv : RaceInv s) (hfwdrs : p.fwdrs = s.base.group.fwdrs)
    (idle : Idle s.base.heap p s.base.Noted) : RaceInv (s.ret c p) where
  stage := by simpa [StageInv] using idle
  pending := by simpa [hfwdrs] using inv.pending

/-- The final check of `onStatusChanged` either starts `init` or returns. -/
theorem RaceInv.emptyCheck (inv : RaceInv s) (hfwdrs : p.fwdrs = s.base.group.fwdrs)
    (shape : Shape s.base.heap p)
    (settled : p.avail ≠ [] → ∀ g ∈ p.fwdrs, ¬ s.base.Noted g → Settled s.base.heap p g) :
    RaceInv (s.emptyCheck c p) := by
  unfold RaceState.emptyCheck
  split
  · exact ⟨shape.choosing,
      by simpa [RaceState.atStage, RaceState.withGroup, hfwdrs] using inv.pending⟩
  · rename_i hne
    exact inv.ret hfwdrs (Or.inl ⟨shape, fun hempty => absurd hempty hne, settled hne⟩)

/-- **Step lemma, one read of the running handler.** -/
theorem RaceInv.advance (inv : RaceInv s) {st : Stage} (hrunning : s.running = some (c, st))
    (safe : ¬ LosesTier s) : RaceInv (s.advance c st) := by
  have stage := inv.stage
  rw [hrunning] at stage
  match st, stage with
  | .enter, ⟨hf, idle⟩ =>
    simp only [RaceState.advance]
    split_ifs with enabled heq hlt
    · exact inv.emptyCheck (by simp) (idle.shape.addAvail hf heq) fun _ g hg hnot =>
        idle.settled_addAvail hf enabled heq (by simpa using hg) hnot
    · exact ⟨idle.shape.choosing, inv.pending⟩
    · have hlower : s.base.heap.priority c.fwdr < s.base.group.priority := by grind
      exact inv.emptyCheck rfl idle.shape fun _ g hg hnot => idle.settled_lower hlower hg hnot
    · exact inv.emptyCheck (by simp) idle.shape.removeAvail fun hne g hg hnot =>
        idle.settled_removeAvail enabled hne (by simpa using hg) hnot
  | .choose [] retry, choosing => exact ⟨choosing.none, inv.pending⟩
  | .choose (f :: rest) retry, choosing =>
    simp only [RaceState.advance]
    split_ifs with enabled
    · exact ⟨choosing.some enabled, inv.pending⟩
    · exact ⟨choosing.skip enabled, inv.pending⟩
  | .fill chosen (f :: rest) retry, filling =>
    simp only [RaceState.advance]
    split_ifs with fit
    · simp only [Bool.and_eq_true, decide_eq_true_eq] at fit
      exact ⟨filling.take fit.1 fit.2, inv.pending⟩
    · simp only [Bool.and_eq_true, decide_eq_true_eq] at fit
      exact ⟨filling.skip fit, inv.pending⟩
  | .fill chosen [] retry, filling =>
    by_cases hempty : s.base.group.avail = []
    · have hreset : s.base.group.resetIfEmpty = { s.base.group with priority := 0 } := by
        simp [FwdrGroup.resetIfEmpty, hempty]
      cases retry with
      | true =>
        have shape : Shape s.base.heap { s.base.group with priority := 0 } :=
          ⟨filling.shape.fwdrs_nodup, filling.shape.fwdrs_sorted, filling.shape.avail_nodup,
            filling.shape.avail_sub, by simp [hempty]⟩
        rw [RaceState.advance, hreset]
        exact inv.emptyCheck rfl shape fun hne => absurd hempty hne
      | false =>
        rw [RaceState.advance, hreset]
        refine inv.ret rfl (filling.emptied hempty ?_)
        rintro f rfl fragile
        exact safe ⟨c, f, hrunning, hempty, fragile⟩
    · have hreset : s.base.group.resetIfEmpty = s.base.group := by
        simp [FwdrGroup.resetIfEmpty, hempty]
      have rotating := filling.settled hempty
      cases retry with
      | true =>
        rw [RaceState.advance, hreset]
        exact inv.emptyCheck rfl rotating.shape fun _ => rotating.settled
      | false =>
        rw [RaceState.advance, hreset]
        exact inv.ret rfl (Or.inl rotating)

/-- **Inversion.** Another goroutine flips a flag or touches nothing, a pending
handler starts, or the running one reads. -/
theorem race_step_cases {s s' : RaceState} {a : RaceAct} (hstep : race.step s a = some s') :
    (s'.running = s.running ∧ Undisturbed s.base s'.base) ∨
      (∃ c ∈ s.base.pending, s.running = none ∧
        s' = ⟨{ s.base with pending := s.base.pending.erase c }, some (c, .enter)⟩) ∨
      ∃ c st, a = .read ∧ s.running = some (c, st) ∧ s' = s.advance c st := by
  have lift : ∀ b : GroupAct, (∀ c, b ≠ .handle c) →
      (rotation.step s.base b).map (fun t => { s with base := t }) = some s' →
      s'.running = s.running ∧ Undisturbed s.base s'.base := by
    intro b hb hmap
    obtain ⟨t, hbase, rfl⟩ := Option.map_eq_some_iff.mp hmap
    rcases rotation_step_cases hbase with ⟨c, -, heq, -⟩ | quiet
    · exact absurd heq (hb c)
    · exact ⟨rfl, quiet⟩
  cases a with
  | other b =>
    cases b with
    | handle c => simp [race] at hstep
    | nextDialer dstAddr =>
      simp only [race, Option.ite_none_right_eq_some] at hstep
      exact Or.inl (lift _ (by simp) hstep.2)
    | enable f => exact Or.inl (lift (.enable f) (by simp) hstep)
    | disable f => exact Or.inl (lift (.disable f) (by simp) hstep)
    | reset f => exact Or.inl (lift (.reset f) (by simp) hstep)
    | count f => exact Or.inl (lift (.count f) (by simp) hstep)
    | setMaxFailures f n => exact Or.inl (lift (.setMaxFailures f n) (by simp) hstep)
    | setLatency f l => exact Or.inl (lift (.setLatency f l) (by simp) hstep)
  | start c =>
    simp only [race, Option.ite_none_right_eq_some, Option.some.injEq] at hstep
    obtain ⟨⟨hidle, hc⟩, rfl⟩ := hstep
    exact Or.inr (Or.inl ⟨c, hc, hidle, rfl⟩)
  | read =>
    cases hrunning : s.running with
    | none => simp [race, hrunning] at hstep
    | some at_ =>
      obtain ⟨c, st⟩ := at_
      simp only [race, hrunning, Option.some.injEq] at hstep
      exact Or.inr (Or.inr ⟨c, st, rfl, rfl, hstep.symm⟩)

/-- **Step lemma.** -/
theorem race_step_inv (s : RaceState) (a : RaceAct) (s' : RaceState) (inv : RaceInv s)
    (safe : a = .read → ¬ LosesTier s) (hstep : race.step s a = some s') : RaceInv s' := by
  rcases race_step_cases hstep with ⟨hrunning, quiet⟩ | ⟨c, hc, hidle, rfl⟩ |
      ⟨c, st, hread, hrunning, rfl⟩
  · constructor
    · rw [hrunning]
      exact inv.stage.later quiet.group quiet.later
    · intro c hc
      rw [quiet.group.fwdrs]
      exact (quiet.pending c hc).elim (inv.pending c) id
  · have idle := inv.stage
    rw [hidle] at idle
    constructor
    · refine ⟨inv.pending c hc, idle.later (SameGroup.refl _) ⟨fun _ => rfl, ?_, fun _ _ => rfl⟩⟩
      intro f hnoted
      exact GroupState.noted_erase hnoted
    · intro c' hc'
      exact inv.pending c' (List.mem_of_mem_erase hc')
  · exact inv.advance hrunning (safe hread)

/-- An exact rotation is complete. -/
theorem RotationExact.complete {h : Heap} (exact_ : RotationExact h p) : RotationComplete h p := by
  intro f hf enabled top
  rcases exact_ with ⟨m, ⟨⟨g, hg, genabled, gpri⟩, most⟩, hpri, hmem⟩ | ⟨disabled, -, -⟩
  · have heq : h.priority f = m :=
      UInt32.le_antisymm (most f hf enabled) (gpri ▸ top g hg genabled)
    exact ⟨(hmem f).mpr ⟨hf, enabled, heq⟩, by rw [hpri, heq]⟩
  · exact absurd enabled (disabled f hf)

/-- With no handler pending or running the invariant is exactness. -/
theorem RaceInv.complete (inv : RaceInv s) (quiet : s.Quiet) :
    RotationComplete s.base.heap s.base.group := by
  obtain ⟨hidle, hpending⟩ := quiet
  have unnoted : ∀ f, ¬ s.base.Noted f := by
    rintro f ⟨c, hc, -⟩
    simp [hpending] at hc
  have idle := inv.stage
  rw [hidle] at idle
  rcases idle with rotating | emptied
  · exact (rotating.exact unnoted).complete
  · obtain ⟨f, -, hnoted, -⟩ := emptied.hidden
    exact absurd hnoted (unnoted f)

theorem raceBoot_inv (S : Sorter) (name : GoString) (fs : List Forwarder) (c : Strategy) :
    RaceInv (raceBoot S name fs c) where
  stage := Or.inl (boot_rotating S name fs c)
  pending := by simp [raceBoot, boot]

/-- **Run lemma.** Along every run that never loses a tier the invariant holds. -/
theorem race_run_inv {S : Sorter} {name : GoString} {fs : List Forwarder} {c : Strategy}
    {acts : List RaceAct} (hrun : race.run (raceBoot S name fs c) acts = some s)
    (safe : race.Guarded (fun t a => a = .read → ¬ LosesTier t) (raceBoot S name fs c) acts) :
    RaceInv s :=
  race.guarded_invariant race_step_inv hrun safe (raceBoot_inv S name fs c)

end Glider.Rule
