/-
Which groups can lose a healthy forwarder to a race inside `init`.

A group is at risk exactly when its priorities are `FragilePriorities`: some
forwarder `f` has a higher priority than `g`, and a third one, `k`, has priority 0.
The run that loses `g` disables `f`, lets the handler start, enables `f` while the
first pass of `init` is looking for a priority, and disables it again before the
second pass collects the forwarders of that priority.

The run is assembled from phases. A `View` keeps the part of a state the phases
speak about, and `Reaches v v'` says that from every state that shows `v` some
actions lead to one that shows `v'`.

* `race_complete_iff` — no interleaving loses a healthy forwarder exactly when the
  priorities are not fragile.
* `race_loses_forwarder` — the smallest run that loses one.
-/

import Glider.Rule.RotationRace

namespace Glider.Rule

open Glider.Go Glider.Lib

/-- Some tier lies below another one, and a forwarder outside of it has
priority 0. -/
def FragilePriorities (pris : List UInt32) : Prop :=
  ∃ (f g k : FwdrId) (pf pg : UInt32), pris[f]? = some pf ∧ pris[g]? = some pg ∧ pris[k]? = some 0 ∧
    g ≠ k ∧ pg < pf

/-! ### Priorities and forwarders never change -/

/-- The group still holds the forwarders of `fs`, with their priorities. -/
structure Static (fs : List Forwarder) (s : RaceState) : Prop where
  fwdrs : s.base.group.fwdrs.Perm (Heap.ids fs)
  priorities : ∀ f, s.base.heap.priority f = (Heap.ofList fs).priority f

namespace Static

variable {fs : List Forwarder} {s s' : RaceState}

theorem emptyCheck_base (c : Call) (p : FwdrGroup) :
    (s.emptyCheck c p).base.group = p ∧ (s.emptyCheck c p).base.heap = s.base.heap := by
  unfold RaceState.emptyCheck
  split_ifs
  · exact ⟨rfl, rfl⟩
  · exact ⟨rfl, RaceState.ret_heap s c p⟩

/-- A handler writes no record and no forwarder list. -/
theorem advance_base (c : Call) (st : Stage) :
    (s.advance c st).base.group.fwdrs = s.base.group.fwdrs ∧
      (s.advance c st).base.heap = s.base.heap := by
  match st with
  | .enter =>
    simp only [RaceState.advance]
    split_ifs <;> first
      | exact ⟨rfl, rfl⟩
      | exact ⟨by simp [emptyCheck_base], (emptyCheck_base c _).2⟩
  | .choose [] retry => exact ⟨rfl, rfl⟩
  | .choose (f :: rest) retry =>
    simp only [RaceState.advance]
    split_ifs <;> exact ⟨rfl, rfl⟩
  | .fill chosen (f :: rest) retry =>
    simp only [RaceState.advance]
    split_ifs <;> exact ⟨rfl, rfl⟩
  | .fill chosen [] true =>
    exact ⟨by simp [RaceState.advance, emptyCheck_base], (emptyCheck_base c _).2⟩
  | .fill chosen [] false => exact ⟨by simp [RaceState.advance], by simp [RaceState.advance]⟩

theorem step (inv : Static fs s) {a : RaceAct} (hstep : race.step s a = some s') :
    Static fs s' := by
  rcases race_step_cases hstep with ⟨-, quiet⟩ | ⟨c, -, -, rfl⟩ | ⟨c, st, -, -, rfl⟩
  · exact ⟨quiet.group.fwdrs ▸ inv.fwdrs,
      fun f => (quiet.later.priorities f).trans (inv.priorities f)⟩
  · exact ⟨inv.fwdrs, inv.priorities⟩
  · obtain ⟨hfwdrs, hheap⟩ := advance_base (s := s) c st
    constructor
    · rw [hfwdrs]
      exact inv.fwdrs
    · rw [hheap]
      exact inv.priorities

/-- Without fragile priorities no state loses a tier. -/
theorem not_losesTier (inv : Static fs s)
    (sturdy : ¬ FragilePriorities (fs.map Forwarder.priority)) : ¬ LosesTier s := by
  rintro ⟨-, f, -, -, hf, g, hg, k, hk, hgk, hlt, hzero⟩
  have listed : ∀ x ∈ s.base.group.fwdrs,
      (fs.map Forwarder.priority)[x]? = some (s.base.heap.priority x) := by
    intro x hx
    have hx' : x < fs.length := by simpa [Heap.ids] using inv.fwdrs.mem_iff.mp hx
    rw [inv.priorities x]
    simp [Heap.priority, Heap.ofList, hx']
  exact sturdy ⟨f, g, k, _, _, listed f hf, listed g hg, hzero ▸ listed k hk, hgk, hlt⟩

end Static

/-! ### Phases of a run -/

/-- What the phases of a run look at: the forwarders with their priorities and
flags, the rotation, and the handlers. -/
structure View where
  fwdrs : List FwdrId
  pri : FwdrId → UInt32
  on : FwdrId → Bool
  avail : List FwdrId
  priority : UInt32
  pending : List Call
  running : Option (Call × Stage)

/-- `s` shows the view `v`. -/
structure Shows (s : RaceState) (v : View) : Prop where
  fwdrs : s.base.group.fwdrs = v.fwdrs
  pri : ∀ f, s.base.heap.priority f = v.pri f
  flag : ∀ f ∈ v.fwdrs, (s.base.heap f).disabled = if v.on f then 0 else 1
  avail : s.base.group.avail = v.avail
  priority : s.base.group.priority = v.priority
  pending : s.base.pending = v.pending
  running : s.running = v.running

variable {s : RaceState} {v : View}

theorem Shows.enabled (hs : Shows s v) {f : FwdrId} (hf : f ∈ v.fwdrs) :
    s.base.heap.enabled f = v.on f := by
  simp only [Heap.enabled, Forwarder.enabled, hs.flag f hf]
  cases v.on f <;> decide

/-- A successful swap, whose handler becomes pending. -/
theorem Shows.flip (hs : Shows s v) (f : FwdrId) (b : Bool) (c : Call) :
    Shows
      { s with
        base :=
          { s.base.write f { s.base.heap f with disabled := if b then 0 else 1 } with
            pending := s.base.pending ++ [c] } }
      { v with on := Function.update v.on f b, pending := v.pending ++ [c] } := by
  refine ⟨hs.fwdrs, fun g => ?_, fun g hg => ?_, hs.avail, hs.priority,
    congrArg (· ++ [c]) hs.pending, hs.running⟩
  · rw [← hs.pri g]
    by_cases hgf : g = f
    · simp [Heap.priority, GroupState.write, hgf]
    · simp [Heap.priority, GroupState.write, hgf]
  · by_cases hgf : g = f
    · simp [GroupState.write, hgf]
    · simpa [GroupState.write, hgf] using hs.flag g hg

/-- From every state that shows `v` some actions lead to one that shows `v'`. -/
def Reaches (v v' : View) : Prop :=
  ∀ s, Shows s v → ∃ acts s', race.run s acts = some s' ∧ Shows s' v'

namespace Reaches

variable {v v' v'' : View} {f : FwdrId} {c : Call}

theorem refl (v : View) : Reaches v v := fun s hs => ⟨[], s, rfl, hs⟩

theorem trans (first : Reaches v v') (second : Reaches v' v'') : Reaches v v'' := by
  intro s hs
  obtain ⟨as, mid, hfirst, hmid⟩ := first s hs
  obtain ⟨bs, s', hsecond, hs'⟩ := second mid hmid
  exact ⟨as ++ bs, s', by rw [race.run_append hfirst, hsecond], hs'⟩

instance : Trans Reaches Reaches Reaches := ⟨trans⟩

/-- A phase of one action. -/
theorem single (a : RaceAct)
    (hstep : ∀ s, Shows s v → ∃ s', race.step s a = some s' ∧ Shows s' v') : Reaches v v' := by
  intro s hs
  obtain ⟨s', ha, hs'⟩ := hstep s hs
  exact ⟨[a], s', by rw [race.run_cons_of_step ha, race.run_nil], hs'⟩

/-- A phase of one read of the running handler. -/
theorem read {st : Stage} (hrunning : v.running = some (c, st))
    (hadvance : ∀ s, Shows s v → Shows (s.advance c st) v') : Reaches v v' := by
  refine single .read fun s hs => ⟨s.advance c st, ?_, hadvance s hs⟩
  simp only [race, hs.running, hrunning]

theorem enable (hf : f ∈ v.fwdrs) (off : v.on f = false) :
    Reaches v
      { v with on := Function.update v.on f true, pending := v.pending ++ [.enable f] } := by
  refine single (.other (.enable f)) fun s hs => ⟨_, ?_, hs.flip f true (.enable f)⟩
  have hcas : (s.base.heap f).enableCas = some { s.base.heap f with disabled := 0 } := by
    simp [Forwarder.enableCas, Forwarder.casDisabled, hs.flag f hf, off]
  simp [race, rotation, hs.fwdrs, hf, GroupState.enable, hcas]

theorem disable (hf : f ∈ v.fwdrs) (on : v.on f = true) :
    Reaches v
      { v with on := Function.update v.on f false, pending := v.pending ++ [.disable f] } := by
  refine single (.other (.disable f)) fun s hs => ⟨_, ?_, hs.flip f false (.disable f)⟩
  have hcas : (s.base.heap f).disableCas = some { s.base.heap f with disabled := 1 } := by
    simp [Forwarder.disableCas, Forwarder.casDisabled, hs.flag f hf, on]
  simp [race, rotation, hs.fwdrs, hf, GroupState.disable, hcas]

theorem start {rest : List Call} (hidle : v.running = none) (hpending : v.pending = c :: rest) :
    Reaches v { v with pending := rest, running := some (c, .enter) } := by
  refine single (.start c) fun s hs =>
    ⟨⟨{ s.base with pending := s.base.pending.erase c }, some (c, .enter)⟩, ?_, hs.fwdrs, hs.pri,
      hs.flag, hs.avail, hs.priority, by simp [hs.pending, hpending], rfl⟩
  simp [race, hs.running, hidle, hs.pending, hpending]

/-- The handler of the last forwarder of the rotation goes into `init`. -/
theorem enter_empty (hrunning : v.running = some (c, .enter)) (hc : c.fwdr ∈ v.fwdrs)
    (off : v.on c.fwdr = false) (hlast : v.avail = [c.fwdr]) :
    Reaches v
      { v with avail := [], running := some (c, .choose v.fwdrs false) } := by
  refine read hrunning fun s hs => ?_
  have hremove : swapRemove s.base.group.avail c.fwdr = [] := by
    rw [hs.avail, hlast]
    simp [swapRemove]
  simp only [RaceState.advance, hs.enabled hc, off, Bool.false_eq_true, if_false,
    RaceState.emptyCheck, FwdrGroup.removeAvail, hremove, if_true]
  exact ⟨hs.fwdrs, hs.pri, hs.flag, rfl, hs.priority, hs.pending, by
    simp [RaceState.atStage, hs.fwdrs]⟩

/-- The handler of a disabled forwarder that is not in the rotation changes
nothing. -/
theorem enter_absent (hrunning : v.running = some (c, .enter)) (hc : c.fwdr ∈ v.fwdrs)
    (off : v.on c.fwdr = false) (hne : v.avail ≠ []) (habsent : c.fwdr ∉ v.avail) :
    Reaches v { v with running := none } := by
  refine read hrunning fun s hs => ?_
  have hremove : s.base.group.removeAvail c.fwdr = s.base.group := by
    have hidx : s.base.group.avail.idxOf? c.fwdr = none := by
      simpa [hs.avail] using habsent
    simp [FwdrGroup.removeAvail, swapRemove, hidx]
  simp only [RaceState.advance, hs.enabled hc, off, Bool.false_eq_true, if_false,
    RaceState.emptyCheck, hremove, hs.avail, hne]
  exact ⟨hs.fwdrs, by simpa using hs.pri, by simpa using hs.flag, hs.avail, hs.priority,
    by simpa using hs.pending, rfl⟩

/-- The handler of an enabled forwarder of the active priority appends it to an
empty rotation. -/
theorem enter_append (hrunning : v.running = some (c, .enter)) (hc : c.fwdr ∈ v.fwdrs)
    (on : v.on c.fwdr = true) (hpri : v.pri c.fwdr = v.priority) (hempty : v.avail = []) :
    Reaches v { v with avail := [c.fwdr], running := none } := by
  refine read hrunning fun s hs => ?_
  have hadd : (s.base.group.addAvail c.fwdr).avail = [c.fwdr] := by
    simp [FwdrGroup.addAvail, FwdrGroup.inAvail, hs.avail, hempty]
  simp only [RaceState.advance, hs.enabled hc, on, if_true, hs.pri, hs.priority, hpri,
    RaceState.emptyCheck, hadd, List.cons_ne_nil, if_false]
  exact ⟨by simpa using hs.fwdrs, by simpa using hs.pri, by simpa using hs.flag, hadd,
    by simpa using hs.priority, by simpa using hs.pending, rfl⟩

variable {retry : Bool}

/-- The first pass of `init` reads past disabled forwarders. -/
theorem choose_skip {pre rest : List FwdrId}
    (hrunning : v.running = some (c, .choose (pre ++ rest) retry))
    (off : ∀ g ∈ pre, g ∈ v.fwdrs ∧ v.on g = false) :
    Reaches v
      { v with running := some (c, .choose rest retry) } := by
  induction pre generalizing v with
  | nil =>
    rw [List.nil_append] at hrunning
    rw [← hrunning]
    exact refl v
  | cons g pre ih =>
    obtain ⟨hg, hoff⟩ := off g List.mem_cons_self
    have once : Reaches v { v with running := some (c, .choose (pre ++ rest) retry) } := by
      refine read hrunning fun s hs => ?_
      simp only [List.cons_append, RaceState.advance, hs.enabled hg, hoff, Bool.false_eq_true,
        if_false]
      exact ⟨hs.fwdrs, hs.pri, hs.flag, hs.avail, hs.priority, hs.pending, rfl⟩
    exact once.trans (ih rfl fun x hx => off x (List.mem_cons_of_mem g hx))

/-- The first pass of `init` stops at an enabled forwarder. -/
theorem choose_stop {rest : List FwdrId}
    (hrunning : v.running = some (c, .choose (f :: rest) retry)) (hf : f ∈ v.fwdrs)
    (on : v.on f = true) :
    Reaches v
      { v with
        priority := v.pri f, avail := [], running := some (c, .fill (some f) v.fwdrs retry) } := by
  refine read hrunning fun s hs => ?_
  simp only [RaceState.advance, hs.enabled hf, on, if_true]
  exact ⟨hs.fwdrs, hs.pri, hs.flag, rfl, hs.pri f, hs.pending, by
    simp [RaceState.atStage, hs.fwdrs]⟩

/-- The second pass of `init` reads past forwarders that are disabled or of a
lower priority. -/
theorem fill_skip {chosen : Option FwdrId} {rest : List FwdrId}
    (hrunning : v.running = some (c, .fill chosen rest retry))
    (unfit : ∀ g ∈ rest, g ∈ v.fwdrs ∧ (v.on g = true → v.pri g < v.priority)) :
    Reaches v
      { v with running := some (c, .fill chosen [] retry) } := by
  induction rest generalizing v with
  | nil =>
    rw [← hrunning]
    exact refl v
  | cons g rest ih =>
    obtain ⟨hg, hlow⟩ := unfit g List.mem_cons_self
    have once : Reaches v { v with running := some (c, .fill chosen rest retry) } := by
      refine read hrunning fun s hs => ?_
      have hskip : (s.base.heap.enabled g &&
          decide (s.base.group.priority ≤ s.base.heap.priority g)) = false := by
        rw [hs.enabled hg, hs.priority, hs.pri]
        cases hon : v.on g with
        | false => rfl
        | true => simpa using hlow hon
      simp only [RaceState.advance, hskip, Bool.false_eq_true, if_false]
      exact ⟨hs.fwdrs, hs.pri, hs.flag, hs.avail, hs.priority, hs.pending, rfl⟩
    exact once.trans (ih rfl fun x hx => unfit x (List.mem_cons_of_mem g hx))

/-- The last call of `init` returns with an empty rotation. -/
theorem fill_end {chosen : Option FwdrId} (hrunning : v.running = some (c, .fill chosen [] false))
    (hempty : v.avail = []) :
    Reaches v { v with priority := 0, running := none } := by
  refine read hrunning fun s hs => ?_
  have hreset : s.base.group.resetIfEmpty = { s.base.group with priority := 0 } := by
    simp [FwdrGroup.resetIfEmpty, hs.avail, hempty]
  simp only [RaceState.advance, hreset]
  exact ⟨hs.fwdrs, by simpa using hs.pri, by simpa using hs.flag, hs.avail, rfl,
    by simpa using hs.pending, rfl⟩

end Reaches

/-! ### The run that loses a forwarder -/

/-- The starting point of the run: the rotation is `f` alone, `g` is enabled on a
lower tier, and the forwarder `k` of priority 0 is disabled. -/
structure AtRisk (v : View) (f g k : FwdrId) : Prop where
  mem_f : f ∈ v.fwdrs
  mem_k : k ∈ v.fwdrs
  sorted : v.fwdrs.Pairwise fun x y => v.pri y ≤ v.pri x
  nodup : v.fwdrs.Nodup
  lower : v.pri g < v.pri f
  zero : v.pri k = 0
  distinct : g ≠ k
  on : ∀ x, v.on x = true ↔ x = f ∨ x = g
  avail : v.avail = [f]
  pending : v.pending = []
  running : v.running = none

/-- **The losing run.** Afterwards `g` and `k` are enabled, no handler is left,
and the rotation is `k` alone. -/
theorem AtRisk.lose {f g k : FwdrId} (risk : AtRisk v f g k) :
    ∃ on, Reaches v { v with on := on, avail := [k], priority := 0 } ∧
      ∀ x, on x = true ↔ x = g ∨ x = k := by
  obtain ⟨fwdrs, pri, on, avail, priority, pending, running⟩ := v
  obtain ⟨hf, hk, sorted, nodup, lower, zero, distinct, hon, rfl, rfl, rfl⟩ := risk
  dsimp only at hf hk sorted nodup lower zero hon
  have hkf : k ≠ f := by
    rintro rfl
    rw [zero] at lower
    exact absurd lower (by simp)
  have hgf : g ≠ f := by
    rintro rfl
    exact absurd lower (UInt32.lt_irrefl _)
  have hfon : on f = true := (hon f).mpr (Or.inl rfl)
  have hkoff : on k = false := by
    rw [Bool.eq_false_iff, ne_eq, hon]
    exact fun hk => hk.elim hkf distinct.symm
  -- the flags before, while and after `f` blinks
  let on₁ : FwdrId → Bool := Function.update (Function.update on f false) k true
  let on₂ : FwdrId → Bool := Function.update on₁ f true
  let on₃ : FwdrId → Bool := Function.update on₂ f false
  have hon₃ : ∀ x, on₃ x = true ↔ x = g ∨ x = k := by
    intro x
    by_cases hxf : x = f
    · subst hxf
      simp [on₃, hgf.symm, hkf.symm]
    · by_cases hxk : x = k
      · simp [on₃, on₂, on₁, hxk, hkf]
      · simp [on₃, on₂, on₁, hxf, hxk, hon]
  have hon₂ : ∀ x, on₂ x = true → x = f ∨ x = g ∨ x = k := by
    intro x hx
    by_cases hxf : x = f
    · exact Or.inl hxf
    · exact Or.inr ((hon₃ x).mp (by simpa [on₃, hxf] using hx))
  obtain ⟨pre, post, rfl⟩ := List.append_of_mem hf
  -- nothing before `f` in the sorted list is enabled: `g` and `k` lie below
  have before : ∀ x ∈ pre, x ∈ pre ++ f :: post ∧ on₂ x = false := by
    intro x hx
    have hle : pri f ≤ pri x := (List.pairwise_append.mp sorted).2.2 x hx f List.mem_cons_self
    refine ⟨List.mem_append_left _ hx, Bool.eq_false_iff.mpr fun hxon => ?_⟩
    rcases hon₂ x hxon with rfl | rfl | rfl
    · exact List.disjoint_of_nodup_append nodup hx List.mem_cons_self
    · exact absurd lower (UInt32.not_lt.mpr hle)
    · rw [zero] at hle
      exact absurd lower (by grind)
  have below : ∀ x, on₃ x = true → pri x < pri f := by
    intro x hx
    rcases (hon₃ x).mp hx with rfl | rfl
    · exact lower
    · rw [zero]
      grind
  have hoff₁ : on₁ f = false := by simp [on₁, hkf.symm]
  have hoff₃ : on₃ f = false := by simp [on₃]
  refine ⟨on₃, ?_, hon₃⟩
  generalize hall : pre ++ f :: post = all at hf hk before
  let D : Call := .disable f
  calc
    Reaches ⟨all, pri, on, [f], priority, [], none⟩
        ⟨all, pri, Function.update on f false, [f], priority, [D], none⟩ :=
      Reaches.disable hf hfon
    Reaches _ ⟨all, pri, on₁, [f], priority, [D, .enable k], none⟩ :=
      Reaches.enable hk ((Function.update_of_ne hkf _ _).trans hkoff)
    Reaches _ ⟨all, pri, on₁, [f], priority, [.enable k], some (D, .enter)⟩ :=
      Reaches.start rfl rfl
    Reaches _ ⟨all, pri, on₁, [], priority, [.enable k], some (D, .choose all false)⟩ :=
      Reaches.enter_empty rfl hf hoff₁ rfl
    Reaches _ ⟨all, pri, on₂, [], priority, [.enable k, .enable f], some (D, .choose all false)⟩ :=
      Reaches.enable hf hoff₁
    Reaches _ ⟨all, pri, on₂, [], priority, [.enable k, .enable f],
        some (D, .choose (f :: post) false)⟩ :=
      Reaches.choose_skip (congrArg (fun l => some (D, Stage.choose l false)) hall.symm) before
    Reaches _ ⟨all, pri, on₂, [], pri f, [.enable k, .enable f],
        some (D, .fill (some f) all false)⟩ :=
      Reaches.choose_stop rfl hf (Function.update_self ..)
    Reaches _ ⟨all, pri, on₃, [], pri f, [.enable k, .enable f, D],
        some (D, .fill (some f) all false)⟩ :=
      Reaches.disable hf (Function.update_self ..)
    Reaches _ ⟨all, pri, on₃, [], pri f, [.enable k, .enable f, D],
        some (D, .fill (some f) [] false)⟩ :=
      Reaches.fill_skip rfl fun x hx => ⟨hx, below x⟩
    Reaches _ ⟨all, pri, on₃, [], 0, [.enable k, .enable f, D], none⟩ :=
      Reaches.fill_end rfl rfl
    Reaches _ ⟨all, pri, on₃, [], 0, [.enable f, D], some (.enable k, .enter)⟩ :=
      Reaches.start rfl rfl
    Reaches _ ⟨all, pri, on₃, [k], 0, [.enable f, D], none⟩ :=
      Reaches.enter_append (c := .enable k) rfl hk ((hon₃ k).mpr (Or.inr rfl)) zero rfl
    Reaches _ ⟨all, pri, on₃, [k], 0, [D], some (.enable f, .enter)⟩ :=
      Reaches.start rfl rfl
    Reaches _ ⟨all, pri, on₃, [k], 0, [D], none⟩ :=
      Reaches.enter_absent (c := .enable f) rfl hf hoff₃ (by simp) (by simp [Call.fwdr, hkf.symm])
    Reaches _ ⟨all, pri, on₃, [k], 0, [], some (D, .enter)⟩ :=
      Reaches.start rfl rfl
    Reaches _ ⟨all, pri, on₃, [k], 0, [], none⟩ :=
      Reaches.enter_absent (c := D) rfl hf hoff₃ (by simp) (by simp [D, Call.fwdr, hkf.symm])

/-! ### Which groups are safe -/

/-- The forwarders of the losing run, with `f` and `g` enabled at the start. -/
def lossForwarders (pris : List UInt32) (f g : FwdrId) : List Forwarder :=
  pris.mapIdx fun i p => { priority := p, disabled := if i = f ∨ i = g then 0 else 1 }

/-- The losing run starts here. -/
def lossBoot (S : Sorter) (name : GoString) (c : Strategy) (pris : List UInt32) (f g : FwdrId) :
    RaceState :=
  raceBoot S name (lossForwarders pris f g) c

theorem map_priority_lossForwarders (pris : List UInt32) (f g : FwdrId) :
    (lossForwarders pris f g).map Forwarder.priority = pris := by
  apply List.ext_getElem
  · simp [lossForwarders]
  · intro i _ _
    simp [lossForwarders]

section LossBoot

variable {S : Sorter} {name : GoString} {c : Strategy} {pris : List UInt32} {f g i : FwdrId}
  {p pf pg : UInt32}

theorem lossBoot_heap (hi : pris[i]? = some p) :
    (lossBoot S name c pris f g).base.heap i =
      { priority := p, disabled := if i = f ∨ i = g then 0 else 1 } := by
  simp [lossBoot, raceBoot, boot, Heap.ofList, lossForwarders, hi]

theorem mem_lossBoot :
    i ∈ (lossBoot S name c pris f g).base.group.fwdrs ↔ ∃ p, pris[i]? = some p := by
  rw [← Option.isSome_iff_exists]
  simp [lossBoot, raceBoot, boot, newFwdrGroup, lossForwarders, Heap.ids]

theorem lossBoot_priority (hi : pris[i]? = some p) :
    (lossBoot S name c pris f g).base.heap.priority i = p := by
  rw [Heap.priority, lossBoot_heap hi]

theorem lossBoot_enabled (hi : i ∈ (lossBoot S name c pris f g).base.group.fwdrs) :
    (lossBoot S name c pris f g).base.heap.enabled i = true ↔ i = f ∨ i = g := by
  obtain ⟨p, hp⟩ := mem_lossBoot.mp hi
  rw [Heap.enabled, lossBoot_heap hp]
  by_cases hfg : i = f ∨ i = g
  · simp [hfg, Forwarder.enabled, isTrue]
  · simp [hfg, Forwarder.enabled, isTrue]

/-- The tier of `f` is the active one, and `f` is alone in it. -/
theorem lossBoot_avail (hf : pris[f]? = some pf) (hg : pris[g]? = some pg) (hlt : pg < pf) :
    (lossBoot S name c pris f g).base.group.avail = [f] := by
  have inv := boot_rotating S name (lossForwarders pris f g) c
  have unnoted : ∀ i, ¬ (boot S name (lossForwarders pris f g) c).Noted i := by
    rintro i ⟨c', hc', -⟩
    cases hc'
  have memf : f ∈ (lossBoot S name c pris f g).base.group.fwdrs := mem_lossBoot.mpr ⟨pf, hf⟩
  have onf := (lossBoot_enabled memf).mpr (Or.inl rfl)
  rcases inv.exact unnoted with ⟨m, ⟨⟨x, hx, hxon, hxm⟩, most⟩, -, hmem⟩ | ⟨off, -, -⟩
  · have hfm : pf ≤ m := lossBoot_priority hf ▸ most f memf onf
    have hm : m = pf := by
      rcases (lossBoot_enabled hx).mp hxon with rfl | rfl
      · exact hxm.symm.trans (lossBoot_priority hf)
      · have heq : m = pg := hxm.symm.trans (lossBoot_priority hg)
        exact absurd hlt (UInt32.not_lt.mpr (heq ▸ hfm))
    apply List.perm_singleton.mp
    refine (List.perm_ext_iff_of_nodup inv.shape.avail_nodup (List.nodup_singleton f)).mpr ?_
    intro i
    rw [hmem, List.mem_singleton, hm]
    constructor
    · rintro ⟨hi, hion, hipri⟩
      rcases (lossBoot_enabled hi).mp hion with rfl | rfl
      · rfl
      · have heq : pg = pf := (lossBoot_priority hg).symm.trans hipri
        exact absurd (heq ▸ hlt) (UInt32.lt_irrefl _)
    · rintro rfl
      exact ⟨memf, onf, lossBoot_priority hf⟩
  · exact absurd onf (off f memf)

/-- The starting point is at risk. -/
theorem atRisk_lossBoot (S : Sorter) (name : GoString) (c : Strategy) {k : FwdrId}
    (hf : pris[f]? = some pf) (hg : pris[g]? = some pg) (hk : pris[k]? = some 0) (hgk : g ≠ k)
    (hlt : pg < pf) :
    ∃ v, AtRisk v f g k ∧ Shows (lossBoot S name c pris f g) v := by
  have shape := (boot_rotating S name (lossForwarders pris f g) c).shape
  let s := lossBoot S name c pris f g
  have lower : s.base.heap.priority g < s.base.heap.priority f := by
    rw [lossBoot_priority hf, lossBoot_priority hg]
    exact hlt
  have flag : ∀ i ∈ s.base.group.fwdrs,
      (s.base.heap i).disabled = if decide (i = f ∨ i = g) then 0 else 1 := by
    intro i hi
    obtain ⟨p, hp⟩ := mem_lossBoot.mp hi
    rw [lossBoot_heap hp]
    simp
  refine ⟨⟨s.base.group.fwdrs, s.base.heap.priority, fun i => decide (i = f ∨ i = g), [f],
    s.base.group.priority, [], none⟩, ?_, ?_⟩
  · exact ⟨mem_lossBoot.mpr ⟨pf, hf⟩, mem_lossBoot.mpr ⟨0, hk⟩, shape.fwdrs_sorted,
      shape.fwdrs_nodup, lower, lossBoot_priority hk, hgk, by simp, rfl, rfl, rfl⟩
  · exact ⟨rfl, fun _ => rfl, flag, lossBoot_avail hf hg hlt, rfl, rfl, rfl⟩

end LossBoot

/-- Once the losing run is over the rotation is not complete. -/
theorem not_rotationComplete_of_lost {g k : FwdrId} (hs : Shows s v) (hg : g ∈ v.fwdrs)
    (hgk : g ≠ k) (zero : v.pri k = 0) (avail : v.avail = [k])
    (on : ∀ x, v.on x = true ↔ x = g ∨ x = k) : ¬ RotationComplete s.base.heap s.base.group := by
  intro complete
  have top : ∀ x ∈ s.base.group.fwdrs, s.base.heap.enabled x = true →
      s.base.heap.priority x ≤ s.base.heap.priority g := by
    intro x hx hxon
    rw [hs.fwdrs] at hx
    rw [hs.enabled hx, on] at hxon
    rcases hxon with rfl | rfl
    · exact UInt32.le_refl _
    · rw [hs.pri, zero]
      grind
  have hmem := (complete g (hs.fwdrs ▸ hg) (by rw [hs.enabled hg, on]; exact Or.inl rfl) top).1
  rw [hs.avail, avail, List.mem_singleton] at hmem
  exact hgk hmem

/-- **Safe groups.** Whatever the flags are at the start and however swaps
interleave with the reads of a handler, once no handler is pending or running every
enabled forwarder of the highest enabled priority is in the rotation and that
priority is active — exactly when the priorities of the group are not fragile. -/
theorem race_complete_iff (S : Sorter) (name : GoString) (c : Strategy) (pris : List UInt32) :
    (∀ fs : List Forwarder, fs.map Forwarder.priority = pris →
      ∀ acts s, race.run (raceBoot S name fs c) acts = some s → s.Quiet →
        RotationComplete s.base.heap s.base.group) ↔
      ¬ FragilePriorities pris := by
  constructor
  · rintro complete ⟨f, g, k, pf, pg, hf, hg, hk, hgk, hlt⟩
    obtain ⟨v, risk, boots⟩ := atRisk_lossBoot S name c hf hg hk hgk hlt
    obtain ⟨on, loses, hon⟩ := risk.lose
    obtain ⟨acts, s, hrun, hs⟩ := loses _ boots
    have quiet : s.Quiet :=
      ⟨hs.running.trans risk.running, hs.pending.trans risk.pending⟩
    have hg' : g ∈ v.fwdrs := boots.fwdrs ▸ mem_lossBoot.mpr ⟨pg, hg⟩
    exact not_rotationComplete_of_lost hs hg' hgk risk.zero rfl hon
      (complete _ (map_priority_lossForwarders pris f g) acts s hrun quiet)
  · rintro sturdy fs rfl acts s hrun quiet
    have start : Static fs (raceBoot S name fs c) :=
      ⟨by simpa [raceBoot, boot, newFwdrGroup] using S.perm _ (Heap.ids fs), fun _ => rfl⟩
    have keep : ∀ t a t', Static fs t → race.step t a = some t' → Static fs t' :=
      fun t a t' inv hstep => inv.step hstep
    have safe := race.guarded_of_invariant keep
      (fun t a inv (_ : a = .read) => inv.not_losesTier sturdy) acts start
    exact (race_run_inv hrun safe).complete quiet

/-- Forwarder 0 is the active tier, 1 and 2 have priority 0 and 2 is disabled. The
handler of the disabled 0 sees 0 enabled again in its first pass and disabled in
the second; the handler of 2 then fills the empty rotation, and 1 stays out of it
although it is enabled and nothing better is. -/
theorem race_loses_forwarder :
    ∃ s, race.run
        (raceBoot Sorter.insertion [] [{ priority := 1 }, {}, { disabled := 1 }] {})
        [.other (.disable 0), .other (.enable 2), .start (.disable 0), .read,
          .other (.enable 0), .read, .other (.disable 0), .read, .read, .read, .read,
          .start (.enable 2), .read, .start (.enable 0), .read, .start (.disable 0), .read]
          = some s ∧
      s.Quiet ∧ s.base.group.avail = [2] ∧ s.base.heap.enabled 1 = true ∧
      ¬ RotationComplete s.base.heap s.base.group := by
  refine ⟨_, rfl, by decide, by decide, by decide, fun complete => ?_⟩
  have hmem := complete 1 (by decide) (by decide) (by decide)
  exact absurd hmem.1 (by decide)

end Glider.Rule
