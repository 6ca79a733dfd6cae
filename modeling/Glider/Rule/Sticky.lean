/-
Stickiness of the `ha` strategy (`rule/group.go`, `scheduleHA`).

The pick is the head of the rotation, while a removal moves the last forwarder into the
hole, an enabled forwarder is appended and a change of tier rebuilds the list.

* `Tier` — every forwarder of the rotation has exactly the active priority, also while
  handlers are pending.
* `onStatusChanged_head` — one handler keeps the head, unless it finds that forwarder
  disabled or another one enabled in a higher tier.
* `ha_sticky` — so does a status change with its handler, from every reachable state, and
  so does every run without such a handler.
-/

import Glider.Rule.Rotation

namespace Glider.Rule

open Glider.Go Glider.Lib

/-! ### The head of the rotation -/

variable {g : FwdrId}

/-- Swap-removing another forwarder leaves the head in place: the last one moves into a
hole further down. -/
theorem head?_swapRemove {l : List FwdrId} (hhead : l.head? = some g) {f : FwdrId} (hne : f ≠ g) :
    (swapRemove l f).head? = some g := by
  obtain ⟨rest, rfl⟩ : ∃ rest, l = g :: rest := List.head?_eq_some_iff.mp hhead
  unfold swapRemove
  split
  · rename_i i last hidx _
    obtain ⟨hlt, hget, -⟩ := List.idxOf?_eq_some_iff.mp hidx
    cases i with
    | zero => exact absurd hget.symm hne
    | succ i =>
      have hrest : rest.set i last ≠ [] := by
        intro hnil
        have : rest.length = 0 := by simpa using congrArg List.length hnil
        rw [List.length_cons] at hlt
        omega
      rw [List.set_cons_succ, List.dropLast_cons_of_ne_nil hrest, List.head?_cons]
  · exact hhead

theorem head?_addAvail {p : FwdrGroup} (hhead : p.avail.head? = some g) (f : FwdrId) :
    (p.addAvail f).avail.head? = some g := by
  unfold FwdrGroup.addAvail
  split
  · exact hhead
  · rw [List.head?_append, hhead, Option.some_or]

/-! ### The tier of the rotation -/

/-- The forwarders of the rotation are those of one tier. -/
def Tier (h : Heap) (p : FwdrGroup) : Prop := ∀ f ∈ p.avail, h.priority f = p.priority

namespace Tier

variable {h : Heap} {p : FwdrGroup}

theorem init (sorted : p.fwdrs.Pairwise fun f g => h.priority g ≤ h.priority f) :
    Tier h (p.init h) := by
  intro f hf
  have hmem : f ∈ p.fwdrs := (FwdrGroup.mem_init_avail.mp hf).1
  exact ((FwdrGroup.init_settled sorted hmem).of_avail hf).2

theorem addAvail (tier : Tier h p) {f : FwdrId} (hpri : h.priority f = p.priority) :
    Tier h (p.addAvail f) := by
  intro g hg
  rw [FwdrGroup.addAvail_priority]
  rcases FwdrGroup.mem_addAvail.mp hg with hold | rfl
  · exact tier g hold
  · exact hpri

theorem removeAvail (tier : Tier h p) (nodup : p.avail.Nodup) (f : FwdrId) :
    Tier h (p.removeAvail f) := by
  intro g hg
  exact tier g ((mem_swapRemove nodup).mp hg).2

/-- A handler leaves a rotation of one tier. -/
theorem onStatusChanged (shape : Shape h p) (tier : Tier h p) (f : FwdrId) :
    Tier h (p.onStatusChanged h f) := by
  obtain ⟨q, hq, heq⟩ := FwdrGroup.onStatusChanged_cases h p f
  have htier : Tier h q := by
    cases hq with
    | append _ hpri => exact tier.addAvail hpri
    | rebuild _ _ => exact Tier.init shape.fwdrs_sorted
    | keep _ _ => exact tier
    | remove _ => exact tier.removeAvail shape.avail_nodup f
  have hfwdrs : q.fwdrs = p.fwdrs := by cases hq <;> simp
  rw [heq]
  split
  · -- the check at the end refills a rotation that has become empty
    apply Tier.init
    rw [hfwdrs]
    exact shape.fwdrs_sorted
  · exact htier

end Tier

/-! ### One handler -/

/-- The handler of `f` finds that it must move the pick away from `g`: `f` is the pick and
disabled, or enabled and of strictly higher priority. -/
def Displaced (h : Heap) (g f : FwdrId) : Prop :=
  (f = g ∧ ¬ h.enabled f = true) ∨ (h.enabled f = true ∧ h.priority g < h.priority f)

/-- **One handler keeps the head** of the rotation, unless it displaces it. -/
theorem onStatusChanged_head {h : Heap} {p : FwdrGroup} {f g : FwdrId} (tier : Tier h p)
    (hhead : p.avail.head? = some g) (stays : ¬ Displaced h g f) :
    (p.onStatusChanged h f).avail.head? = some g := by
  have hpri : h.priority g = p.priority := tier g (List.mem_of_head? hhead)
  obtain ⟨q, hq, heq⟩ := FwdrGroup.onStatusChanged_cases h p f
  have hkept : q.avail.head? = some g := by
    cases hq with
    | append _ _ => exact head?_addAvail hhead f
    | rebuild enabled hhigher =>
      apply absurd _ stays
      exact Or.inr ⟨enabled, by rw [hpri]; exact hhigher⟩
    | keep _ _ => exact hhead
    | remove disabled =>
      apply head?_swapRemove hhead
      intro hfg
      exact stays (Or.inl ⟨hfg, disabled⟩)
  have hne : q.avail ≠ [] := List.ne_nil_of_mem (List.mem_of_head? hkept)
  rw [heq, if_neg hne]
  exact hkept

/-! ### Runs -/

/-- The invariant of the rotation with its tier. -/
structure TierInv (s : GroupState) : Prop where
  rotation : RotationInv s
  tier : Tier s.heap s.group

theorem tier_step_inv (s : GroupState) (a : GroupAct) (s' : GroupState) (inv : TierInv s)
    (hstep : rotation.step s a = some s') : TierInv s' := by
  constructor
  · exact rotation_step_inv s a s' inv.rotation hstep
  · rcases rotation_step_cases hstep with ⟨c, -, -, rfl⟩ | quiet
    · rw [s.handle_heap, s.handle_group]
      exact inv.tier.onStatusChanged inv.rotation.rotating.shape c.fwdr
    · intro f hf
      rw [quiet.later.priorities, quiet.group.priority]
      rw [quiet.group.avail] at hf
      exact inv.tier f hf

theorem tierInv_of_run {S : Sorter} {name : GoString} {fs : List Forwarder} {c : Strategy}
    {acts : List GroupAct} {s : GroupState}
    (hrun : rotation.run (boot S name fs c) acts = some s) : TierInv s := by
  apply rotation.run_invariant tier_step_inv hrun
  constructor
  · exact ⟨boot_rotating S name fs c, by simp [boot]⟩
  · have shape := (boot_rotating S name fs c).shape
    apply Tier.init
    simpa [boot, newFwdrGroup] using shape.fwdrs_sorted

/-- The step runs a handler that displaces the pick. -/
def Displaces (s : GroupState) (a : GroupAct) : Prop :=
  ∃ c g, a = .handle c ∧ s.group.avail.head? = some g ∧ Displaced s.heap g c.fwdr

variable {s s' : GroupState}

/-- **Step lemma.** A step that displaces nobody keeps the head. -/
theorem rotation_step_head {a : GroupAct} (inv : TierInv s) (hhead : s.group.avail.head? = some g)
    (stays : ¬ Displaces s a) (hstep : rotation.step s a = some s') :
    s'.group.avail.head? = some g := by
  rcases rotation_step_cases hstep with ⟨c, -, rfl, rfl⟩ | quiet
  · rw [s.handle_group]
    exact onStatusChanged_head inv.tier hhead fun hdisplaced =>
      stays ⟨c, g, rfl, hhead, hdisplaced⟩
  · rw [quiet.group.avail]
    exact hhead

/-- **Run lemma.** -/
theorem rotation_run_head {acts : List GroupAct} (inv : TierInv s)
    (hhead : s.group.avail.head? = some g) (hrun : rotation.run s acts = some s')
    (stays : rotation.Guarded (fun s a => ¬ Displaces s a) s acts) :
    s'.group.avail.head? = some g := by
  have preserved : ∀ t a t', (TierInv t ∧ t.group.avail.head? = some g) → ¬ Displaces t a →
      rotation.step t a = some t' → TierInv t' ∧ t'.group.avail.head? = some g :=
    fun t a t' ht hstays hstep =>
      ⟨tier_step_inv t a t' ht.1 hstep, rotation_step_head ht.1 ht.2 hstays hstep⟩
  exact (rotation.guarded_invariant preserved hrun stays ⟨inv, hhead⟩).2

/-! ### Stickiness -/

theorem scheduleHA_fst (p : FwdrGroup) (dstAddr : GoString) :
    (p.scheduleHA dstAddr).1 = p.avail.head? := by
  rw [List.head?_eq_getElem?]
  rfl

/-- The swap a call begins with. -/
def Call.act : Call → GroupAct
  | .enable f => .enable f
  | .disable f => .disable f

/-- The swap of the call succeeds: the status of its forwarder changes. -/
def Call.Changes (s : GroupState) : Call → Prop
  | .enable f => ∃ v, (s.heap f).enableCas = some v
  | .disable f => ∃ v, (s.heap f).disableCas = some v

/-- The flag the call leaves. -/
def Call.flag : Call → Bool
  | .enable _ => true
  | .disable _ => false

variable {c : Call}

/-- A swap that succeeds leaves the flag of its call. -/
theorem Call.enabled_of_changes {s mid : GroupState} (changes : c.Changes s)
    (hstep : rotation.step s c.act = some mid) : mid.heap.enabled c.fwdr = c.flag := by
  cases c with
  | enable f | disable f =>
    obtain ⟨v, hcas⟩ := changes
    obtain ⟨-, rfl⟩ := Forwarder.casDisabled_eq_some hcas
    simp only [Call.act, rotation, Option.ite_none_right_eq_some, Option.some.injEq,
      GroupState.enable, GroupState.disable, hcas] at hstep
    obtain ⟨-, rfl⟩ := hstep
    simp [Heap.enabled, GroupState.write, Call.fwdr, Call.flag, Forwarder.enabled, isTrue]

/-- A swap runs no handler. -/
theorem Call.undisturbed {s mid : GroupState} (hstep : rotation.step s c.act = some mid) :
    Undisturbed s mid := by
  rcases rotation_step_cases hstep with ⟨c', -, hact, -⟩ | quiet
  · cases c <;> cases hact
  · exact quiet

/-- One status change with its handler keeps the head, unless it disables that forwarder or
enables one of strictly higher priority. -/
theorem change_head (inv : TierInv s) (hhead : s.group.avail.head? = some g) (changes : c.Changes s)
    (hrun : rotation.run s [c.act, .handle c] = some s') :
    s'.group.avail.head? = some g ∨ c = .disable g ∨
      ∃ f, c = .enable f ∧ s.heap.priority g < s.heap.priority f := by
  obtain ⟨mid, hswap, hrest⟩ := rotation.run_cons_eq_some hrun
  obtain ⟨last, hhandle, hlast⟩ := rotation.run_cons_eq_some hrest
  cases hlast
  have quiet := Call.undisturbed hswap
  have flag := Call.enabled_of_changes changes hswap
  have hhead' : mid.group.avail.head? = some g := by
    rw [quiet.group.avail]
    exact hhead
  have inv' := tier_step_inv s c.act mid inv hswap
  by_cases hdisplaced : Displaced mid.heap g c.fwdr
  · right
    rcases hdisplaced with ⟨rfl, disabled⟩ | ⟨enabled, hlt⟩
    · cases c with
      | enable f => exact absurd flag disabled
      | disable f => exact Or.inl rfl
    · cases c with
      | enable f =>
        rw [quiet.later.priorities, quiet.later.priorities] at hlt
        exact Or.inr ⟨f, rfl, hlt⟩
      | disable f =>
        rw [flag] at enabled
        cases enabled
  · left
    apply rotation_step_head inv' hhead' _ hhandle
    rintro ⟨c', g', hact, hg', hdisplaced'⟩
    cases hact
    cases hhead'.symm.trans hg'
    exact hdisplaced hdisplaced'

/-- **High-availability stickiness.** From every reachable state whose rotation is not
empty, whatever handlers are pending: a status change followed by its handler moves the pick
of `scheduleHA` only if it disables that forwarder or enables one of strictly higher
priority; and over any run, with all interleavings of swaps and late handlers, the pick moves
only at a handler that finds the pick disabled or a forwarder of strictly higher priority
enabled. A group with the `ha` strategy dials that pick. -/
theorem ha_sticky (S : Sorter) (name : GoString) (fs : List Forwarder) (strategy : Strategy)
    (acts : List GroupAct) (s : GroupState)
    (hrun : rotation.run (boot S name fs strategy) acts = some s) (hne : s.group.avail ≠ [])
    (dstAddr : GoString) :
    ∃ g, (s.group.scheduleHA dstAddr).1 = some g ∧
      (s.group.next = .ha → (s.group.nextDialer s.heap dstAddr).1 = some g) ∧
      (∀ c s', c.Changes s → rotation.run s [c.act, .handle c] = some s' →
        (s'.group.scheduleHA dstAddr).1 = some g ∨ c = .disable g ∨
          ∃ f, c = .enable f ∧ s.heap.priority g < s.heap.priority f) ∧
      ∀ more s', rotation.run s more = some s' →
        rotation.Guarded (fun s a => ¬ Displaces s a) s more →
        (s'.group.scheduleHA dstAddr).1 = some g := by
  have inv := tierInv_of_run hrun
  obtain ⟨g, rest, havail⟩ := List.exists_cons_of_ne_nil hne
  have hhead : s.group.avail.head? = some g := by rw [havail, List.head?_cons]
  refine ⟨g, ?_, ?_, ?_, ?_⟩
  · rw [scheduleHA_fst, hhead]
  · intro hnext
    rw [FwdrGroup.nextDialer, if_neg hne, FwdrGroup.schedule, hnext]
    rw [scheduleHA_fst, hhead]
  · intro c s' changes hchange
    rw [scheduleHA_fst]
    exact change_head inv hhead changes hchange
  · intro more s' hmore stays
    rw [scheduleHA_fst]
    exact rotation_run_head inv hhead hmore stays

/-- Of three forwarders of one tier the second is disabled: the last one takes its place
and the first is still picked. -/
theorem ha_sticky_disable_second :
    ∃ g s', (boot Sorter.insertion [] [{}, {}, {}] { strategy := ascii "ha" }).group.next = .ha ∧
      rotation.run (boot Sorter.insertion [] [{}, {}, {}] { strategy := ascii "ha" })
        [.disable 1, .handle (.disable 1)] = some s' ∧
      s'.group.avail = [0, 2] ∧ (s'.group.scheduleHA []).1 = some g := by
  obtain ⟨g, hg, -, hchange, -⟩ := ha_sticky Sorter.insertion [] [{}, {}, {}]
    { strategy := ascii "ha" } [] _ rfl (by decide) []
  have hzero : g = 0 := by
    have hpick :
        ((boot Sorter.insertion [] [{}, {}, {}] { strategy := ascii "ha" }).group.scheduleHA []).1 =
          some 0 := by decide
    exact Option.some.inj (hg.symm.trans hpick)
  subst hzero
  refine ⟨0, _, by decide, rfl, by decide, ?_⟩
  rcases hchange (.disable 1) _ ⟨_, rfl⟩ rfl with hsame | hdisabled | ⟨f, henable, -⟩
  · exact hsame
  · cases hdisabled
  · cases henable

end Glider.Rule
