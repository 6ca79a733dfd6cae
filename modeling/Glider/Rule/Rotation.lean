/-
The rotation of one group under concurrent status changes.

`Enable` and `Disable` flip a forwarder's flag by a compare-and-swap and only
then call the group's `onStatusChanged`, so a handler can run late, out of order,
and see a flag that has been flipped again. The machine `rotation` interleaves
the swaps, the handlers (serialised by the group's mutex, hence atomic here) and
every other operation that writes a forwarder or the group: the failure counter,
the latency, the failure limit and the round-robin index.

* `Settled` — the rotation agrees with one forwarder's current flag.
* `RotationInv` — the invariant: the rotation is settled for every forwarder
  that has no handler pending.
* `rotation_exact` — in every reachable state the rotation is a duplicate-free
  list of the group's forwarders; with no handler pending it is exactly the set of
  enabled forwarders of the highest enabled priority.
-/

import Glider.Lib.Machine
import Glider.Rule.Group

namespace Glider.Rule

open Glider.Go Glider.Lib

/-! ### The shape of a rotation -/

/-- What holds of a group at every moment: the forwarders are distinct and
sorted by priority, and the rotation is a duplicate-free list of forwarders of at
least the active priority. -/
structure Shape (h : Heap) (p : FwdrGroup) : Prop where
  fwdrs_nodup : p.fwdrs.Nodup
  fwdrs_sorted : p.fwdrs.Pairwise fun f g => h.priority g ≤ h.priority f
  avail_nodup : p.avail.Nodup
  avail_sub : ∀ f ∈ p.avail, f ∈ p.fwdrs
  avail_priority : ∀ f ∈ p.avail, p.priority ≤ h.priority f

/-- The rotation agrees with the current flag of `f`: a member is enabled and of
the active priority, and an enabled forwarder is a member or of lower
priority. -/
structure Settled (h : Heap) (p : FwdrGroup) (f : FwdrId) : Prop where
  of_avail : f ∈ p.avail → h.enabled f = true ∧ h.priority f = p.priority
  of_enabled : h.enabled f = true →
    h.priority f ≤ p.priority ∧ (h.priority f = p.priority → f ∈ p.avail)

namespace FwdrGroup

variable {h : Heap} {p : FwdrGroup} {f : FwdrId}

@[simp] theorem choosePriority_fwdrs : (p.choosePriority h).fwdrs = p.fwdrs := by
  unfold choosePriority
  split <;> rfl

@[simp] theorem fillAvail_fwdrs : (p.fillAvail h).fwdrs = p.fwdrs := rfl

@[simp] theorem fillAvail_priority : (p.fillAvail h).priority = p.priority := rfl

@[simp] theorem resetIfEmpty_fwdrs : p.resetIfEmpty.fwdrs = p.fwdrs := by
  unfold resetIfEmpty
  split <;> rfl

@[simp] theorem resetIfEmpty_avail : p.resetIfEmpty.avail = p.avail := by
  unfold resetIfEmpty
  split <;> rfl

@[simp] theorem init_fwdrs : (p.init h).fwdrs = p.fwdrs := by simp [init]

@[simp] theorem addAvail_fwdrs : (p.addAvail f).fwdrs = p.fwdrs := by
  unfold addAvail
  split <;> rfl

@[simp] theorem addAvail_priority : (p.addAvail f).priority = p.priority := by
  unfold addAvail
  split <;> rfl

variable {g : FwdrId}

@[simp] theorem mem_addAvail : g ∈ (p.addAvail f).avail ↔ g ∈ p.avail ∨ g = f := by
  unfold addAvail inAvail
  split
  · rename_i hf
    have hmem : f ∈ p.avail := by simpa using hf
    exact ⟨Or.inl, fun hg => hg.elim id fun heq => heq ▸ hmem⟩
  · simp

theorem nodup_addAvail (hp : p.avail.Nodup) : (p.addAvail f).avail.Nodup := by
  unfold addAvail inAvail
  split
  · exact hp
  · rename_i hf
    have hnot : f ∉ p.avail := by simpa using hf
    exact List.nodup_append.mpr ⟨hp, List.nodup_singleton f, by
      intro a ha b hb
      rw [List.mem_singleton.mp hb]
      exact fun hab => hnot (hab ▸ ha)⟩

@[simp] theorem removeAvail_fwdrs : (p.removeAvail f).fwdrs = p.fwdrs := rfl

@[simp] theorem removeAvail_priority : (p.removeAvail f).priority = p.priority := rfl

theorem mem_init_avail :
    g ∈ (p.init h).avail ↔
      g ∈ p.fwdrs ∧ h.enabled g = true ∧ (p.choosePriority h).priority ≤ h.priority g := by
  simp [init, fillAvail]

/-- In a list sorted by priority the first enabled forwarder has the highest
priority of the enabled ones. -/
theorem find?_enabled_max (sorted : p.fwdrs.Pairwise fun f g => h.priority g ≤ h.priority f)
    (hfind : p.fwdrs.find? h.enabled = some f) (hg : g ∈ p.fwdrs) (enabled : h.enabled g = true) :
    h.priority g ≤ h.priority f := by
  obtain ⟨-, pre, post, hsplit, disabled⟩ := List.find?_eq_some_iff_append.mp hfind
  rw [hsplit] at hg sorted
  rcases List.mem_append.mp hg with hpre | hcons
  · have := disabled g hpre
    simp [enabled] at this
  · rcases List.mem_cons.mp hcons with rfl | hpost
    · exact UInt32.le_refl _
    · exact List.rel_of_pairwise_cons (List.pairwise_append.mp sorted).2.1 hpost

/-- **`init` settles every forwarder**, whatever the rotation was before. -/
theorem init_settled (sorted : p.fwdrs.Pairwise fun f g => h.priority g ≤ h.priority f)
    (hg : g ∈ p.fwdrs) : Settled h (p.init h) g := by
  cases hfind : p.fwdrs.find? h.enabled with
  | none =>
    have disabled : ¬ h.enabled g = true := by simpa using List.find?_eq_none.mp hfind g hg
    exact ⟨fun hmem => absurd (mem_init_avail.mp hmem).2.1 disabled,
      fun enabled => absurd enabled disabled⟩
  | some f =>
    have hchosen : (p.choosePriority h).priority = h.priority f := by
      simp [choosePriority, hfind]
    have hf : f ∈ (p.init h).avail := mem_init_avail.mpr
      ⟨List.mem_of_find?_eq_some hfind, List.find?_some hfind, by
        rw [hchosen]
        exact UInt32.le_refl _⟩
    -- the rotation holds `f`, so the reset at the end of `init` does nothing
    have hpri : (p.init h).priority = h.priority f := by
      have hne : ((p.choosePriority h).fillAvail h).avail ≠ [] := by
        intro hnil
        simp [init, hnil] at hf
      simp [init, resetIfEmpty, hne, hchosen]
    have top : h.enabled g = true → h.priority g ≤ h.priority f :=
      find?_enabled_max sorted hfind hg
    constructor
    · intro hmem
      obtain ⟨-, enabled, hle⟩ := mem_init_avail.mp hmem
      rw [hchosen] at hle
      exact ⟨enabled, by rw [hpri]; exact UInt32.le_antisymm (top enabled) hle⟩
    · intro enabled
      refine ⟨by rw [hpri]; exact top enabled, fun heq => mem_init_avail.mpr ⟨hg, enabled, ?_⟩⟩
      rw [hchosen, heq, hpri]
      exact UInt32.le_refl _

theorem init_empty_priority (hempty : (p.init h).avail = []) : (p.init h).priority = 0 := by
  rw [init, resetIfEmpty_avail] at hempty
  simp [init, resetIfEmpty, hempty]

end FwdrGroup

/-! ### One handler call -/

/-- What a handler for `f` makes of the group, before the check for an empty rotation. -/
inductive Handled (h : Heap) (p : FwdrGroup) (f : FwdrId) : FwdrGroup → Prop where
  /-- Enabled in the active tier. -/
  | append (enabled : h.enabled f = true) (hpri : h.priority f = p.priority) :
    Handled h p f (p.addAvail f)
  /-- Enabled in a higher tier: start over. -/
  | rebuild (enabled : h.enabled f = true) (hhigher : p.priority < h.priority f) :
    Handled h p f (p.init h)
  /-- Enabled in a lower tier: nothing to do. -/
  | keep (enabled : h.enabled f = true) (hlower : h.priority f < p.priority) : Handled h p f p
  | remove (disabled : ¬ h.enabled f = true) : Handled h p f (p.removeAvail f)

/-- **Inversion** of a handler call. -/
theorem FwdrGroup.onStatusChanged_cases (h : Heap) (p : FwdrGroup) (f : FwdrId) :
    ∃ q, Handled h p f q ∧
      p.onStatusChanged h f = if q.avail = [] then q.init h else q := by
  unfold FwdrGroup.onStatusChanged
  by_cases enabled : h.enabled f = true
  · rw [if_pos enabled]
    by_cases heq : h.priority f = p.priority
    · rw [if_pos heq]
      exact ⟨_, .append enabled heq, rfl⟩
    · rw [if_neg heq]
      by_cases hlt : p.priority < h.priority f
      · rw [if_pos hlt]
        exact ⟨_, .rebuild enabled hlt, rfl⟩
      · rw [if_neg hlt]
        exact ⟨p, .keep enabled (by grind), rfl⟩
  · rw [if_neg enabled]
    exact ⟨_, .remove enabled, rfl⟩

namespace Shape

variable {h : Heap} {p : FwdrGroup} {f : FwdrId}

theorem init (shape : Shape h p) : Shape h (p.init h) where
  fwdrs_nodup := by simpa using shape.fwdrs_nodup
  fwdrs_sorted := by simpa using shape.fwdrs_sorted
  avail_nodup := by
    rw [FwdrGroup.init, FwdrGroup.resetIfEmpty_avail, FwdrGroup.fillAvail]
    exact List.Nodup.filter _ (by simpa using shape.fwdrs_nodup)
  avail_sub := fun g hg => by simpa using (FwdrGroup.mem_init_avail.mp hg).1
  avail_priority := fun g hg => by
    have settled := FwdrGroup.init_settled shape.fwdrs_sorted (FwdrGroup.mem_init_avail.mp hg).1
    rw [(settled.of_avail hg).2]
    exact UInt32.le_refl _

theorem addAvail (shape : Shape h p) (hf : f ∈ p.fwdrs) (hpri : h.priority f = p.priority) :
    Shape h (p.addAvail f) where
  fwdrs_nodup := by simpa using shape.fwdrs_nodup
  fwdrs_sorted := by simpa using shape.fwdrs_sorted
  avail_nodup := FwdrGroup.nodup_addAvail shape.avail_nodup
  avail_sub := fun g hg => by
    rcases FwdrGroup.mem_addAvail.mp hg with hg | rfl
    · simpa using shape.avail_sub g hg
    · simpa using hf
  avail_priority := fun g hg => by
    rcases FwdrGroup.mem_addAvail.mp hg with hg | rfl
    · simpa using shape.avail_priority g hg
    · simp [hpri]

theorem removeAvail (shape : Shape h p) : Shape h (p.removeAvail f) where
  fwdrs_nodup := shape.fwdrs_nodup
  fwdrs_sorted := shape.fwdrs_sorted
  avail_nodup := nodup_swapRemove shape.avail_nodup f
  avail_sub := fun g hg => shape.avail_sub g ((mem_swapRemove shape.avail_nodup).mp hg).2
  avail_priority := fun g hg =>
    shape.avail_priority g ((mem_swapRemove shape.avail_nodup).mp hg).2

end Shape

namespace Settled

variable {h : Heap} {p : FwdrGroup} {f g : FwdrId}

/-- A forwarder of lower priority that is not in the rotation is settled. -/
theorem of_lower (shape : Shape h p) (hlt : h.priority f < p.priority) : Settled h p f where
  of_avail := fun hf => by
    have := shape.avail_priority f hf
    grind
  of_enabled := fun _ => ⟨by grind, fun heq => by grind⟩

theorem addAvail_self (enabled : h.enabled f = true) (hpri : h.priority f = p.priority) :
    Settled h (p.addAvail f) f where
  of_avail := fun _ => ⟨enabled, by simpa using hpri⟩
  of_enabled := fun _ => ⟨by simp [hpri], fun _ => by simp⟩

theorem addAvail_of_ne (hne : g ≠ f) (settled : Settled h p g) : Settled h (p.addAvail f) g where
  of_avail := fun hg => by
    rcases FwdrGroup.mem_addAvail.mp hg with hg | rfl
    · simpa using settled.of_avail hg
    · exact absurd rfl hne
  of_enabled := fun enabled => by
    obtain ⟨hle, hmem⟩ := settled.of_enabled enabled
    exact ⟨by simpa using hle, fun heq => by
      exact FwdrGroup.mem_addAvail.mpr (Or.inl (hmem (by simpa using heq)))⟩

theorem removeAvail_self (shape : Shape h p) (disabled : ¬ h.enabled f = true) :
    Settled h (p.removeAvail f) f where
  of_avail := fun hf => absurd rfl ((mem_swapRemove shape.avail_nodup).mp hf).1
  of_enabled := fun enabled => absurd enabled disabled

theorem removeAvail_of_ne (shape : Shape h p) (hne : g ≠ f) (settled : Settled h p g) :
    Settled h (p.removeAvail f) g where
  of_avail := fun hg => settled.of_avail ((mem_swapRemove shape.avail_nodup).mp hg).2
  of_enabled := fun enabled => by
    obtain ⟨hle, hmem⟩ := settled.of_enabled enabled
    exact ⟨hle, fun heq => (mem_swapRemove shape.avail_nodup).mpr ⟨hne, hmem heq⟩⟩

end Settled

/-- The invariant of a group whose handlers for the forwarders in `noted` have
not run yet: an empty rotation has priority 0, and the rotation is settled for
everyone else. -/
structure Rotating (h : Heap) (p : FwdrGroup) (noted : FwdrId → Prop) : Prop where
  shape : Shape h p
  empty_priority : p.avail = [] → p.priority = 0
  settled : ∀ f ∈ p.fwdrs, ¬ noted f → Settled h p f

variable {h : Heap} {p : FwdrGroup}

/-- `init` reaches the invariant with nobody left to settle. -/
theorem Shape.rotating_init (shape : Shape h p) (noted : FwdrId → Prop) :
    Rotating h (p.init h) noted where
  shape := shape.init
  empty_priority := FwdrGroup.init_empty_priority
  settled := fun f hf _ => FwdrGroup.init_settled shape.fwdrs_sorted (by simpa using hf)

/-- A group that is settled for everyone not noted, but may have emptied its
rotation, is put right by the check at the end of `onStatusChanged`. -/
theorem Shape.rotating_of_settled {noted : FwdrId → Prop} (shape : Shape h p)
    (settled : ∀ f ∈ p.fwdrs, ¬ noted f → Settled h p f) :
    Rotating h (if p.avail = [] then p.init h else p) noted := by
  split
  · exact shape.rotating_init noted
  · exact ⟨shape, fun hempty => absurd hempty ‹_›, settled⟩

namespace Rotating

variable {noted : FwdrId → Prop} {f : FwdrId}

/-! A handler for `f` makes up for the one forwarder that is noted on its account,
in each of the branches that end without `init`. -/

variable {g : FwdrId}

theorem others (inv : Rotating h p fun g => noted g ∨ g = f) (hg : g ∈ p.fwdrs) (hnot : ¬ noted g)
    (hne : g ≠ f) : Settled h p g :=
  inv.settled g hg fun hor => hor.elim hnot hne

theorem settled_addAvail (inv : Rotating h p fun g => noted g ∨ g = f)
    (enabled : h.enabled f = true) (heq : h.priority f = p.priority) (hg : g ∈ p.fwdrs)
    (hnot : ¬ noted g) : Settled h (p.addAvail f) g := by
  by_cases hgf : g = f
  · rw [hgf]
    exact Settled.addAvail_self enabled heq
  · exact (inv.others hg hnot hgf).addAvail_of_ne hgf

theorem settled_lower (inv : Rotating h p fun g => noted g ∨ g = f)
    (hlt : h.priority f < p.priority) (hg : g ∈ p.fwdrs) (hnot : ¬ noted g) : Settled h p g := by
  by_cases hgf : g = f
  · rw [hgf]
    exact Settled.of_lower inv.shape hlt
  · exact inv.others hg hnot hgf

theorem settled_removeAvail (inv : Rotating h p fun g => noted g ∨ g = f)
    (disabled : ¬ h.enabled f = true) (hg : g ∈ p.fwdrs) (hnot : ¬ noted g) :
    Settled h (p.removeAvail f) g := by
  by_cases hgf : g = f
  · rw [hgf]
    exact Settled.removeAvail_self inv.shape disabled
  · exact (inv.others hg hnot hgf).removeAvail_of_ne inv.shape hgf

/-- **Step lemma.** A handler call for `f` settles `f` and keeps everyone else
settled, whatever the flag of `f` is by now. -/
theorem onStatusChanged (hf : f ∈ p.fwdrs) (inv : Rotating h p fun g => noted g ∨ g = f) :
    Rotating h (p.onStatusChanged h f) noted := by
  obtain ⟨q, hq, heq⟩ := FwdrGroup.onStatusChanged_cases h p f
  rw [heq]
  cases hq with
  | append enabled hpri =>
    refine (inv.shape.addAvail hf hpri).rotating_of_settled fun g hg hnot => ?_
    exact inv.settled_addAvail enabled hpri (by simpa using hg) hnot
  | rebuild _ _ =>
    exact inv.shape.init.rotating_of_settled fun g hg _ =>
      FwdrGroup.init_settled inv.shape.fwdrs_sorted (by simpa using hg)
  | keep _ hlower =>
    exact inv.shape.rotating_of_settled fun g hg hnot => inv.settled_lower hlower hg hnot
  | remove disabled =>
    exact inv.shape.removeAvail.rotating_of_settled fun g hg hnot =>
      inv.settled_removeAvail disabled hg hnot

end Rotating

@[simp] theorem onStatusChanged_fwdrs (h : Heap) (p : FwdrGroup) (f : FwdrId) :
    (p.onStatusChanged h f).fwdrs = p.fwdrs := by
  obtain ⟨q, hq, heq⟩ := FwdrGroup.onStatusChanged_cases h p f
  have hfwdrs : q.fwdrs = p.fwdrs := by cases hq <;> simp
  rw [heq]
  split
  · rw [FwdrGroup.init_fwdrs, hfwdrs]
  · exact hfwdrs

/-- Two groups that differ at most in their round-robin index. -/
structure SameGroup (p p' : FwdrGroup) : Prop where
  fwdrs : p'.fwdrs = p.fwdrs
  avail : p'.avail = p.avail
  priority : p'.priority = p.priority

theorem SameGroup.refl (p : FwdrGroup) : SameGroup p p := ⟨rfl, rfl, rfl⟩

/-- A later moment: only forwarders that are noted by now may have another flag. -/
structure Later (h h' : Heap) (noted noted' : FwdrId → Prop) : Prop where
  priorities : ∀ f, h'.priority f = h.priority f
  noted : ∀ f, noted f → noted' f
  enabled : ∀ f, ¬ noted' f → h'.enabled f = h.enabled f

section Later

variable {h h' : Heap} {p p' : FwdrGroup} {noted noted' : FwdrId → Prop}

theorem Shape.later (shape : Shape h p) (same : SameGroup p p')
    (priorities : ∀ f, h'.priority f = h.priority f) : Shape h' p' where
  fwdrs_nodup := by rw [same.fwdrs]; exact shape.fwdrs_nodup
  fwdrs_sorted := by simpa only [same.fwdrs, priorities] using shape.fwdrs_sorted
  avail_nodup := by rw [same.avail]; exact shape.avail_nodup
  avail_sub := by simpa only [same.fwdrs, same.avail] using shape.avail_sub
  avail_priority := by
    simpa only [same.avail, same.priority, priorities] using shape.avail_priority

/-- The invariant survives any flips of noted forwarders. -/
theorem Rotating.later (inv : Rotating h p noted) (same : SameGroup p p')
    (later : Later h h' noted noted') : Rotating h' p' noted' where
  shape := inv.shape.later same later.priorities
  empty_priority := by simpa only [same.avail, same.priority] using inv.empty_priority
  settled := fun f hf hnot => by
    have settled := inv.settled f (same.fwdrs ▸ hf) fun hold => hnot (later.noted f hold)
    have hflag := later.enabled f hnot
    exact
      ⟨by simpa only [same.avail, same.priority, later.priorities, hflag] using settled.of_avail,
        by simpa only [same.avail, same.priority, later.priorities, hflag]
          using settled.of_enabled⟩

end Later

/-! ### The machine -/

/-- A call of `Enable` or `Disable` whose swap succeeded and whose handler has
not run yet. -/
inductive Call where
  | enable (f : FwdrId)
  | disable (f : FwdrId)
deriving DecidableEq, Repr

def Call.fwdr : Call → FwdrId
  | .enable f => f
  | .disable f => f

/-- One group with its forwarders, the calls waiting for the group's mutex, and
the `Enable` calls whose last store (clearing the failure counter) is still to
come. -/
structure GroupState where
  heap : Heap
  group : FwdrGroup
  pending : List Call
  resets : List FwdrId

/-- The atomic steps of the goroutines that share a group. -/
inductive GroupAct where
  /-- The swap of a call of `Enable`. -/
  | enable (f : FwdrId)
  /-- The swap of a call of `Disable`. -/
  | disable (f : FwdrId)
  /-- The handler of a pending call. -/
  | handle (c : Call)
  /-- The last store of a call of `Enable`. -/
  | reset (f : FwdrId)
  /-- The increment of a call of `IncFailures`. -/
  | count (f : FwdrId)
  | setMaxFailures (f : FwdrId) (n : UInt32)
  | setLatency (f : FwdrId) (l : Int64)
  | nextDialer (dstAddr : GoString)
deriving DecidableEq, Repr

namespace GroupState

variable (s : GroupState)

/-- `f` has a handler pending. -/
def Noted (f : FwdrId) : Prop := ∃ c ∈ s.pending, c.fwdr = f

def write (f : FwdrId) (v : Forwarder) : GroupState := { s with heap := s.heap.set f v }

/-- The swap of `Enable`: on success the handler is due, and on failure only the
store that clears the counter. -/
def enable (f : FwdrId) : GroupState :=
  match (s.heap f).enableCas with
  | some v => { s.write f v with pending := s.pending ++ [.enable f] }
  | none => { s with resets := f :: s.resets }

def disable (f : FwdrId) : GroupState :=
  match (s.heap f).disableCas with
  | some v => { s.write f v with pending := s.pending ++ [.disable f] }
  | none => s

/-- What is left of a call once its handler has returned. -/
def finish (c : Call) : GroupState :=
  match c with
  | .enable f => { s with resets := f :: s.resets }
  | .disable _ => s

def handle (c : Call) : GroupState :=
  { s.finish c with
    group := s.group.onStatusChanged s.heap c.fwdr
    pending := s.pending.erase c }

@[simp] theorem handle_heap (c : Call) : (s.handle c).heap = s.heap := by
  cases c <;> rfl

theorem handle_group (c : Call) :
    (s.handle c).group = s.group.onStatusChanged s.heap c.fwdr := by
  cases c <;> rfl

theorem handle_pending (c : Call) : (s.handle c).pending = s.pending.erase c := by
  cases c <;> rfl

end GroupState

/-- The step function; only forwarders of the group have its handler. -/
def rotation : Machine GroupState GroupAct where
  step s
    | .enable f => if f ∈ s.group.fwdrs then some (s.enable f) else none
    | .disable f => if f ∈ s.group.fwdrs then some (s.disable f) else none
    | .handle c => if c ∈ s.pending then some (s.handle c) else none
    | .reset f =>
      if f ∈ s.resets then
        some { s.write f { s.heap f with failures := 0 } with resets := s.resets.erase f }
      else none
    | .count f => some (s.write f (s.heap f).addFailure)
    | .setMaxFailures f n => some (s.write f { s.heap f with maxFailures := n })
    | .setLatency f l => some (s.write f { s.heap f with latency := l })
    | .nextDialer dstAddr => some { s with group := (s.group.nextDialer s.heap dstAddr).2 }

/-- A group as `newFwdrGroup` leaves it, with the records of `fs` at pointers of
their own. -/
def boot (S : Sorter) (name : GoString) (fs : List Forwarder) (c : Strategy) : GroupState where
  heap := Heap.ofList fs
  group := newFwdrGroup S (Heap.ofList fs) name (Heap.ids fs) c
  pending := []
  resets := []

theorem strictWeak_priLess (h : Heap) : StrictWeak (FwdrGroup.priLess h) where
  asymm f g hfg := by
    simp only [FwdrGroup.priLess, decide_eq_true_eq, decide_eq_false_iff_not] at hfg ⊢
    grind
  negTrans f g k hgf hkg := by
    simp only [FwdrGroup.priLess, decide_eq_false_iff_not] at hgf hkg ⊢
    grind

/-- The group is built settled. -/
theorem boot_rotating (S : Sorter) (name : GoString) (fs : List Forwarder) (c : Strategy) :
    Rotating (boot S name fs c).heap (boot S name fs c).group (boot S name fs c).Noted := by
  apply Shape.rotating_init
  refine ⟨S.nodup_sort (Heap.nodup_ids fs), ?_, List.nodup_nil, by simp, by simp⟩
  refine (S.sorted (strictWeak_priLess _) _).imp fun {f g} hle => ?_
  simp only [FwdrGroup.priLess, decide_eq_false_iff_not] at hle
  exact UInt32.not_lt.mp hle

/-! ### What a step can do -/

/-- Writing a record changes no other forwarder. -/
theorem Heap.set_apply (h : Heap) (f g : FwdrId) (v : Forwarder) :
    h.set f v g = if g = f then v else h g := by
  by_cases hgf : g = f
  · simp [hgf]
  · simp [hgf]

/-- A step that runs no handler: the rotation is untouched, and a flag changed
only if its handler is pending now. -/
structure Undisturbed (s s' : GroupState) : Prop where
  group : SameGroup s.group s'.group
  later : Later s.heap s'.heap s.Noted s'.Noted
  pending : ∀ c ∈ s'.pending, c ∈ s.pending ∨ c.fwdr ∈ s.group.fwdrs

namespace Undisturbed

variable {s : GroupState} {f : FwdrId} {v : Forwarder}

/-- A step that writes no record. -/
theorem of_group {p : FwdrGroup} (same : SameGroup s.group p) (resets : List FwdrId) :
    Undisturbed s { s with group := p, resets := resets } where
  group := same
  later := ⟨fun _ => rfl, fun _ hnoted => hnoted, fun _ _ => rfl⟩
  pending := fun _ hc => Or.inl hc

/-- Writing a record that keeps its flag and priority. -/
theorem of_write (resets : List FwdrId) (hflag : v.enabled = (s.heap f).enabled)
    (hpri : v.priority = (s.heap f).priority) :
    Undisturbed s { s.write f v with resets := resets } where
  group := SameGroup.refl s.group
  later :=
    { priorities := fun g => by
        simp only [Heap.priority, GroupState.write, Heap.set_apply]
        split
        · rename_i hgf
          rw [hpri, hgf]
        · rfl
      noted := fun _ hnoted => hnoted
      enabled := fun g _ => by
        simp only [Heap.enabled, GroupState.write, Heap.set_apply]
        split
        · rename_i hgf
          rw [hflag, hgf]
        · rfl }
  pending := fun _ hc => Or.inl hc

/-- A successful swap: the flipped forwarder is noted from now on. -/
theorem of_cas {old new : UInt32} {c : Call} (hc : c.fwdr = f) (hf : f ∈ s.group.fwdrs)
    (hcas : (s.heap f).casDisabled old new = some v) :
    Undisturbed s { s.write f v with pending := s.pending ++ [c] } where
  group := SameGroup.refl s.group
  later :=
    { priorities := fun g => by
        obtain ⟨-, rfl⟩ := Forwarder.casDisabled_eq_some hcas
        simp only [Heap.priority, GroupState.write, Heap.set_apply]
        split
        · rename_i hgf
          rw [hgf]
        · rfl
      noted := fun g ⟨c', hc', hg⟩ => ⟨c', List.mem_append_left _ hc', hg⟩
      enabled := fun g hnot => by
        have hne : g ≠ f := fun hgf => hnot ⟨c, by simp, hc.trans hgf.symm⟩
        simp only [Heap.enabled, GroupState.write]
        rw [Heap.set_of_ne _ _ hne] }
  pending := fun c' hc' => by
    rcases List.mem_append.mp hc' with hold | hnew
    · exact Or.inl hold
    · rw [List.mem_singleton.mp hnew, hc]
      exact Or.inr hf

end Undisturbed

theorem scheduleLHA_snd (h : Heap) (p : FwdrGroup) (dstAddr : GoString) :
    (p.scheduleLHA h dstAddr).2 = p := by
  unfold FwdrGroup.scheduleLHA
  cases p.avail[0]? with
  | none => rfl
  | some oldfwdr =>
    dsimp only
    rw [apply_ite Prod.snd, ite_self]

/-- Asking for the next dialer moves the round-robin index and nothing else. -/
theorem nextDialer_snd (h : Heap) (p : FwdrGroup) (dstAddr : GoString) :
    ∃ index, (p.nextDialer h dstAddr).2 = { p with index := index } := by
  unfold FwdrGroup.nextDialer
  split
  · exact ⟨_, rfl⟩
  · unfold FwdrGroup.schedule
    split
    · exact ⟨_, rfl⟩
    · exact ⟨p.index, rfl⟩
    · exact ⟨p.index, scheduleLHA_snd h p dstAddr⟩
    · exact ⟨p.index, rfl⟩

variable {s s' : GroupState}

/-- **Inversion.** A step runs a pending handler or leaves the rotation
undisturbed. -/
theorem rotation_step_cases {a : GroupAct} (hstep : rotation.step s a = some s') :
    (∃ c ∈ s.pending, a = .handle c ∧ s' = s.handle c) ∨ Undisturbed s s' := by
  cases a with
  | enable f =>
    simp only [rotation, Option.ite_none_right_eq_some, Option.some.injEq] at hstep
    obtain ⟨hf, rfl⟩ := hstep
    unfold GroupState.enable
    split
    · exact Or.inr (Undisturbed.of_cas rfl hf ‹_›)
    · exact Or.inr (Undisturbed.of_group (SameGroup.refl s.group) _)
  | disable f =>
    simp only [rotation, Option.ite_none_right_eq_some, Option.some.injEq] at hstep
    obtain ⟨hf, rfl⟩ := hstep
    unfold GroupState.disable
    split
    · exact Or.inr (Undisturbed.of_cas rfl hf ‹_›)
    · exact Or.inr (Undisturbed.of_group (SameGroup.refl s.group) s.resets)
  | handle c =>
    simp only [rotation, Option.ite_none_right_eq_some, Option.some.injEq] at hstep
    obtain ⟨hc, rfl⟩ := hstep
    exact Or.inl ⟨c, hc, rfl, rfl⟩
  | reset f =>
    simp only [rotation, Option.ite_none_right_eq_some, Option.some.injEq] at hstep
    obtain ⟨-, rfl⟩ := hstep
    exact Or.inr (Undisturbed.of_write _ rfl rfl)
  | count f | setMaxFailures f n | setLatency f l =>
    cases hstep
    exact Or.inr (Undisturbed.of_write s.resets rfl rfl)
  | nextDialer dstAddr =>
    cases hstep
    obtain ⟨index, hgroup⟩ := nextDialer_snd s.heap s.group dstAddr
    have same : SameGroup s.group (s.group.nextDialer s.heap dstAddr).2 := by
      rw [hgroup]
      exact ⟨rfl, rfl, rfl⟩
    exact Or.inr (Undisturbed.of_group same s.resets)

/-! ### Runs -/

/-- A pending call is noted until its last handler has run. -/
theorem GroupState.noted_erase {s : GroupState} {c : Call} {f : FwdrId} (hnoted : s.Noted f) :
    (∃ c' ∈ s.pending.erase c, c'.fwdr = f) ∨ f = c.fwdr := by
  obtain ⟨c', hc', rfl⟩ := hnoted
  by_cases heq : c' = c
  · exact Or.inr (by rw [heq])
  · exact Or.inl ⟨c', (List.mem_erase_of_ne heq).mpr hc', rfl⟩

/-- The invariant of the machine: settled for everyone without a pending handler,
and only forwarders of the group have one. -/
structure RotationInv (s : GroupState) : Prop where
  rotating : Rotating s.heap s.group s.Noted
  pending : ∀ c ∈ s.pending, c.fwdr ∈ s.group.fwdrs

/-- **Step lemma.** -/
theorem rotation_step_inv (s : GroupState) (a : GroupAct) (s' : GroupState)
    (inv : RotationInv s) (hstep : rotation.step s a = some s') : RotationInv s' := by
  rcases rotation_step_cases hstep with ⟨c, hc, -, rfl⟩ | quiet
  · constructor
    · rw [s.handle_heap, s.handle_group]
      refine Rotating.onStatusChanged (inv.pending c hc)
        (inv.rotating.later (SameGroup.refl s.group)
          ⟨fun _ => rfl, fun f hnoted => ?_, fun _ _ => rfl⟩)
      simpa only [GroupState.Noted, s.handle_pending] using GroupState.noted_erase hnoted
    · intro c' hc'
      rw [s.handle_pending] at hc'
      rw [s.handle_group, onStatusChanged_fwdrs]
      exact inv.pending c' (List.mem_of_mem_erase hc')
  · constructor
    · exact inv.rotating.later quiet.group quiet.later
    · intro c' hc'
      rw [quiet.group.fwdrs]
      exact (quiet.pending c' hc').elim (inv.pending c') id

/-- No step adds or removes a forwarder. -/
theorem rotation_step_fwdrs {a : GroupAct} (hstep : rotation.step s a = some s') :
    s'.group.fwdrs = s.group.fwdrs := by
  rcases rotation_step_cases hstep with ⟨c, -, -, rfl⟩ | quiet
  · rw [s.handle_group, onStatusChanged_fwdrs]
  · exact quiet.group.fwdrs

theorem rotation_run_fwdrs {acts : List GroupAct} (hrun : rotation.run s acts = some s') :
    s'.group.fwdrs = s.group.fwdrs := by
  have keep : ∀ (t : GroupState) (a : GroupAct) (t' : GroupState),
      t.group.fwdrs = s.group.fwdrs → rotation.step t a = some t' →
      t'.group.fwdrs = s.group.fwdrs :=
    fun t a t' heq hstep => (rotation_step_fwdrs hstep).trans heq
  exact rotation.run_invariant keep hrun rfl

/-- **Run lemma.** Every reachable state is settled for the forwarders with no
handler pending, and holds the forwarders the group was built from. -/
theorem rotation_run_rotating {S : Sorter} {name : GoString} {fs : List Forwarder}
    {c : Strategy} {acts : List GroupAct} {s : GroupState}
    (hrun : rotation.run (boot S name fs c) acts = some s) :
    Rotating s.heap s.group s.Noted ∧ s.group.fwdrs.Perm (Heap.ids fs) := by
  have inv := rotation.run_invariant rotation_step_inv hrun
    ⟨boot_rotating S name fs c, by simp [boot]⟩
  refine ⟨inv.rotating, ?_⟩
  rw [rotation_run_fwdrs hrun]
  simpa [boot, newFwdrGroup] using S.perm _ (Heap.ids fs)

/-- `m` is the highest priority of an enabled forwarder of the group. -/
def TopPriority (h : Heap) (p : FwdrGroup) (m : UInt32) : Prop :=
  (∃ f ∈ p.fwdrs, h.enabled f = true ∧ h.priority f = m) ∧
    ∀ f ∈ p.fwdrs, h.enabled f = true → h.priority f ≤ m

/-- The rotation is exactly the enabled forwarders of the highest enabled
priority, and that priority is the active one; or nothing is enabled, the rotation
is empty and the active priority is 0. -/
def RotationExact (h : Heap) (p : FwdrGroup) : Prop :=
  (∃ m, TopPriority h p m ∧ p.priority = m ∧
      ∀ f, f ∈ p.avail ↔ f ∈ p.fwdrs ∧ h.enabled f = true ∧ h.priority f = m) ∨
    ((∀ f ∈ p.fwdrs, ¬ h.enabled f = true) ∧ p.avail = [] ∧ p.priority = 0)

/-- A group settled for everyone has the exact rotation. -/
theorem Rotating.exact {noted : FwdrId → Prop} (inv : Rotating h p noted) (quiet : ∀ f, ¬ noted f) :
    RotationExact h p := by
  have settled : ∀ f ∈ p.fwdrs, Settled h p f := fun f hf => inv.settled f hf (quiet f)
  by_cases hempty : p.avail = []
  · refine Or.inr ⟨fun f hf enabled => ?_, hempty, inv.empty_priority hempty⟩
    obtain ⟨hle, hmem⟩ := (settled f hf).of_enabled enabled
    have heq : h.priority f = p.priority := by
      rw [inv.empty_priority hempty] at hle ⊢
      grind
    simpa [hempty] using hmem heq
  · obtain ⟨g, hg⟩ := List.exists_mem_of_ne_nil _ hempty
    have hgf := inv.shape.avail_sub g hg
    obtain ⟨genabled, gpri⟩ := (settled g hgf).of_avail hg
    refine Or.inl ⟨p.priority, ⟨⟨g, hgf, genabled, gpri⟩, fun f hf enabled =>
      ((settled f hf).of_enabled enabled).1⟩, rfl, fun f => ⟨fun hf => ?_, ?_⟩⟩
    · have hfwdr := inv.shape.avail_sub f hf
      exact ⟨hfwdr, (settled f hfwdr).of_avail hf⟩
    · rintro ⟨hf, enabled, hpri⟩
      exact ((settled f hf).of_enabled enabled).2 hpri

/-- **Rotation exactness.** For every list of forwarders with any priorities and
flags and every interleaving of swaps and late handlers: the rotation is always a
duplicate-free list of the group's forwarders, so the status view never reports
more enabled than total, and with no handler pending it is exact. -/
theorem rotation_exact (S : Sorter) (name : GoString) (fs : List Forwarder) (c : Strategy)
    (acts : List GroupAct) (s : GroupState)
    (hrun : rotation.run (boot S name fs c) acts = some s) :
    s.group.fwdrs.Perm (Heap.ids fs) ∧
      s.group.avail.Nodup ∧ (∀ f ∈ s.group.avail, f ∈ s.group.fwdrs) ∧
      (s.group.status s.heap).enabled ≤ (s.group.status s.heap).total ∧
      (s.pending = [] → RotationExact s.heap s.group) := by
  obtain ⟨inv, hperm⟩ := rotation_run_rotating hrun
  refine ⟨hperm, inv.shape.avail_nodup, inv.shape.avail_sub, ?_, fun hpending => ?_⟩
  · exact (List.subperm_of_subset inv.shape.avail_nodup inv.shape.avail_sub).length_le
  · apply inv.exact
    rintro f ⟨c, hc, -⟩
    simp [hpending] at hc

/-- The active tier is disabled while the tier below is enabled, and the two
handlers run in the opposite order of the swaps. -/
theorem rotation_exact_late_handlers :
    ∃ s, rotation.run
        (boot Sorter.insertion [] [{ priority := 2 }, { priority := 1, disabled := 1 }] {})
        [.disable 0, .enable 1, .handle (.enable 1), .handle (.disable 0)] = some s ∧
      s.group.avail = [1] ∧ s.pending = [] ∧ RotationExact s.heap s.group := by
  refine ⟨_, rfl, by decide, by decide, ?_⟩
  have result := rotation_exact Sorter.insertion []
    [{ priority := 2 }, { priority := 1, disabled := 1 }] {}
    [.disable 0, .enable 1, .handle (.enable 1), .handle (.disable 0)] _ rfl
  exact result.2.2.2.2 (by decide)

end Glider.Rule
