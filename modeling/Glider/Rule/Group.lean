/-
Forwarder groups (`rule/group.go`): the rotation (`init`, `inAvail`,
`onStatusChanged`), the four schedulers, the candidate list of one dial, and the
status view (`rule/status.go`).

All functions are translated under the source's names. A group refers to its
forwarders by pointer and reads their records from the heap it is given, as the
code reads them through atomics. Log lines are left out.

`uint32(len(p.avail))` is kept as the truncating conversion. It is zero, and the
division by it panics, for a rotation of a multiple of 2^32 forwarders.
-/

import Glider.Go.Sort
import Glider.Rule.Forward

namespace Glider.Rule

open Glider.Go

/-- The fields of `Strategy` a group reads. -/
structure Strategy where
  strategy : GoString := []
  checkTolerance : Int := 0
  maxFailures : Int := 0
  intFace : GoString := []
  dialAttempts : Int := 0
  dialBudget : Int := 0
deriving DecidableEq, Repr, Inhabited

/-- The scheduler `p.next` points at. -/
inductive Scheduler where
  | rr
  | ha
  | lha
  | dh
deriving DecidableEq, Repr

/-- `FwdrGroup`; `dialBudget` is in nanoseconds. -/
structure FwdrGroup where
  name : GoString
  config : Strategy
  fwdrs : List FwdrId
  avail : List FwdrId
  index : UInt32
  priority : UInt32
  next : Scheduler
  dialAttempts : Int
  dialBudget : Nat
deriving DecidableEq, Repr

/-- `maxDialBudget`, in seconds. -/
def maxDialBudget : Int := 3600

/-- `time.Second` in nanoseconds. -/
def second : Nat := 1000000000

/-- `p.avail[i], p.avail = p.avail[len-1], p.avail[:len-1]` at the first `i` that
holds `f`. -/
def swapRemove (avail : List FwdrId) (f : FwdrId) : List FwdrId :=
  match avail.idxOf? f, avail.getLast? with
  | some i, some last => (avail.set i last).dropLast
  | _, _ => avail

/-- Swap removal permutes what plain removal leaves. -/
theorem swapRemove_perm (l : List FwdrId) (f : FwdrId) : (swapRemove l f).Perm (l.erase f) := by
  by_cases hf : f ∈ l
  · obtain ⟨pre, post, rfl, hpre⟩ := List.eq_append_cons_of_mem hf
    have hidx : (pre ++ f :: post).idxOf? f = some pre.length := by
      rw [List.idxOf?_eq_some_iff]
      refine ⟨by simp, by simp, fun j hj hjf => hpre ?_⟩
      rw [List.getElem_append_left hj] at hjf
      exact hjf ▸ List.getElem_mem hj
    have herase : (pre ++ f :: post).erase f = pre ++ post := by
      rw [List.erase_append_right _ hpre, List.erase_cons_head]
    rw [herase]
    rcases List.eq_nil_or_concat' post with rfl | ⟨mid, last, rfl⟩
    · simp [swapRemove, hidx]
    · -- the last element moves into the hole
      have hlast : (pre ++ f :: (mid ++ [last])).getLast? = some last := by
        rw [← List.cons_append, ← List.append_assoc, List.getLast?_concat]
      have hset : (pre ++ f :: (mid ++ [last])).set pre.length last
          = (pre ++ last :: mid) ++ [last] := by simp
      simp only [swapRemove, hidx, hlast]
      rw [hset, List.dropLast_concat]
      exact List.Perm.append_left pre (List.perm_append_singleton last mid).symm
  · have hidx : l.idxOf? f = none := by simpa using hf
    rw [List.erase_of_not_mem hf]
    simp [swapRemove, hidx]

theorem mem_swapRemove {l : List FwdrId} (hl : l.Nodup) {f g : FwdrId} :
    g ∈ swapRemove l f ↔ g ≠ f ∧ g ∈ l := by
  rw [(swapRemove_perm l f).mem_iff, hl.mem_erase_iff]

theorem nodup_swapRemove {l : List FwdrId} (hl : l.Nodup) (f : FwdrId) :
    (swapRemove l f).Nodup :=
  (swapRemove_perm l f).nodup_iff.mpr (hl.erase f)

namespace FwdrGroup

variable (h : Heap) (p : FwdrGroup)

/-- The first loop of `init`: the priority of the first enabled forwarder, if
there is one, becomes the group's. -/
def choosePriority : FwdrGroup :=
  match p.fwdrs.find? h.enabled with
  | some f => { p with priority := h.priority f }
  | none => p

/-- The second loop of `init`: the rotation is refilled from the enabled
forwarders of at least the group's priority. -/
def fillAvail : FwdrGroup :=
  { p with avail := p.fwdrs.filter fun f => h.enabled f && decide (p.priority ≤ h.priority f) }

/-- The end of `init`: an empty rotation resets the priority. -/
def resetIfEmpty : FwdrGroup :=
  if p.avail = [] then { p with priority := 0 } else p

def init : FwdrGroup := ((p.choosePriority h).fillAvail h).resetIfEmpty

def inAvail (f : FwdrId) : Bool := p.avail.contains f

/-- Append unless already in the rotation. -/
def addAvail (f : FwdrId) : FwdrGroup :=
  if p.inAvail f then p else { p with avail := p.avail ++ [f] }

/-- Swap-remove from the rotation. -/
def removeAvail (f : FwdrId) : FwdrGroup := { p with avail := swapRemove p.avail f }

/-- `onStatusChanged`, run without interference: the enabled flag may differ from
the one the swap that scheduled this call has left. -/
def onStatusChanged (f : FwdrId) : FwdrGroup :=
  let p :=
    if h.enabled f then
      if h.priority f = p.priority then p.addAvail f
      else if p.priority < h.priority f then p.init h
      else p
    else p.removeAvail f
  if p.avail = [] then p.init h else p

/-! ### Construction -/

/-- The scheduler `newFwdrGroup` selects; with one forwarder the strategy is
not looked at. -/
def chooseNext (strategy : GoString) (count : Nat) : Scheduler :=
  if 1 < count then
    if strategy = ascii "rr" then .rr
    else if strategy = ascii "ha" then .ha
    else if strategy = ascii "lha" then .lha
    else if strategy = ascii "dh" then .dh
    else .rr
  else .rr

/-- `priSlice.Less`. -/
def priLess (f g : FwdrId) : Bool := decide (h.priority g < h.priority f)

end FwdrGroup

/-- `newFwdrGroup`. The retry bounds are clamped before the conversion to
nanoseconds. -/
def newFwdrGroup (S : Sorter) (h : Heap) (name : GoString) (fwdrs : List FwdrId)
    (c : Strategy) : FwdrGroup :=
  FwdrGroup.init h
    { name := name
      config := c
      fwdrs := S.sort (FwdrGroup.priLess h) fwdrs
      avail := []
      index := 0
      priority := 0
      next := FwdrGroup.chooseNext c.strategy fwdrs.length
      dialAttempts := max c.dialAttempts 1
      dialBudget := (min (max c.dialBudget 0) maxDialBudget).toNat * second }

/-! ### Scheduling -/

/-- `l[n % uint32(len(l))]`; `none` is a panic: a division by zero, or an index out of
range. -/
def pick (l : List FwdrId) (n : UInt32) : Option FwdrId :=
  if UInt32.ofNat l.length = 0 then none else l[(n % UInt32.ofNat l.length).toNat]?

/-- 32-bit FNV-1a (`hash/fnv`). -/
def fnv32a (s : GoString) : UInt32 :=
  s.foldl (fun hash b => (hash ^^^ b.toUInt32) * 16777619) 2166136261

namespace FwdrGroup

variable (h : Heap) (p : FwdrGroup)

/-- `atomic.AddUint32(&p.index, 1)`. -/
def bump : FwdrGroup := { p with index := p.index + 1 }

def scheduleRR (_dstAddr : GoString) : Option FwdrId × FwdrGroup :=
  (pick p.avail p.bump.index, p.bump)

def scheduleHA (_dstAddr : GoString) : Option FwdrId × FwdrGroup := (p.avail[0]?, p)

/-- One round of the loop of `scheduleLHA`: the lowest latency so far and the
forwarder that has it. -/
def lowerLatency (best : Int64 × FwdrId) (f : FwdrId) : Int64 × FwdrId :=
  if (h f).latency < best.1 then ((h f).latency, f) else best

def scheduleLHA (_dstAddr : GoString) : Option FwdrId × FwdrGroup :=
  match p.avail[0]? with
  | none => (none, p)
  | some oldfwdr =>
    let newfwdr := (p.avail.foldl (lowerLatency h) ((h oldfwdr).latency, oldfwdr)).2
    let tolerance := Int64.ofInt p.config.checkTolerance * 1000000
    if (h newfwdr).latency < (h oldfwdr).latency - tolerance then (some newfwdr, p)
    else (some oldfwdr, p)

def scheduleDH (dstAddr : GoString) : Option FwdrId × FwdrGroup :=
  (pick p.avail (fnv32a dstAddr), p)

/-- The call through `p.next`. -/
def schedule (dstAddr : GoString) : Option FwdrId × FwdrGroup :=
  match p.next with
  | .rr => p.scheduleRR dstAddr
  | .ha => p.scheduleHA dstAddr
  | .lha => p.scheduleLHA h dstAddr
  | .dh => p.scheduleDH dstAddr

def nextDialer (dstAddr : GoString) : Option FwdrId × FwdrGroup :=
  if p.avail = [] then (pick p.fwdrs p.bump.index, p.bump) else p.schedule h dstAddr

/-- The forwarders a dial may try: the rotation, or everything when it is
empty. -/
def pool : List FwdrId := if p.avail = [] then p.fwdrs else p.avail

/-- One round of the second loop of `dialCandidates`, which runs while fewer than
`n` candidates are collected. -/
def addCandidate (pool : List FwdrId) (first : FwdrId) (start : Nat) (n : Int)
    (out : List FwdrId) (i : Nat) : List FwdrId :=
  if (out.length : Int) < n then
    match pool[(start + i) % pool.length]? with
    | some f => if f ≠ first then out ++ [f] else out
    | none => out
  else out

def dialCandidates (dstAddr : GoString) (n : Int) : Option (List FwdrId) × FwdrGroup :=
  match p.nextDialer h dstAddr with
  | (none, p') => (none, p')
  | (some first, p') =>
    let start := match p.pool.idxOf? first with
      | some i => i + 1
      | none => 0
    (some ((List.range p.pool.length).foldl
      (addCandidate p.pool first start (min n p.pool.length)) [first]), p')

end FwdrGroup

/-! ### Status -/

/-- `ForwarderStatus`. -/
structure ForwarderStatus where
  addr : GoString
  enabled : Bool
  priority : UInt32
  failures : UInt32
  latencyMs : Int

/-- `GroupStatus`. -/
structure GroupStatus where
  group : GoString
  enabled : Nat
  total : Nat
  forwarders : List ForwarderStatus

/-- `FwdrGroup.Status`; `Milliseconds` truncates towards zero. -/
def FwdrGroup.status (h : Heap) (p : FwdrGroup) : GroupStatus where
  group := p.name
  enabled := p.avail.length
  total := p.fwdrs.length
  forwarders := p.fwdrs.map fun f =>
    { addr := (h f).addr
      enabled := (h f).enabled
      priority := (h f).priority
      failures := (h f).failures
      latencyMs := (h f).latency.toInt.tdiv 1000000 }

end Glider.Rule
