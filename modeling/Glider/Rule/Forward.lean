/-
Forwarders (`rule/forward.go`): the record, its enabled flag and its failure
counter. A `*Forwarder` is compared by pointer throughout the code, so the model
keeps the records in a heap and passes `FwdrId`s around.

Every access the code makes through `sync/atomic` is one operation here. `Enable`
and `Disable` are therefore split at their compare-and-swap (`enableCas`,
`disableCas`); what follows a successful swap — the status handlers, and for
`Enable` the store that clears the failure counter — belongs to the machine that
interleaves the calls (`Glider.Rule.Rotation`).
-/

import Glider.Go.Strings

namespace Glider.Rule

open Glider.Go

/-- `Forwarder`, without the embedded dialer (what an attempt to dial does is an
input of the model) and the handler list (every forwarder of a group has exactly
one handler, the group's `onStatusChanged`). -/
structure Forwarder where
  url : GoString := []
  addr : GoString := []
  priority : UInt32 := 0
  maxFailures : UInt32 := 0
  disabled : UInt32 := 0
  failures : UInt32 := 0
  latency : Int64 := 0
  intface : GoString := []
deriving DecidableEq, Repr, Inhabited

/-- A `*Forwarder`. -/
abbrev FwdrId := Nat

/-- The forwarder records by pointer. -/
abbrev Heap := FwdrId → Forwarder

def isTrue (n : UInt32) : Bool := n &&& 1 == 1

namespace Forwarder

def enabled (f : Forwarder) : Bool := !isTrue f.disabled

/-- `CompareAndSwapUint32(&f.disabled, old, new)`: `none` when the swap fails. -/
def casDisabled (f : Forwarder) (old new : UInt32) : Option Forwarder :=
  if f.disabled = old then some { f with disabled := new } else none

def enableCas (f : Forwarder) : Option Forwarder := f.casDisabled 1 0

def disableCas (f : Forwarder) : Option Forwarder := f.casDisabled 0 1

/-- The `AddUint32` of `IncFailures`. -/
def addFailure (f : Forwarder) : Forwarder := { f with failures := f.failures + 1 }

/-- Whether `IncFailures` goes on to call `Disable` after its increment. -/
def reachesMaxFailures (f : Forwarder) : Bool :=
  f.maxFailures != 0 && f.failures == f.maxFailures && f.enabled

/-- A swap changes the flag and nothing else. -/
theorem casDisabled_eq_some {f f' : Forwarder} {old new : UInt32}
    (h : f.casDisabled old new = some f') :
    f.disabled = old ∧ f' = { f with disabled := new } := by
  unfold casDisabled at h
  split at h
  · exact ⟨‹_›, (Option.some.inj h).symm⟩
  · cases h

end Forwarder

namespace Heap

/-- Write one record. -/
def set (h : Heap) (f : FwdrId) (v : Forwarder) : Heap := Function.update h f v

@[simp] theorem set_self (h : Heap) (f : FwdrId) (v : Forwarder) : h.set f v f = v :=
  Function.update_self ..

@[simp] theorem set_of_ne (h : Heap) {f g : FwdrId} (v : Forwarder) (hne : g ≠ f) :
    h.set f v g = h g :=
  Function.update_of_ne hne ..

/-- The heap that holds the records of a list at the positions of the list:
each record is allocated at a pointer of its own. -/
def ofList (fs : List Forwarder) : Heap := fun f => fs.getD f default

/-- The pointers `ofList` allocates. -/
def ids (fs : List Forwarder) : List FwdrId := List.range fs.length

def enabled (h : Heap) (f : FwdrId) : Bool := (h f).enabled

def priority (h : Heap) (f : FwdrId) : UInt32 := (h f).priority

theorem nodup_ids (fs : List Forwarder) : (ids fs).Nodup := List.nodup_range

end Heap

end Glider.Rule
