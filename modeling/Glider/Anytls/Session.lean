/-
An anytls client session (`proxy/anytls/session/session.go`): `OpenStream`, `recvLoop`,
`Session.Close` and `streamClosed`, interleaved.

The machine `session` cuts every call at its accesses to shared state: taking an id,
writing the `SYN`, switching buffering off, registering the stream, reading the peer's
version, the three branches of the final `select`; and, in `recvLoop`, the lookup of a
frame's stream and what is then done with it. Streams are pointers (`StreamRef`); an id
leads to a stream through `streams`. Frames stand for their bytes (`Glider.Anytls.Frame`).

A timer may fire at any time and a write may fail at any time; `ok` is what `conn.Write`
answers if the call reaches it.

What the steps do is said in `Glider.Anytls.SessionStep`.
-/

import Glider.Anytls.Frame
import Glider.Anytls.Stream
import Glider.Go.SyncMap
import Glider.Go.Text
import Glider.Lib.Machine
import Mathlib.Algebra.Group.Int.Defs

namespace Glider.Anytls

open Glider.Go Glider.Lib

/-! ### The session -/

abbrev StreamRef := Nat

/-- Where a call of `OpenStream` is; `returned none` is the return of the stream. -/
inductive OpenStage where
  | absent
  | allocated
  | written
  | flushed
  | registered
  | waiting
  | returned (err : Option IoErr)
deriving DecidableEq, Repr

/-- `Session`. `sent` are the frames given to `conn.Write`, `received` the frame `recvLoop`
has read and the stream it found for it, and `stopped` that `recvLoop` has returned. -/
structure Session where
  heap : StreamRef → Stream
  calls : StreamRef → OpenStage
  next : StreamRef
  streams : UInt32 → Option StreamRef
  streamID : UInt32
  peerVersion : UInt32
  die : Bool
  buffering : Bool
  buffer : List Frame
  sent : List Frame
  received : Option (Frame × StreamRef)
  stopped : Bool

/-- `parseStringMap`. -/
def parseStringMap (s : GoString) : SyncMap GoString GoString :=
  (split s 10).foldl (fun m line =>
    match cut line 61 with
    | (k, v, true) => m.store (trimSpace k) (trimSpace v)
    | (_, _, false) => m) ∅

/-- The version a `cmdServerSettings` body announces. -/
def settingsVersion (data : List UInt8) : Option UInt32 :=
  (atoi (((parseStringMap data).load (ascii "v")).getD [])).map fun v =>
    UInt32.ofNat (v % 2 ^ 32).toNat

/-- The settings frame `Run` sends. -/
def settingsFrame : Frame := ⟨cmdSettings, 0, ascii "v=2\nclient=anytls/0.0.11\n"⟩

def synackTimeoutError : IoErr := .text (ascii "[anytls] stream open timeout: no SYNACK received")

namespace Session

/-- A session after `NewClientSession` and `Run`. -/
def init : Session :=
  { heap := fun _ => default, calls := fun _ => .absent, next := 0, streams := fun _ => none
    streamID := 0, peerVersion := 0, die := false, buffering := true, buffer := [settingsFrame]
    sent := [], received := none, stopped := false }

variable (s : Session)

def setStream (r : StreamRef) (x : Stream) : Session :=
  { s with heap := Function.update s.heap r x }

def setCall (r : StreamRef) (c : OpenStage) : Session :=
  { s with calls := Function.update s.calls r c }

/-- `delete(s.streams, sid)`. -/
def unregister (sid : UInt32) : Session :=
  { s with streams := Function.update s.streams sid none }

/-- A write that succeeds. -/
def write (f : Frame) : Session :=
  if s.buffering then { s with buffer := s.buffer ++ [f] }
  else { s with buffer := [], sent := s.sent ++ s.buffer ++ [f] }

/-- `writeControlFrame`: a failed write closes the session. -/
def writeControl (f : Frame) (ok : Bool) : Session :=
  if s.buffering || ok then s.write f else { s with die := true, buffer := [] }

/-! ### OpenStream -/

/-- `IsClosed`, `streamID.Add(1)` and `newStream`. -/
def openAlloc : Option Session :=
  if s.die then none
  else
    some { s with
      heap := Function.update s.heap s.next (newStream (s.streamID + 1))
      calls := Function.update s.calls s.next .allocated
      next := s.next + 1
      streamID := s.streamID + 1 }

/-- The `SYN`; `err` is the error of `conn.Write`, if it is reached and fails. -/
def openWrite (r : StreamRef) (err : Option IoErr) : Option Session :=
  if s.calls r = .allocated then
    let s' := s.writeControl (newFrame cmdSYN (s.heap r).id) (s.buffering || err.isNone)
    if s.buffering || err.isNone then some (s'.setCall r .written)
    else some ((s'.setStream r (s.heap r).closePipe).setCall r (.returned err))
  else none

/-- `flushBuffering`. -/
def openFlush (r : StreamRef) : Option Session :=
  if s.calls r = .written then some ({ s with buffering := false }.setCall r .flushed) else none

def openRegister (r : StreamRef) : Option Session :=
  if s.calls r = .flushed then
    if s.die then
      some ((s.setStream r (s.heap r).closePipe).setCall r (.returned (some .closedPipe)))
    else
      some ({ s with streams := Function.update s.streams (s.heap r).id (some r) }.setCall r
        .registered)
  else none

/-- Whether to wait for the `SYNACK`. -/
def openCheck (r : StreamRef) : Option Session :=
  if s.calls r = .registered then
    if 2 ≤ (s.heap r).id ∧ 2 ≤ s.peerVersion then some (s.setCall r .waiting)
    else some (s.setCall r (.returned none))
  else none

/-- Give a stream up: the two error branches of the `select`. -/
def abandon (r : StreamRef) (x : Stream) (err : IoErr) : Session :=
  ((s.unregister x.id).setStream r x.forceClose).setCall r (.returned (some err))

/-- The branch `err := <-stream.synDone`. -/
def openAnswered (r : StreamRef) : Option Session :=
  if s.calls r = .waiting then
    match (s.heap r).synDone.recv with
    | .done (some none, ch) =>
      some ((s.setStream r { s.heap r with synDone := ch }).setCall r (.returned none))
    | .done (some (some err), ch) => some (s.abandon r { s.heap r with synDone := ch } err)
    | _ => none
  else none

/-- The branch `<-time.After(synackTimeout)`. -/
def openTimeout (r : StreamRef) : Option Session :=
  if s.calls r = .waiting then some (s.abandon r (s.heap r) synackTimeoutError) else none

/-- The branch `<-s.die`. -/
def openDied (r : StreamRef) : Option Session :=
  if s.calls r = .waiting ∧ s.die then some (s.setCall r (.returned (some .closedPipe))) else none

/-! ### recvLoop -/

/-- The first half of an iteration, for the frame that was read: everything up to and
including the lookup of the stream. -/
def hear (f : Frame) (ok : Bool) : Option Session :=
  if s.stopped ∨ s.received ≠ none then none
  else
    let found := (s.streams f.sid).map fun r => (f, r)
    if f.cmd = cmdPSH then
      some (if f.data = [] then s else { s with received := found })
    else if f.cmd = cmdFIN then some { s.unregister f.sid with received := found }
    else if f.cmd = cmdSYNACK then some { s with received := found }
    else if f.cmd = cmdAlert then
      some (if f.data = [] then s else { s with stopped := true, die := true })
    else if f.cmd = cmdServerSettings then
      some (match settingsVersion f.data with
        | some v => if f.data = [] then s else { s with peerVersion := v }
        | none => s)
    else if f.cmd = cmdHeartRequest then
      some (s.writeControl (newFrame cmdHeartResponse f.sid) ok)
    else some s

/-- The second half: what is done with the stream that was found. -/
def deliver (ok : Bool) : Option Session :=
  match s.received with
  | none => none
  | some (f, r) =>
    let s := { s with received := none }
    if f.cmd = cmdPSH then
      match (s.heap r).enqueue f.data with
      | (x, true) => some (s.setStream r x)
      | (x, false) =>
        some (((s.unregister f.sid).setStream r x.overflowClose).writeControl
          (newFrame cmdFIN f.sid) ok)
    else if f.cmd = cmdFIN then some (s.setStream r (s.heap r).closeLocally)
    else some (s.setStream r ((s.heap r).answer f.data))

/-- `recvLoop` returns, on a read error or because the session is closed, and closes it. -/
def quit : Option Session :=
  if s.stopped ∨ s.received ≠ none then none else some { s with stopped := true, die := true }

/-! ### Closing, and the stream's own goroutines -/

/-- The second half of `Session.Close`: every registered stream is closed. A stream is
registered under its own id. -/
def sweep : Option Session :=
  if s.die then
    some { s with
      heap := fun r =>
        if s.streams (s.heap r).id = some r then (s.heap r).forceClose else s.heap r
      streams := fun _ => none }
  else none

/-- `CloseRemote`, with `streamClosed` for the first call. -/
def closeStream (r : StreamRef) (ok : Bool) : Option Session :=
  if r < s.next then
    let closed := s.setStream r (s.heap r).closeRemote
    if (s.heap r).dieOnce ∨ s.die then some closed
    else some ((closed.writeControl (newFrame cmdFIN (s.heap r).id) ok).unregister (s.heap r).id)
  else none

/-- `writeLoop` takes a payload from the queue. -/
def takeData (r : StreamRef) : Option Session := (s.heap r).take.map (s.setStream r)

/-- The read deadline of a stream passes. -/
def deadline (r : StreamRef) : Option Session :=
  some (s.setStream r
    { s.heap r with pipe := (s.heap r).pipe.closeWrite (some .deadlineExceeded) })

end Session

inductive SessionAct where
  | openAlloc
  | openWrite (r : StreamRef) (err : Option IoErr)
  | openFlush (r : StreamRef)
  | openRegister (r : StreamRef)
  | openCheck (r : StreamRef)
  | openAnswered (r : StreamRef)
  | openTimeout (r : StreamRef)
  | openDied (r : StreamRef)
  | hear (f : Frame) (ok : Bool)
  | deliver (ok : Bool)
  | quit
  | die
  | sweep
  | closeStream (r : StreamRef) (ok : Bool)
  | takeData (r : StreamRef)
  | deadline (r : StreamRef)
deriving DecidableEq, Repr

/-- A session with any server: `hear` may bring any frame. -/
def session : Machine Session SessionAct where
  step s
    | .openAlloc => s.openAlloc
    | .openWrite r err => s.openWrite r err
    | .openFlush r => s.openFlush r
    | .openRegister r => s.openRegister r
    | .openCheck r => s.openCheck r
    | .openAnswered r => s.openAnswered r
    | .openTimeout r => s.openTimeout r
    | .openDied r => s.openDied r
    | .hear f ok => s.hear f ok
    | .deliver ok => s.deliver ok
    | .quit => s.quit
    | .die => some { s with die := true }
    | .sweep => s.sweep
    | .closeStream r ok => s.closeStream r ok
    | .takeData r => s.takeData r
    | .deadline r => s.deadline r

end Glider.Anytls
