/-
The session pool of an anytls client (`proxy/anytls/session/client.go`).

Any number of goroutines call `CreateStream`, `Close` of the streams it hands out and
`Client.Close`; sessions die at any time and run their `DieHook`; one goroutine makes the
`idleCleanup` passes. The machine `pool` cuts them at their accesses to `idleLock`, the list
`idleSessions`, the flags `InIdle`, the channels `die` and the context, so what happens inside
a critical section can be interleaved with the accesses made outside of it.

Sessions are pointers: they are numbered in the order of creation. The pool neither reads nor
writes what goes over a session, so `OpenStream` may succeed or fail at any time, and so may
the dial. `CloseRemote` concerns the stream alone.

What a session's `Close` goes on to do in its `DieHook` is left to the action `hook`, and the
caller is not made to wait for it. That admits more runs than there are.
-/

import Glider.Lib.Machine
import Mathlib.Logic.Function.Basic

namespace Glider.Anytls.Pool

open Glider.Lib

/-! ### Goroutines -/

abbrev Sid := Nat

abbrev Tid := Nat

/-- A call of `CreateStream`. -/
inductive CallStage where
  | idle
  /-- The context is not done. -/
  | checked
  /-- In the loop of `getIdleSession`. -/
  | popping
  | popped (x : Sid)
  | cleared (x : Sid)
  | dialing
  | created (x : Sid)
  | opening (x : Sid)
  /-- `OpenStream` has failed. -/
  | failing (x : Sid)
deriving DecidableEq, Repr

/-- A stream that was handed out, and its `CloseFunc`. -/
inductive StreamStage where
  | unused
  | live (x : Sid)
  /-- Inside `closeOnce`. -/
  | closing (x : Sid)
  /-- `IsClosed` was false. -/
  | alive (x : Sid)
  /-- In `returnToIdle`. -/
  | returning (x : Sid)
  | marked (x : Sid)
  | locked (x : Sid)
  | appended
  | finished
deriving DecidableEq, Repr

/-- The `DieHook` of a session. -/
inductive HookStage where
  | idle
  | begun
  | cleared
  | locked
  | removed
  | unlocked
  | finished
deriving DecidableEq, Repr

/-- `idleCleanup`. -/
inductive SweepStage where
  | idle
  | begun (expTime : Int)
  | scanning (expTime : Int) (remaining rest toClose : List Sid)
  /-- `x` does not remain; its `InIdle` is to be cleared. -/
  | clearing (expTime : Int) (remaining rest toClose : List Sid) (x : Sid)
  | leaving (toClose : List Sid)
  | closing (toClose : List Sid)
deriving DecidableEq, Repr

/-- A call of `Client.Close`. -/
inductive ShutStage where
  | idle
  | cancelled
  | closing (toClose : List Sid)
deriving DecidableEq, Repr

/-- Who may have a session. The goroutine of `go sess.Close()` is the `dropper`. -/
inductive Owner where
  | call (t : Tid)
  | stream (i : Nat)
  | sweep
  | dropper
deriving DecidableEq, Repr

/-- Who may hold `idleLock`. -/
inductive Holder where
  | call (t : Tid)
  | stream (i : Nat)
  | hook (x : Sid)
  | sweep
deriving DecidableEq, Repr

structure Client where
  ctxDone : Bool
  now : Int
  sessionCounter : Nat
  idleLock : Option Holder
  idleSessions : List Sid
  /-- The keys of the map. -/
  sessions : List Sid
  /-- `die` is closed. -/
  closed : Sid → Bool
  inIdle : Sid → Bool
  idleSince : Sid → Int
  calls : Tid → CallStage
  streams : Nat → StreamStage
  hooks : Sid → HookStage
  sweeper : SweepStage
  shuts : Tid → ShutStage
  /-- The sessions given to `go sess.Close()`. -/
  dropped : List Sid

inductive PoolAct where
  /-- `CreateStream` is called. -/
  | create (t : Tid)
  | call (t : Tid)
  | dial (t : Tid) (ok : Bool)
  /-- `OpenStream` returns: a stream, or an error. -/
  | opened (t : Tid) (i : Option Nat)
  /-- `Close` of a stream is called. -/
  | close (i : Nat)
  | stream (i : Nat)
  /-- `Session.Close` is called, by `recvLoop`, a failed write or `go sess.Close()`. -/
  | die (x : Sid)
  | hook (x : Sid)
  /-- `idleCleanup` is called. -/
  | cleanup
  | sweep
  /-- `Client.Close` is called. -/
  | shut (t : Tid)
  | shutdown (t : Tid)
  /-- It closes one of its sessions. -/
  | shutClose (t : Tid) (x : Sid)
  | tick (d : Nat)
deriving DecidableEq, Repr

namespace Client

/-- After `NewClient`. -/
def new : Client :=
  { ctxDone := false, now := 0, sessionCounter := 0, idleLock := none, idleSessions := []
    sessions := [], closed := fun _ => false, inIdle := fun _ => false, idleSince := fun _ => 0
    calls := fun _ => .idle, streams := fun _ => .unused, hooks := fun _ => .idle
    sweeper := .idle, shuts := fun _ => .idle, dropped := [] }

variable (s : Client)

def setCall (t : Tid) (c : CallStage) : Client := { s with calls := Function.update s.calls t c }

def setStream (i : Nat) (c : StreamStage) : Client :=
  { s with streams := Function.update s.streams i c }

def setHook (x : Sid) (c : HookStage) : Client := { s with hooks := Function.update s.hooks x c }

def setInIdle (x : Sid) (b : Bool) : Client := { s with inIdle := Function.update s.inIdle x b }

def setShut (t : Tid) (c : ShutStage) : Client := { s with shuts := Function.update s.shuts t c }

/-- `Session.Close`: the first call closes `die` and goes on with the hook. -/
def die (x : Sid) : Client :=
  if s.closed x then s
  else { s with
    closed := Function.update s.closed x true
    hooks := Function.update s.hooks x .begun }

/-! ### CreateStream -/

def create (t : Tid) : Option Client :=
  match s.calls t with
  | .idle => some (if s.ctxDone then s else s.setCall t .checked)
  | _ => none

def callStep (t : Tid) : Option Client :=
  match s.calls t with
  | .checked =>
    if s.idleLock = none then some { s.setCall t .popping with idleLock := some (.call t) }
    else none
  | .popping =>
    match s.idleSessions.getLast? with
    | some x => some { s.setCall t (.popped x) with idleSessions := s.idleSessions.dropLast }
    | none => some { s.setCall t .dialing with idleLock := none }
  | .popped x => some ((s.setInIdle x false).setCall t (.cleared x))
  | .cleared x =>
    if s.closed x then some (s.setCall t .popping)
    else some { s.setCall t (.opening x) with idleLock := none }
  | .created x => some { s.setCall t (.opening x) with sessions := x :: s.sessions }
  | .failing x => some ((s.die x).setCall t .idle)
  | .idle | .dialing | .opening _ => none

/-- `createSession` dials and makes the session. -/
def dial (t : Tid) (ok : Bool) : Option Client :=
  match s.calls t with
  | .dialing =>
    if ok then some { s.setCall t (.created s.sessionCounter) with
      sessionCounter := s.sessionCounter + 1 }
    else some (s.setCall t .idle)
  | _ => none

def opened (t : Tid) (i : Option Nat) : Option Client :=
  match s.calls t with
  | .opening x =>
    match i with
    | some i =>
      if s.streams i = .unused then some ((s.setStream i (.live x)).setCall t .idle) else none
    | none => some (s.setCall t (.failing x))
  | _ => none

/-! ### Close of a stream -/

/-- `closeOnce.Do`: a later call waits for the first and does nothing. -/
def close (i : Nat) : Option Client :=
  match s.streams i with
  | .live x => some (s.setStream i (.closing x))
  | .finished => some s
  | _ => none

def streamStep (i : Nat) : Option Client :=
  match s.streams i with
  | .closing x => some (s.setStream i (if s.closed x then .finished else .alive x))
  | .alive x =>
    if s.ctxDone then some { s.setStream i .finished with dropped := x :: s.dropped }
    else some (s.setStream i (.returning x))
  | .returning x =>
    if s.inIdle x then some (s.setStream i .finished)
    else some ((s.setInIdle x true).setStream i (.marked x))
  | .marked x =>
    if s.idleLock = none then some { s.setStream i (.locked x) with idleLock := some (.stream i) }
    else none
  | .locked x =>
    some { s.setStream i .appended with
      idleSince := Function.update s.idleSince x s.now
      idleSessions := s.idleSessions ++ [x] }
  | .appended => some { s.setStream i .finished with idleLock := none }
  | .unused | .live _ | .finished => none

/-! ### DieHook -/

def hookStep (x : Sid) : Option Client :=
  match s.hooks x with
  | .begun => some ((s.setInIdle x false).setHook x .cleared)
  | .cleared =>
    if s.idleLock = none then some { s.setHook x .locked with idleLock := some (.hook x) }
    else none
  | .locked => some { s.setHook x .removed with idleSessions := s.idleSessions.erase x }
  | .removed => some { s.setHook x .unlocked with idleLock := none }
  | .unlocked => some { s.setHook x .finished with sessions := s.sessions.erase x }
  | .idle | .finished => none

/-! ### idleCleanup -/

def cleanup (idleTimeout : Int) : Option Client :=
  match s.sweeper with
  | .idle => some { s with sweeper := .begun (s.now - idleTimeout) }
  | _ => none

def sweepStep : Option Client :=
  match s.sweeper with
  | .begun e =>
    if s.idleLock = none then some { s with
      idleLock := some .sweep
      sweeper := .scanning e [] s.idleSessions [] }
    else none
  | .scanning e remaining (x :: rest) toClose =>
    if s.closed x then some { s with sweeper := .clearing e remaining rest toClose x }
    else if s.idleSince x < e then
      some { s with sweeper := .clearing e remaining rest (toClose ++ [x]) x }
    else some { s with sweeper := .scanning e (remaining ++ [x]) rest toClose }
  | .clearing e remaining rest toClose x =>
    some { s.setInIdle x false with sweeper := .scanning e remaining rest toClose }
  | .scanning _ remaining [] toClose =>
    some { s with idleSessions := remaining, sweeper := .leaving toClose }
  | .leaving toClose => some { s with idleLock := none, sweeper := .closing toClose }
  | .closing (x :: rest) => some { s.die x with sweeper := .closing rest }
  | .closing [] => some { s with sweeper := .idle }
  | .idle => none

/-! ### Client.Close -/

def shut (t : Tid) : Option Client :=
  match s.shuts t with
  | .idle => some { s.setShut t .cancelled with ctxDone := true }
  | _ => none

def shutStep (t : Tid) : Option Client :=
  match s.shuts t with
  | .cancelled => some { s.setShut t (.closing s.sessions) with sessions := [] }
  | .closing [] => some (s.setShut t .idle)
  | _ => none

/-- The map is visited in any order. -/
def shutClose (t : Tid) (x : Sid) : Option Client :=
  match s.shuts t with
  | .closing toClose =>
    if x ∈ toClose then some ((s.die x).setShut t (.closing (toClose.erase x))) else none
  | _ => none

end Client

/-- `NewClient` replaces a short timeout. -/
def newIdleTimeout (idleTimeout : Int) : Int :=
  if idleTimeout < 5000000000 then 30000000000 else idleTimeout

def pool (idleTimeout : Int) : Machine Client PoolAct where
  step s
    | .create t => s.create t
    | .call t => s.callStep t
    | .dial t ok => s.dial t ok
    | .opened t i => s.opened t i
    | .close i => s.close i
    | .stream i => s.streamStep i
    | .die x => if x < s.sessionCounter then some (s.die x) else none
    | .hook x => s.hookStep x
    | .cleanup => s.cleanup (newIdleTimeout idleTimeout)
    | .sweep => s.sweepStep
    | .shut t => s.shut t
    | .shutdown t => s.shutStep t
    | .shutClose t x => s.shutClose t x
    | .tick d => some { s with now := s.now + d }

end Glider.Anytls.Pool
