/-
The receiving half of a multiplexed session (`pkg/smux/session.go`, `stream.go`): the goroutines
that take frames from the connection, the ones that read, open, accept and close streams, and the
keep-alive.

Each goroutine is a state machine whose steps are the atomic operations of the code: an operation on
an atomic variable or a channel, or a critical section that shares no lock with another step. The
critical sections of `streamLock` that contain further operations others can see are several steps,
with the lock held in between. A `chan struct{}` of capacity one is a flag, a channel that is only
ever closed is a flag, too.

What the code does with frames of its own is a request to the sending half (`Shaper`), which answers
with an error or none. Buffers are lists of bytes: their slices and the pool they come from are left
out. A stream remembers what was pushed into it and what was read from it.
-/

import Glider.Go.Io
import Glider.Lib.Goroutines
import Glider.Smux.Frame

namespace Glider.Smux

open Glider.Go Glider.Lib

def defaultAcceptBacklog : Nat := 1024

def initialPeerWindow : UInt32 := 262144

/-- `ErrTimeout`. -/
def errTimeout : IoErr := .text (ascii "timeout")

/-- `ErrGoAway`. -/
def errGoAway : IoErr := .text (ascii "stream id overflows, should start a new connection")

/-- `ErrInvalidProtocol`. -/
def errInvalidProtocol : IoErr := .text (ascii "invalid protocol")

/-- `AddInt32`: the sum wraps around. -/
def wrap32 (n : Int) : Int := Int.bmod n 4294967296

/-! ### Streams -/

/-- `stream`. `pushed` and `read` are its history, `recycled` is set when its buffers are dropped,
`since` is the number of packets handled when it was registered, and `opened` says that it was
made by `OpenStream`. -/
structure Stream where
  id : UInt32
  buffers : List (List UInt8) := []
  /-- `chReadEvent` holds a value. -/
  readEvent : Bool := false
  die : Bool := false
  /-- `chFinEvent` is closed. -/
  finEvent : Bool := false
  numRead : UInt32 := 0
  incr : UInt32 := 0
  peerConsumed : UInt32 := 0
  peerWindow : UInt32 := initialPeerWindow
  /-- `chUpdate` holds a value. -/
  updateEvent : Bool := false
  pushed : List UInt8 := []
  read : List UInt8 := []
  recycled : Bool := false
  since : Nat := 0
  opened : Bool := false
deriving DecidableEq, Repr

namespace Stream

variable (s : Stream)

def buffered : List UInt8 := s.buffers.flatten

/-- `pushBytes`. -/
def pushBytes (buf : List UInt8) : Stream :=
  { s with buffers := s.buffers ++ [buf], pushed := s.pushed ++ buf }

/-- `notifyReadEvent`. -/
def notifyReadEvent : Stream := { s with readEvent := true }

/-- `fin`. -/
def fin : Stream := { s with finEvent := true }

/-- `update`. -/
def update (consumed window : UInt32) : Stream :=
  { s with peerConsumed := consumed, peerWindow := window, updateEvent := true }

/-- `recycleTokens`, without the number it returns. -/
def recycle : Stream := { s with buffers := [], recycled := true }

/-- The data of one read: the first buffer, up to `cap` bytes, and what is left. -/
def takeFront (cap : Nat) : List UInt8 × List (List UInt8) :=
  match s.buffers with
  | [] => ([], [])
  | b :: bs => (b.take cap, if (b.drop cap).isEmpty then bs else b.drop cap :: bs)

/-- The counting of version 2, and the number to send in a window update, zero for none. -/
def count (half : UInt32) (n : Nat) : Stream × UInt32 :=
  let numRead := s.numRead + UInt32.ofNat n
  let incr := s.incr + UInt32.ofNat n
  if incr ≥ half ∨ numRead = UInt32.ofNat n then
    ({ s with numRead := numRead, incr := 0 }, numRead)
  else ({ s with numRead := numRead, incr := incr }, 0)

/-- The critical section of `tryRead` and, with a `cap` that takes all of the buffer, of
`WriteTo`. -/
def consume (cfg : Verified) (cap : Nat) : Stream × List UInt8 × UInt32 :=
  let data := (s.takeFront cap).1
  let s := { s with buffers := (s.takeFront cap).2, read := s.read ++ data }
  if cfg.config.version = 2 then
    let r := s.count (UInt32.ofNat (cfg.maxStreamBuffer / 2)) data.length
    (r.1, data, r.2)
  else (s, data, 0)

end Stream

/-! ### Sessions -/

/-- `Session`. `heap` holds every stream ever made, and a pointer is a place in it. `handed` lists
the streams `OpenStream` and `AcceptStream` have returned, `requests` what was written, and
`handled` the packets `recvLoop` is done with. -/
structure Session where
  heap : List Stream := []
  streams : UInt32 → Option Nat := fun _ => none
  /-- The goroutine that holds `streamLock`. -/
  streamLock : Option Nat := none
  bucket : Int
  bucketNotify : Bool := false
  die : Bool := false
  socketReadError : Option IoErr := none
  socketWriteError : Option IoErr := none
  protoError : Bool := false
  chAccepts : List Nat := []
  dataReady : Bool := false
  nextStreamID : UInt32
  goAway : Bool := false
  conn : Source
  handed : List Nat := []
  requests : List Op := []
  handled : List (RawHeader × List UInt8) := []

namespace Session

variable (m : Session)

/-- Change the stream at a place. -/
def modify (k : Nat) (f : Stream → Stream) : Session := { m with heap := m.heap.modify k f }

/-- `s.streams[sid] = stream`, or `delete(s.streams, sid)`. -/
def setStream (sid : UInt32) (k : Option Nat) : UInt32 → Option Nat :=
  fun id => if id = sid then k else m.streams id

/-- All bytes that wait in streams. -/
def buffered : Nat := (m.heap.map fun s => s.buffered.length).sum

/-- `atomic.AddInt32(&s.bucket, n)`. -/
def addTokens (n : Int) : Session := { m with bucket := wrap32 (m.bucket + n) }

/-- `notifyBucket`. -/
def notifyBucket : Session := { m with bucketNotify := true }

/-- `notifyReadError`. -/
def notifyReadError (e : IoErr) : Session :=
  { m with socketReadError := m.socketReadError.or (some e) }

/-- `notifyWriteError`. -/
def notifyWriteError (e : IoErr) : Session :=
  { m with socketWriteError := m.socketWriteError.or (some e) }

/-- `notifyProtoError`. -/
def notifyProtoError : Session := { m with protoError := true }

end Session

/-! ### Goroutines -/

/-- Where `recvLoop` is. -/
inductive RecvPc where
  /-- At the condition of the inner loop. -/
  | check
  /-- At the `select` in it. -/
  | wait
  /-- At the `ReadFull` of a header, and of what follows it. -/
  | header
  | body (h : RawHeader)
  /-- At `streamLock.Lock()`. -/
  | locking (h : RawHeader) (body : List UInt8)
  /-- In the critical section of `cmdSYN`, at the `select`. -/
  | accepting (k : Nat)
  /-- In that of `cmdFIN`, at `notifyReadEvent`. -/
  | finned (k : Nat)
  /-- In that of `cmdPSH`, at `AddInt32` and at `notifyReadEvent`. -/
  | pushed (k written : Nat)
  | deducted (k : Nat)
  | returned
deriving DecidableEq, Repr

/-- The data of a read that has got some. -/
abbrev ReadData := { data : List UInt8 // data ≠ [] }

/-- Where a `Read` is. -/
inductive ReadPc where
  /-- At `tryRead`. -/
  | tryRead
  /-- At `AddInt32` and at `notifyBucket` of `returnTokens`. -/
  | owing (data : ReadData) (notifyConsumed : UInt32)
  | signalling (data : ReadData) (notifyConsumed : UInt32)
  /-- At `sendWindowUpdate`. -/
  | updating (data : ReadData) (notifyConsumed : UInt32)
  /-- At the `select` on `s.die`, with nothing read. -/
  | empty
  /-- At the `select` of `waitRead`. -/
  | waiting
  | returned (data : List UInt8) (err : Option IoErr)
deriving DecidableEq, Repr

/-- Where a `WriteTo` is. -/
inductive WriteToPc where
  | take
  /-- At `w.Write`. -/
  | writing (buf : List UInt8) (notifyConsumed : UInt32)
  | owing (buf : List UInt8) (notifyConsumed : UInt32) (ew : Option IoErr)
  | signalling (notifyConsumed : UInt32) (ew : Option IoErr)
  | updating (notifyConsumed : UInt32)
  | waiting
  | returned (err : IoErr)
deriving DecidableEq, Repr

/-- Where a `Close` of a stream is. -/
inductive ClosePc where
  | start
  /-- At `writeFrameInternal` of the `cmdFIN`. -/
  | fin
  /-- At `streamClosed`. -/
  | lock (err : Option IoErr)
  /-- In its critical section: at `AddInt32`, at `notifyBucket`, at `delete`. -/
  | recycled (n : Nat) (err : Option IoErr)
  | signalling (err : Option IoErr)
  | deleting (err : Option IoErr)
  | returned (err : Option IoErr)
deriving DecidableEq, Repr

/-- Where an `OpenStream` is. -/
inductive OpenPc where
  | start
  /-- At the critical section of `nextStreamIDLock`. -/
  | number
  /-- At `writeControlFrame` of the `cmdSYN`, and at `streamLock.Lock()`. -/
  | syn (sid : UInt32)
  | register (sid : UInt32)
  | returned (r : Except IoErr Nat)
deriving DecidableEq

/-- Where an `AcceptStream` is. -/
inductive AcceptPc where
  | waiting
  | returned (r : Except IoErr Nat)
deriving DecidableEq

/-- Where a `Close` of the session is. -/
inductive SessionClosePc where
  | start
  | lock
  /-- In the loop over the streams. -/
  | closing (rest : List Nat)
  | returned (err : Option IoErr)
deriving DecidableEq, Repr

/-- Where the keep-alive is. -/
inductive KeepalivePc where
  | select
  /-- At `writeFrameInternal` and at `notifyBucket`. -/
  | ping
  | notify
  /-- At `LoadInt32`: no data has arrived since the last timeout. -/
  | expired
  | returned
deriving DecidableEq, Repr

inductive Proc where
  | recvLoop (pc : RecvPc)
  | read (k cap : Nat) (pc : ReadPc)
  | writeTo (k n : Nat) (pc : WriteToPc)
  | close (k : Nat) (pc : ClosePc)
  | openStream (pc : OpenPc)
  | acceptStream (pc : AcceptPc)
  | sessionClose (pc : SessionClosePc)
  | keepalive (pc : KeepalivePc)
  /-- `sendLoop`, which this half sees only when it has failed. -/
  | sendLoop (failed : Bool)
deriving DecidableEq

/-- The ready case a `select` takes, or what a call to the outside answers. -/
inductive Choice where
  /-- There is one way on. -/
  | go
  | die
  | readError
  | writeError
  | protoError
  | deadline
  | bucketNotify
  | readEvent
  | finEvent
  | accepts
  | tickerPing
  | tickerTimeout
  /-- The next entry of a range over a map. -/
  | entry (k : Nat)
  /-- The connection fails before a read is complete. -/
  | fails (e : IoErr)
  /-- What `writeFrameInternal` or `conn.Close` returns. -/
  | answers (err : Option IoErr)
  /-- What `w.Write` returns. -/
  | wrote (n : Nat) (err : Option IoErr)
deriving DecidableEq, Repr

/-! ### Pointers -/

namespace Session

/-- The streams of a session are in its heap, under their own ids. -/
def Valid (m : Session) : Prop :=
  ∀ sid k, m.streams sid = some k → ∃ s : Stream, m.heap[k]? = some s ∧ s.id = sid

/-- Streams stay where they are, with their ids. -/
def Extends (m m' : Session) : Prop :=
  ∀ (k : Nat) (s : Stream), m.heap[k]? = some s →
    ∃ s' : Stream, m'.heap[k]? = some s' ∧ s'.id = s.id

variable {m m' m'' : Session}

theorem Extends.of_heap (h : m'.heap = m.heap) : m.Extends m' := fun _ s hs => ⟨s, h ▸ hs, rfl⟩

theorem getElem?_modify (m : Session) (k j : Nat) (f : Stream → Stream) :
    (m.modify k f).heap[j]? = if k = j then m.heap[j]?.map f else m.heap[j]? := by
  rw [modify, List.getElem?_modify]
  split <;> simp_all

theorem Extends.modify {k : Nat} {f : Stream → Stream}
    (hid : ∀ s, m.heap[k]? = some s → (f s).id = s.id) : m.Extends (m.modify k f) := by
  intro j s hs
  rw [getElem?_modify]
  split
  · rename_i hkj
    subst hkj
    exact ⟨f s, by rw [hs]; rfl, hid s hs⟩
  · exact ⟨s, hs, rfl⟩

theorem Extends.concat (s : Stream) (h : m'.heap = m.heap ++ [s]) : m.Extends m' := by
  intro k t ht
  have hlt := (List.getElem?_eq_some_iff.mp ht).1
  exact ⟨t, by rw [h, List.getElem?_append_left hlt, ht], rfl⟩

theorem Valid.of_extends (valid : m.Valid) (hext : m.Extends m')
    (h : ∀ sid k, m'.streams sid = some k → m.streams sid = some k ∨
      ∃ s : Stream, m'.heap[k]? = some s ∧ s.id = sid) : m'.Valid := by
  intro sid k hk
  rcases h sid k hk with hold | hnew
  · obtain ⟨s, hs, hid⟩ := valid sid k hold
    obtain ⟨s', hs', hid'⟩ := hext k s hs
    exact ⟨s', hs', hid'.trans hid⟩
  · exact hnew

theorem setStream_eq_some {sid id : UInt32} {k : Option Nat} {j : Nat}
    (h : m.setStream sid k id = some j) :
    (id = sid ∧ k = some j) ∨ (id ≠ sid ∧ m.streams id = some j) := by
  unfold setStream at h
  split at h
  · exact .inl ⟨‹_›, h⟩
  · exact .inr ⟨‹_›, h⟩

end Session

end Glider.Smux
