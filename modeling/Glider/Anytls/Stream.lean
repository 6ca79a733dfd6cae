/-
An anytls stream (`proxy/anytls/session/stream.go`), call by call.

Each operation is one function on the record, as its caller sees it when nothing interrupts
it. How the operations interleave inside, with the mutex, the `sync.Once` and the writing
goroutine, is the subject of `Glider.Anytls.StreamRace`. `dataCh` is closed under `dieOnce`,
so the close that panics on a closed channel does not occur here.

`acked` and `enqueued` record the bodies given to `synDone` and the payloads put on
`dataCh`.
-/

import Glider.Go.Chan
import Glider.Go.Io

namespace Glider.Anytls

open Glider.Go

def dataQueueCap : Nat := 64

def dataQueueMaxBytes : Int := 4 <<< 20

/-- The error of a `SYNACK` with a body. -/
def remoteError (body : List UInt8) : IoErr := .text (ascii "remote: " ++ body)

/-- The result a `SYNACK` stands for. -/
def synackResult (body : List UInt8) : Option IoErr :=
  if body = [] then none else some (remoteError body)

structure Stream where
  id : UInt32
  pipe : Pipe
  dataCh : Chan (List UInt8) dataQueueCap
  done : Bool
  /-- The result of the handshake, `none` for `nil`. -/
  synDone : Chan (Option IoErr) 1
  closed : Bool
  queuedBytes : Int
  dieOnce : Bool
  acked : List (List UInt8)
  enqueued : List (List UInt8)
deriving DecidableEq, Repr, Inhabited

/-- `newStream`. -/
def newStream (id : UInt32) : Stream :=
  { id := id, pipe := .new, dataCh := .make, done := false, synDone := .make, closed := false
    queuedBytes := 0, dieOnce := false, acked := [], enqueued := [] }

namespace Stream

variable (x : Stream)

/-- `enqueue`, and its result. -/
def enqueue (data : List UInt8) : Stream × Bool :=
  if dataQueueMaxBytes < x.queuedBytes + data.length then (x, false)
  else if x.closed then (x, false)
  else
    match x.dataCh.send data with
    | .done ch =>
      ({ x with
          dataCh := ch
          queuedBytes := x.queuedBytes + data.length
          enqueued := x.enqueued ++ [data] }, true)
    | _ => (x, false)

def closeDataCh : Stream := { x with closed := true, dataCh := { x.dataCh with closed := true } }

/-- The body of `dieOnce` in the graceful closes. -/
def closeGracefully : Stream := if x.dieOnce then x else { x.closeDataCh with dieOnce := true }

/-- The body of `dieOnce` in the closes that discard the queue. -/
def closeNow : Stream :=
  if x.dieOnce then x else { x.closeDataCh with dieOnce := true, done := true }

def closeLocally : Stream := x.closeGracefully

/-- `CloseRemote` up to the notification of the peer. -/
def closeRemote : Stream := { x.closeGracefully with pipe := x.pipe.closeWrite none }

def overflowClose : Stream := { x.closeNow with pipe := x.pipe.closeWrite none }

def forceClose : Stream := { x.closeNow with pipe := x.pipe.closeRead }

def closePipe : Stream := x.closeNow

/-- The handler of a `SYNACK`: an error nobody can take closes the stream with it. -/
def answer (body : List UInt8) : Stream :=
  match x.synDone.send (synackResult body) with
  | .done ch => { x with synDone := ch, acked := x.acked ++ [body] }
  | _ =>
    match synackResult body with
    | some err => { x with closed := true, pipe := x.pipe.closeWrite (some err) }
    | none => x

/-- `writeLoop` takes the oldest payload. -/
def take : Option Stream :=
  match x.dataCh.recv with
  | .done (some data, ch) =>
    some { x with dataCh := ch, queuedBytes := x.queuedBytes - data.length }
  | _ => none

/-- What `Read` returns without any data: the error of the closed pipe. -/
def readError : Option IoErr := if x.pipe.done then some x.pipe.readCloseError else none

/-- What `Write` returns before it writes a frame. -/
def writeError : Option IoErr := if x.closed then some .closedPipe else none

end Stream

/-! ### Queueing and answering -/

variable {x : Stream} {data : List UInt8}

/-- A refused payload changes nothing. -/
theorem enqueue_refused (h : (x.enqueue data).2 = false) : (x.enqueue data).1 = x := by
  unfold Stream.enqueue at h ⊢
  split <;> try rfl
  split <;> try rfl
  split <;> try rfl
  simp_all

/-- An accepted payload is queued and recorded. -/
theorem enqueue_accepted (h : (x.enqueue data).2 = true) :
    ∃ ch, x.dataCh.send data = .done ch ∧ (x.enqueue data).1 =
      { x with
          dataCh := ch
          queuedBytes := x.queuedBytes + data.length
          enqueued := x.enqueued ++ [data] } := by
  unfold Stream.enqueue at h ⊢
  split at h <;> try cases h
  split at h <;> try cases h
  split at h <;> try cases h
  rename_i hfits hopen _ ch hsend
  exact ⟨ch, hsend, by rw [if_neg hfits, if_neg hopen]⟩

theorem answer_eq (x : Stream) (body : List UInt8) :
    x.answer body =
      match x.synDone.send (synackResult body), synackResult body with
      | .done ch, _ => { x with synDone := ch, acked := x.acked ++ [body] }
      | _, some err => { x with closed := true, pipe := x.pipe.closeWrite (some err) }
      | _, none => x := by
  unfold Stream.answer
  show (match x.synDone.send (synackResult body) with
    | .done ch => _
    | _ => match synackResult body with
      | some err => _
      | none => _) = _
  cases x.synDone.send (synackResult body) <;> cases synackResult body <;> rfl

/-- With room in `synDone` the result is put there. -/
theorem answer_of_room {body : List UInt8} {ch : Chan (Option IoErr) 1}
    (h : x.synDone.send (synackResult body) = .done ch) :
    x.answer body = { x with synDone := ch, acked := x.acked ++ [body] } := by
  rw [answer_eq, h]

/-- Without, an error closes the stream. -/
theorem answer_of_no_room {body : List UInt8}
    (h : ∀ ch, x.synDone.send (synackResult body) ≠ .done ch) (hbody : body ≠ []) :
    x.answer body =
      { x with closed := true, pipe := x.pipe.closeWrite (some (remoteError body)) } := by
  have herr : synackResult body = some (remoteError body) := if_neg hbody
  rw [answer_eq]
  rw [herr] at h ⊢
  cases hsend : x.synDone.send (some (remoteError body)) with
  | done ch => exact absurd hsend (h ch)
  | blocks => rfl
  | panics => rfl

theorem answer_nil_of_no_room (h : ∀ ch, x.synDone.send none ≠ .done ch) : x.answer [] = x := by
  rw [answer_eq]
  cases hsend : x.synDone.send (synackResult []) with
  | done ch => exact absurd hsend (h ch)
  | blocks => rfl
  | panics => rfl

/-! ### Closing -/

/-- Everything the closes and `writeLoop` do: no frame comes in and no answer is taken. -/
structure Quiet (x x' : Stream) : Prop where
  id : x'.id = x.id
  acked : x'.acked = x.acked
  enqueued : x'.enqueued = x.enqueued
  synDone : x'.synDone = x.synDone
  closed : x.closed = true → x'.closed = true
  dataCh : x'.dataCh.closed = true → x.dataCh.closed = true ∨ x'.closed = true
  /-- The pipe is not closed with an error text. -/
  text : ∀ t, x'.pipe.werr = some (.text t) → x.pipe.werr = some (.text t)

namespace Quiet

variable {x x' : Stream}

theorem refl (x : Stream) : Quiet x x := ⟨rfl, rfl, rfl, rfl, fun h => h, .inl, fun _ h => h⟩

theorem of_eq (h : x' = x) : Quiet x x' := h ▸ refl x

/-- Closing the writing end with another error than a text. -/
theorem closeWrite (x : Stream) {err : Option IoErr} (herr : ∀ t, err ≠ some (.text t)) :
    Quiet x { x with pipe := x.pipe.closeWrite err } := by
  refine ⟨rfl, rfl, rfl, rfl, fun h => h, .inl, fun t ht => ?_⟩
  have hor : x.pipe.werr.or (some (err.getD .eof)) = some (.text t) := ht
  cases hw : x.pipe.werr with
  | some e =>
    rw [hw] at hor
    exact hor
  | none =>
    rw [hw] at hor
    cases err with
    | none => cases hor
    | some e =>
      cases hor
      exact absurd rfl (herr t)

theorem closeNow (x : Stream) : Quiet x x.closeNow := by
  unfold Stream.closeNow
  split
  · exact refl x
  · exact ⟨rfl, rfl, rfl, rfl, fun _ => rfl, fun _ => .inr rfl, fun _ h => h⟩

theorem closeGracefully (x : Stream) : Quiet x x.closeGracefully := by
  unfold Stream.closeGracefully
  split
  · exact refl x
  · exact ⟨rfl, rfl, rfl, rfl, fun _ => rfl, fun _ => .inr rfl, fun _ h => h⟩

/-- A close and an operation on the pipe, one after the other. -/
theorem with_pipe {p : Pipe} (h : Quiet x x') (hp : Quiet x { x with pipe := p }) :
    Quiet x { x' with pipe := p } :=
  ⟨h.id, h.acked, h.enqueued, h.synDone, h.closed, h.dataCh, hp.text⟩

theorem closeRemote (x : Stream) : Quiet x x.closeRemote :=
  (closeGracefully x).with_pipe (closeWrite x nofun)

theorem overflowClose (x : Stream) : Quiet x x.overflowClose :=
  (closeNow x).with_pipe (closeWrite x nofun)

theorem forceClose (x : Stream) : Quiet x x.forceClose :=
  (closeNow x).with_pipe ⟨rfl, rfl, rfl, rfl, fun h => h, .inl, fun _ h => h⟩

theorem take (h : x.take = some x') : Quiet x x' := by
  unfold Stream.take at h
  split at h <;> cases h
  rename_i hrecv
  have hclosed := (Chan.recv_eq_some.mp hrecv).2
  exact ⟨rfl, rfl, rfl, rfl, fun h => h, fun h => .inl (hclosed ▸ h), fun _ h => h⟩

end Quiet

/-- What holds of every stream. -/
structure Stream.Sound (x : Stream) : Prop where
  synDone : x.synDone.closed = false
  answers : x.synDone.buf.length ≤ x.acked.length
  dataCh : x.dataCh.closed = true → x.closed = true
  /-- A stream whose reads return an error text refuses its writes. -/
  text : ∀ t, x.pipe.werr = some (.text t) → x.closed = true

theorem newStream_sound (sid : UInt32) : (newStream sid).Sound :=
  ⟨rfl, Nat.le_refl 0, nofun, nofun⟩

theorem Quiet.sound {x x' : Stream} (h : Quiet x x') (hx : x.Sound) : x'.Sound where
  synDone := h.synDone ▸ hx.synDone
  answers := h.synDone ▸ h.acked ▸ hx.answers
  dataCh hclosed := (h.dataCh hclosed).elim (fun hold => h.closed (hx.dataCh hold)) fun hnew => hnew
  text t ht := h.closed (hx.text t (h.text t ht))

/-- The stream is open and has room for a payload, in frames and in bytes. -/
def Stream.Accepts (x : Stream) (data : List UInt8) : Prop :=
  x.queuedBytes + data.length ≤ dataQueueMaxBytes ∧ x.closed = false ∧ x.dataCh.full = false

instance (x : Stream) (data : List UInt8) : Decidable (x.Accepts data) :=
  inferInstanceAs (Decidable (_ ∧ _ ∧ _))

theorem Stream.Sound.enqueue_iff (hx : x.Sound) : (x.enqueue data).2 = true ↔ x.Accepts data := by
  constructor
  · intro h
    obtain ⟨ch, hsend, -⟩ := enqueue_accepted h
    unfold Stream.enqueue at h
    split at h <;> try cases h
    split at h <;> try cases h
    rename_i hfits hopen
    exact ⟨Int.not_lt.mp hfits, Bool.eq_false_iff.mpr hopen, (Chan.send_eq_done.mp hsend).2.1⟩
  · rintro ⟨hfits, hopen, hroom⟩
    have hch : x.dataCh.closed = false := by
      rw [← Bool.not_eq_true]
      intro hclosed
      rw [hx.dataCh hclosed] at hopen
      cases hopen
    have hsend : ∃ ch, x.dataCh.send data = .done ch := by
      unfold Chan.send
      rw [hch, dif_pos (Chan.not_full_iff.mp hroom)]
      exact ⟨_, rfl⟩
    obtain ⟨ch, hsend⟩ := hsend
    unfold Stream.enqueue
    rw [if_neg (Int.not_lt.mpr hfits), hopen, hsend]
    rfl

end Glider.Anytls
