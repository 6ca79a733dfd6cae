/-
The goroutines that share an anytls stream (`proxy/anytls/session/stream.go`).

`recvLoop` calls `enqueue`, `writeLoop` moves the payloads from `dataCh` into the pipe, any
number of readers call `Read`, and any goroutine may call any of the five close paths at any
time. The machine `streamRace` cuts them at their accesses to the mutex, the `sync.Once`, the
channels, the atomics and the pipe. The function a `sync.Once` runs is run by one goroutine,
so how far it has got is kept in `Once`.

A send on a closed channel and a second `close` set `panicked`. `closes` counts the closes of
`dataCh`; `enqueued`, `got` and `errors` record what `enqueue` has accepted, the bytes the
reads have returned, and their errors.

* `Orderly` — in every run, whatever is closed is closed once and nothing is sent after it.
* `Flow` — in every run, the bytes read are a prefix of the payloads accepted.
* `Rests.enqueue`, `Rests.close` — a call that nothing interrupts is the operation on `Stream`.
-/

import Glider.Anytls.Stream
import Glider.Lib.Machine

namespace Glider.Anytls

open Glider.Go Glider.Lib

/-! ### Goroutines -/

abbrev Tid := Nat

inductive CloseKind where
  | closeLocally
  | closeRemote
  | overflowClose
  | forceClose
  | closePipe
deriving DecidableEq, Repr

namespace CloseKind

/-- The closes that begin with `close(s.done)`. -/
def discards : CloseKind → Bool
  | closeLocally | closeRemote => false
  | overflowClose | forceClose | closePipe => true

/-- What the close does to the pipe after `dieOnce`. -/
def onPipe : CloseKind → Pipe → Pipe
  | closeLocally, p | closePipe, p => p
  | closeRemote, p | overflowClose, p => p.closeWrite none
  | forceClose, p => p.closeRead

end CloseKind

/-- The function given to `dieOnce.Do`: `close(s.done)` for some closes, then `closeDataCh`. -/
inductive BodyStage where
  | begun
  | closing
  | locked
  | stored
  | chClosed
  | unlocked
deriving DecidableEq, Repr

/-- `dieOnce`. -/
inductive Once where
  | idle
  | running (t : Tid) (k : CloseKind) (stage : BodyStage)
  | finished
deriving DecidableEq, Repr

/-- A call of a close path outside of `dieOnce`. -/
inductive CloseStage where
  | idle
  | entering (k : CloseKind)
  | inside
  | after (k : CloseKind)
deriving DecidableEq, Repr

/-- A call of `enqueue`. -/
inductive SendStage where
  | idle
  | asked (data : List UInt8)
  | locked (data : List UInt8)
  | unclosed (data : List UInt8)
  | sent (n : Nat)
  | leaving
deriving DecidableEq, Repr

/-- `writeLoop`. -/
inductive WriteStage where
  | select
  | taken (data : List UInt8)
  | entering (data : List UInt8)
  | writing (rest : List UInt8)
  | exiting
  | exited
deriving DecidableEq, Repr

/-- Who holds `dataMu`. -/
inductive Holder where
  | sender
  | closer
deriving DecidableEq, Repr

structure StreamRace where
  once : Once
  mu : Option Holder
  dataCh : Chan (List UInt8) dataQueueCap
  done : Bool
  closed : Bool
  queuedBytes : Int
  pipe : Pipe
  writer : WriteStage
  sender : SendStage
  closers : Tid → CloseStage
  /-- The size of the buffer of a `Read` that waits for data. -/
  readers : Tid → Option Nat
  enqueued : List (List UInt8)
  got : List UInt8
  errors : List (Tid × IoErr)
  closes : Nat
  panicked : Bool

inductive RaceAct where
  /-- `recvLoop` calls `enqueue`. -/
  | enqueue (data : List UInt8)
  | sender
  /-- A goroutine calls a close path. -/
  | call (t : Tid) (k : CloseKind)
  | enter (t : Tid)
  | body
  | after (t : Tid)
  /-- The two branches of the `select` of `writeLoop`. -/
  | recv
  | stop
  | writer
  /-- A goroutine calls `Read` with a buffer of `n` bytes. -/
  | read (t : Tid) (n : Nat)
  | transfer (t : Tid)
  | readEnd (t : Tid)
  /-- `closed.Store(true)` in the handler of a `SYNACK`. -/
  | refused
  /-- `pw.CloseWithError`, there or when the read deadline passes. -/
  | closeWith (err : IoErr)
deriving DecidableEq, Repr

namespace StreamRace

/-- After `newStream`. -/
def init : StreamRace :=
  { once := .idle, mu := none, dataCh := .make, done := false, closed := false, queuedBytes := 0
    pipe := .new, writer := .select, sender := .idle, closers := fun _ => .idle
    readers := fun _ => none, enqueued := [], got := [], errors := [], closes := 0
    panicked := false }

variable (s : StreamRace)

def setCloser (t : Tid) (c : CloseStage) : StreamRace :=
  { s with closers := Function.update s.closers t c }

def setReader (t : Tid) (n : Option Nat) : StreamRace :=
  { s with readers := Function.update s.readers t n }

def setPanicked : StreamRace := { s with panicked := true }

@[simp] theorem setCloser_self (t : Tid) (c : CloseStage) : (s.setCloser t c).closers t = c :=
  Function.update_self ..

variable {s} in
theorem setCloser_of_ne {t t' : Tid} (h : t' ≠ t) {c : CloseStage} :
    (s.setCloser t c).closers t' = s.closers t' :=
  Function.update_of_ne h ..

/-! ### enqueue -/

def enqueue (data : List UInt8) : Option StreamRace :=
  if s.sender = .idle then
    if dataQueueMaxBytes < s.queuedBytes + data.length then some s
    else some { s with sender := .asked data }
  else none

def senderStep : Option StreamRace :=
  match s.sender with
  | .idle => none
  | .asked data =>
    if s.mu = none then some { s with mu := some .sender, sender := .locked data } else none
  | .locked data => some { s with sender := if s.closed then .leaving else .unclosed data }
  | .unclosed data =>
    match s.dataCh.send data with
    | .done ch =>
      some { s with dataCh := ch, enqueued := s.enqueued ++ [data], sender := .sent data.length }
    | .blocks => some { s with sender := .leaving }
    | .panics => some s.setPanicked
  | .sent n => some { s with queuedBytes := s.queuedBytes + n, sender := .leaving }
  | .leaving => some { s with mu := none, sender := .idle }

/-! ### The close paths -/

def call (t : Tid) (k : CloseKind) : Option StreamRace :=
  if s.closers t = .idle then some (s.setCloser t (.entering k)) else none

/-- `dieOnce.Do`: wait for the goroutine inside, if there is one. -/
def enter (t : Tid) : Option StreamRace :=
  match s.closers t with
  | .entering k =>
    match s.once with
    | .idle =>
      some { s.setCloser t .inside with
        once := .running t k (if k.discards then .begun else .closing) }
    | .running _ _ _ => none
    | .finished => some (s.setCloser t (.after k))
  | _ => none

def bodyStep : Option StreamRace :=
  match s.once with
  | .running t k .begun =>
    if s.done then some s.setPanicked
    else some { s with done := true, once := .running t k .closing }
  | .running t k .closing =>
    if s.mu = none then some { s with mu := some .closer, once := .running t k .locked } else none
  | .running t k .locked => some { s with closed := true, once := .running t k .stored }
  | .running t k .stored =>
    match s.dataCh.close with
    | .done ch =>
      some { s with dataCh := ch, closes := s.closes + 1, once := .running t k .chClosed }
    | _ => some s.setPanicked
  | .running t k .chClosed => some { s with mu := none, once := .running t k .unlocked }
  | .running t k .unlocked => some { s.setCloser t (.after k) with once := .finished }
  | _ => none

/-- What follows `dieOnce.Do`. -/
def after (t : Tid) : Option StreamRace :=
  match s.closers t with
  | .after k => some { s.setCloser t .idle with pipe := k.onPipe s.pipe }
  | _ => none

/-! ### writeLoop -/

def recv : Option StreamRace :=
  if s.writer = .select then
    match s.dataCh.recv with
    | .done (some data, ch) => some { s with dataCh := ch, writer := .taken data }
    | .done (none, _) => some { s with writer := .exiting }
    | _ => none
  else none

def stop : Option StreamRace :=
  if s.writer = .select ∧ s.done then some { s with writer := .exiting } else none

def writerStep : Option StreamRace :=
  match s.writer with
  | .taken data =>
    some { s with queuedBytes := s.queuedBytes - data.length, writer := .entering data }
  | .entering data => some { s with writer := if s.pipe.done then .exiting else .writing data }
  | .writing _ => if s.pipe.done then some { s with writer := .exiting } else none
  | .exiting => some { s with pipe := s.pipe.closeWrite none, writer := .exited }
  | _ => none

/-! ### Read -/

def fail (t : Tid) : StreamRace :=
  { s with errors := s.errors ++ [(t, s.pipe.readCloseError)] }

def read (t : Tid) (n : Nat) : Option StreamRace :=
  if s.readers t = none then
    if s.pipe.done then some (s.fail t) else some (s.setReader t (some n))
  else none

/-- A waiting `Read` takes what fits its buffer from the waiting `Write`. -/
def transfer (t : Tid) : Option StreamRace :=
  match s.readers t, s.writer with
  | some n, .writing rest =>
    some { s.setReader t none with
      got := s.got ++ rest.take n
      writer := if rest.drop n = [] then .select else .writing (rest.drop n) }
  | _, _ => none

def readEnd (t : Tid) : Option StreamRace :=
  match s.readers t with
  | some _ => if s.pipe.done then some ((s.fail t).setReader t none) else none
  | none => none

end StreamRace

def streamRace : Machine StreamRace RaceAct where
  step s
    | .enqueue data => s.enqueue data
    | .sender => s.senderStep
    | .call t k => s.call t k
    | .enter t => s.enter t
    | .body => s.bodyStep
    | .after t => s.after t
    | .recv => s.recv
    | .stop => s.stop
    | .writer => s.writerStep
    | .read t n => s.read t n
    | .transfer t => s.transfer t
    | .readEnd t => s.readEnd t
    | .refused => some { s with closed := true }
    | .closeWith err => some { s with pipe := s.pipe.closeWrite (some err) }

/-! ### What a step changes -/

/-- The actions that leave the queue, `writeLoop` and the bytes read alone. -/
def RaceAct.aside : RaceAct → Bool
  | .enqueue _ | .call _ _ | .enter _ | .after _ | .read _ _ | .readEnd _ | .refused
  | .closeWith _ => true
  | .sender | .body | .recv | .stop | .writer | .transfer _ => false

/-- The actions on the pipe and around it: they leave the queue, the mutex, the flags and the
closes alone. -/
def RaceAct.atPipe : RaceAct → Bool
  | .stop | .writer | .read _ _ | .transfer _ | .readEnd _ | .closeWith _ => true
  | .enqueue _ | .sender | .call _ _ | .enter _ | .body | .after _ | .recv | .refused => false

section Changes

variable {s s' : StreamRace} {a : RaceAct}

theorem aside_step (ha : a.aside = true) (h : streamRace.step s a = some s') :
    ∃ once closed pipe sender closers readers errors, s.errors ⊆ errors ∧
      s' = { s with
        once := once, closed := closed, pipe := pipe, sender := sender, closers := closers
        readers := readers, errors := errors } := by
  have hself : s.errors ⊆ s.errors := List.Subset.refl _
  cases a <;> try cases ha
  case enqueue | call | enter | after =>
    simp only [streamRace, StreamRace.enqueue, StreamRace.call, StreamRace.enter,
      StreamRace.after] at h
    (repeat' split at h) <;> cases h <;> exact ⟨_, _, _, _, _, _, _, hself, rfl⟩
  case read t n =>
    simp only [streamRace, StreamRace.read] at h
    split at h <;> try cases h
    split at h <;> cases h
    · exact ⟨_, _, _, _, _, _, _, List.subset_append_left _ _, rfl⟩
    · exact ⟨_, _, _, _, _, _, _, hself, rfl⟩
  case readEnd t =>
    simp only [streamRace, StreamRace.readEnd] at h
    split at h <;> try cases h
    split at h <;> cases h
    exact ⟨_, _, _, _, _, _, _, List.subset_append_left _ _, rfl⟩
  case refused | closeWith =>
    cases h
    exact ⟨_, _, _, _, _, _, _, hself, rfl⟩

theorem atPipe_step (ha : a.atPipe = true) (h : streamRace.step s a = some s') :
    ∃ queuedBytes pipe writer readers got errors, s' = { s with
      queuedBytes := queuedBytes, pipe := pipe, writer := writer, readers := readers, got := got
      errors := errors } := by
  cases a <;> try cases ha
  case closeWith =>
    cases h
    exact ⟨_, _, _, _, _, _, rfl⟩
  all_goals
    simp only [streamRace, StreamRace.stop, StreamRace.writerStep, StreamRace.read,
      StreamRace.transfer, StreamRace.readEnd] at h
    (repeat' split at h) <;> cases h <;> exact ⟨_, _, _, _, _, _, rfl⟩

/-- A step of `enqueue` sends the payload, or changes neither the queue nor the record of it. -/
theorem senderStep_cases (h : s.senderStep = some s') :
    (∃ data ch, s.sender = .unclosed data ∧ s.dataCh.send data = .done ch ∧
      s' = { s with
        dataCh := ch, enqueued := s.enqueued ++ [data], sender := .sent data.length }) ∨
    ∃ mu sender queuedBytes panicked, s' = { s with
      mu := mu, sender := sender, queuedBytes := queuedBytes, panicked := panicked } := by
  unfold StreamRace.senderStep at h
  split at h
  · cases h
  · split at h <;> cases h
    exact .inr ⟨_, _, _, _, rfl⟩
  · cases h
    exact .inr ⟨_, _, _, _, rfl⟩
  · rename_i data hunclosed
    split at h <;> cases h
    · rename_i ch hsend
      exact .inl ⟨data, ch, hunclosed, hsend, rfl⟩
    all_goals exact .inr ⟨_, _, _, _, rfl⟩
  all_goals
    cases h
    exact .inr ⟨_, _, _, _, rfl⟩

/-- A step inside `dieOnce` closes `dataCh`, or leaves it alone. -/
theorem bodyStep_cases (h : s.bodyStep = some s') :
    s'.once ≠ .idle ∧
    ((∃ t k ch, s.once = .running t k .stored ∧ s.dataCh.close = .done ch ∧
      s' = { s with dataCh := ch, closes := s.closes + 1, once := .running t k .chClosed }) ∨
    ∃ once mu done closed closers panicked, s' = { s with
      once := once, mu := mu, done := done, closed := closed, closers := closers
      panicked := panicked }) := by
  unfold StreamRace.bodyStep at h
  split at h
  · rename_i t k hbegun
    split at h <;> cases h
    · refine ⟨?_, .inr ⟨_, _, _, _, _, _, rfl⟩⟩
      show s.once ≠ .idle
      rw [hbegun]
      nofun
    · exact ⟨nofun, .inr ⟨_, _, _, _, _, _, rfl⟩⟩
  · split at h <;> cases h
    exact ⟨nofun, .inr ⟨_, _, _, _, _, _, rfl⟩⟩
  · cases h
    exact ⟨nofun, .inr ⟨_, _, _, _, _, _, rfl⟩⟩
  · rename_i t k hstored
    split at h <;> cases h
    · rename_i ch hclose
      exact ⟨nofun, .inl ⟨t, k, ch, hstored, hclose, rfl⟩⟩
    · refine ⟨?_, .inr ⟨_, _, _, _, _, _, rfl⟩⟩
      show s.once ≠ .idle
      rw [hstored]
      nofun
  · cases h
    exact ⟨nofun, .inr ⟨_, _, _, _, _, _, rfl⟩⟩
  · cases h
    exact ⟨nofun, .inr ⟨_, _, _, _, _, _, rfl⟩⟩
  · cases h

end Changes

/-! ### Shutdown -/

namespace Once

/-- `close(s.dataCh)` is still to come. -/
def early : Once → Bool
  | idle | running _ _ .begun | running _ _ .closing | running _ _ .locked
  | running _ _ .stored => true
  | _ => false

/-- `close(s.done)` has not been passed. -/
def undone : Once → Bool
  | idle | running _ _ .begun => true
  | _ => false

/-- The function holds `dataMu`. -/
def holds : Once → Bool
  | running _ _ .locked | running _ _ .stored | running _ _ .chClosed => true
  | _ => false

/-- `closed` is set and `dataCh` about to be closed. -/
def stored : Once → Bool
  | running _ _ .stored => true
  | _ => false

end Once

/-- The call holds `dataMu`. -/
def SendStage.holds : SendStage → Bool
  | .locked _ | .unclosed _ | .sent _ | .leaving => true
  | .idle | .asked _ => false

/-- The mutex, the flags and the closes. -/
structure Orderly (s : StreamRace) : Prop where
  early : s.once.early = true → s.dataCh.closed = false
  late : s.once.early = false → s.dataCh.closed = true
  undone : s.once.undone = true → s.done = false
  stored : s.once.stored = true → s.closed = true
  closed : s.dataCh.closed = true → s.closed = true
  closer : s.mu = some .closer ↔ s.once.holds = true
  sender : s.mu = some .sender ↔ s.sender.holds = true
  unclosed : ∀ data, s.sender = .unclosed data → s.dataCh.closed = false
  closes : s.closes = if s.dataCh.closed then 1 else 0
  calm : s.panicked = false

namespace Orderly

variable {s s' : StreamRace}

theorem init : Orderly .init where
  early _ := rfl
  late := nofun
  undone _ := rfl
  stored := nofun
  closed := nofun
  closer := ⟨nofun, nofun⟩
  sender := ⟨nofun, nofun⟩
  unclosed _ := nofun
  closes := rfl
  calm := rfl

theorem enqueue (inv : Orderly s) {data : List UInt8} (h : s.enqueue data = some s') :
    Orderly s' := by
  unfold StreamRace.enqueue at h
  split at h <;> try cases h
  rename_i hidle
  split at h <;> cases h
  · exact inv
  · have hmu : s.mu ≠ some .sender := fun hmu => by
      have := inv.sender.mp hmu
      rw [hidle] at this
      cases this
    exact { inv with
      sender := ⟨fun h => absurd h hmu, nofun⟩
      unclosed := fun _ => nofun }

theorem mu_ne_closer (inv : Orderly s) (h : s.once.holds = false) : s.mu ≠ some .closer := by
  rw [Ne, inv.closer, h]
  nofun

theorem once_not_holds (inv : Orderly s) (h : s.mu ≠ some .closer) : s.once.holds ≠ true :=
  fun hholds => h (inv.closer.mpr hholds)

theorem sender_not_holds (inv : Orderly s) (h : s.mu ≠ some .sender) : s.sender.holds ≠ true :=
  fun hholds => h (inv.sender.mpr hholds)

theorem senderStep (inv : Orderly s) (h : s.senderStep = some s') : Orderly s' := by
  unfold StreamRace.senderStep at h
  split at h
  · cases h
  · -- lock
    split at h <;> cases h
    rename_i hfree
    have hholds := inv.once_not_holds (hfree ▸ nofun)
    exact { inv with
      closer := ⟨nofun, fun h => absurd h hholds⟩
      sender := ⟨fun _ => rfl, fun _ => rfl⟩
      unclosed := fun _ => nofun }
  · -- read `closed`
    rename_i data hlocked
    have hmu : s.mu = some .sender := inv.sender.mpr (hlocked ▸ rfl)
    split at h <;> cases h <;> rename_i hclosed
    · exact { inv with
        sender := ⟨fun _ => rfl, fun _ => hmu⟩
        unclosed := fun _ => nofun }
    · have hopen : s.dataCh.closed = false :=
        Bool.eq_false_iff.mpr fun hch => hclosed (inv.closed hch)
      exact { inv with
        sender := ⟨fun _ => rfl, fun _ => hmu⟩
        unclosed := fun _ _ => hopen }
  · -- send
    rename_i data hunclosed
    have hmu : s.mu = some .sender := inv.sender.mpr (hunclosed ▸ rfl)
    have hopen := inv.unclosed data hunclosed
    split at h <;> cases h
    · rename_i ch hsend
      have hch : ch.closed = s.dataCh.closed := (Chan.send_eq_done.mp hsend).2.2.2.trans hopen.symm
      exact { inv with
        early := fun h => hch.trans (inv.early h)
        late := fun h => hch.trans (inv.late h)
        closed := fun h => inv.closed (hch.symm.trans h)
        sender := ⟨fun _ => rfl, fun _ => hmu⟩
        unclosed := fun _ => nofun
        closes := hch.symm ▸ inv.closes }
    · exact { inv with
        sender := ⟨fun _ => rfl, fun _ => hmu⟩
        unclosed := fun _ => nofun }
    · rename_i hsend
      cases (Chan.send_eq_panics.mp hsend).symm.trans hopen
  · -- account for the payload
    rename_i n hsent
    cases h
    exact { inv with
      sender := ⟨fun _ => rfl, fun _ => inv.sender.mpr (hsent ▸ rfl)⟩
      unclosed := fun _ => nofun }
  · -- unlock
    rename_i hleaving
    cases h
    have hmu : s.mu = some .sender := inv.sender.mpr (hleaving ▸ rfl)
    have hholds := inv.once_not_holds (hmu ▸ nofun)
    exact { inv with
      closer := ⟨nofun, fun h => absurd h hholds⟩
      sender := ⟨nofun, nofun⟩
      unclosed := fun _ => nofun }

theorem enter (inv : Orderly s) {t : Tid} (h : s.enter t = some s') : Orderly s' := by
  unfold StreamRace.enter at h
  split at h
  · rename_i k hentering
    split at h
    · rename_i hidle
      cases h
      have hearly : s.once.early = true := hidle ▸ rfl
      have hundone : s.once.undone = true := hidle ▸ rfl
      have hmu := inv.mu_ne_closer (hidle ▸ rfl)
      cases k.discards
      all_goals exact { inv with
        early := fun _ => inv.early hearly
        late := nofun
        undone := fun _ => inv.undone hundone
        stored := nofun
        closer := ⟨fun h => absurd h hmu, nofun⟩ }
    · cases h
    · cases h
      exact { inv with }
  · cases h

theorem bodyStep (inv : Orderly s) (h : s.bodyStep = some s') : Orderly s' := by
  unfold StreamRace.bodyStep at h
  split at h
  · -- `close(s.done)`
    rename_i t k hbegun
    have hundone := inv.undone (hbegun ▸ rfl)
    have hmu := inv.mu_ne_closer (hbegun ▸ rfl)
    rw [hundone] at h
    cases h
    exact { inv with
      early := fun _ => inv.early (hbegun ▸ rfl)
      late := nofun
      undone := nofun
      stored := nofun
      closer := ⟨fun h => absurd h hmu, nofun⟩ }
  · -- lock
    rename_i t k hclosing
    split at h <;> cases h
    rename_i hfree
    have hsender := inv.sender_not_holds (hfree ▸ nofun)
    exact { inv with
      early := fun _ => inv.early (hclosing ▸ rfl)
      late := nofun
      undone := nofun
      stored := nofun
      closer := ⟨fun _ => rfl, fun _ => rfl⟩
      sender := ⟨nofun, fun h => absurd h hsender⟩ }
  · -- `closed.Store(true)`
    rename_i t k hlocked
    cases h
    exact { inv with
      early := fun _ => inv.early (hlocked ▸ rfl)
      late := nofun
      undone := nofun
      stored := fun _ => rfl
      closed := fun _ => rfl
      closer := ⟨fun _ => rfl, fun _ => inv.closer.mpr (hlocked ▸ rfl)⟩ }
  · -- `close(s.dataCh)`
    rename_i t k hstored
    have hopen := inv.early (hstored ▸ rfl)
    have hmu := inv.closer.mpr (hstored ▸ rfl)
    have hcloses : s.closes = 0 := by
      rw [inv.closes, hopen]
      rfl
    have hclose : s.dataCh.close = .done { s.dataCh with closed := true } :=
      Chan.close_eq_done.mpr ⟨hopen, rfl, rfl⟩
    rw [hclose] at h
    cases h
    have hsender : ∀ data, s.sender ≠ .unclosed data := by
      intro data hunclosed
      have := inv.sender.mpr (hunclosed ▸ rfl)
      rw [hmu] at this
      cases this
    exact { inv with
      early := nofun
      late := fun _ => rfl
      undone := nofun
      stored := nofun
      closed := fun _ => inv.stored (hstored ▸ rfl)
      closer := ⟨fun _ => rfl, fun _ => hmu⟩
      unclosed := fun data h => absurd h (hsender data)
      closes := congrArg Nat.succ hcloses }
  · -- unlock
    rename_i t k hch
    cases h
    have hmu := inv.closer.mpr (hch ▸ rfl)
    have hsender := inv.sender_not_holds (hmu ▸ nofun)
    exact { inv with
      early := nofun
      late := fun _ => inv.late (hch ▸ rfl)
      undone := nofun
      stored := nofun
      closer := ⟨nofun, nofun⟩
      sender := ⟨nofun, fun h => absurd h hsender⟩ }
  · -- leave `dieOnce`
    rename_i t k hunlocked
    cases h
    have hmu := inv.mu_ne_closer (hunlocked ▸ rfl)
    exact { inv with
      early := nofun
      late := fun _ => inv.late (hunlocked ▸ rfl)
      undone := nofun
      stored := nofun
      closer := ⟨fun h => absurd h hmu, nofun⟩ }
  · cases h

theorem recv (inv : Orderly s) (h : s.recv = some s') : Orderly s' := by
  unfold StreamRace.recv at h
  split at h <;> try cases h
  split at h <;> cases h
  · rename_i data ch hrecv
    have hch : ch.closed = s.dataCh.closed := (Chan.recv_eq_some.mp hrecv).2
    exact { inv with
      early := fun h => hch.trans (inv.early h)
      late := fun h => hch.trans (inv.late h)
      closed := fun h => inv.closed (hch.symm.trans h)
      unclosed := fun data h => hch.trans (inv.unclosed data h)
      closes := hch.symm ▸ inv.closes }
  · exact { inv with }

theorem step (inv : Orderly s) {a : RaceAct} (h : streamRace.step s a = some s') : Orderly s' := by
  cases a with
  | enqueue data => exact inv.enqueue h
  | sender => exact inv.senderStep h
  | call t k =>
    simp only [streamRace, StreamRace.call] at h
    split at h <;> cases h
    exact { inv with }
  | enter t => exact inv.enter h
  | body => exact inv.bodyStep h
  | after t =>
    simp only [streamRace, StreamRace.after] at h
    split at h <;> cases h
    exact { inv with }
  | recv => exact inv.recv h
  | refused =>
    cases h
    exact { inv with
      stored := fun _ => rfl
      closed := fun _ => rfl }
  | stop | writer | read | transfer | readEnd | closeWith =>
    obtain ⟨_, _, _, _, _, _, rfl⟩ := atPipe_step rfl h
    exact { inv with }

end Orderly

/-! ### The bytes -/

namespace WriteStage

/-- `writeLoop` has not left its loop. -/
def live : WriteStage → Bool
  | exiting | exited => false
  | _ => true

/-- What it has taken from the queue and not yet handed over. -/
def pending : WriteStage → List UInt8
  | taken data | entering data | writing data => data
  | _ => []

end WriteStage

/-- Nothing is lost or reordered on the way to the readers while `writeLoop` runs. -/
structure Flow (s : StreamRace) : Prop where
  flow : s.writer.live = true →
    s.enqueued.flatten = s.got ++ s.writer.pending ++ s.dataCh.buf.flatten
  got : s.got <+: s.enqueued.flatten

namespace Flow

variable {s s' : StreamRace}

theorem init : Flow .init := ⟨fun _ => rfl, List.nil_prefix⟩

/-- A step that leaves the queue, the records and the pending bytes alone. -/
theorem of_eq (inv : Flow s) (hq : s'.enqueued = s.enqueued) (hgot : s'.got = s.got)
    (hbuf : s'.dataCh.buf = s.dataCh.buf)
    (hw : s'.writer.live = true → s.writer.live = true ∧ s'.writer.pending = s.writer.pending) :
    Flow s' := by
  refine ⟨fun hlive => ?_, ?_⟩
  · obtain ⟨hlive, hpending⟩ := hw hlive
    rw [hq, hgot, hbuf, hpending]
    exact inv.flow hlive
  · rw [hq, hgot]
    exact inv.got

theorem senderStep (inv : Flow s) (h : s.senderStep = some s') : Flow s' := by
  obtain ⟨data, ch, -, hsend, rfl⟩ | ⟨_, _, _, _, rfl⟩ := senderStep_cases h
  · have hbuf : ch.buf = s.dataCh.buf ++ [data] := (Chan.send_eq_done.mp hsend).2.2.1
    refine ⟨fun hlive => ?_, ?_⟩
    · show (s.enqueued ++ [data]).flatten = s.got ++ s.writer.pending ++ ch.buf.flatten
      rw [hbuf, List.flatten_append, List.flatten_append, inv.flow hlive]
      simp
    · show s.got <+: (s.enqueued ++ [data]).flatten
      rw [List.flatten_append]
      exact inv.got.trans (List.prefix_append _ _)
  · exact { inv with }

theorem bodyStep (inv : Flow s) (h : s.bodyStep = some s') : Flow s' := by
  obtain ⟨-, ⟨t, k, ch, -, hclose, rfl⟩ | ⟨_, _, _, _, _, _, rfl⟩⟩ := bodyStep_cases h
  · have hbuf : ch.buf = s.dataCh.buf := (Chan.close_eq_done.mp hclose).2.1
    exact inv.of_eq rfl rfl hbuf fun h => ⟨h, rfl⟩
  · exact { inv with }

theorem recv (inv : Flow s) (h : s.recv = some s') : Flow s' := by
  unfold StreamRace.recv at h
  split at h <;> try cases h
  rename_i hselect
  split at h <;> cases h
  · rename_i data ch hrecv
    have hbuf : s.dataCh.buf = data :: ch.buf := (Chan.recv_eq_some.mp hrecv).1
    have hflow := inv.flow (hselect ▸ rfl)
    rw [hselect, hbuf] at hflow
    refine ⟨fun _ => ?_, inv.got⟩
    show s.enqueued.flatten = s.got ++ data ++ ch.buf.flatten
    rw [hflow]
    simp [WriteStage.pending]
  · exact ⟨nofun, inv.got⟩

theorem writerStep (inv : Flow s) (h : s.writerStep = some s') : Flow s' := by
  unfold StreamRace.writerStep at h
  split at h
  · rename_i data htaken
    cases h
    exact inv.of_eq rfl rfl rfl fun _ => ⟨htaken ▸ rfl, htaken ▸ rfl⟩
  · rename_i data hentering
    cases h
    refine inv.of_eq rfl rfl rfl fun hlive => ?_
    rw [hentering]
    dsimp only at hlive ⊢
    split at hlive
    · cases hlive
    · rename_i hopen
      rw [if_neg hopen]
      exact ⟨rfl, rfl⟩
  · split at h <;> cases h
    exact ⟨nofun, inv.got⟩
  · cases h
    exact ⟨nofun, inv.got⟩
  · cases h

theorem transfer (inv : Flow s) {t : Tid} (h : s.transfer t = some s') : Flow s' := by
  unfold StreamRace.transfer at h
  split at h <;> try cases h
  rename_i n rest hreader hwriting
  have hflow := inv.flow (hwriting ▸ rfl)
  have hsplit : s.got ++ rest.take n ++ rest.drop n ++ s.dataCh.buf.flatten =
      s.enqueued.flatten := by
    rw [hflow, hwriting, List.append_assoc s.got, List.take_append_drop]
    rfl
  have hpending :
      WriteStage.pending (if rest.drop n = [] then .select else .writing (rest.drop n)) =
        rest.drop n := by
    split
    · rename_i hdrop
      exact hdrop.symm
    · rfl
  refine ⟨fun _ => ?_, ?_⟩
  · show s.enqueued.flatten = s.got ++ rest.take n ++ WriteStage.pending _ ++ s.dataCh.buf.flatten
    rw [hpending, hsplit]
  · show s.got ++ rest.take n <+: s.enqueued.flatten
    rw [← hsplit, List.append_assoc]
    exact List.prefix_append _ _

theorem step (inv : Flow s) {a : RaceAct} (h : streamRace.step s a = some s') : Flow s' := by
  cases a with
  | sender => exact inv.senderStep h
  | body => exact inv.bodyStep h
  | recv => exact inv.recv h
  | stop =>
    simp only [streamRace, StreamRace.stop] at h
    split at h <;> cases h
    exact ⟨nofun, inv.got⟩
  | writer => exact inv.writerStep h
  | transfer t => exact inv.transfer h
  | enqueue | call | enter | after | read | readEnd | refused | closeWith =>
    obtain ⟨_, _, _, _, _, _, _, -, rfl⟩ := aside_step rfl h
    exact { inv with }

end Flow

/-! ### Calls that nothing interrupts -/

/-- No goroutine is inside of a call, and the record is `x`. -/
structure Rests (s : StreamRace) (x : Stream) : Prop where
  once : s.once = if x.dieOnce then .finished else .idle
  mu : s.mu = none
  sender : s.sender = .idle
  dataCh : s.dataCh = x.dataCh
  done : s.done = x.done
  closed : s.closed = x.closed
  queuedBytes : s.queuedBytes = x.queuedBytes
  pipe : s.pipe = x.pipe
  enqueued : s.enqueued = x.enqueued

def Stream.close (x : Stream) : CloseKind → Stream
  | .closeLocally => x.closeLocally
  | .closeRemote => x.closeRemote
  | .overflowClose => x.overflowClose
  | .forceClose => x.forceClose
  | .closePipe => x.closePipe

namespace Rests

variable {s : StreamRace} {x : Stream}

theorem newStream (sid : UInt32) : Rests .init (newStream sid) :=
  ⟨rfl, rfl, rfl, rfl, rfl, rfl, rfl, rfl, rfl⟩

/-- An `enqueue` that nobody interrupts is `Stream.enqueue`. -/
theorem enqueue (rests : Rests s x) (orderly : Orderly s) (data : List UInt8) :
    ∃ as s', streamRace.run s as = some s' ∧ Rests s' (x.enqueue data).1 := by
  obtain ⟨honce, hmu, hsender, hch, hdone, hclosed, hqueued, hpipe, henq⟩ := rests
  unfold Stream.enqueue
  by_cases hfits : dataQueueMaxBytes < x.queuedBytes + data.length
  · refine ⟨[.enqueue data], s, ?_, ?_⟩
    · simp [Machine.run, streamRace, StreamRace.enqueue, hsender, hqueued, hfits]
    · rw [if_pos hfits]
      exact ⟨honce, hmu, hsender, hch, hdone, hclosed, hqueued, hpipe, henq⟩
  · rw [if_neg hfits]
    by_cases hopen : x.closed = true
    · refine ⟨[.enqueue data, .sender, .sender, .sender], { s with mu := none, sender := .idle },
        ?_, ?_⟩
      · simp [Machine.run, streamRace, StreamRace.enqueue, StreamRace.senderStep, hsender, hqueued,
          hfits, hmu, hclosed, hopen]
      · rw [if_pos hopen]
        exact ⟨honce, rfl, rfl, hch, hdone, hclosed, hqueued, hpipe, henq⟩
    · rw [if_neg hopen]
      cases hsend : x.dataCh.send data with
      | done ch =>
        refine ⟨.enqueue data :: List.replicate 5 .sender,
          { s with
            mu := none, sender := .idle, dataCh := ch, enqueued := s.enqueued ++ [data]
            queuedBytes := s.queuedBytes + data.length }, ?_, ?_⟩
        · simp [List.replicate, Machine.run, streamRace, StreamRace.enqueue, StreamRace.senderStep,
            hsender, hqueued, hfits, hmu, hclosed, hopen, hch, hsend]
        · exact ⟨honce, rfl, rfl, rfl, hdone, hclosed, by rw [hqueued], hpipe, by rw [henq]⟩
      | blocks =>
        refine ⟨.enqueue data :: List.replicate 4 .sender, { s with mu := none, sender := .idle },
          ?_, ?_⟩
        · simp [List.replicate, Machine.run, streamRace, StreamRace.enqueue, StreamRace.senderStep,
            hsender, hqueued, hfits, hmu, hclosed, hopen, hch, hsend]
        · exact ⟨honce, rfl, rfl, hch, hdone, hclosed, hqueued, hpipe, henq⟩
      | panics =>
        have hch : s.dataCh.closed = true := hch ▸ Chan.send_eq_panics.mp hsend
        exact absurd (hclosed ▸ orderly.closed hch) hopen

/-- The closes differ in the queue they keep or discard, and in what they do to the pipe. -/
theorem close_eq (x : Stream) (k : CloseKind) :
    x.close k =
      { if k.discards then x.closeNow else x.closeGracefully with pipe := k.onPipe x.pipe } := by
  have hnow : x.closeNow.pipe = x.pipe := by
    unfold Stream.closeNow
    split <;> rfl
  have hgracefully : x.closeGracefully.pipe = x.pipe := by
    unfold Stream.closeGracefully
    split <;> rfl
  cases k with
  | closeLocally =>
    show x.closeGracefully = { x.closeGracefully with pipe := x.pipe }
    rw [← hgracefully]
  | closePipe =>
    show x.closeNow = { x.closeNow with pipe := x.pipe }
    rw [← hnow]
  | closeRemote | overflowClose | forceClose => rfl

/-- A close that nobody interrupts is the one of `Stream`. -/
theorem close (rests : Rests s x) (orderly : Orderly s) (k : CloseKind) {t : Tid}
    (hidle : s.closers t = .idle) :
    ∃ as s', streamRace.run s as = some s' ∧ Rests s' (x.close k) := by
  obtain ⟨honce, hmu, hsender, hch, hdone, hclosed, hqueued, hpipe, henq⟩ := rests
  rw [close_eq]
  cases hdie : x.dieOnce with
  | true =>
    rw [hdie, if_pos rfl] at honce
    refine ⟨[.call t k, .enter t, .after t],
      { s with closers := Function.update s.closers t .idle, pipe := k.onPipe s.pipe }, ?_, ?_⟩
    · simp [Machine.run, streamRace, StreamRace.call, StreamRace.enter, StreamRace.after,
        StreamRace.setCloser, hidle, honce]
    · have hsame : (if k.discards then x.closeNow else x.closeGracefully) = x := by
        rw [Stream.closeNow, Stream.closeGracefully, if_pos hdie, if_pos hdie, ite_self]
      rw [hsame]
      exact ⟨honce.trans (if_pos hdie).symm, hmu, hsender, hch, hdone, hclosed, hqueued,
        congrArg k.onPipe hpipe, henq⟩
  | false =>
    rw [hdie] at honce
    have hopen : s.dataCh.closed = false := orderly.early (honce ▸ rfl)
    have hundone : s.done = false := orderly.undone (honce ▸ rfl)
    have hclose : s.dataCh.close = .done { s.dataCh with closed := true } :=
      Chan.close_eq_done.mpr ⟨hopen, rfl, rfl⟩
    refine ⟨[.call t k, .enter t] ++ (if k.discards then [.body] else []) ++
        List.replicate 5 .body ++ [.after t],
      { s with
        closers := Function.update s.closers t .idle
        once := .finished, mu := none, closed := true, done := k.discards
        dataCh := { s.dataCh with closed := true }, closes := s.closes + 1
        pipe := k.onPipe s.pipe }, ?_, ?_⟩
    · cases hdiscards : k.discards <;>
        simp [List.replicate, Machine.run, streamRace, StreamRace.call, StreamRace.enter,
          StreamRace.after, StreamRace.bodyStep, StreamRace.setCloser, hidle, honce, hdiscards,
          hmu, hclose, hundone]
    · rw [Stream.closeNow, Stream.closeGracefully, hdie]
      cases hdiscards : k.discards with
      | true => exact ⟨rfl, rfl, hsender, by rw [hch]; rfl, rfl, rfl, hqueued,
          congrArg k.onPipe hpipe, henq⟩
      | false => exact ⟨rfl, rfl, hsender, by rw [hch]; rfl, hundone.symm.trans hdone, rfl, hqueued,
          congrArg k.onPipe hpipe, henq⟩

end Rests

end Glider.Anytls
