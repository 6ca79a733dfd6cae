/-
The steps of the goroutines of a session, and what they can do.

Each goroutine is a function of the session, of its point of execution and of a choice, with what it
does to the tokens, to the streams and to the registry of streams said right after it; the
invariants are derived from that.

* `step_spec` — for every goroutine but `recvLoop`.
* `recvStep_spec` — for `recvLoop`.
-/

import Glider.Smux.Session

namespace Glider.Smux

open Glider.Go Glider.Lib

/-! ### What is buffered -/

namespace Stream

variable {cfg : Verified} {s : Stream} {cap : Nat}

/-- A read takes a beginning of what is buffered. -/
theorem takeFront_append (s : Stream) (cap : Nat) :
    (s.takeFront cap).1 ++ (s.takeFront cap).2.flatten = s.buffered := by
  unfold takeFront buffered
  split
  · rename_i hnil
    rw [hnil]
    rfl
  · rename_i b bs hcons
    have hb : b.take cap ++ b.drop cap = b := List.take_append_drop cap b
    rw [hcons]
    split
    · rename_i hempty
      rw [List.isEmpty_iff.mp hempty, List.append_nil] at hb
      rw [List.flatten_cons, hb]
    · rw [List.flatten_cons, List.flatten_cons, ← List.append_assoc, hb]

/-- What is done to a stream by others than `recvLoop`: they read from it, drop what is buffered, or
set flags. -/
structure Move (s s' : Stream) : Prop where
  id : s'.id = s.id
  pushed : s'.pushed = s.pushed
  finEvent : s'.finEvent = s.finEvent
  since : s'.since = s.since
  opened : s'.opened = s.opened
  kept : s'.recycled = false →
    s.recycled = false ∧ s'.read ++ s'.buffered = s.read ++ s.buffered

theorem Move.refl (s : Stream) : Move s s := ⟨rfl, rfl, rfl, rfl, rfl, fun h => ⟨h, rfl⟩⟩

/-- The critical section of a read, in both versions. -/
theorem consume_spec (cfg : Verified) (s : Stream) (cap : Nat) :
    Move s (s.consume cfg cap).1 ∧ (s.consume cfg cap).1.buffers = (s.takeFront cap).2 ∧
      (s.consume cfg cap).2.1 = (s.takeFront cap).1 := by
  have hkept : (s.read ++ (s.takeFront cap).1) ++ (s.takeFront cap).2.flatten
      = s.read ++ s.buffered := by
    rw [List.append_assoc, takeFront_append]
  unfold consume
  dsimp only
  split
  · unfold count
    dsimp only
    split <;> exact ⟨⟨rfl, rfl, rfl, rfl, rfl, fun h => ⟨h, hkept⟩⟩, rfl, rfl⟩
  · exact ⟨⟨rfl, rfl, rfl, rfl, rfl, fun h => ⟨h, hkept⟩⟩, rfl, rfl⟩

theorem length_consume (cfg : Verified) (s : Stream) (cap : Nat) :
    (s.consume cfg cap).1.buffered.length + (s.consume cfg cap).2.1.length = s.buffered.length := by
  obtain ⟨-, hbuf, hdata⟩ := consume_spec cfg s cap
  rw [buffered, hbuf, hdata, ← takeFront_append s cap, List.length_append, Nat.add_comm]

end Stream

namespace Session

variable {m : Session} {k : Nat} {s : Stream}

theorem buffered_modify (h : m.heap[k]? = some s) (f : Stream → Stream) :
    (m.modify k f).buffered + s.buffered.length = m.buffered + (f s).buffered.length := by
  unfold buffered modify
  dsimp only
  generalize m.heap = heap at h
  induction heap generalizing k with
  | nil => cases h
  | cons t heap ih =>
    cases k with
    | zero =>
      cases h
      simp only [List.modify_zero_cons, List.map_cons, List.sum_cons]
      omega
    | succ k =>
      have ih := ih h
      simp only [List.modify_succ_cons, List.map_cons, List.sum_cons]
      omega

theorem buffered_modify_flags (m : Session) (k : Nat) {f : Stream → Stream}
    (hf : ∀ s, (f s).buffers = s.buffers) : (m.modify k f).buffered = m.buffered := by
  cases hk : m.heap[k]? with
  | some s =>
    have hmod := buffered_modify hk f
    rw [Stream.buffered, Stream.buffered, hf s] at hmod
    omega
  | none =>
    have hlen : m.heap.length ≤ k := List.getElem?_eq_none_iff.mp hk
    rw [buffered, modify, List.modify_eq_self hlen]
    rfl

theorem buffered_concat {m' : Session} {id : UInt32} {since : Nat} {opened : Bool}
    (h : m'.heap = m.heap ++ [{ id := id, since := since, opened := opened }]) :
    m'.buffered = m.buffered := by
  rw [buffered, buffered, h]
  simp [Stream.buffered]

end Session

/-! ### What the goroutines hold -/

/-- The tokens a goroutine has to return; `recvLoop` has pushed before it deducts. -/
def Proc.owed : Proc → Int
  | .read _ _ (.owing data _) => data.1.length
  | .writeTo _ _ (.writing buf _) => buf.length
  | .writeTo _ _ (.owing buf _ _) => buf.length
  | .close _ (.recycled n _) => n
  | .recvLoop (.pushed _ written) => -written
  | _ => 0

/-- The goroutine is about to notify `recvLoop` of its tokens. -/
def Proc.signals : Proc → Bool
  | .read _ _ (.signalling _ _) => true
  | .writeTo _ _ (.signalling _ _) => true
  | .close _ (.signalling _) => true
  | _ => false

def Proc.isRecv : Proc → Bool
  | .recvLoop _ => true
  | _ => false

/-! ### What a step does -/

/-- What a step of a goroutine other than `recvLoop` does to the tokens. -/
inductive TokenStep (m : Session) (p : Proc) (m' : Session) (p' : Proc) : Prop
  /-- Tokens change hands, at most. -/
  | keep (bucket : m'.bucket = m.bucket)
      (balance : (m'.buffered : Int) + p'.owed = m.buffered + p.owed)
      (signal : p.signals = true → m'.bucketNotify = true)
      (notify : m.bucketNotify = true → m'.bucketNotify = true)
  /-- Tokens are returned. -/
  | back (n : Nat) (bucket : m'.bucket = wrap32 (m.bucket + n))
      (buffered : m'.buffered = m.buffered) (owed : p.owed = n) (owed' : p'.owed = 0)
      (quiet : p.signals = false) (signals : m'.bucket > 0 → p'.signals = true)
      (notify : m'.bucketNotify = m.bucketNotify)

/-- What a step does to the registry. -/
inductive Registers (m : Session) (p : Proc) (m' : Session) : Prop
  | same (streams : m'.streams = m.streams) (length : m'.heap.length = m.heap.length)
  | register (sid : UInt32) (proc : p = .openStream (.register sid))
      (heap : m'.heap = m.heap ++ [{ id := sid, since := m.handled.length, opened := true }])
      (streams : m'.streams = m.setStream sid (some m.heap.length))
  | delete (k : Nat) (s : Stream) (err : Option IoErr) (proc : p = .close k (.deleting err))
      (here : m.heap[k]? = some s) (heap : m'.heap = m.heap)
      (streams : m'.streams = m.setStream s.id none)

/-- What a step of a goroutine other than `recvLoop` does. -/
structure Step (m : Session) (p : Proc) (m' : Session) (p' : Proc) : Prop where
  tokens : TokenStep m p m' p'
  moves : ∀ (k : Nat) (s : Stream), m.heap[k]? = some s →
    ∃ s', m'.heap[k]? = some s' ∧ Stream.Move s s'
  registers : Registers m p m'
  die : m.die = true → m'.die = true
  handled : m'.handled = m.handled
  conn : m'.conn = m.conn

section Step

variable {cfg : Verified} {me k n cap : Nat} {m m' : Session} {c : Choice} {p p' : Proc}

/-- What no step but a few changes. -/
def Session.fixed (m : Session) :
    (UInt32 → Option Nat) × Bool × List (RawHeader × List UInt8) × Source :=
  (m.streams, m.die, m.handled, m.conn)

/-- A step that leaves the streams alone. -/
theorem Step.of_heap (tokens : TokenStep m p m' p') (heap : m'.heap = m.heap)
    (fixed : m'.fixed = m.fixed) : Step m p m' p' := by
  obtain ⟨streams, die, handled, conn⟩ : m'.streams = m.streams ∧ m'.die = m.die ∧
      m'.handled = m.handled ∧ m'.conn = m.conn := by simpa [Session.fixed] using fixed
  exact ⟨tokens, fun _ s hs => ⟨s, heap ▸ hs, .refl s⟩, .same streams (congrArg _ heap),
    fun h => die.trans h, handled, conn⟩

/-- A step that changes one stream. -/
theorem Step.of_modify {f : Stream → Stream} (heap : m'.heap = (m.modify k f).heap)
    (fixed : m'.fixed = m.fixed) (tokens : TokenStep m p m' p')
    (move : ∀ s, m.heap[k]? = some s → Stream.Move s (f s)) : Step m p m' p' := by
  obtain ⟨streams, die, handled, conn⟩ : m'.streams = m.streams ∧ m'.die = m.die ∧
      m'.handled = m.handled ∧ m'.conn = m.conn := by simpa [Session.fixed] using fixed
  refine ⟨tokens, fun j s hs => ?_,
    .same streams (by rw [heap, Session.modify, List.length_modify]), fun h => die.trans h, handled,
    conn⟩
  rw [heap, Session.getElem?_modify]
  split
  · rename_i hkj
    subst hkj
    exact ⟨f s, by rw [hs]; rfl, move s hs⟩
  · exact ⟨s, hs, .refl s⟩

/-- `waitRead`: the error it returns, or none. -/
def waitRead (m : Session) (k : Nat) : Choice → Option (Session × Option IoErr)
  | .readEvent => m.heap[k]?.bind fun s =>
    if s.readEvent then some (m.modify k fun s => { s with readEvent := false }, none) else none
  | .finEvent => m.heap[k]?.bind fun s =>
    if s.finEvent then some (m, if s.buffers.isEmpty then some .eof else none) else none
  | .readError => m.socketReadError.map fun e => (m, some e)
  | .protoError => if m.protoError then some (m, some errInvalidProtocol) else none
  | .deadline => some (m, some errTimeout)
  | .die => m.heap[k]?.bind fun s => if s.die then some (m, some .closedPipe) else none
  | _ => none

/-- How `waitRead` can end. -/
inductive Waited (m : Session) (k : Nat) : Session → Option IoErr → Prop
  | event (s : Stream) (here : m.heap[k]? = some s) (ready : s.readEvent = true) :
      Waited m k (m.modify k fun s => { s with readEvent := false }) none
  | fin (s : Stream) (here : m.heap[k]? = some s) (ready : s.finEvent = true) :
      Waited m k m (if s.buffers.isEmpty then some .eof else none)
  | socket (e : IoErr) (ready : m.socketReadError = some e) : Waited m k m (some e)
  | other (e : IoErr) (not_eof : e ≠ .eof) : Waited m k m (some e)

theorem waitRead_spec {e : Option IoErr} (h : waitRead m k c = some (m', e)) :
    Waited m k m' e := by
  unfold waitRead at h
  cases c with
  | readEvent =>
    obtain ⟨s, hs, h⟩ := Option.bind_eq_some_iff.mp h
    split at h <;> cases h
    exact .event s hs ‹_›
  | finEvent =>
    obtain ⟨s, hs, h⟩ := Option.bind_eq_some_iff.mp h
    split at h <;> cases h
    exact .fin s hs ‹_›
  | readError =>
    obtain ⟨e, he, heq⟩ := Option.map_eq_some_iff.mp h
    cases heq
    exact .socket e he
  | protoError =>
    dsimp only at h
    split at h <;> cases h
    exact .other _ nofun
  | deadline =>
    cases h
    exact .other _ nofun
  | die =>
    obtain ⟨s, -, h⟩ := Option.bind_eq_some_iff.mp h
    split at h <;> cases h
    exact .other _ nofun
  | _ => cases h

/-- A step that leaves the streams and the tokens alone. -/
theorem Step.idle (same : (m'.heap, m'.bucket, m'.bucketNotify, m'.fixed)
      = (m.heap, m.bucket, m.bucketNotify, m.fixed))
    (owed : p'.owed = p.owed) (quiet : p.signals = false) : Step m p m' p' := by
  obtain ⟨heap, bucket, notify, fixed⟩ : m'.heap = m.heap ∧ m'.bucket = m.bucket ∧
      m'.bucketNotify = m.bucketNotify ∧ m'.fixed = m.fixed := by simpa using same
  refine .of_heap (.keep bucket ?_ (fun h => ?_) fun h => notify.trans h) heap fixed
  · rw [Session.buffered, Session.buffered, heap, owed]
  · rw [quiet] at h
    cases h

/-- A step that sets flags of one stream. -/
theorem Step.flag {f : Stream → Stream} (heap : m'.heap = (m.modify k f).heap)
    (same : (m'.bucket, m'.bucketNotify, m'.fixed) = (m.bucket, m.bucketNotify, m.fixed))
    (flags : ∀ s, Stream.Move s (f s))
    (buffers : ∀ s, (f s).buffers = s.buffers) (owed : p'.owed = p.owed)
    (quiet : p.signals = false) : Step m p m' p' := by
  obtain ⟨bucket, notify, fixed⟩ : m'.bucket = m.bucket ∧ m'.bucketNotify = m.bucketNotify ∧
      m'.fixed = m.fixed := by simpa using same
  refine .of_modify heap fixed (.keep bucket ?_ (fun h => ?_) fun h => notify.trans h)
    fun s _ => flags s
  · have hbuffered := m.buffered_modify_flags k buffers
    rw [Session.buffered] at hbuffered
    rw [Session.buffered, heap, hbuffered, owed]
  · rw [quiet] at h
    cases h

/-- Waiting for data. -/
theorem Waited.step {e : Option IoErr} (h : Waited m k m' e) (owed : p'.owed = p.owed)
    (quiet : p.signals = false) : Step m p m' p' := by
  cases h with
  | event s here ready =>
    exact .flag rfl rfl (fun s => ⟨rfl, rfl, rfl, rfl, rfl, fun h => ⟨h, rfl⟩⟩) (fun _ => rfl) owed
      quiet
  | fin s here ready | socket e ready | other e not_eof => exact .idle rfl owed quiet

/-- The critical section of a read: what leaves the buffers is in the hands of the goroutine. -/
theorem Step.consume {s : Stream} (hs : m.heap[k]? = some s)
    (owed : p.owed = 0) (owed' : p'.owed = (s.consume cfg cap).2.1.length)
    (quiet : p.signals = false) :
    Step m p (m.modify k fun _ => (s.consume cfg cap).1) p' := by
  obtain ⟨hmove, -, -⟩ := s.consume_spec cfg cap
  have hmod := m.buffered_modify hs fun _ => (s.consume cfg cap).1
  have hlen := s.length_consume cfg cap
  refine .of_modify rfl rfl (.keep rfl ?_ (fun h => ?_) id) fun t ht => ?_
  · rw [owed, owed']
    omega
  · rw [quiet] at h
    cases h
  · rw [hs] at ht
    cases ht
    exact hmove

/-! ### `Read` and `WriteTo` -/

/-- `Read`, after the tokens are returned. -/
def ReadPc.afterTokens (data : ReadData) (notifyConsumed : UInt32) : ReadPc :=
  if notifyConsumed > 0 then .updating data notifyConsumed else .returned data none

/-- `Read`, after `waitRead`. -/
def ReadPc.afterWait : Option IoErr → ReadPc
  | none => .tryRead
  | some e => .returned [] (some e)

/-- `Read` into a buffer of `cap` bytes. -/
def readStep (cfg : Verified) (m : Session) (k cap : Nat) :
    ReadPc → Choice → Option (Session × ReadPc)
  | .tryRead, .go =>
    if cap = 0 then some (m, .returned [] none)
    else
      m.heap[k]?.map fun s =>
        let r := s.consume cfg cap
        (m.modify k fun _ => r.1,
          if h : r.2.1 = [] then .empty else .owing ⟨r.2.1, h⟩ r.2.2)
  | .owing data notifyConsumed, .go =>
    let m := m.addTokens data.1.length
    some (m,
      if m.bucket > 0 then .signalling data notifyConsumed
      else .afterTokens data notifyConsumed)
  | .signalling data notifyConsumed, .go =>
    some (m.notifyBucket, .afterTokens data notifyConsumed)
  | .updating data notifyConsumed, .answers err =>
    m.heap[k]?.map fun s =>
      ({ m with requests := m.requests ++ [.upd s.id notifyConsumed] }, .returned data err)
  | .empty, .go =>
    m.heap[k]?.map fun s => (m, if s.die then .returned [] (some .eof) else .waiting)
  | .waiting, c => (waitRead m k c).map fun r => (r.1, .afterWait r.2)
  | _, _ => none

theorem owed_afterTokens (k cap : Nat) (data : ReadData) (notify : UInt32) :
    (Proc.read k cap (.afterTokens data notify)).owed = 0 := by
  unfold ReadPc.afterTokens
  split <;> rfl

theorem owed_afterWait (k cap : Nat) (e : Option IoErr) :
    (Proc.read k cap (.afterWait e)).owed = 0 := by
  cases e <;> rfl

theorem readStep_spec {pc pc' : ReadPc} (h : readStep cfg m k cap pc c = some (m', pc')) :
    Step m (.read k cap pc) m' (.read k cap pc') := by
  unfold readStep at h
  cases pc
  case waiting =>
    obtain ⟨⟨m₁, e⟩, hwait, heq⟩ := Option.map_eq_some_iff.mp h
    cases heq
    exact (waitRead_spec hwait).step (owed_afterWait k cap e) rfl
  all_goals cases c <;> try cases h
  case tryRead.go =>
    dsimp only at h
    split at h
    · cases h
      exact .idle rfl rfl rfl
    · obtain ⟨s, hs, heq⟩ := Option.map_eq_some_iff.mp h
      obtain ⟨rfl, rfl⟩ := Prod.mk.inj heq
      refine .consume hs rfl ?_ rfl
      split
      · rename_i hempty
        rw [hempty]
        rfl
      · rfl
  case owing.go data notify =>
    refine .of_heap (.back data.1.length rfl rfl rfl ?_ rfl ?_ rfl) rfl rfl
    · split
      · rfl
      · exact owed_afterTokens k cap data notify
    · intro hpos
      rw [if_pos hpos]
      rfl
  case signalling.go data notify =>
    refine .of_heap (.keep rfl ?_ (fun _ => rfl) fun _ => rfl) rfl rfl
    rw [owed_afterTokens]
    rfl
  case updating.answers data notify err =>
    obtain ⟨s, -, heq⟩ := Option.map_eq_some_iff.mp h
    cases heq
    exact .idle rfl rfl rfl
  case empty.go =>
    obtain ⟨s, -, heq⟩ := Option.map_eq_some_iff.mp h
    cases heq
    exact .idle rfl (by split <;> rfl) rfl

/-- `WriteTo`, after the tokens are returned. -/
def WriteToPc.afterTokens (notifyConsumed : UInt32) : Option IoErr → WriteToPc
  | some ew => .returned ew
  | none => if notifyConsumed > 0 then .updating notifyConsumed else .take

/-- `WriteTo`, after `sendWindowUpdate` or `waitRead`. -/
def WriteToPc.next : Option IoErr → WriteToPc
  | some e => .returned e
  | none => .take

/-- `WriteTo`, which has written `n` bytes so far. -/
def writeToStep (cfg : Verified) (m : Session) (k n : Nat) :
    WriteToPc → Choice → Option (Session × Nat × WriteToPc)
  | .take, .go =>
    m.heap[k]?.map fun s =>
      let r := s.consume cfg (s.buffers.headD []).length
      (m.modify k fun _ => r.1, n,
        if s.buffers.isEmpty then .waiting else .writing r.2.1 r.2.2)
  | .writing buf notifyConsumed, .wrote nw ew => some (m, n + nw, .owing buf notifyConsumed ew)
  | .owing buf notifyConsumed ew, .go =>
    let m := m.addTokens buf.length
    some (m, n,
      if m.bucket > 0 then .signalling notifyConsumed ew else .afterTokens notifyConsumed ew)
  | .signalling notifyConsumed ew, .go => some (m.notifyBucket, n, .afterTokens notifyConsumed ew)
  | .updating notifyConsumed, .answers err =>
    m.heap[k]?.map fun s =>
      ({ m with requests := m.requests ++ [.upd s.id notifyConsumed] }, n, .next err)
  | .waiting, c => (waitRead m k c).map fun r => (r.1, n, .next r.2)
  | _, _ => none

theorem owed_afterTokens_writeTo (k n : Nat) (notify : UInt32) (ew : Option IoErr) :
    (Proc.writeTo k n (.afterTokens notify ew)).owed = 0 := by
  unfold WriteToPc.afterTokens
  split
  · rfl
  · split <;> rfl

theorem owed_next (k n : Nat) (e : Option IoErr) : (Proc.writeTo k n (.next e)).owed = 0 := by
  cases e <;> rfl

theorem writeToStep_spec {n' : Nat} {pc pc' : WriteToPc}
    (h : writeToStep cfg m k n pc c = some (m', n', pc')) :
    Step m (.writeTo k n pc) m' (.writeTo k n' pc') := by
  unfold writeToStep at h
  cases pc
  case waiting =>
    obtain ⟨⟨m₁, e⟩, hwait, heq⟩ := Option.map_eq_some_iff.mp h
    cases heq
    exact (waitRead_spec hwait).step (owed_next k n e) rfl
  all_goals cases c <;> try cases h
  case take.go =>
    obtain ⟨s, hs, heq⟩ := Option.map_eq_some_iff.mp h
    obtain ⟨rfl, hpc⟩ := Prod.mk.inj heq
    obtain ⟨rfl, rfl⟩ := Prod.mk.inj hpc
    refine .consume hs rfl ?_ rfl
    split
    · rename_i hempty
      have hlen := s.length_consume cfg (s.buffers.headD []).length
      have hnil : s.buffered = [] := by rw [Stream.buffered, List.isEmpty_iff.mp hempty]; rfl
      rw [hnil, List.length_nil] at hlen
      show (0 : Int) = _
      omega
    · rfl
  case writing.wrote => exact .idle rfl rfl rfl
  case owing.go buf notify ew =>
    refine .of_heap (.back buf.length rfl rfl rfl ?_ rfl ?_ rfl) rfl rfl
    · split
      · rfl
      · exact owed_afterTokens_writeTo k n notify ew
    · intro hpos
      rw [if_pos hpos]
      rfl
  case signalling.go notify ew =>
    refine .of_heap (.keep rfl ?_ (fun _ => rfl) fun _ => rfl) rfl rfl
    rw [owed_afterTokens_writeTo]
    rfl
  case updating.answers notify err =>
    obtain ⟨s, -, heq⟩ := Option.map_eq_some_iff.mp h
    cases heq
    exact .idle rfl (owed_next k n err) rfl

/-! ### `Close` of a stream -/

/-- `streamClosed`, up to the return of the tokens: it is the stream of that id, which need not be
the one that is closed. -/
def streamClosed (me : Nat) (m : Session) (sid : UInt32) (err : Option IoErr) : Session × ClosePc :=
  match m.streams sid with
  | some k =>
    let n := ((m.heap[k]?.map Stream.buffered).getD []).length
    ({ m.modify k Stream.recycle with streamLock := some me },
      if n > 0 then .recycled n err else .deleting err)
  | none => (m, .returned err)

/-- What is buffered in the stream of the id goes to the goroutine. -/
theorem streamClosed_spec (me k : Nat) (m : Session) (sid : UInt32) (err : Option IoErr) :
    Step m (.close k (.lock err)) (streamClosed me m sid err).1
      (.close k (streamClosed me m sid err).2) := by
  unfold streamClosed
  dsimp only
  split
  · rename_i k' hk'
    refine .of_modify rfl rfl (.keep rfl ?_ nofun id) fun s _ => ⟨rfl, rfl, rfl, rfl, rfl, nofun⟩
    show ((m.modify k' Stream.recycle).buffered : Int) + _ = m.buffered + 0
    cases hs : m.heap[k']? with
    | none =>
      have hlen : m.heap.length ≤ k' := List.getElem?_eq_none_iff.mp hs
      rw [Session.modify, List.modify_eq_self hlen]
      rfl
    | some s =>
      have hmod := m.buffered_modify hs Stream.recycle
      have hnil : s.recycle.buffered.length = 0 := rfl
      rw [Option.map_some, Option.getD_some]
      split
      · show _ + (s.buffered.length : Int) = _
        omega
      · show _ + (0 : Int) = _
        omega
  · exact .idle rfl rfl rfl

/-- `Close` of a stream. -/
def closeStep (me : Nat) (m : Session) (k : Nat) : ClosePc → Choice → Option (Session × ClosePc)
  | .start, .go =>
    m.heap[k]?.map fun s =>
      if s.die then (m, .returned (some .closedPipe))
      else (m.modify k fun s => { s with die := true }, .fin)
  | .fin, .answers err =>
    m.heap[k]?.map fun s => ({ m with requests := m.requests ++ [.fin s.id] }, .lock err)
  | .lock err, .go =>
    if m.streamLock.isNone then m.heap[k]?.map fun s => streamClosed me m s.id err else none
  | .recycled n err, .go =>
    let m := m.addTokens n
    some (m, if m.bucket > 0 then .signalling err else .deleting err)
  | .signalling err, .go => some (m.notifyBucket, .deleting err)
  | .deleting err, .go =>
    m.heap[k]?.map fun s =>
      ({ m with streams := m.setStream s.id none, streamLock := none }, .returned err)
  | _, _ => none

theorem closeStep_spec {pc pc' : ClosePc} (h : closeStep me m k pc c = some (m', pc')) :
    Step m (.close k pc) m' (.close k pc') := by
  unfold closeStep at h
  cases pc <;> cases c <;> try cases h
  case start.go =>
    obtain ⟨s, -, heq⟩ := Option.map_eq_some_iff.mp h
    split at heq
    · cases heq
      exact .idle rfl rfl rfl
    · cases heq
      exact .flag rfl rfl (fun s => ⟨rfl, rfl, rfl, rfl, rfl, fun h => ⟨h, rfl⟩⟩) (fun _ => rfl) rfl
        rfl
  case fin.answers err =>
    obtain ⟨s, -, heq⟩ := Option.map_eq_some_iff.mp h
    cases heq
    exact .idle rfl rfl rfl
  case lock.go err =>
    dsimp only at h
    split at h
    · obtain ⟨s, -, heq⟩ := Option.map_eq_some_iff.mp h
      have hspec := streamClosed_spec me k m s.id err
      rw [heq] at hspec
      exact hspec
    · cases h
  case recycled.go n err =>
    refine .of_heap (.back n rfl rfl rfl ?_ rfl ?_ rfl) rfl rfl
    · split <;> rfl
    · intro hpos
      rw [if_pos hpos]
      rfl
  case signalling.go => exact .of_heap (.keep rfl rfl (fun _ => rfl) fun _ => rfl) rfl rfl
  case deleting.go =>
    obtain ⟨s, hs, heq⟩ := Option.map_eq_some_iff.mp h
    cases heq
    exact ⟨.keep rfl rfl nofun id, fun j s hs => ⟨s, hs, .refl s⟩,
      .delete k s _ rfl hs rfl rfl, id, rfl, rfl⟩

/-! ### `OpenStream` and `AcceptStream` -/

/-- `OpenStream`, with `streamLock` free, at the `select`. The stream is made here: nobody else has
it before. -/
def register (m : Session) (sid : UInt32) : Choice → Option (Session × OpenPc)
  | .readError => m.socketReadError.map fun e => (m, .returned (.error e))
  | .writeError => m.socketWriteError.map fun e => (m, .returned (.error e))
  | .die => if m.die then some (m, .returned (.error .closedPipe)) else none
  | .go =>
    if m.socketReadError.isNone ∧ m.socketWriteError.isNone ∧ ¬ m.die then
      some ({ m with heap := m.heap ++ [{ id := sid, since := m.handled.length, opened := true }],
                     streams := m.setStream sid (some m.heap.length),
                     handed := m.handed ++ [m.heap.length] },
        .returned (.ok m.heap.length))
    else none
  | _ => none

/-- A stream that is registered is a new one. -/
theorem register_spec {sid : UInt32} {pc' : OpenPc} (h : register m sid c = some (m', pc')) :
    Step m (.openStream (.register sid)) m' (.openStream pc') := by
  unfold register at h
  cases c with
  | readError | writeError =>
    obtain ⟨e, -, heq⟩ := Option.map_eq_some_iff.mp h
    cases heq
    exact .idle rfl rfl rfl
  | die =>
    dsimp only at h
    split at h <;> cases h
    exact .idle rfl rfl rfl
  | go =>
    dsimp only at h
    split at h <;> cases h
    refine ⟨.keep rfl ?_ nofun id, fun j s hs => ?_, .register sid rfl rfl rfl, id, rfl, rfl⟩
    · rw [Session.buffered_concat (m := m) rfl]
      rfl
    · have hlt := (List.getElem?_eq_some_iff.mp hs).1
      refine ⟨s, ?_, .refl s⟩
      show (m.heap ++ _)[j]? = _
      rw [List.getElem?_append_left hlt, hs]
  | _ => cases h

/-- `OpenStream`. -/
def openStep (m : Session) : OpenPc → Choice → Option (Session × OpenPc)
  | .start, .go => some (m, if m.die then .returned (.error .closedPipe) else .number)
  | .number, .go =>
    if m.goAway then some (m, .returned (.error errGoAway))
    else
      let sid := m.nextStreamID + 2
      if sid = sid % 2 then
        some ({ m with nextStreamID := sid, goAway := true }, .returned (.error errGoAway))
      else some ({ m with nextStreamID := sid }, .syn sid)
  | .syn sid, .answers err =>
    some ({ m with requests := m.requests ++ [.syn sid] },
      match err with
      | some e => .returned (.error e)
      | none => .register sid)
  | .register sid, c => if m.streamLock.isNone then register m sid c else none
  | _, _ => none

theorem openStep_spec {pc pc' : OpenPc} (h : openStep m pc c = some (m', pc')) :
    Step m (.openStream pc) m' (.openStream pc') := by
  unfold openStep at h
  cases pc
  case register sid =>
    dsimp only at h
    split at h
    · exact register_spec h
    · cases h
  all_goals cases c <;> try cases h
  case number.go =>
    dsimp only at h
    split at h
    · cases h
      exact .idle rfl rfl rfl
    · split at h <;> (cases h; exact .idle rfl rfl rfl)
  case start.go | syn.answers => exact .idle rfl rfl rfl

/-- `AcceptStream`. -/
def acceptStep (m : Session) : AcceptPc → Choice → Option (Session × AcceptPc)
  | .waiting, .accepts =>
    m.chAccepts.head?.map fun k =>
      ({ m with chAccepts := m.chAccepts.tail, handed := m.handed ++ [k] }, .returned (.ok k))
  | .waiting, .deadline => some (m, .returned (.error errTimeout))
  | .waiting, .readError => m.socketReadError.map fun e => (m, .returned (.error e))
  | .waiting, .protoError =>
    if m.protoError then some (m, .returned (.error errInvalidProtocol)) else none
  | .waiting, .die => if m.die then some (m, .returned (.error .closedPipe)) else none
  | _, _ => none

theorem acceptStep_spec {pc pc' : AcceptPc} (h : acceptStep m pc c = some (m', pc')) :
    Step m (.acceptStream pc) m' (.acceptStream pc') := by
  unfold acceptStep at h
  cases pc <;> cases c <;> try cases h
  case waiting.accepts | waiting.readError =>
    obtain ⟨k, -, heq⟩ := Option.map_eq_some_iff.mp h
    cases heq
    exact .idle rfl rfl rfl
  case waiting.deadline => exact .idle rfl rfl rfl
  case waiting.protoError | waiting.die =>
    dsimp only at h
    split at h <;> cases h
    exact .idle rfl rfl rfl

/-! ### `Close` of a session, and the keep-alive -/

/-- `Close` of the session; the map of streams is ranged over in any order. What `conn.Close` does
to the reads shows as their failure. -/
def sessionCloseStep (me : Nat) (m : Session) :
    SessionClosePc → Choice → Option (Session × SessionClosePc)
  | .start, .go =>
    if m.die then some (m, .returned (some .closedPipe)) else some ({ m with die := true }, .lock)
  | .lock, .go =>
    if m.streamLock.isNone then
      some ({ m with streamLock := some me },
        .closing ((List.range m.heap.length).filter fun k =>
          m.heap[k]?.any fun s => m.streams s.id = some k))
    else none
  | .closing rest, .entry k =>
    if k ∈ rest then some (m.modify k fun s => { s with die := true }, .closing (rest.erase k))
    else none
  | .closing [], .answers err => some ({ m with streamLock := none }, .returned err)
  | _, _ => none

theorem sessionCloseStep_spec {pc pc' : SessionClosePc}
    (h : sessionCloseStep me m pc c = some (m', pc')) :
    Step m (.sessionClose pc) m' (.sessionClose pc') := by
  unfold sessionCloseStep at h
  cases pc <;> cases c <;> try cases h
  case start.go =>
    dsimp only at h
    split at h
    · cases h
      exact .idle rfl rfl rfl
    · cases h
      exact ⟨.keep rfl rfl nofun id, fun _ s hs => ⟨s, hs, .refl s⟩, .same rfl rfl,
        fun _ => rfl, rfl, rfl⟩
  case lock.go =>
    dsimp only at h
    split at h <;> cases h
    exact .idle rfl rfl rfl
  case closing.entry rest k =>
    dsimp only at h
    split at h <;> cases h
    exact .flag rfl rfl (fun s => ⟨rfl, rfl, rfl, rfl, rfl, fun h => ⟨h, rfl⟩⟩) (fun _ => rfl) rfl
      rfl
  case closing.answers rest err =>
    cases rest with
    | nil =>
      cases h
      exact .idle rfl rfl rfl
    | cons k rest => cases h

/-- `keepalive`; it ends as the `Close` it calls. -/
def keepaliveStep (m : Session) : KeepalivePc → Choice → Option (Session × Proc)
  | .select, .tickerPing => some (m, .keepalive .ping)
  | .select, .tickerTimeout =>
    if m.dataReady then some ({ m with dataReady := false }, .keepalive .select)
    else some (m, .keepalive .expired)
  | .expired, .go =>
    some (m, if m.bucket > 0 then .sessionClose .start else .keepalive .select)
  | .select, .die => if m.die then some (m, .keepalive .returned) else none
  | .ping, .answers _ => some ({ m with requests := m.requests ++ [.nop] }, .keepalive .notify)
  | .notify, .go => some (m.notifyBucket, .keepalive .select)
  | _, _ => none

theorem keepaliveStep_spec {pc : KeepalivePc} (h : keepaliveStep m pc c = some (m', p')) :
    Step m (.keepalive pc) m' p' ∧
      ((∃ pc', p' = .keepalive pc') ∨ p' = .sessionClose .start) := by
  unfold keepaliveStep at h
  cases pc <;> cases c <;> try cases h
  case select.tickerPing | ping.answers => exact ⟨.idle rfl rfl rfl, .inl ⟨_, rfl⟩⟩
  case select.tickerTimeout =>
    dsimp only at h
    split at h <;> (cases h; exact ⟨.idle rfl rfl rfl, .inl ⟨_, rfl⟩⟩)
  case select.die =>
    dsimp only at h
    split at h <;> cases h
    exact ⟨.idle rfl rfl rfl, .inl ⟨_, rfl⟩⟩
  case notify.go => exact ⟨.of_heap (.keep rfl rfl nofun fun _ => rfl) rfl rfl, .inl ⟨_, rfl⟩⟩
  case expired.go =>
    refine ⟨.idle rfl (by split <;> rfl) rfl, ?_⟩
    split
    · exact .inr rfl
    · exact .inl ⟨_, rfl⟩

end Step

/-! ### The steps of `recvLoop` -/

namespace RecvPc

/-- The bucket was not empty when this packet was begun, or the session was closed. -/
def charged : RecvPc → Bool
  | header | body _ | locking _ _ | pushed _ _ => true
  | _ => false

/-- What has been read of a packet that is not handled yet. -/
def taken : RecvPc → List UInt8
  | body h => h.bytes
  | locking h data => h.bytes ++ data
  | _ => []

/-- What is known of a packet when its body is read. -/
def Wf (cfg : Verified) : RecvPc → Prop
  | body h => h.Known cfg.version
  | locking h data => h.Known cfg.version ∧ data.length = h.bodyLength
  | pushed _ written => written ≤ 65535
  | _ => True

def isPushed : RecvPc → Bool
  | pushed _ _ => true
  | _ => false

end RecvPc

/-- The packet is of no consequence for the streams that are registered. -/
def Ignored (m : Session) (h : RawHeader) (body : List UInt8) : Prop :=
  (h.cmd = cmdPSH → body = [] ∨ m.streams h.streamID = none) ∧
    (h.cmd = cmdFIN → m.streams h.streamID = none)

/-- Streams and tokens are as they were. -/
structure Same (m m' : Session) : Prop where
  heap : m'.heap = m.heap
  streams : m'.streams = m.streams
  bucket : m'.bucket = m.bucket
  die : m'.die = m.die

/-- What a step of `recvLoop` does. -/
inductive RecvStep (cfg : Verified) (me : Nat) (m : Session) :
    RecvPc → Session → RecvPc → Prop
  /-- It goes on, or ends, and streams and tokens are as they were. -/
  | quiet {pc pc' : RecvPc} {m' : Session} (going : pc ≠ .returned) (same : Same m m')
      (handled : m'.handled = m.handled) (settled : pc.isPushed = false ∧ pc'.isPushed = false)
      (charged : pc'.charged = true → pc.charged = true ∨ 0 < m.bucket ∨ m.die = true)
      (waits : pc' = .wait → m.bucket ≤ 0)
      (input : pc' ≠ .returned → pc'.taken ++ m'.conn.data = pc.taken ++ m.conn.data)
      (wf : pc.Wf cfg → pc'.Wf cfg) : RecvStep cfg me m pc m' pc'
  /-- It is done with a packet that is for none of them. -/
  | ignored {pc : RecvPc} {m' : Session} (h : RawHeader) (body : List UInt8)
      (going : pc ≠ .returned) (same : Same m m')
      (handled : m'.handled = m.handled ++ [(h, body)]) (settled : pc.isPushed = false)
      (why : Ignored m h body) (input : h.bytes ++ body ++ m'.conn.data = pc.taken ++ m.conn.data)
      (wf : pc.Wf cfg → h.Known cfg.version ∧ body.length = h.bodyLength) :
      RecvStep cfg me m pc m' .check
  | created (h : RawHeader) (body : List UInt8) (cmd : h.cmd = cmdSYN)
      (new : m.streams h.streamID = none) :
      RecvStep cfg me m (.locking h body)
        { m with handled := m.handled ++ [(h, body)],
                 heap := m.heap ++ [{ id := h.streamID, since := m.handled.length + 1 }],
                 streams := m.setStream h.streamID (some m.heap.length), streamLock := some me }
        (.accepting m.heap.length)
  | finned (h : RawHeader) (body : List UInt8) (k : Nat) (cmd : h.cmd = cmdFIN)
      (here : m.streams h.streamID = some k) :
      RecvStep cfg me m (.locking h body)
        { m.modify k Stream.fin with handled := m.handled ++ [(h, body)], streamLock := some me }
        (.finned k)
  | pushed (h : RawHeader) (body : List UInt8) (k : Nat) (cmd : h.cmd = cmdPSH)
      (here : m.streams h.streamID = some k) :
      RecvStep cfg me m (.locking h body)
        { m.modify k (Stream.pushBytes · body) with
            handled := m.handled ++ [(h, body)], streamLock := some me }
        (.pushed k body.length)
  | updated (h : RawHeader) (body : List UInt8) (k : Nat) (consumed window : UInt32)
      (cmd : h.cmd ≠ cmdPSH ∧ h.cmd ≠ cmdFIN) (here : m.streams h.streamID = some k) :
      RecvStep cfg me m (.locking h body)
        { m.modify k (Stream.update · consumed window) with handled := m.handled ++ [(h, body)] }
        .check
  | deducted (k written : Nat) :
      RecvStep cfg me m (.pushed k written) (m.addTokens (-written)) (.deducted k)
  | notified {pc : RecvPc} (k : Nat) (before : pc = .finned k ∨ pc = .deducted k) :
      RecvStep cfg me m pc { m.modify k Stream.notifyReadEvent with streamLock := none } .check

section Recv

variable {cfg : Verified} {me : Nat} {m m' : Session} {pc pc' : RecvPc} {c : Choice}

/-- It returns. -/
theorem RecvStep.ends (going : pc ≠ .returned) (same : Same m m') (handled : m'.handled = m.handled)
    (settled : pc.isPushed = false) : RecvStep cfg me m pc m' .returned :=
  .quiet going same handled ⟨settled, rfl⟩ nofun nofun (absurd rfl) fun _ => trivial

/-- `recvLoop`, with `streamLock` free, at the critical section of a command. -/
def handle (me : Nat) (m : Session) (h : RawHeader) (body : List UInt8) : Session × RecvPc :=
  let m := { m with handled := m.handled ++ [(h, body)] }
  let sid := h.streamID
  if h.cmd = cmdSYN then
    match m.streams sid with
    | none =>
      ({ m with heap := m.heap ++ [{ id := sid, since := m.handled.length }],
                streams := m.setStream sid (some m.heap.length), streamLock := some me },
        .accepting m.heap.length)
    | some _ => (m, .check)
  else if h.cmd = cmdFIN then
    match m.streams sid with
    | some k => ({ m.modify k Stream.fin with streamLock := some me }, .finned k)
    | none => (m, .check)
  else if h.cmd = cmdPSH then
    match m.streams sid with
    | some k =>
      ({ m.modify k (Stream.pushBytes · body) with streamLock := some me },
        .pushed k body.length)
    | none => (m, .check)
  else
    -- `cmdUPD`
    match m.streams sid with
    | some k =>
      (m.modify k (Stream.update · (UInt32.ofNat (littleEndian (body.take 4)))
        (UInt32.ofNat (littleEndian (body.drop 4)))), .check)
    | none => (m, .check)

theorem handle_spec (cfg : Verified) (me : Nat) (m : Session) (h : RawHeader)
    (body : List UInt8) :
    RecvStep cfg me m (.locking h body) (handle me m h body).1 (handle me m h body).2 := by
  have ignored : ∀ {m' : Session}, m' = { m with handled := m.handled ++ [(h, body)] } →
      Ignored m h body → RecvStep cfg me m (.locking h body) m' .check := by
    rintro m' rfl why
    exact .ignored h body nofun ⟨rfl, rfl, rfl, rfl⟩ rfl rfl why rfl id
  unfold handle
  dsimp only
  split
  · rename_i hcmd
    split
    · rename_i hnew
      have hlen : (m.handled ++ [(h, body)]).length = m.handled.length + 1 := by simp
      rw [hlen]
      exact .created h body hcmd hnew
    · refine ignored rfl ⟨fun h' => ?_, fun h' => ?_⟩ <;>
        exact absurd (hcmd.symm.trans h') (by decide)
  · split
    · rename_i hcmd
      split
      · rename_i k hk
        exact .finned h body k hcmd hk
      · rename_i hnone
        exact ignored rfl ⟨fun h' => absurd (hcmd.symm.trans h') (by decide), fun _ => hnone⟩
    · rename_i hfin
      split
      · rename_i hcmd
        split
        · rename_i k hk
          exact .pushed h body k hcmd hk
        · rename_i hnone
          exact ignored rfl ⟨fun _ => .inr hnone, fun h' => absurd h' hfin⟩
      · rename_i hpsh
        split
        · rename_i k hk
          exact .updated h body k _ _ ⟨hpsh, hfin⟩ hk
        · exact ignored rfl ⟨fun h' => absurd h' hpsh, fun h' => absurd h' hfin⟩

/-- `recvLoop`, after a header. -/
def afterHeader (cfg : Verified) (m : Session) (h : RawHeader) : Session × RecvPc :=
  let m := { m with dataReady := true }
  if h.version ≠ cfg.version then (m.notifyProtoError, .returned)
  else if h.cmd = cmdNOP then ({ m with handled := m.handled ++ [(h, [])] }, .check)
  else if h.cmd = cmdSYN ∨ h.cmd = cmdFIN then (m, .locking h [])
  else if h.cmd = cmdPSH then
    if h.length > 0 then (m, .body h)
    else ({ m with handled := m.handled ++ [(h, [])] }, .check)
  else if h.cmd = cmdUPD then (m, .body h)
  else (m.notifyProtoError, .returned)

theorem afterHeader_spec (cfg : Verified) (me : Nat) {h : RawHeader} {rest : List UInt8}
    (hdata : m.conn.data = h.bytes ++ rest) :
    RecvStep cfg me m .header
      (afterHeader cfg { m with conn := { m.conn with data := rest } } h).1
      (afterHeader cfg { m with conn := { m.conn with data := rest } } h).2 := by
  -- a packet without a body
  have bare : ∀ {m' : Session}, h.bodyLength = 0 → h.Known cfg.version →
      m' = { m with conn := { m.conn with data := rest }, dataReady := true,
                    handled := m.handled ++ [(h, [])] } →
      Ignored m h [] → RecvStep cfg me m .header m' .check := by
    rintro m' hlen known rfl why
    refine .ignored h [] nofun ⟨rfl, rfl, rfl, rfl⟩ rfl rfl why ?_ fun _ => ⟨known, hlen.symm⟩
    rw [List.append_nil]
    exact hdata.symm
  have reads : ∀ {m' : Session} {pc : RecvPc},
      m' = { m with conn := { m.conn with data := rest }, dataReady := true } →
      (pc = .body h ∨ pc = .locking h [] ∧ h.bodyLength = 0) → h.Known cfg.version →
      RecvStep cfg me m .header m' pc := by
    rintro m' pc rfl hpc known
    rcases hpc with rfl | ⟨rfl, hlen⟩
    · exact .quiet nofun ⟨rfl, rfl, rfl, rfl⟩ rfl ⟨rfl, rfl⟩ (fun _ => .inl rfl) nofun
        (fun _ => hdata.symm) fun _ => known
    · refine .quiet nofun ⟨rfl, rfl, rfl, rfl⟩ rfl ⟨rfl, rfl⟩ (fun _ => .inl rfl) nofun
        (fun _ => ?_) fun _ => ⟨known, hlen.symm⟩
      show h.bytes ++ [] ++ rest = _
      rw [List.append_nil]
      exact hdata.symm
  have ends : ∀ {m' : Session},
      m' = { m with conn := { m.conn with data := rest }, dataReady := true, protoError := true } →
      RecvStep cfg me m .header m' .returned := by
    rintro m' rfl
    exact .ends nofun ⟨rfl, rfl, rfl, rfl⟩ rfl rfl
  unfold afterHeader
  dsimp only
  split
  · exact ends rfl
  · rename_i hver
    have hver : h.version = cfg.version := by simpa using hver
    split
    · rename_i hcmd
      refine bare ?_ ⟨hver, by simp [hcmd]⟩ rfl ⟨fun h' => ?_, fun h' => ?_⟩
      · rw [RawHeader.bodyLength, hcmd]
        rfl
      all_goals exact absurd (hcmd.symm.trans h') (by decide)
    · split
      · rename_i hcmd
        refine reads rfl (.inr ⟨rfl, ?_⟩) ⟨hver, ?_⟩
        · rcases hcmd with hcmd | hcmd <;> (rw [RawHeader.bodyLength, hcmd]; rfl)
        · rcases hcmd with hcmd | hcmd <;> simp [hcmd]
      · split
        · rename_i hcmd
          split
          · exact reads rfl (.inl rfl) ⟨hver, by simp [hcmd]⟩
          · rename_i hlen
            refine bare ?_ ⟨hver, by simp [hcmd]⟩ rfl ⟨fun _ => .inl rfl, fun h' => ?_⟩
            · rw [RawHeader.bodyLength, if_pos hcmd]
              omega
            · exact absurd (hcmd.symm.trans h') (by decide)
        · split
          · rename_i hcmd
            exact reads rfl (.inl rfl) ⟨hver, by simp [hcmd]⟩
          · exact ends rfl

/-- `recvLoop`. -/
def recvStep (cfg : Verified) (me : Nat) (m : Session) : RecvPc → Choice → Option (Session × RecvPc)
  | .check, .go => some (m, if m.bucket ≤ 0 ∧ ¬ m.die then .wait else .header)
  | .wait, .bucketNotify =>
    if m.bucketNotify then some ({ m with bucketNotify := false }, .check) else none
  | .wait, .die => if m.die then some (m, .returned) else none
  | .header, .go =>
    (readHeader m.conn.data).map fun r =>
      afterHeader cfg { m with conn := { m.conn with data := r.2 } } r.1
  | .header, .fails e | .body _, .fails e => some (m.notifyReadError e, .returned)
  | .body h, .go =>
    if h.bodyLength ≤ m.conn.data.length then
      some ({ m with conn := { m.conn with data := m.conn.data.drop h.bodyLength } },
        .locking h (m.conn.data.take h.bodyLength))
    else none
  | .locking h body, .go => if m.streamLock.isNone then some (handle me m h body) else none
  | .accepting k, .accepts =>
    if m.chAccepts.length < defaultAcceptBacklog then
      some ({ m with chAccepts := m.chAccepts ++ [k], streamLock := none }, .check)
    else none
  | .accepting _, .die => if m.die then some ({ m with streamLock := none }, .check) else none
  | .finned k, .go =>
    some ({ m.modify k Stream.notifyReadEvent with streamLock := none }, .check)
  | .pushed k written, .go => some (m.addTokens (-written), .deducted k)
  | .deducted k, .go =>
    some ({ m.modify k Stream.notifyReadEvent with streamLock := none }, .check)
  | _, _ => none

theorem recvStep_spec (h : recvStep cfg me m pc c = some (m', pc')) :
    RecvStep cfg me m pc m' pc' := by
  unfold recvStep at h
  cases pc <;> cases c <;> try cases h
  case check.go =>
    split
    · rename_i hbucket
      exact .quiet nofun ⟨rfl, rfl, rfl, rfl⟩ rfl ⟨rfl, rfl⟩ nofun (fun _ => hbucket.1)
        (fun _ => rfl) fun _ => trivial
    · rename_i hbucket
      refine .quiet nofun ⟨rfl, rfl, rfl, rfl⟩ rfl ⟨rfl, rfl⟩ (fun _ => .inr ?_) nofun
        (fun _ => rfl) fun _ => trivial
      by_cases hdie : m.die = true
      · exact .inr hdie
      · left
        by_contra hle
        exact hbucket ⟨by omega, hdie⟩
  case wait.bucketNotify | accepting.accepts | accepting.die =>
    dsimp only at h
    split at h <;> cases h
    exact .quiet nofun ⟨rfl, rfl, rfl, rfl⟩ rfl ⟨rfl, rfl⟩ nofun nofun (fun _ => rfl)
      fun _ => trivial
  case wait.die =>
    dsimp only at h
    split at h <;> cases h
    exact .ends nofun ⟨rfl, rfl, rfl, rfl⟩ rfl rfl
  case header.fails | body.fails => exact .ends nofun ⟨rfl, rfl, rfl, rfl⟩ rfl rfl
  case header.go =>
    obtain ⟨⟨hdr, rest⟩, hread, heq⟩ := Option.map_eq_some_iff.mp h
    have hspec := afterHeader_spec cfg me (readHeader_eq_some hread)
    dsimp only at heq
    rw [heq] at hspec
    exact hspec
  case body.go hdr =>
    dsimp only at h
    split at h <;> cases h
    rename_i hle
    refine .quiet nofun ⟨rfl, rfl, rfl, rfl⟩ rfl ⟨rfl, rfl⟩ (fun _ => .inl rfl) nofun (fun _ => ?_)
      fun known => ⟨known, List.length_take_of_le hle⟩
    show hdr.bytes ++ _ ++ _ = _
    rw [List.append_assoc, List.take_append_drop]
    rfl
  case locking.go hdr body =>
    dsimp only at h
    split at h
    · have hspec := handle_spec cfg me m hdr body
      rw [Option.some.inj h] at hspec
      exact hspec
    · cases h
  case finned.go k => exact .notified k (.inl rfl)
  case pushed.go k written => exact .deducted k written
  case deducted.go k => exact .notified k (.inr rfl)

theorem RecvStep.wf (step : RecvStep cfg me m pc m' pc') (wf : pc.Wf cfg) : pc'.Wf cfg := by
  cases step with
  | quiet going same handled settled charged waits input wf' => exact wf' wf
  | pushed h body k cmd here =>
    show body.length ≤ 65535
    rw [wf.2, RawHeader.bodyLength, if_pos cmd]
    exact Nat.le_of_lt_succ h.length_lt
  | _ => trivial

/-- A step of `recvLoop` reads on, or is done with a packet. -/
theorem RecvStep.input (step : RecvStep cfg me m pc m' pc') (wf : pc.Wf cfg) :
    pc ≠ .returned ∧
      ((m'.handled = m.handled ∧
          (pc' ≠ .returned → pc'.taken ++ m'.conn.data = pc.taken ++ m.conn.data)) ∨
        ∃ h body, m'.handled = m.handled ++ [(h, body)] ∧
          h.bytes ++ body ++ (pc'.taken ++ m'.conn.data) = pc.taken ++ m.conn.data ∧
          h.Known cfg.version ∧ body.length = h.bodyLength) := by
  cases step with
  | quiet going same handled settled charged waits input =>
    exact ⟨going, .inl ⟨handled, input⟩⟩
  | ignored h body going same handled settled why input known =>
    exact ⟨going, .inr ⟨h, body, handled, input, known wf⟩⟩
  | created h body cmd new | finned h body k cmd here | pushed h body k cmd here
  | updated h body k consumed window cmd here => exact ⟨nofun, .inr ⟨h, body, rfl, rfl, wf⟩⟩
  | deducted k written => exact ⟨nofun, .inl ⟨rfl, fun _ => rfl⟩⟩
  | notified k before =>
    rcases before with rfl | rfl <;> exact ⟨nofun, .inl ⟨rfl, fun _ => rfl⟩⟩

end Recv

/-! ### The program -/

/-- What can be started: calls on the session, and on the streams it has handed out. A `Close` by
the finalizer of a stream is one of these, too. -/
def startable (m : Session) : Proc → Bool
  | .read k _ .tryRead => m.handed.contains k
  | .writeTo k 0 .take => m.handed.contains k
  | .close k .start => m.handed.contains k
  | .openStream .start => true
  | .acceptStream .waiting => true
  | .sessionClose .start => true
  | _ => false

def program (cfg : Verified) : Goroutines.Program Session Proc Choice where
  start := startable
  step me m
    | .recvLoop pc, c => (recvStep cfg me m pc c).map fun r => (r.1, .recvLoop r.2)
    | .read k cap pc, c => (readStep cfg m k cap pc c).map fun r => (r.1, .read k cap r.2)
    | .writeTo k n pc, c =>
      (writeToStep cfg m k n pc c).map fun r => (r.1, .writeTo k r.2.1 r.2.2)
    | .close k pc, c => (closeStep me m k pc c).map fun r => (r.1, .close k r.2)
    | .openStream pc, c => (openStep m pc c).map fun r => (r.1, .openStream r.2)
    | .acceptStream pc, c => (acceptStep m pc c).map fun r => (r.1, .acceptStream r.2)
    | .sessionClose pc, c => (sessionCloseStep me m pc c).map fun r => (r.1, .sessionClose r.2)
    | .keepalive pc, c => keepaliveStep m pc c
    | .sendLoop false, .fails e => some (m.notifyWriteError e, .sendLoop true)
    | .sendLoop _, _ => none

abbrev Act := Goroutines.Act Proc Choice

def machine (cfg : Verified) : Machine (Goroutines Session Proc) Act :=
  Goroutines.machine (program cfg)

/-- `newSession`, and the goroutines it starts. -/
def newSession (cfg : Verified) (conn : Source) (client : Bool) : Goroutines Session Proc where
  shared :=
    { bucket := wrap32 cfg.maxReceiveBuffer
      nextStreamID := if client then 1 else 0
      conn := conn }
  procs :=
    [.recvLoop .check, .sendLoop false] ++
      if cfg.config.keepAliveDisabled then [] else [.keepalive .select]

/-- What a step of a goroutine other than `recvLoop` does. -/
theorem step_spec {cfg : Verified} {me : Nat} {m m' : Session} {c : Choice} {p p' : Proc}
    (hp : p.isRecv = false) (h : (program cfg).step me m p c = some (m', p')) :
    Step m p m' p' ∧ p'.isRecv = false := by
  cases p with
  | recvLoop pc => cases hp
  | read k cap pc =>
    obtain ⟨⟨m₁, pc'⟩, hstep, heq⟩ := Option.map_eq_some_iff.mp h
    cases heq
    exact ⟨readStep_spec hstep, rfl⟩
  | writeTo k n pc =>
    obtain ⟨⟨m₁, n', pc'⟩, hstep, heq⟩ := Option.map_eq_some_iff.mp h
    cases heq
    exact ⟨writeToStep_spec hstep, rfl⟩
  | close k pc =>
    obtain ⟨⟨m₁, pc'⟩, hstep, heq⟩ := Option.map_eq_some_iff.mp h
    cases heq
    exact ⟨closeStep_spec hstep, rfl⟩
  | openStream pc =>
    obtain ⟨⟨m₁, pc'⟩, hstep, heq⟩ := Option.map_eq_some_iff.mp h
    cases heq
    exact ⟨openStep_spec hstep, rfl⟩
  | acceptStream pc =>
    obtain ⟨⟨m₁, pc'⟩, hstep, heq⟩ := Option.map_eq_some_iff.mp h
    cases heq
    exact ⟨acceptStep_spec hstep, rfl⟩
  | sessionClose pc =>
    obtain ⟨⟨m₁, pc'⟩, hstep, heq⟩ := Option.map_eq_some_iff.mp h
    cases heq
    exact ⟨sessionCloseStep_spec hstep, rfl⟩
  | keepalive pc =>
    obtain ⟨hspec, hp'⟩ := keepaliveStep_spec h
    refine ⟨hspec, ?_⟩
    rcases hp' with ⟨pc', rfl⟩ | rfl <;> rfl
  | sendLoop failed =>
    cases failed <;> cases c <;> cases h
    exact ⟨.idle rfl rfl rfl, rfl⟩

/-! ### The whole session -/

/-- A session with all its goroutines. -/
abbrev System := Goroutines Session Proc

namespace System

/-- `recvLoop` is the first goroutine, and the only one of its kind. -/
structure OneRecv (cfg : Verified) (s : System) : Prop where
  first : ∃ pc, s.procs[0]? = some (.recvLoop pc) ∧ pc.Wf cfg
  only : ∀ i p, s.procs[i]? = some p → p.isRecv = true → i = 0

variable {cfg : Verified} {s s' : System} {a : Act} {i : Nat} {p : Proc}

theorem OneRecv.wf (one : OneRecv cfg s) {pc : RecvPc} (h : s.procs[0]? = some (.recvLoop pc)) :
    pc.Wf cfg := by
  obtain ⟨pc', h', wf⟩ := one.first
  rw [h] at h'
  cases h'
  exact wf

theorem OneRecv.ne_zero (one : OneRecv cfg s) (hp : s.procs[i]? = some p)
    (hrecv : p.isRecv = false) : i ≠ 0 := by
  rintro rfl
  obtain ⟨pc, hpc, -⟩ := one.first
  rw [hpc] at hp
  cases hp
  cases hrecv

/-- What can be started holds nothing and has done nothing. -/
theorem startable_spec {m : Session} (h : startable m p = true) :
    p.isRecv = false ∧ p.owed = 0 ∧ p.signals = false := by
  unfold startable at h
  split at h
  all_goals first
    | exact ⟨rfl, rfl, rfl⟩
    | cases h

/-- What can happen in a session, and what is the first goroutine then. -/
inductive Happens (cfg : Verified) (s : System) : System → Prop
  | go (p : Proc) (start : startable s.shared p = true)
      (first : (s.procs ++ [p])[0]? = s.procs[0]?) : Happens cfg s ⟨s.shared, s.procs ++ [p]⟩
  | recv {pc pc' : RecvPc} {m' : Session} (here : s.procs[0]? = some (.recvLoop pc))
      (step : RecvStep cfg 0 s.shared pc m' pc')
      (first : (s.procs.set 0 (.recvLoop pc'))[0]? = some (.recvLoop pc')) :
      Happens cfg s ⟨m', s.procs.set 0 (.recvLoop pc')⟩
  | other {i : Nat} {p p' : Proc} {m' : Session} {c : Choice} (here : s.procs[i]? = some p)
      (isRecv : p.isRecv = false) (isRecv' : p'.isRecv = false)
      (program : (program cfg).step i s.shared p c = some (m', p'))
      (step : Step s.shared p m' p') (first : (s.procs.set i p')[0]? = s.procs[0]?) :
      Happens cfg s ⟨m', s.procs.set i p'⟩

theorem happens_of_step (one : OneRecv cfg s) (h : (machine cfg).step s a = some s') :
    Happens cfg s s' := by
  obtain ⟨pc₀, hpc₀, -⟩ := one.first
  have hlt : 0 < s.procs.length := (List.getElem?_eq_some_iff.mp hpc₀).1
  obtain ⟨p, rfl, hstart, rfl⟩ | ⟨i, c, p, m', p', rfl, hp, hproc, rfl⟩ := Goroutines.step_cases h
  · exact .go p hstart (List.getElem?_append_left hlt)
  · cases hrecv : p.isRecv with
    | true =>
      cases one.only i p hp hrecv
      cases p with
      | recvLoop pc =>
        obtain ⟨⟨m₁, pc'⟩, hstep, heq⟩ := Option.map_eq_some_iff.mp hproc
        cases heq
        exact .recv hp (recvStep_spec hstep) (List.getElem?_set_self hlt)
      | _ => cases hrecv
    | false =>
      obtain ⟨hspec, hrecv'⟩ := step_spec hrecv hproc
      exact .other hp hrecv hrecv' hproc hspec (List.getElem?_set_ne (one.ne_zero hp hrecv))

theorem Happens.oneRecv (h : Happens cfg s s') (one : OneRecv cfg s) : OneRecv cfg s' := by
  cases h with
  | go p start first =>
    refine ⟨first ▸ one.first, fun j q hq hqr => ?_⟩
    rcases Goroutines.getElem?_concat_cases hq with ⟨-, rfl⟩ | ⟨-, hq⟩
    · rw [(startable_spec start).1] at hqr
      cases hqr
    · exact one.only j q hq hqr
  | recv here step first =>
    refine ⟨⟨_, first, step.wf (one.wf here)⟩, fun j q hq hqr => ?_⟩
    rcases Goroutines.getElem?_set_cases hq with ⟨rfl, -⟩ | ⟨-, hq⟩
    · rfl
    · exact one.only j q hq hqr
  | other here isRecv isRecv' program step first =>
    refine ⟨first ▸ one.first, fun j q hq hqr => ?_⟩
    rcases Goroutines.getElem?_set_cases hq with ⟨-, rfl⟩ | ⟨-, hq⟩
    · rw [isRecv'] at hqr
      cases hqr
    · exact one.only j q hq hqr

/-- A new session is at the beginning of `recvLoop`. -/
theorem first_newSession (cfg : Verified) (conn : Source) (client : Bool) :
    (newSession cfg conn client).procs[0]? = some (.recvLoop .check) := rfl

/-- The other goroutines of a new session hold nothing. -/
theorem others_newSession (cfg : Verified) (conn : Source) (client : Bool)
    (hp : p ∈ (newSession cfg conn client).procs.tail) : p.isRecv = false ∧ p.owed = 0 := by
  have hcases : p = .sendLoop false ∨ p = .keepalive .select := by
    simp only [newSession] at hp
    split at hp
    · exact .inl (by simpa using hp)
    · simpa using hp
  rcases hcases with rfl | rfl <;> exact ⟨rfl, rfl⟩

theorem oneRecv_new (cfg : Verified) (conn : Source) (client : Bool) :
    OneRecv cfg (newSession cfg conn client) := by
  refine ⟨⟨.check, first_newSession cfg conn client, trivial⟩, fun i p hp hrecv => ?_⟩
  match i with
  | 0 => rfl
  | i + 1 =>
    rw [(others_newSession cfg conn client (List.mem_of_getElem? hp)).1] at hrecv
    cases hrecv

/-- **Invariant rule.** What everything that can happen in a session preserves, every run does. -/
theorem run_inv {Inv : System → Prop}
    (preserved : ∀ s s', OneRecv cfg s → Inv s → Happens cfg s s' → Inv s') {conn : Source}
    {client : Bool} {acts : List Act}
    (hrun : (machine cfg).run (newSession cfg conn client) acts = some s)
    (start : Inv (newSession cfg conn client)) : OneRecv cfg s ∧ Inv s := by
  have step : ∀ s a s', OneRecv cfg s ∧ Inv s → (machine cfg).step s a = some s' →
      OneRecv cfg s' ∧ Inv s' := by
    intro s a s' ⟨one, inv⟩ hstep
    have happens := happens_of_step one hstep
    exact ⟨happens.oneRecv one, preserved s s' one inv happens⟩
  exact (machine cfg).run_invariant step hrun ⟨oneRecv_new cfg conn client, start⟩

end System

end Glider.Smux
