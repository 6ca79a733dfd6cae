/-
The UDP packet loops of the `ss`, `socks5`, `udp`, `unix` and `tproxy` servers
(`ServePacket` or `ListenAndServe[UDP]`, `serveSession`, `newSession`).

The five loops are one: a reader takes a packet, finds or creates the session of its
source address in the map `nm`, and sends the packet on the session's channel of
capacity 32. A session's goroutine dials, then forwards what the channel holds until
`finCh` is closed; a second goroutine copies the replies and, when that ends, deletes
the map entry and closes `finCh`. They differ in what a message carries and in the
address that is dialled (`Server.message`, `Server.dialAddr`).

A dial may take any time and may fail; the copy may end at any time (`CopyUDP`, or the
loop `tproxy` has in its place, returns on the first error). Every access to the map or
to a channel is one step, so every interleaving of the goroutines is a run of
`packetLoop`. Sessions are pointers: an index into `State.sessions`.

* `forwarded_in_order` — a session forwards the packets of its own client, in the order
  the reader took them, none twice and none skipped.
* `never_wedged_iff` — the reader is never stuck on the full channel of a session that
  has returned, exactly in the runs where no session returns while the reader is at the
  send to it with 32 messages queued.
* `wedged_by_failed_dial` — 33 packets of one client during a dial that then fails.
-/

import Glider.Go.Chan
import Glider.Go.Strings
import Glider.Go.SyncMap
import Glider.Lib.Machine

namespace Glider.Udp

open Glider.Go Glider.Lib

/-! ### Packets, messages and sessions -/

inductive Server where
  | ss
  | socks5
  | udp
  | unix
  | tproxy
deriving DecidableEq, Repr

/-- What a read of the listening socket returns. Addresses are what their `String`
method gives. `dst` is the resolved destination (`ss`, `socks5`, `tproxy`), `target`
the one the client wrote (`socks5`). -/
structure Packet where
  src : GoString
  dst : GoString := []
  target : GoString := []
  data : List UInt8
deriving DecidableEq, Repr

/-- `message`; `udp` and `unix` send the bare bytes. -/
structure Message where
  dst : Option GoString
  msg : List UInt8
deriving DecidableEq, Repr

/-- What the reader sends on the channel of the packet's session. -/
def Server.message : Server → Packet → Message
  | .udp, p => ⟨none, p.data⟩
  | .unix, p => ⟨none, p.data⟩
  | _, p => ⟨some p.dst, p.data⟩

/-- Where `serveSession` is. -/
inductive Serve where
  | started
  | dialing
  | failed
  | unlisted
  | serving
  | writing (m : Message)
  | returned
deriving DecidableEq, Repr, Inhabited

/-- Where the copying goroutine is. -/
inductive Copy where
  | absent
  | copying
  | copied
  | unlisted
  | finished
deriving DecidableEq, Repr, Inhabited

/-- `Session`, with where its goroutines are. `accepted` and `forwarded` record the
messages sent on `msgCh` and those given to `dstPC.WriteTo`, `dialed` the address given
to `DialUDP`. -/
structure Session where
  key : GoString
  src : GoString
  dst : GoString
  target : GoString
  msgCh : Chan Message 32
  finCh : Chan Unit 0
  serve : Serve
  copy : Copy
  dialed : Option GoString
  accepted : List Message
  forwarded : List Message
deriving DecidableEq, Repr, Inhabited

/-- `newSession`. -/
def newSession (p : Packet) : Session :=
  { key := p.src, src := p.src, dst := p.dst, target := p.target
    msgCh := .make, finCh := .make
    serve := .started, copy := .absent, dialed := none, accepted := [], forwarded := [] }

/-- The address `serveSession` dials. -/
def Server.dialAddr : Server → Session → GoString
  | .ss, x => x.dst
  | .socks5, x => x.target
  | .udp, x => x.src
  | .unix, _ => []
  | .tproxy, x => x.dst

/-- The steps of a session's two goroutines. -/
inductive SessionAct where
  | dial
  | dialed
  | dialFailed
  | unlist
  | giveUp
  | recv
  | write
  | finish
  | copyEnd
  | copyUnlist
  | copyClose
deriving DecidableEq, Repr

namespace Session

/-- One step of a session's goroutines; the flag says that it is `nm.Delete(session.key)`. -/
def step (srv : Server) (x : Session) : SessionAct → Option (Session × Bool)
  | .dial =>
    match x.serve with
    | .started => some ({ x with serve := .dialing, dialed := some (srv.dialAddr x) }, false)
    | _ => none
  | .dialed =>
    match x.serve with
    | .dialing => some ({ x with serve := .serving, copy := .copying }, false)
    | _ => none
  | .dialFailed =>
    match x.serve with
    | .dialing => some ({ x with serve := .failed }, false)
    | _ => none
  | .unlist =>
    match x.serve with
    | .failed => some ({ x with serve := .unlisted }, true)
    | _ => none
  | .giveUp =>
    match x.serve with
    | .unlisted => some ({ x with serve := .returned }, false)
    | _ => none
  | .recv =>
    match x.serve, x.msgCh.recv with
    | .serving, .done (some m, ch) => some ({ x with serve := .writing m, msgCh := ch }, false)
    | _, _ => none
  | .write =>
    match x.serve with
    | .writing m => some ({ x with serve := .serving, forwarded := x.forwarded ++ [m] }, false)
    | _ => none
  | .finish =>
    match x.serve, x.finCh.recv with
    | .serving, .done (none, _) => some ({ x with serve := .returned }, false)
    | _, _ => none
  | .copyEnd =>
    match x.copy with
    | .copying => some ({ x with copy := .copied }, false)
    | _ => none
  | .copyUnlist =>
    match x.copy with
    | .copied => some ({ x with copy := .unlisted }, true)
    | _ => none
  | .copyClose =>
    match x.copy, x.finCh.close with
    | .unlisted, .done ch => some ({ x with copy := .finished, finCh := ch }, false)
    | _, _ => none

/-- The session has deleted its map entry. -/
def Removed (x : Session) : Prop :=
  x.serve = .unlisted ∨ x.serve = .returned ∨ x.copy = .unlisted ∨ x.copy = .finished

/-- The message taken from the channel and not yet written. -/
def inHand (x : Session) : List Message :=
  match x.serve with
  | .writing m => [m]
  | _ => []

end Session

/-! ### The loop -/

abbrev SessionId := Nat

/-- Where the reader is: at the read, with a packet, after a failed lookup, or at the
send. -/
inductive Reader where
  | reading
  | received (p : Packet)
  | missed (p : Packet)
  | sending (i : SessionId) (m : Message)
deriving DecidableEq, Repr

structure State where
  nm : SyncMap GoString SessionId
  sessions : SessionId → Session
  next : SessionId
  reader : Reader

/-- The listener is open and no packet has been read. -/
def State.init : State := ⟨∅, fun _ => default, 0, .reading⟩

inductive ReaderAct where
  | read (p : Packet)
  | readError
  | load
  | store
  | send
deriving DecidableEq, Repr

inductive Act where
  | reader (a : ReaderAct)
  | session (i : SessionId) (a : SessionAct)
deriving DecidableEq, Repr

namespace State

/-- One step of the reader. Storing the new session and starting its goroutine is one
step: nothing else can touch the session in between. -/
def readerStep (srv : Server) (s : State) : ReaderAct → Option State
  | .read p =>
    match s.reader with
    | .reading => some { s with reader := .received p }
    | _ => none
  | .readError =>
    match s.reader with
    | .reading => some s
    | _ => none
  | .load =>
    match s.reader with
    | .received p =>
      match s.nm.load p.src with
      | some i => some { s with reader := .sending i (srv.message p) }
      | none => some { s with reader := .missed p }
    | _ => none
  | .store =>
    match s.reader with
    | .missed p =>
      some { nm := s.nm.store p.src s.next
             sessions := Function.update s.sessions s.next (newSession p)
             next := s.next + 1
             reader := .sending s.next (srv.message p) }
    | _ => none
  | .send =>
    match s.reader with
    | .sending i m =>
      match (s.sessions i).msgCh.send m with
      | .done ch =>
        some { s with
          sessions := Function.update s.sessions i
            { s.sessions i with msgCh := ch, accepted := (s.sessions i).accepted ++ [m] }
          reader := .reading }
      | _ => none
    | _ => none

/-- One step of the goroutines of session `i`, which runs once the session is stored. -/
def sessionStep (srv : Server) (s : State) (i : SessionId) (a : SessionAct) : Option State :=
  if i < s.next then
    ((s.sessions i).step srv a).map fun r =>
      { s with
        sessions := Function.update s.sessions i r.1
        nm := if r.2 then s.nm.delete (s.sessions i).key else s.nm }
  else none

/-- The reader is at the send to session `i`. -/
def holds (s : State) (i : SessionId) : Bool :=
  match s.reader with
  | .sending j _ => j = i
  | _ => false

end State

/-- The packet loop of a server with all its sessions. -/
def packetLoop (srv : Server) : Machine State Act where
  step s
    | .reader a => s.readerStep srv a
    | .session i a => s.sessionStep srv i a

/-- The reader is blocked on the full channel of a session whose `serveSession` has
returned: nobody will ever receive from it. -/
def Wedged (s : State) : Prop :=
  ∃ i, s.holds i = true ∧ (s.sessions i).msgCh.full = true ∧ (s.sessions i).serve = .returned

/-- The condition on a step: `serveSession` returns, from a failed dial or because
`finCh` is closed, only if the reader is not waiting at the send to this session with
the channel full. -/
def ReturnsUnheld (s : State) : Act → Prop
  | .session i .giveUp => (s.holds i && (s.sessions i).msgCh.full) = false
  | .session i .finish => (s.holds i && (s.sessions i).msgCh.full) = false
  | _ => True

instance (s : State) : (a : Act) → Decidable (ReturnsUnheld s a)
  | .session _ .giveUp => inferInstanceAs (Decidable (_ = false))
  | .session _ .finish => inferInstanceAs (Decidable (_ = false))
  | .reader _ => isTrue trivial
  | .session _ .dial => isTrue trivial
  | .session _ .dialed => isTrue trivial
  | .session _ .dialFailed => isTrue trivial
  | .session _ .unlist => isTrue trivial
  | .session _ .recv => isTrue trivial
  | .session _ .write => isTrue trivial
  | .session _ .copyEnd => isTrue trivial
  | .session _ .copyUnlist => isTrue trivial
  | .session _ .copyClose => isTrue trivial

/-! ### What one step of a session does -/

namespace Session

variable {srv : Server} {x x' : Session} {a : SessionAct} {del : Bool}

/-- What holds of every session: the copying goroutine starts after the dial and closes
`finCh` at its end, and every accepted message is forwarded, in hand or queued, in that
order. -/
structure Ok (x : Session) : Prop where
  early : x.serve = .started ∨ x.serve = .dialing → x.copy = .absent
  fin : x.finCh.closed = true → x.copy = .finished
  fifo : x.accepted = x.forwarded ++ x.inHand ++ x.msgCh.buf

theorem ok_newSession (p : Packet) : Ok (newSession p) :=
  ⟨fun _ => rfl, fun h => (by cases h), rfl⟩

/-- The effect of a step, all steps at once. -/
structure Effect (x : Session) (a : SessionAct) (x' : Session) (del : Bool) : Prop where
  key : x'.key = x.key
  accepted : x'.accepted = x.accepted
  /-- Only a delete removes a session. -/
  removed : del = false → x'.Removed → x.Removed
  /-- Only the two return steps reach `returned`. -/
  returned : x'.serve = .returned → x.serve = .returned ∨ a = .giveUp ∨ a = .finish
  /-- A return leaves the channel as it is, and a returned session receives nothing. -/
  queue : x'.serve = .returned → x'.msgCh = x.msgCh
  returns : a = .giveUp ∨ a = .finish → x'.serve = .returned

theorem step_effect (ok : Ok x) (h : x.step srv a = some (x', del)) : Effect x a x' del := by
  cases a <;> simp only [step] at h
  case recv =>
    split at h <;> cases h
    rename_i hserve hrecv
    constructor <;> simp_all [Removed]
  case finish =>
    split at h <;> cases h
    rename_i hserve hrecv
    -- the closed channel says that the copying goroutine has deleted the entry
    have hfin := ok.fin (Chan.recv_eq_none.mp hrecv).2.1
    constructor <;> simp_all [Removed]
  case copyClose =>
    split at h <;> cases h
    constructor <;> simp_all [Removed]
  all_goals
    split at h <;> cases h
    constructor <;> simp_all [Removed]

theorem step_ok (ok : Ok x) (h : x.step srv a = some (x', del)) : Ok x' := by
  obtain ⟨early, fin, fifo⟩ := ok
  cases a <;> simp only [step] at h
  case dialed =>
    split at h <;> cases h
    rename_i hserve
    -- a closed `finCh` would mean that the copying goroutine had run before the dial
    have hopen : x.finCh.closed = true → False := fun hclosed => by
      have hcopy := early (.inr hserve)
      rw [fin hclosed] at hcopy
      cases hcopy
    exact ⟨by simp, fun hclosed => (hopen hclosed).elim, by simp_all [inHand]⟩
  case recv =>
    split at h <;> cases h
    rename_i hserve hrecv
    have hbuf := (Chan.recv_eq_some.mp hrecv).1
    exact ⟨by simp, fin, by simp_all [inHand]⟩
  case copyClose =>
    split at h <;> cases h
    exact ⟨by simp_all, fun _ => rfl, fifo⟩
  all_goals
    split at h <;> cases h
    exact ⟨by simp_all, by simp_all, by simp_all [inHand]⟩

end Session

/-! ### What one step of the loop preserves -/

/-- The invariant: a listed session is stored under its own key, belongs to a started
goroutine and has not deleted its entry. -/
structure Inv (s : State) : Prop where
  ok : ∀ i < s.next, (s.sessions i).Ok
  listed : ∀ k i, s.nm.load k = some i →
    i < s.next ∧ (s.sessions i).key = k ∧ ¬ (s.sessions i).Removed
  held : ∀ i, s.holds i = true → i < s.next

theorem inv_init : Inv .init where
  ok i hi := absurd hi (Nat.not_lt_zero i)
  listed k i h := by cases h
  held i h := by cases h

section Steps

variable {srv : Server} {s s' : State} {i j : SessionId} {a : SessionAct}

/-- A session step changes one session, and the map by at most one deletion. -/
theorem sessionStep_eq_some (h : s.sessionStep srv i a = some s') :
    i < s.next ∧ s'.next = s.next ∧ s'.reader = s.reader ∧
      ∃ x' del, (s.sessions i).step srv a = some (x', del) ∧
        s'.sessions = Function.update s.sessions i x' ∧
        s'.nm = if del then s.nm.delete (s.sessions i).key else s.nm := by
  unfold State.sessionStep at h
  split at h
  · rename_i hi
    obtain ⟨⟨x', del⟩, hstep, heq⟩ := Option.map_eq_some_iff.mp h
    cases heq
    exact ⟨hi, rfl, rfl, x', del, hstep, rfl, rfl⟩
  · cases h

theorem holds_congr (h : s'.reader = s.reader) (i : SessionId) : s'.holds i = s.holds i := by
  unfold State.holds
  rw [h]

theorem inv_sessionStep (inv : Inv s) (h : s.sessionStep srv i a = some s') : Inv s' := by
  obtain ⟨hi, hnext, hreader, x', del, hstep, hsessions, hnm⟩ := sessionStep_eq_some h
  have eff := Session.step_effect (inv.ok i hi) hstep
  refine ⟨fun j hj => ?_, fun k j hj => ?_, fun j hj => ?_⟩
  · rw [hsessions]
    by_cases hji : j = i
    · rw [hji, Function.update_self]
      exact Session.step_ok (inv.ok i hi) hstep
    · rw [Function.update_of_ne hji]
      exact inv.ok j (hnext ▸ hj)
  · rw [hnm] at hj
    rw [hnext, hsessions]
    by_cases hdel : del = true
    · -- the deleted key was the session's own, so another session is left under `k`
      rw [if_pos hdel] at hj
      obtain ⟨hlt, hkey, hnot⟩ := inv.listed k j (SyncMap.load_delete_of_some hj)
      have hji : j ≠ i := by
        rintro rfl
        rw [hkey, SyncMap.load_delete_self] at hj
        cases hj
      rw [Function.update_of_ne hji]
      exact ⟨hlt, hkey, hnot⟩
    · rw [if_neg hdel] at hj
      obtain ⟨hlt, hkey, hnot⟩ := inv.listed k j hj
      by_cases hji : j = i
      · rw [hji] at hkey hnot
        rw [hji, Function.update_self, eff.key]
        exact ⟨hi, hkey, fun hrem => hnot (eff.removed (by simpa using hdel) hrem)⟩
      · rw [Function.update_of_ne hji]
        exact ⟨hlt, hkey, hnot⟩
  · rw [hnext]
    rw [holds_congr hreader] at hj
    exact inv.held j hj

/-- A lookup that finds a session leaves the reader at the send to it, one that finds
none remembers the packet. -/
theorem load_eq_some (h : s.readerStep srv .load = some s') :
    s'.sessions = s.sessions ∧ s'.nm = s.nm ∧ s'.next = s.next ∧
      ∀ i, s'.holds i = true → ∃ k, s.nm.load k = some i := by
  simp only [State.readerStep] at h
  split at h <;> try cases h
  split at h <;> cases h
  · rename_i hload
    refine ⟨rfl, rfl, rfl, fun j hj => ?_⟩
    rw [← of_decide_eq_true hj]
    exact ⟨_, hload⟩
  · exact ⟨rfl, rfl, rfl, fun i hi => by cases hi⟩

theorem store_eq_some (h : s.readerStep srv .store = some s') :
    ∃ p, s'.nm = s.nm.store p.src s.next ∧ s'.next = s.next + 1 ∧
      s'.sessions = Function.update s.sessions s.next (newSession p) ∧
      ∀ i, s'.holds i = true → i = s.next := by
  simp only [State.readerStep] at h
  split at h <;> cases h
  rename_i p _
  exact ⟨p, rfl, rfl, rfl, fun i hi => (of_decide_eq_true hi).symm⟩

theorem send_eq_some (h : s.readerStep srv .send = some s') :
    ∃ i m ch, (s.sessions i).msgCh.send m = .done ch ∧ s'.nm = s.nm ∧ s'.next = s.next ∧
      s'.sessions = Function.update s.sessions i
        { s.sessions i with msgCh := ch, accepted := (s.sessions i).accepted ++ [m] } ∧
      s'.reader = .reading := by
  simp only [State.readerStep] at h
  split at h <;> try cases h
  split at h <;> cases h
  rename_i hsend
  exact ⟨_, _, _, hsend, rfl, rfl, rfl, rfl⟩

theorem not_holds_of_reading (h : s.reader = .reading) (i : SessionId) : s.holds i = false := by
  unfold State.holds
  rw [h]

/-- A read changes nothing but where the reader is, and it is not at a send. -/
theorem read_eq_some {p : Packet} (h : s.readerStep srv (.read p) = some s') :
    s' = { s with reader := .received p } := by
  simp only [State.readerStep] at h
  split at h <;> cases h
  rfl

theorem readError_eq_some (h : s.readerStep srv .readError = some s') : s' = s := by
  simp only [State.readerStep] at h
  split at h <;> cases h
  rfl

theorem inv_store (inv : Inv s) (h : s.readerStep srv .store = some s') : Inv s' := by
  obtain ⟨p, hnm, hnext, hsessions, hholds⟩ := store_eq_some h
  refine ⟨fun i hi => ?_, fun k i hload => ?_, fun i hi => ?_⟩
  · rw [hsessions]
    by_cases hnew : i = s.next
    · rw [hnew, Function.update_self]
      exact Session.ok_newSession p
    · rw [Function.update_of_ne hnew]
      rw [hnext] at hi
      exact inv.ok i (Nat.lt_of_le_of_ne (Nat.lt_succ_iff.mp hi) hnew)
  · rw [hnm, SyncMap.load_store] at hload
    rw [hnext, hsessions]
    split at hload
    · rename_i hk
      cases hload
      rw [Function.update_self]
      exact ⟨Nat.lt_succ_self _, hk.symm, by simp [Session.Removed, newSession]⟩
    · obtain ⟨hlt, hrest⟩ := inv.listed k i hload
      rw [Function.update_of_ne (Nat.ne_of_lt hlt)]
      exact ⟨Nat.lt_succ_of_lt hlt, hrest⟩
  · rw [hholds i hi, hnext]
    exact Nat.lt_succ_self _

theorem inv_send (inv : Inv s) (h : s.readerStep srv .send = some s') : Inv s' := by
  obtain ⟨i, m, ch, hsend, hnm, hnext, hsessions, hreader⟩ := send_eq_some h
  have hbuf := (Chan.send_eq_done.mp hsend).2.2.1
  refine ⟨fun j hj => ?_, fun k j hload => ?_, fun j hj => ?_⟩
  · rw [hsessions]
    by_cases hji : j = i
    · have old := inv.ok i (hji ▸ hnext ▸ hj)
      rw [hji, Function.update_self]
      refine ⟨old.early, old.fin, ?_⟩
      -- the new message joins both ends of the equation
      show (s.sessions i).accepted ++ [m] = _ ++ ch.buf
      rw [hbuf, old.fifo, ← List.append_assoc]
      rfl
    · rw [Function.update_of_ne hji]
      exact inv.ok j (hnext ▸ hj)
  · rw [hnm] at hload
    rw [hnext, hsessions]
    obtain ⟨hlt, hrest⟩ := inv.listed k j hload
    refine ⟨hlt, ?_⟩
    by_cases hji : j = i
    · rw [hji] at hrest
      rw [hji, Function.update_self]
      exact hrest
    · rwa [Function.update_of_ne hji]
  · rw [not_holds_of_reading hreader] at hj
    cases hj

theorem inv_readerStep {a : ReaderAct} (inv : Inv s) (h : s.readerStep srv a = some s') :
    Inv s' := by
  cases a with
  | read p =>
    rw [read_eq_some h]
    exact ⟨inv.ok, inv.listed, fun i hi => by cases hi⟩
  | readError =>
    rw [readError_eq_some h]
    exact inv
  | load =>
    obtain ⟨hsessions, hnm, hnext, hholds⟩ := load_eq_some h
    refine ⟨?_, ?_, fun i hi => ?_⟩
    · rw [hsessions, hnext]
      exact inv.ok
    · rw [hsessions, hnm, hnext]
      exact inv.listed
    · obtain ⟨k, hk⟩ := hholds i hi
      rw [hnext]
      exact (inv.listed k i hk).1
  | store => exact inv_store inv h
  | send => exact inv_send inv h

theorem inv_step (s : State) (a : Act) (s' : State) (inv : Inv s)
    (h : (packetLoop srv).step s a = some s') : Inv s' := by
  cases a with
  | reader a => exact inv_readerStep inv h
  | session i a => exact inv_sessionStep inv h

/-! ### Packets are forwarded in order -/

/-- **FIFO.** In every run, what a session has forwarded is a prefix of what the reader
sent it; what is missing is in hand or queued. -/
theorem forwarded_in_order {as : List Act} (hrun : (packetLoop srv).run .init as = some s)
    (hi : i < s.next) : (s.sessions i).forwarded <+: (s.sessions i).accepted := by
  have inv : Inv s := (packetLoop srv).run_invariant inv_step hrun inv_init
  rw [(inv.ok i hi).fifo, List.append_assoc]
  exact List.prefix_append _ _

/-- The copying goroutine finds `finCh` open when it comes to close it. -/
theorem finCh_open_before_close {as : List Act} (hrun : (packetLoop srv).run .init as = some s)
    (hi : i < s.next) (hcopy : (s.sessions i).copy = .unlisted) :
    (s.sessions i).finCh.close ≠ .panics := by
  have inv : Inv s := (packetLoop srv).run_invariant inv_step hrun inv_init
  rw [ne_eq, Chan.close_eq_panics]
  intro hclosed
  rw [(inv.ok i hi).fin hclosed] at hcopy
  cases hcopy

/-! ### The reader is never stuck -/

/-- A reader step never wedges: a session found in the map has not returned, and a new
one has not even started. -/
theorem not_wedged_readerStep {a : ReaderAct} (inv : Inv s) (good : ¬ Wedged s)
    (h : s.readerStep srv a = some s') : ¬ Wedged s' := by
  rintro ⟨i, hholds, hfull, hret⟩
  cases a with
  | read p =>
    rw [read_eq_some h] at hholds
    cases hholds
  | readError =>
    rw [readError_eq_some h] at hholds hfull hret
    exact good ⟨i, hholds, hfull, hret⟩
  | load =>
    obtain ⟨hsessions, -, -, hfound⟩ := load_eq_some h
    obtain ⟨k, hk⟩ := hfound i hholds
    rw [hsessions] at hret
    exact (inv.listed k i hk).2.2 (.inr (.inl hret))
  | store =>
    obtain ⟨p, -, -, hsessions, hnew⟩ := store_eq_some h
    rw [hsessions, hnew i hholds, Function.update_self] at hret
    cases hret
  | send =>
    obtain ⟨_, _, _, _, _, _, _, hreader⟩ := send_eq_some h
    rw [not_holds_of_reading hreader] at hholds
    cases hholds

/-- A session step can only wedge the reader at its own session, and only by
returning. -/
theorem wedged_sessionStep_iff (inv : Inv s) (good : ¬ Wedged s)
    (h : s.sessionStep srv i a = some s') :
    Wedged s' ↔ (a = .giveUp ∨ a = .finish) ∧ (s.holds i && (s.sessions i).msgCh.full) = true := by
  obtain ⟨hi, -, hreader, x', del, hstep, hsessions, -⟩ := sessionStep_eq_some h
  have eff := Session.step_effect (inv.ok i hi) hstep
  constructor
  · rintro ⟨j, hholds, hfull, hret⟩
    rw [holds_congr hreader] at hholds
    rw [hsessions] at hfull hret
    by_cases hji : j = i
    · subst hji
      rw [Function.update_self] at hfull hret
      rw [eff.queue hret] at hfull
      rcases eff.returned hret with hold | hact
      · exact absurd ⟨j, hholds, hfull, hold⟩ good
      · exact ⟨hact, by rw [hholds, hfull]; rfl⟩
    · rw [Function.update_of_ne hji] at hfull hret
      exact absurd ⟨j, hholds, hfull, hret⟩ good
  · rintro ⟨hact, hboth⟩
    obtain ⟨hholds, hfull⟩ := Bool.and_eq_true_iff.mp hboth
    have hret := eff.returns hact
    refine ⟨i, by rwa [holds_congr hreader], ?_, ?_⟩
    · rwa [hsessions, Function.update_self, eff.queue hret]
    · rwa [hsessions, Function.update_self]

theorem returnsUnheld_session_iff :
    ReturnsUnheld s (.session i a) ↔
      ¬ ((a = .giveUp ∨ a = .finish) ∧ (s.holds i && (s.sessions i).msgCh.full) = true) := by
  cases a <;> simp [ReturnsUnheld]

theorem not_wedged_step_iff (s : State) (a : Act) (s' : State) (inv : Inv s) (good : ¬ Wedged s)
    (h : (packetLoop srv).step s a = some s') : ¬ Wedged s' ↔ ReturnsUnheld s a := by
  cases a with
  | reader a => exact ⟨fun _ => trivial, fun _ => not_wedged_readerStep inv good h⟩
  | session i a => rw [wedged_sessionStep_iff inv good h, returnsUnheld_session_iff]

/-- **When the listener can wedge.** Along a run of any of the five packet loops, with
any clients, packets, dial results and interleaving, no state has the reader blocked on
the full channel of a session that has returned, exactly when no `serveSession` of the
run returns while the reader waits at the send to it with 32 messages queued. -/
theorem never_wedged_iff (srv : Server) {as : List Act} {s : State}
    (hrun : (packetLoop srv).run .init as = some s) :
    (packetLoop srv).Always (fun s => ¬ Wedged s) .init as ↔
      (packetLoop srv).Guarded ReturnsUnheld .init as :=
  (packetLoop srv).always_iff_guarded inv_step not_wedged_step_iff hrun inv_init
    (by rintro ⟨i, h, -⟩; cases h)

/-- One packet from a client that has a session. -/
def relayed (p : Packet) : List Act := [.reader (.read p), .reader .load, .reader .send]

/-- The first packet of a client. -/
def opened (p : Packet) : List Act :=
  [.reader (.read p), .reader .load, .reader .store, .reader .send]

/-- A session that dials, forwards one of two packets, and ends when the copy ends. -/
def shortSession (p : Packet) : List Act :=
  opened p ++ relayed p ++
    [.session 0 .dial, .session 0 .dialed, .session 0 .recv, .session 0 .write,
      .session 0 .copyEnd, .session 0 .copyUnlist, .session 0 .copyClose, .session 0 .finish]

/-- Fill the channel of a session that is still dialling, come back with one more packet,
and let the dial fail. -/
def floodedDial (p : Packet) : List Act :=
  opened p ++ (List.replicate 31 (relayed p)).flatten ++
    [.reader (.read p), .reader .load, .session 0 .dial, .session 0 .dialFailed,
      .session 0 .unlist, .session 0 .giveUp]

def clientPacket : Packet :=
  { src := ascii "10.0.0.1:5000", dst := ascii "1.1.1.1:53", data := [1] }

theorem never_wedged_shortSession :
    (packetLoop .ss).Always (fun s => ¬ Wedged s) .init (shortSession clientPacket) := by
  have hserve : ((packetLoop .ss).run .init (shortSession clientPacket)).map
      (fun s => (s.sessions 0).serve) = some .returned := by decide
  obtain ⟨s, hrun, -⟩ := Option.map_eq_some_iff.mp hserve
  exact (never_wedged_iff .ss hrun).mpr (by decide)

/-- **The listener wedges on a dead session.** 33 packets of one client arrive while its
session dials; the dial fails and the reader stays at a send that nobody receives. -/
theorem wedged_by_failed_dial :
    ∃ s, (packetLoop .ss).run .init (floodedDial clientPacket) = some s ∧ Wedged s := by
  have hstuck : ((packetLoop .ss).run .init (floodedDial clientPacket)).map
      (fun s => (s.holds 0, (s.sessions 0).msgCh.full, (s.sessions 0).serve))
        = some (true, true, .returned) := by decide
  obtain ⟨s, hrun, hs⟩ := Option.map_eq_some_iff.mp hstuck
  simp only [Prod.mk.injEq] at hs
  exact ⟨s, hrun, 0, hs⟩

end Steps

end Glider.Udp
