/-
What the steps of an anytls session do, and what holds in every session they reach.

`step_takes` says once how each action can end, and `hear_cases` does so for the frames
`recvLoop` reads. There are four kinds of steps (`step_cases`): `openAlloc` makes a stream, `hear`
and `deliver` are the two halves of an iteration of `recvLoop`, and all others are `Local`. Each
kind has a structure that says what it leaves. From them follow, field by field,

* `step_heap` — a step changes a stream quietly, takes its answer, or brings it a frame;
* `step_moves`, `step_calls` — how a call of `OpenStream` goes on;
* `step_streams`, `step_received` — where a registered stream and a held frame come from.

`Session.Sound` is the invariant of all reachable sessions.
-/

import Glider.Anytls.Session

namespace Glider.Anytls

open Glider.Go Glider.Lib

/-! ### The two halves of an iteration of recvLoop -/

/-- What `recvLoop` does with the stream `x` it found for the frame `f`. -/
inductive Arrival (f : Frame) (x : Stream) : Stream → Prop where
  | data (hcmd : f.cmd = cmdPSH) (accepted : (x.enqueue f.data).2 = true) :
      Arrival f x (x.enqueue f.data).1
  | overflow (hcmd : f.cmd = cmdPSH) (refused : (x.enqueue f.data).2 = false) :
      Arrival f x x.overflowClose
  | fin (hcmd : f.cmd = cmdFIN) : Arrival f x x.closeLocally
  | answer (hpsh : f.cmd ≠ cmdPSH) (hfin : f.cmd ≠ cmdFIN) : Arrival f x (x.answer f.data)

/-- What is kept, and how the answer and the payload are recorded. -/
structure Arrival.Effect (f : Frame) (x x' : Stream) : Prop where
  id : x'.id = x.id
  enqueued : x'.enqueued = x.enqueued ∨
    f.cmd = cmdPSH ∧ (x.enqueue f.data).2 = true ∧ x'.enqueued = x.enqueued ++ [f.data]
  synDone : (x'.synDone = x.synDone ∧ x'.acked = x.acked) ∨
    x.synDone.send (synackResult f.data) = .done x'.synDone ∧ x'.acked = x.acked ++ [f.data]

theorem Arrival.effect {f : Frame} {x x' : Stream} (h : Arrival f x x') :
    Arrival.Effect f x x' := by
  have quiet {x'} (h : Quiet x x') : Arrival.Effect f x x' :=
    ⟨h.id, .inl h.enqueued, .inl ⟨h.synDone, h.acked⟩⟩
  cases h with
  | data hcmd accepted =>
    obtain ⟨ch, -, heq⟩ := enqueue_accepted accepted
    rw [heq]
    exact ⟨rfl, .inr ⟨hcmd, accepted, rfl⟩, .inl ⟨rfl, rfl⟩⟩
  | overflow => exact quiet (.overflowClose x)
  | fin => exact quiet (.closeGracefully x)
  | answer =>
    by_cases hroom : ∃ ch, x.synDone.send (synackResult f.data) = .done ch
    · obtain ⟨ch, hsend⟩ := hroom
      rw [answer_of_room hsend]
      exact ⟨rfl, .inl rfl, .inr ⟨hsend, rfl⟩⟩
    by_cases hdata : f.data = []
    · rw [hdata] at hroom ⊢
      rw [answer_nil_of_no_room fun ch hsend => hroom ⟨ch, hsend⟩]
      exact ⟨rfl, .inl rfl, .inl ⟨rfl, rfl⟩⟩
    · rw [answer_of_no_room (fun ch hsend => hroom ⟨ch, hsend⟩) hdata]
      exact ⟨rfl, .inl rfl, .inl ⟨rfl, rfl⟩⟩

theorem Arrival.sound {f : Frame} {x x' : Stream} (h : Arrival f x x') (hx : x.Sound) :
    x'.Sound := by
  cases h with
  | data hcmd accepted =>
    obtain ⟨ch, hsend, heq⟩ := enqueue_accepted accepted
    rw [heq]
    refine ⟨hx.synDone, hx.answers, fun hclosed => ?_, hx.text⟩
    cases (Chan.send_eq_done.mp hsend).2.2.2.symm.trans hclosed
  | overflow => exact (Quiet.overflowClose x).sound hx
  | fin => exact (Quiet.closeGracefully x).sound hx
  | answer =>
    by_cases hroom : ∃ ch, x.synDone.send (synackResult f.data) = .done ch
    · obtain ⟨ch, hsend⟩ := hroom
      obtain ⟨-, -, hbuf, hopen⟩ := Chan.send_eq_done.mp hsend
      rw [answer_of_room hsend]
      refine ⟨hopen, ?_, hx.dataCh, hx.text⟩
      rw [hbuf, List.length_append, List.length_append]
      exact Nat.add_le_add_right hx.answers 1
    by_cases hdata : f.data = []
    · rw [hdata] at hroom ⊢
      rw [answer_nil_of_no_room fun ch hsend => hroom ⟨ch, hsend⟩]
      exact hx
    · rw [answer_of_no_room (fun ch hsend => hroom ⟨ch, hsend⟩) hdata]
      exact ⟨hx.synDone, hx.answers, fun _ => rfl, fun _ _ => rfl⟩

section Steps

variable {s s' : Session} {a : SessionAct} {r : StreamRef}

theorem writeControl_frame (f : Frame) (ok : Bool) :
    (s.writeControl f ok).heap = s.heap ∧ (s.writeControl f ok).calls = s.calls ∧
      (s.writeControl f ok).next = s.next ∧ (s.writeControl f ok).streams = s.streams ∧
      (s.writeControl f ok).received = s.received ∧
      (s.writeControl f ok).streamID = s.streamID ∧
      (s.writeControl f ok).peerVersion = s.peerVersion ∧
      (s.writeControl f ok).stopped = s.stopped := by
  unfold Session.writeControl Session.write
  split
  · split <;> exact ⟨rfl, rfl, rfl, rfl, rfl, rfl, rfl, rfl⟩
  · exact ⟨rfl, rfl, rfl, rfl, rfl, rfl, rfl, rfl⟩

@[simp] theorem writeControl_heap (f : Frame) (ok : Bool) :
    (s.writeControl f ok).heap = s.heap := (writeControl_frame f ok).1

@[simp] theorem writeControl_calls (f : Frame) (ok : Bool) :
    (s.writeControl f ok).calls = s.calls := (writeControl_frame f ok).2.1

@[simp] theorem writeControl_next (f : Frame) (ok : Bool) :
    (s.writeControl f ok).next = s.next := (writeControl_frame f ok).2.2.1

@[simp] theorem writeControl_streams (f : Frame) (ok : Bool) :
    (s.writeControl f ok).streams = s.streams := (writeControl_frame f ok).2.2.2.1

@[simp] theorem writeControl_received (f : Frame) (ok : Bool) :
    (s.writeControl f ok).received = s.received := (writeControl_frame f ok).2.2.2.2.1

@[simp] theorem writeControl_streamID (f : Frame) (ok : Bool) :
    (s.writeControl f ok).streamID = s.streamID := (writeControl_frame f ok).2.2.2.2.2.1

@[simp] theorem writeControl_peerVersion (f : Frame) (ok : Bool) :
    (s.writeControl f ok).peerVersion = s.peerVersion := (writeControl_frame f ok).2.2.2.2.2.2.1

@[simp] theorem writeControl_stopped (f : Frame) (ok : Bool) :
    (s.writeControl f ok).stopped = s.stopped := (writeControl_frame f ok).2.2.2.2.2.2.2

variable {f : Frame} {ok : Bool}

theorem writeControl_die (h : s.die = true) : (s.writeControl f ok).die = true := by
  unfold Session.writeControl Session.write
  split
  · split <;> exact h
  · rfl

/-- The branches of `hear`. -/
inductive Hears (s : Session) (f : Frame) (ok : Bool) : Session → Prop where
  | ignored (hpsh : f.cmd = cmdPSH → f.data = []) (hfin : f.cmd ≠ cmdFIN)
      (hack : f.cmd ≠ cmdSYNACK) (halert : f.cmd = cmdAlert → f.data = []) : Hears s f ok s
  | data (hcmd : f.cmd = cmdPSH) (hdata : f.data ≠ []) :
      Hears s f ok { s with received := (s.streams f.sid).map fun r => (f, r) }
  | fin (hcmd : f.cmd = cmdFIN) :
      Hears s f ok { s.unregister f.sid with received := (s.streams f.sid).map fun r => (f, r) }
  | synack (hcmd : f.cmd = cmdSYNACK) :
      Hears s f ok { s with received := (s.streams f.sid).map fun r => (f, r) }
  | alert (hcmd : f.cmd = cmdAlert) (hdata : f.data ≠ []) :
      Hears s f ok { s with stopped := true, die := true }
  | settings (hcmd : f.cmd = cmdServerSettings) (v : UInt32) :
      Hears s f ok { s with peerVersion := v }
  | heartRequest (hcmd : f.cmd = cmdHeartRequest) :
      Hears s f ok (s.writeControl (newFrame cmdHeartResponse f.sid) ok)

theorem hear_cases (h : s.hear f ok = some s') :
    s.stopped = false ∧ s.received = none ∧ Hears s f ok s' := by
  unfold Session.hear at h
  split at h
  · cases h
  rename_i hbusy
  obtain ⟨hrun, hnone⟩ : s.stopped = false ∧ s.received = none := by simpa using hbusy
  refine ⟨hrun, hnone, ?_⟩
  dsimp only at h
  split at h
  · rename_i hpsh
    have hcmd : f.cmd ≠ cmdFIN ∧ f.cmd ≠ cmdSYNACK := by
      rw [hpsh]
      decide
    split at h <;> cases h <;> rename_i hdata
    · exact .ignored (fun _ => hdata) hcmd.1 hcmd.2 fun _ => hdata
    · exact .data hpsh hdata
  rename_i hpsh
  split at h
  · cases h
    exact .fin ‹_›
  rename_i hfin
  split at h
  · cases h
    exact .synack ‹_›
  rename_i hack
  have ignored (halert : f.cmd = cmdAlert → f.data = []) : Hears s f ok s :=
    .ignored (fun h => absurd h hpsh) hfin hack halert
  split at h
  · split at h <;> cases h <;> rename_i hdata
    · exact ignored fun _ => hdata
    · exact .alert ‹_› hdata
  rename_i halert
  have other : Hears s f ok s := ignored fun h => absurd h halert
  split at h
  · rename_i hsettings
    split at h
    · split at h <;> cases h
      · exact other
      · exact .settings hsettings _
    · cases h
      exact other
  split at h <;> cases h
  · exact .heartRequest ‹_›
  · exact other

/-- What the first half of an iteration of `recvLoop` leaves. -/
structure Heard (s : Session) (f : Frame) (s' : Session) : Prop where
  free : s.received = none
  running : s.stopped = false
  heap : s'.heap = s.heap
  calls : s'.calls = s.calls
  next : s'.next = s.next
  streamID : s'.streamID = s.streamID
  streams : s'.streams = if f.cmd = cmdFIN then Function.update s.streams f.sid none else s.streams
  received : s'.received =
    if (f.cmd = cmdPSH ∧ f.data ≠ []) ∨ f.cmd = cmdFIN ∨ f.cmd = cmdSYNACK then
      (s.streams f.sid).map fun r => (f, r)
    else none
  peerVersion : f.cmd ≠ cmdServerSettings → s'.peerVersion = s.peerVersion
  stopped : s'.stopped = true ↔ f.cmd = cmdAlert ∧ f.data ≠ []

/-- A frame no stream is looked up for. -/
theorem Heard.unaddressed (free : s.received = none) (running : s.stopped = false)
    (hpsh : f.cmd = cmdPSH → f.data = []) (hfin : f.cmd ≠ cmdFIN) (hack : f.cmd ≠ cmdSYNACK)
    (heap : s'.heap = s.heap) (calls : s'.calls = s.calls) (next : s'.next = s.next)
    (streamID : s'.streamID = s.streamID) (streams : s'.streams = s.streams)
    (received : s'.received = s.received)
    (peerVersion : f.cmd ≠ cmdServerSettings → s'.peerVersion = s.peerVersion)
    (stopped : s'.stopped = true ↔ f.cmd = cmdAlert ∧ f.data ≠ []) : Heard s f s' where
  free := free
  running := running
  heap := heap
  calls := calls
  next := next
  streamID := streamID
  streams := by rw [if_neg hfin, streams]
  received := by
    rw [if_neg, received, free]
    rintro (⟨hcmd, hdata⟩ | hcmd | hcmd)
    exacts [hdata (hpsh hcmd), hfin hcmd, hack hcmd]
  peerVersion := peerVersion
  stopped := stopped

theorem hear_eq_some (h : s.hear f ok = some s') : Heard s f s' := by
  obtain ⟨hrun, hnone, hears⟩ := hear_cases h
  have goesOn (hcmd : f.cmd ≠ cmdAlert) : s.stopped = true ↔ f.cmd = cmdAlert ∧ f.data ≠ [] := by
    simp [hrun, hcmd]
  cases hears with
  | ignored hpsh hfin hack halert =>
    refine .unaddressed hnone hrun hpsh hfin hack rfl rfl rfl rfl rfl rfl (fun _ => rfl) ?_
    rw [hrun]
    exact iff_of_false nofun fun h => h.2 (halert h.1)
  | data hcmd hdata =>
    have hne : f.cmd ≠ cmdFIN ∧ f.cmd ≠ cmdAlert := by
      rw [hcmd]
      decide
    exact ⟨hnone, hrun, rfl, rfl, rfl, rfl, (if_neg hne.1).symm,
      (if_pos (.inl ⟨hcmd, hdata⟩)).symm, fun _ => rfl, goesOn hne.2⟩
  | fin hcmd =>
    exact ⟨hnone, hrun, rfl, rfl, rfl, rfl, (if_pos hcmd).symm, (if_pos (.inr (.inl hcmd))).symm,
      fun _ => rfl, goesOn (by rw [hcmd]; decide)⟩
  | synack hcmd =>
    have hne : f.cmd ≠ cmdFIN ∧ f.cmd ≠ cmdAlert := by
      rw [hcmd]
      decide
    exact ⟨hnone, hrun, rfl, rfl, rfl, rfl, (if_neg hne.1).symm,
      (if_pos (.inr (.inr hcmd))).symm, fun _ => rfl, goesOn hne.2⟩
  | alert hcmd hdata =>
    have hne : f.cmd ≠ cmdPSH ∧ f.cmd ≠ cmdFIN ∧ f.cmd ≠ cmdSYNACK := by
      rw [hcmd]
      decide
    exact .unaddressed hnone hrun (fun h => absurd h hne.1) hne.2.1 hne.2.2 rfl rfl rfl rfl rfl rfl
      (fun _ => rfl) (iff_of_true rfl ⟨hcmd, hdata⟩)
  | settings hcmd v =>
    have hne : f.cmd ≠ cmdPSH ∧ f.cmd ≠ cmdFIN ∧ f.cmd ≠ cmdSYNACK ∧ f.cmd ≠ cmdAlert := by
      rw [hcmd]
      decide
    exact .unaddressed hnone hrun (fun h => absurd h hne.1) hne.2.1 hne.2.2.1 rfl rfl rfl rfl rfl
      rfl (fun h => absurd hcmd h) (goesOn hne.2.2.2)
  | heartRequest hcmd =>
    have hne : f.cmd ≠ cmdPSH ∧ f.cmd ≠ cmdFIN ∧ f.cmd ≠ cmdSYNACK ∧ f.cmd ≠ cmdAlert := by
      rw [hcmd]
      decide
    refine .unaddressed hnone hrun (fun h => absurd h hne.1) hne.2.1 hne.2.2.1
      (writeControl_heap ..) (writeControl_calls ..) (writeControl_next ..)
      (writeControl_streamID ..) (writeControl_streams ..) (writeControl_received ..)
      (fun _ => writeControl_peerVersion ..) ?_
    rw [writeControl_stopped]
    exact goesOn hne.2.2.2

/-- What the second half leaves. -/
structure Handled (s : Session) (f : Frame) (r : StreamRef) (s' : Session) : Prop where
  held : s.received = some (f, r)
  received : s'.received = none
  calls : s'.calls = s.calls
  next : s'.next = s.next
  streamID : s'.streamID = s.streamID
  peerVersion : s'.peerVersion = s.peerVersion
  stopped : s'.stopped = s.stopped
  streams : s'.streams = s.streams ∨ s'.streams = Function.update s.streams f.sid none
  others : ∀ r', r' ≠ r → s'.heap r' = s.heap r'
  arrival : Arrival f (s.heap r) (s'.heap r)

theorem deliver_eq_some (h : s.deliver ok = some s') : ∃ f r, Handled s f r s' := by
  unfold Session.deliver at h
  split at h
  · cases h
  rename_i f r held
  refine ⟨f, r, ?_⟩
  split at h
  · rename_i hcmd
    dsimp only at h
    split at h
    · rename_i x henq
      cases h
      refine ⟨held, rfl, rfl, rfl, rfl, rfl, rfl, .inl rfl,
        fun _ h => Function.update_of_ne h _ _, ?_⟩
      have accepted := Arrival.data (f := f) (x := s.heap r) hcmd (congrArg Prod.snd henq)
      rw [show ((s.heap r).enqueue f.data).1 = x from congrArg Prod.fst henq] at accepted
      simpa [Session.setStream] using accepted
    · rename_i x henq
      cases h
      have refused : ((s.heap r).enqueue f.data).2 = false := congrArg Prod.snd henq
      have hx : x = s.heap r := (congrArg Prod.fst henq).symm.trans (enqueue_refused refused)
      subst hx
      refine ⟨held, writeControl_received .., writeControl_calls .., writeControl_next ..,
        writeControl_streamID .., writeControl_peerVersion .., writeControl_stopped ..,
        .inr (writeControl_streams ..), fun _ h => ?_, ?_⟩
      · rw [writeControl_heap]
        exact Function.update_of_ne h _ _
      · simpa [Session.setStream] using Arrival.overflow hcmd refused
  split at h
  · rename_i hcmd
    cases h
    refine ⟨held, rfl, rfl, rfl, rfl, rfl, rfl, .inl rfl,
        fun _ h => Function.update_of_ne h _ _, ?_⟩
    simpa [Session.setStream] using Arrival.fin hcmd
  · rename_i hpsh hfin
    cases h
    refine ⟨held, rfl, rfl, rfl, rfl, rfl, rfl, .inl rfl,
        fun _ h => Function.update_of_ne h _ _, ?_⟩
    simpa [Session.setStream] using Arrival.answer hpsh hfin

/-- A quiet operation on one stream is quiet on all. -/
theorem quiet_update {x : Stream} (r₀ : StreamRef) (h : Quiet (s.heap r₀) x) (r : StreamRef) :
    Quiet (s.heap r) (Function.update s.heap r₀ x r) := by
  by_cases hr : r = r₀
  · rw [hr, Function.update_self]
    exact h
  · rw [Function.update_of_ne hr]
    exact .refl _

/-- What `openAlloc` leaves. -/
structure Allocated (s s' : Session) : Prop where
  next : s'.next = s.next + 1
  streamID : s'.streamID = s.streamID + 1
  peerVersion : s'.peerVersion = s.peerVersion
  received : s'.received = s.received
  stopped : s'.stopped = s.stopped
  die : s'.die = s.die
  streams : s'.streams = s.streams
  calls : s'.calls = Function.update s.calls s.next .allocated
  heap : s'.heap = Function.update s.heap s.next (newStream (s.streamID + 1))

theorem openAlloc_eq_some (h : s.openAlloc = some s') : Allocated s s' := by
  unfold Session.openAlloc at h
  split at h <;> cases h
  exact ⟨rfl, rfl, rfl, rfl, rfl, rfl, rfl, rfl, rfl⟩

/-- What a step comes to, each way in which the actions outside of `recvLoop` can end. -/
inductive Takes (s : Session) : SessionAct → Session → Prop where
  | alloc {s' : Session} (h : s.openAlloc = some s') : Takes s .openAlloc s'
  | hear {f : Frame} {ok : Bool} {s' : Session} (h : s.hear f ok = some s') :
      Takes s (.hear f ok) s'
  | deliver {ok : Bool} {s' : Session} (h : s.deliver ok = some s') : Takes s (.deliver ok) s'
  | written {r : StreamRef} {err : Option IoErr} {ok : Bool} (hstage : s.calls r = .allocated) :
      Takes s (.openWrite r err)
        ((s.writeControl (newFrame cmdSYN (s.heap r).id) ok).setCall r .written)
  | unwritten {r : StreamRef} {err : Option IoErr} {ok : Bool} (hstage : s.calls r = .allocated) :
      Takes s (.openWrite r err)
        (((s.writeControl (newFrame cmdSYN (s.heap r).id) ok).setStream r
          (s.heap r).closePipe).setCall r (.returned err))
  | flushed {r : StreamRef} (hstage : s.calls r = .written) :
      Takes s (.openFlush r) ({ s with buffering := false }.setCall r .flushed)
  | unregistered {r : StreamRef} (hstage : s.calls r = .flushed) :
      Takes s (.openRegister r)
        ((s.setStream r (s.heap r).closePipe).setCall r (.returned (some .closedPipe)))
  | registered {r : StreamRef} (hstage : s.calls r = .flushed) :
      Takes s (.openRegister r)
        ({ s with streams := Function.update s.streams (s.heap r).id (some r) }.setCall r
          .registered)
  | awaits {r : StreamRef} (hstage : s.calls r = .registered)
      (late : 2 ≤ (s.heap r).id ∧ 2 ≤ s.peerVersion) :
      Takes s (.openCheck r) (s.setCall r .waiting)
  | unawaited {r : StreamRef} (hstage : s.calls r = .registered)
      (early : ¬ (2 ≤ (s.heap r).id ∧ 2 ≤ s.peerVersion)) :
      Takes s (.openCheck r) (s.setCall r (.returned none))
  | accepted {r : StreamRef} {ch : Chan (Option IoErr) 1} (hstage : s.calls r = .waiting)
      (hrecv : (s.heap r).synDone.recv = .done (some none, ch)) :
      Takes s (.openAnswered r)
        ((s.setStream r { s.heap r with synDone := ch }).setCall r (.returned none))
  | refused {r : StreamRef} {err : IoErr} {ch : Chan (Option IoErr) 1}
      (hstage : s.calls r = .waiting)
      (hrecv : (s.heap r).synDone.recv = .done (some (some err), ch)) :
      Takes s (.openAnswered r) (s.abandon r { s.heap r with synDone := ch } err)
  | timedOut {r : StreamRef} (hstage : s.calls r = .waiting) :
      Takes s (.openTimeout r) (s.abandon r (s.heap r) synackTimeoutError)
  | died {r : StreamRef} (hstage : s.calls r = .waiting) :
      Takes s (.openDied r) (s.setCall r (.returned (some .closedPipe)))
  | quit : Takes s .quit { s with stopped := true, die := true }
  | die : Takes s .die { s with die := true }
  | sweep {s' : Session} (h : s.sweep = some s') : Takes s .sweep s'
  | closedAgain {r : StreamRef} {ok : Bool} :
      Takes s (.closeStream r ok) (s.setStream r (s.heap r).closeRemote)
  | closed {r : StreamRef} {ok : Bool} :
      Takes s (.closeStream r ok)
        (((s.setStream r (s.heap r).closeRemote).writeControl (newFrame cmdFIN (s.heap r).id)
          ok).unregister (s.heap r).id)
  | taken {r : StreamRef} {x : Stream} (h : (s.heap r).take = some x) :
      Takes s (.takeData r) (s.setStream r x)
  | deadline {r : StreamRef} :
      Takes s (.deadline r)
        (s.setStream r
          { s.heap r with pipe := (s.heap r).pipe.closeWrite (some .deadlineExceeded) })

theorem step_takes (h : session.step s a = some s') : Takes s a s' := by
  cases a with
  | openAlloc => exact .alloc h
  | hear f ok => exact .hear h
  | deliver ok => exact .deliver h
  | openWrite r err =>
    simp only [session, Session.openWrite] at h
    split at h <;> try cases h
    rename_i hstage
    split at h <;> cases h
    · exact .written hstage
    · exact .unwritten hstage
  | openFlush r =>
    simp only [session, Session.openFlush] at h
    split at h <;> cases h
    exact .flushed ‹_›
  | openRegister r =>
    simp only [session, Session.openRegister] at h
    split at h <;> try cases h
    rename_i hstage
    split at h <;> cases h
    · exact .unregistered hstage
    · exact .registered hstage
  | openCheck r =>
    simp only [session, Session.openCheck] at h
    split at h <;> try cases h
    rename_i hstage
    split at h <;> cases h
    · exact .awaits hstage ‹_›
    · exact .unawaited hstage ‹_›
  | openAnswered r =>
    simp only [session, Session.openAnswered] at h
    split at h <;> try cases h
    rename_i hstage
    split at h <;> cases h
    · exact .accepted hstage ‹_›
    · exact .refused hstage ‹_›
  | openTimeout r =>
    simp only [session, Session.openTimeout] at h
    split at h <;> cases h
    exact .timedOut ‹_›
  | openDied r =>
    simp only [session, Session.openDied] at h
    split at h <;> cases h
    rename_i hstage
    exact .died hstage.1
  | quit =>
    simp only [session, Session.quit] at h
    split at h <;> cases h
    exact .quit
  | die =>
    cases h
    exact .die
  | sweep => exact .sweep h
  | closeStream r ok =>
    simp only [session, Session.closeStream] at h
    split at h <;> try cases h
    split at h <;> cases h
    · exact .closedAgain
    · exact .closed
  | takeData r =>
    obtain ⟨x, hx, rfl⟩ := Option.map_eq_some_iff.mp h
    exact .taken hx
  | deadline r =>
    cases h
    exact .deadline

theorem sweep_eq_some (h : s.sweep = some s') :
    s' = { s with
      heap := fun r =>
        if s.streams (s.heap r).id = some r then (s.heap r).forceClose else s.heap r
      streams := fun _ => none } := by
  unfold Session.sweep at h
  split at h <;> cases h
  rfl

/-- **What a step does to a stream that exists.** -/
theorem step_heap (h : session.step s a = some s') (hr : r < s.next) :
    Quiet (s.heap r) (s'.heap r) ∨
      (a = .openAnswered r ∧ s.calls r = .waiting ∧
        ∃ e ch, (s.heap r).synDone.recv = .done (some e, ch) ∧
          s'.calls r = .returned e ∧ Quiet { s.heap r with synDone := ch } (s'.heap r)) ∨
      ∃ f ok, a = .deliver ok ∧ Handled s f r s' := by
  cases step_takes h with
  | alloc h =>
    rw [(openAlloc_eq_some h).heap]
    exact .inl (.of_eq (Function.update_of_ne (Nat.ne_of_lt hr) _ _))
  | hear h => exact .inl (.of_eq (congrFun (hear_eq_some h).heap r))
  | deliver h =>
    obtain ⟨f, r₀, handled⟩ := deliver_eq_some h
    by_cases hr₀ : r = r₀
    · exact .inr (.inr ⟨f, _, rfl, hr₀ ▸ handled⟩)
    · exact .inl (.of_eq (handled.others r hr₀))
  | written => exact .inl (.of_eq (congrFun (writeControl_heap ..) r))
  | unwritten =>
    simp only [Session.setCall, Session.setStream, writeControl_heap]
    exact .inl (quiet_update _ (.closeNow _) r)
  | flushed | registered | awaits | unawaited | died | quit | die => exact .inl (.refl _)
  | unregistered => exact .inl (quiet_update _ (.closeNow _) r)
  | @accepted r₀ ch hwait hrecv =>
    by_cases hr₀ : r = r₀
    · subst hr₀
      refine .inr (.inl ⟨rfl, hwait, _, _, hrecv, Function.update_self .., ?_⟩)
      simp only [Session.setCall, Session.setStream, Function.update_self]
      exact .refl _
    · exact .inl (.of_eq (Function.update_of_ne hr₀ _ _))
  | @refused r₀ err ch hwait hrecv =>
    by_cases hr₀ : r = r₀
    · subst hr₀
      refine .inr (.inl ⟨rfl, hwait, _, _, hrecv, Function.update_self .., ?_⟩)
      simp only [Session.abandon, Session.setCall, Session.setStream, Function.update_self]
      exact .forceClose _
    · exact .inl (.of_eq (Function.update_of_ne hr₀ _ _))
  | timedOut => exact .inl (quiet_update _ (.forceClose _) r)
  | sweep h =>
    rw [sweep_eq_some h]
    dsimp only
    split
    · exact .inl (.forceClose _)
    · exact .inl (.refl _)
  | closedAgain => exact .inl (quiet_update _ (.closeRemote _) r)
  | closed =>
    simp only [Session.unregister, writeControl_heap, Session.setStream]
    exact .inl (quiet_update _ (.closeRemote _) r)
  | taken hx => exact .inl (quiet_update _ (.take hx) r)
  | deadline =>
    refine .inl (quiet_update _ (.closeWrite _ ?_) r)
    intro t ht
    cases ht

theorem step_id (h : session.step s a = some s') (hr : r < s.next) :
    (s'.heap r).id = (s.heap r).id := by
  obtain quiet | ⟨-, -, e, ch, -, -, quiet⟩ | ⟨f, ok, -, handled⟩ := step_heap h hr
  · exact quiet.id
  · exact quiet.id
  · exact handled.arrival.effect.id

/-- The call of `OpenStream` an action belongs to. -/
def SessionAct.caller : SessionAct → Option StreamRef
  | .openWrite r _ | .openFlush r | .openRegister r | .openCheck r | .openAnswered r
  | .openTimeout r | .openDied r => some r
  | _ => none

def SessionAct.isDeliver : SessionAct → Bool
  | .deliver _ => true
  | _ => false

/-- What the actions other than `openAlloc` and the two of `recvLoop` leave alone. -/
structure Local (s : Session) (a : SessionAct) (s' : Session) : Prop where
  notDeliver : a.isDeliver = false
  next : s'.next = s.next
  streamID : s'.streamID = s.streamID
  peerVersion : s'.peerVersion = s.peerVersion
  received : s'.received = s.received
  stopped : a ≠ .quit → s'.stopped = s.stopped
  die : s.die = true → s'.die = true
  calls : ∀ r, a.caller ≠ some r → s'.calls r = s.calls r

/-- The four kinds of steps. -/
theorem step_cases (h : session.step s a = some s') :
    (a = .openAlloc ∧ Allocated s s') ∨ (∃ f ok, a = .hear f ok ∧ Heard s f s') ∨
      (∃ f r ok, a = .deliver ok ∧ Handled s f r s') ∨ Local s a s' := by
  have update {r₀ r : StreamRef} {c : OpenStage} (hr : some r₀ ≠ some r) :
      Function.update s.calls r₀ c r = s.calls r :=
    Function.update_of_ne (fun h => hr (congrArg some h.symm)) _ _
  cases step_takes h with
  | alloc h => exact .inl ⟨rfl, openAlloc_eq_some h⟩
  | hear h => exact .inr (.inl ⟨_, _, rfl, hear_eq_some h⟩)
  | deliver h =>
    obtain ⟨f, r, handled⟩ := deliver_eq_some h
    exact .inr (.inr (.inl ⟨f, r, _, rfl, handled⟩))
  | written | unwritten =>
    refine .inr (.inr (.inr ⟨rfl, writeControl_next .., writeControl_streamID ..,
      writeControl_peerVersion .., writeControl_received .., fun _ => writeControl_stopped ..,
      writeControl_die, fun r hr => ?_⟩))
    simp only [Session.setCall, Session.setStream, writeControl_calls]
    exact update hr
  | flushed | unregistered | registered | awaits | unawaited | accepted | refused | timedOut
  | died =>
    exact .inr (.inr (.inr ⟨rfl, rfl, rfl, rfl, rfl, fun _ => rfl, id, fun r hr => update hr⟩))
  | quit =>
    exact .inr (.inr (.inr ⟨rfl, rfl, rfl, rfl, rfl, fun hne => absurd rfl hne, fun _ => rfl,
      fun _ _ => rfl⟩))
  | die =>
    exact .inr (.inr (.inr ⟨rfl, rfl, rfl, rfl, rfl, fun _ => rfl, fun _ => rfl, fun _ _ => rfl⟩))
  | sweep h =>
    rw [sweep_eq_some h]
    exact .inr (.inr (.inr ⟨rfl, rfl, rfl, rfl, rfl, fun _ => rfl, id, fun _ _ => rfl⟩))
  | closedAgain | taken | deadline =>
    exact .inr (.inr (.inr ⟨rfl, rfl, rfl, rfl, rfl, fun _ => rfl, id, fun _ _ => rfl⟩))
  | @closed r₀ ok =>
    exact .inr (.inr (.inr ⟨rfl, writeControl_next .., writeControl_streamID ..,
      writeControl_peerVersion .., writeControl_received .., fun _ => writeControl_stopped ..,
      fun hdie => writeControl_die (s := s.setStream r₀ _) hdie,
      fun r _ => congrFun (writeControl_calls ..) r⟩))

/-- A call goes on by its own actions only. -/
theorem step_calls (h : session.step s a = some s') (hr : r < s.next)
    (hcaller : a.caller ≠ some r) : s'.calls r = s.calls r := by
  obtain ⟨-, alloc⟩ | ⟨f, ok, -, heard⟩ | ⟨f, r₀, ok, -, handled⟩ | loc := step_cases h
  · rw [alloc.calls, Function.update_of_ne (Nat.ne_of_lt hr)]
  · rw [heard.calls]
  · rw [handled.calls]
  · exact loc.calls r hcaller

/-- The peer's version changes with a settings frame only. -/
theorem step_peerVersion (h : session.step s a = some s')
    (hsettings : ∀ f ok, a = .hear f ok → f.cmd ≠ cmdServerSettings) :
    s'.peerVersion = s.peerVersion := by
  obtain ⟨-, alloc⟩ | ⟨f, ok, ha, heard⟩ | ⟨f, r₀, ok, -, handled⟩ | loc := step_cases h
  · exact alloc.peerVersion
  · exact heard.peerVersion (hsettings f ok ha)
  · exact handled.peerVersion
  · exact loc.peerVersion

/-- `recvLoop` holds a frame from `hear` to `deliver`. -/
theorem step_received (h : session.step s a = some s') (hs : s'.received = some (f, r)) :
    (s.received = some (f, r) ∧ ∀ ok, a ≠ .deliver ok) ∨
      ∃ ok, a = .hear f ok ∧ s.streams f.sid = some r ∧
        ((f.cmd = cmdPSH ∧ f.data ≠ []) ∨ f.cmd = cmdFIN ∨ f.cmd = cmdSYNACK) := by
  obtain ⟨ha, alloc⟩ | ⟨f', ok, ha, heard⟩ | ⟨f', r₀, ok, -, handled⟩ | loc := step_cases h
  · subst ha
    exact .inl ⟨alloc.received ▸ hs, fun _ => nofun⟩
  · rw [heard.received] at hs
    split at hs
    · rename_i haddressed
      obtain ⟨r', hr', heq⟩ := Option.map_eq_some_iff.mp hs
      cases heq
      exact .inr ⟨ok, ha, hr', haddressed⟩
    · cases hs
  · rw [handled.received] at hs
    cases hs
  · refine .inl ⟨loc.received ▸ hs, ?_⟩
    rintro ok rfl
    cases loc.notDeliver

theorem step_next_le (h : session.step s a = some s') : s.next ≤ s'.next := by
  obtain ⟨-, alloc⟩ | ⟨f, ok, -, heard⟩ | ⟨f, r₀, ok, -, handled⟩ | loc := step_cases h
  · exact alloc.next ▸ Nat.le_succ _
  · exact heard.next.ge
  · exact handled.next.ge
  · exact loc.next.ge

/-- The frames written so far, whether or not they have left the buffer. -/
def Session.written (s : Session) : List Frame := s.sent ++ s.buffer

theorem mem_written_writeControl {f g : Frame} (hg : g ∈ (s.writeControl f ok).written) :
    g ∈ s.written ∨ g = f := by
  unfold Session.writeControl Session.write Session.written at *
  split at hg
  · split at hg <;> simp at hg ⊢ <;> tauto
  · simp at hg ⊢
    tauto

/-- Only `openWrite` writes a `SYN`, that of its stream. -/
theorem step_written (h : session.step s a = some s') {g : Frame} (hg : g ∈ s'.written) :
    g ∈ s.written ∨ g.cmd ≠ cmdSYN ∨ ∃ r, s.calls r = .allocated ∧ g.sid = (s.heap r).id := by
  have control {cmd : UInt8} {sid : UInt32} (hcmd : cmd ≠ cmdSYN) {s₀ : Session} {ok : Bool}
      (hs₀ : s₀.written = s.written)
      (hg : g ∈ (s₀.writeControl (newFrame cmd sid) ok).written) :
      g ∈ s.written ∨ g.cmd ≠ cmdSYN ∨ ∃ r, s.calls r = .allocated ∧ g.sid = (s.heap r).id := by
    obtain hold | rfl := mem_written_writeControl hg
    · exact .inl (hs₀ ▸ hold)
    · exact .inr (.inl hcmd)
  cases step_takes h with
  | @written r err ok hstage | @unwritten r err ok hstage =>
    have hg : g ∈ (s.writeControl (newFrame cmdSYN (s.heap r).id) ok).written := hg
    obtain hold | rfl := mem_written_writeControl hg
    · exact .inl hold
    · exact .inr (.inr ⟨r, hstage, rfl⟩)
  | alloc h =>
    simp only [Session.openAlloc] at h
    split at h <;> cases h
    exact .inl hg
  | hear h =>
    cases (hear_cases h).2.2 with
    | heartRequest hcmd =>
      refine control ?_ rfl hg
      decide
    | _ => exact .inl hg
  | deliver h =>
    simp only [Session.deliver] at h
    split at h <;> try cases h
    split at h
    · split at h <;> cases h
      · exact .inl hg
      · refine control ?_ ?_ hg
        · decide
        · rfl
    · split at h <;> cases h <;> exact .inl hg
  | sweep h =>
    rw [sweep_eq_some h] at hg
    exact .inl hg
  | @closed r ok =>
    have hg : g ∈ ((s.setStream r (s.heap r).closeRemote).writeControl
        (newFrame cmdFIN (s.heap r).id) ok).written := hg
    refine control ?_ ?_ hg
    · decide
    · rfl
  | _ => exact .inl hg

/-- A stream enters `streams` in `openRegister` only. -/
theorem step_streams (h : session.step s a = some s') {sid : UInt32}
    (hs : s'.streams sid = some r) :
    s.streams sid = some r ∨
      (a = .openRegister r ∧ s.calls r = .flushed ∧ sid = (s.heap r).id ∧
        s'.calls r = .registered) := by
  have keep {sid₀ : UInt32} (hs : Function.update s.streams sid₀ none sid = some r) :
      s.streams sid = some r := by
    by_cases hsid : sid = sid₀
    · rw [hsid, Function.update_self] at hs
      cases hs
    · rwa [Function.update_of_ne hsid] at hs
  cases step_takes h with
  | alloc h =>
    rw [(openAlloc_eq_some h).streams] at hs
    exact .inl hs
  | hear h =>
    rw [(hear_eq_some h).streams] at hs
    split at hs
    · exact .inl (keep hs)
    · exact .inl hs
  | deliver h =>
    obtain ⟨f, r₀, handled⟩ := deliver_eq_some h
    obtain same | removed := handled.streams
    · exact .inl (same ▸ hs)
    · exact .inl (keep (removed ▸ hs))
  | written | unwritten =>
    simp only [Session.setCall, Session.setStream, writeControl_streams] at hs
    exact .inl hs
  | @registered r₀ hflushed =>
    simp only [Session.setCall] at hs ⊢
    by_cases hsid : sid = (s.heap r₀).id
    · rw [hsid, Function.update_self] at hs
      cases hs
      exact .inr ⟨rfl, hflushed, hsid, Function.update_self ..⟩
    · rw [Function.update_of_ne hsid] at hs
      exact .inl hs
  | refused | timedOut => exact .inl (keep hs)
  | sweep h =>
    rw [sweep_eq_some h] at hs
    cases hs
  | closed =>
    simp only [Session.unregister, writeControl_streams, Session.setStream] at hs
    exact .inl (keep hs)
  | _ => exact .inl hs

/-- How a call of `OpenStream` goes on. -/
inductive Moves (s : Session) (r : StreamRef) : SessionAct → OpenStage → OpenStage → Prop where
  | written (err : Option IoErr) : Moves s r (.openWrite r err) .allocated .written
  | unwritten (err : Option IoErr) : Moves s r (.openWrite r err) .allocated (.returned err)
  | flushed : Moves s r (.openFlush r) .written .flushed
  | registered : Moves s r (.openRegister r) .flushed .registered
  | unregistered : Moves s r (.openRegister r) .flushed (.returned (some .closedPipe))
  | awaits (late : 2 ≤ (s.heap r).id ∧ 2 ≤ s.peerVersion) :
      Moves s r (.openCheck r) .registered .waiting
  | unawaited (early : ¬ (2 ≤ (s.heap r).id ∧ 2 ≤ s.peerVersion)) :
      Moves s r (.openCheck r) .registered (.returned none)
  | answered {err : Option IoErr} {ch : Chan (Option IoErr) 1}
      (hrecv : (s.heap r).synDone.recv = .done (some err, ch)) :
      Moves s r (.openAnswered r) .waiting (.returned err)
  | timedOut : Moves s r (.openTimeout r) .waiting (.returned (some synackTimeoutError))
  | died : Moves s r (.openDied r) .waiting (.returned (some .closedPipe))

theorem step_moves (h : session.step s a = some s') (hcaller : a.caller = some r) :
    Moves s r a (s.calls r) (s'.calls r) := by
  have self (c : OpenStage) : Function.update s.calls r c r = c := Function.update_self ..
  cases step_takes h with
  | written hstage | unwritten hstage =>
    cases hcaller
    simp only [Session.setCall, Session.setStream, writeControl_calls, hstage, self]
    constructor
  | flushed hstage | unregistered hstage | registered hstage | timedOut hstage | died hstage =>
    cases hcaller
    simp only [Session.abandon, Session.unregister, Session.setCall, Session.setStream, hstage,
      self]
    constructor
  | awaits hstage late =>
    cases hcaller
    simp only [Session.setCall, hstage, self]
    exact .awaits late
  | unawaited hstage early =>
    cases hcaller
    simp only [Session.setCall, hstage, self]
    exact .unawaited early
  | accepted hstage hrecv | refused hstage hrecv =>
    cases hcaller
    simp only [Session.abandon, Session.unregister, Session.setCall, Session.setStream, hstage,
      self]
    exact .answered hrecv
  | _ => cases hcaller

/-- A call that has registered its stream. -/
inductive Opened : OpenStage → Prop where
  | registered : Opened .registered
  | waiting : Opened .waiting
  | returned (err : Option IoErr) : Opened (.returned err)

theorem Opened.step (hopen : Opened (s.calls r)) (h : session.step s a = some s')
    (hr : r < s.next) : Opened (s'.calls r) := by
  by_cases hcaller : a.caller = some r
  · have moves := step_moves h hcaller
    generalize s.calls r = c at moves hopen
    generalize s'.calls r = c' at moves ⊢
    cases moves with
    | written | unwritten | flushed | registered | unregistered => cases hopen
    | awaits => exact .waiting
    | unawaited | answered | timedOut | died => exact .returned _
  · rw [step_calls h hr hcaller]
    exact hopen

end Steps

/-! ### Reachable sessions -/

/-- What holds in every session reached from `Session.init`. -/
structure Session.Sound (s : Session) : Prop where
  fresh : ∀ r, s.next ≤ r → s.calls r = .absent
  registered : ∀ sid r, s.streams sid = some r → r < s.next ∧ Opened (s.calls r)
  held : ∀ f r, s.received = some (f, r) → r < s.next ∧ Opened (s.calls r)
  heap : ∀ r, r < s.next → (s.heap r).Sound

section Reach

variable {s s' : Session} {a : SessionAct} {r : StreamRef}

theorem Session.Sound.init : Session.init.Sound where
  fresh _ _ := rfl
  registered _ _ h := by cases h
  held _ _ h := by cases h
  heap _ hr := absurd hr (Nat.not_lt_zero _)

/-- A stream and its call survive a step. -/
theorem opened_step (h : session.step s a = some s') (hr : r < s.next ∧ Opened (s.calls r)) :
    r < s'.next ∧ Opened (s'.calls r) :=
  ⟨Nat.lt_of_lt_of_le hr.1 (step_next_le h), hr.2.step h hr.1⟩

theorem step_fresh (h : session.step s a = some s')
    (fresh : ∀ r, s.next ≤ r → s.calls r = .absent) (hr : s'.next ≤ r) : s'.calls r = .absent := by
  have hold := fresh r (Nat.le_trans (step_next_le h) hr)
  obtain ⟨-, alloc⟩ | ⟨f, ok, -, heard⟩ | ⟨f, r₀, ok, -, handled⟩ | loc := step_cases h
  · rw [alloc.next] at hr
    rw [alloc.calls, Function.update_of_ne (Nat.ne_of_gt hr)]
    exact hold
  · rw [heard.calls]
    exact hold
  · rw [handled.calls]
    exact hold
  · by_cases hcaller : a.caller = some r
    · have moves := step_moves h hcaller
      rw [hold] at moves
      cases moves
    · rw [loc.calls r hcaller]
      exact hold

/-- A stream that is new after a step was made by `OpenStream`. -/
theorem step_heap_new (h : session.step s a = some s') (hr : r < s'.next) (hnew : ¬ r < s.next) :
    a = .openAlloc ∧ r = s.next ∧ s'.heap r = newStream (s.streamID + 1) := by
  obtain ⟨ha, alloc⟩ | ⟨f, ok, -, heard⟩ | ⟨f, r₀, ok, -, handled⟩ | loc := step_cases h
  · rw [alloc.next] at hr
    obtain rfl : r = s.next := Nat.le_antisymm (Nat.le_of_lt_succ hr) (Nat.not_lt.mp hnew)
    exact ⟨ha, rfl, by rw [alloc.heap, Function.update_self]⟩
  · exact absurd (heard.next ▸ hr) hnew
  · exact absurd (handled.next ▸ hr) hnew
  · exact absurd (loc.next ▸ hr) hnew

theorem step_heap_sound (h : session.step s a = some s')
    (heap : ∀ r, r < s.next → (s.heap r).Sound) (hr : r < s'.next) : (s'.heap r).Sound := by
  by_cases hold : r < s.next
  · obtain quiet | ⟨-, -, e, ch, hrecv, -, quiet⟩ | ⟨f, ok, -, handled⟩ := step_heap h hold
    · exact quiet.sound (heap r hold)
    · have hx := heap r hold
      obtain ⟨hbuf, hclosed⟩ := Chan.recv_eq_some.mp hrecv
      have hlen := hx.answers
      rw [hbuf] at hlen
      exact quiet.sound ⟨hclosed.trans hx.synDone, Nat.le_of_succ_le hlen, hx.dataCh, hx.text⟩
    · exact handled.arrival.sound (heap r hold)
  · rw [(step_heap_new h hr hold).2.2]
    exact newStream_sound _

theorem Session.Sound.lt_next (inv : s.Sound) (h : s.calls r ≠ .absent) : r < s.next := by
  by_contra hge
  exact h (inv.fresh r (Nat.not_lt.mp hge))

theorem Session.Sound.step (inv : s.Sound) (h : session.step s a = some s') : s'.Sound where
  fresh _ hr := step_fresh h inv.fresh hr
  registered sid r hs := by
    obtain old | ⟨-, hflushed, -, hnew⟩ := step_streams h hs
    · exact opened_step h (inv.registered sid r old)
    · have hr : r < s.next := inv.lt_next (by rw [hflushed]; nofun)
      exact ⟨Nat.lt_of_lt_of_le hr (step_next_le h), hnew ▸ .registered⟩
  held f r hs := by
    obtain ⟨old, -⟩ | ⟨-, -, found, -⟩ := step_received h hs
    · exact opened_step h (inv.held f r old)
    · exact opened_step h (inv.registered _ r found)
  heap _ hr := step_heap_sound h inv.heap hr

theorem sound_of_run {as : List SessionAct} (hrun : session.run .init as = some s) : s.Sound :=
  session.run_invariant (fun _ _ _ inv h => inv.step h) hrun .init

end Reach

end Glider.Anytls
