/-
Whether a `SYNACK` with an error is reported.

`recvLoop` puts the error into `synDone` if there is room, and closes the stream with it
otherwise. The slot always has room for the first answer, whether or not `OpenStream` waits
for one, so the error of a stream nobody waits for is kept where nobody looks.

* `synack_reported_iff` — the states in which the error is reported, by `OpenStream` or by
  the reads and writes of the stream.
* `first_stream_failure_lost` — the first stream of a session is never waited for.
-/

import Glider.Anytls.SessionStep

namespace Glider.Anytls

open Glider.Go Glider.Lib

/-- Neither the timer nor the death of the session ends the call for `r`, and the peer sends no
settings any more, with which it could announce another version. -/
def Undisturbed (r : StreamRef) (_ : Session) (a : SessionAct) : Prop :=
  a ≠ .openTimeout r ∧ a ≠ .openDied r ∧ ∀ f ok, a = .hear f ok → f.cmd ≠ cmdServerSettings

/-- The call of `OpenStream` for `r` returns `err`: left undisturbed it returns nothing
else, and it can always go on to return. -/
def Answered (s : Session) (r : StreamRef) (err : IoErr) : Prop :=
  ∀ as t, session.run s as = some t → session.Guarded (Undisturbed r) s as →
    (∀ result, t.calls r = .returned result → result = some err) ∧
      ∃ bs u, session.run t bs = some u ∧ session.Guarded (Undisturbed r) t bs ∧
        u.calls r = .returned (some err)

/-- The failure `err` of the stream `r` is reported: by the call that opens it, or by every
`Read` and `Write` from here on. -/
def Reported (s : Session) (r : StreamRef) (err : IoErr) : Prop :=
  Answered s r err ∨ (s.heap r).readError = some err ∧ (s.heap r).writeError ≠ none

/-- The call for `r` waits for the `SYNACK`, or is about to. -/
def Awaits (s : Session) (r : StreamRef) : Prop :=
  s.calls r = .waiting ∨
    (s.calls r = .registered ∧ 2 ≤ (s.heap r).id ∧ 2 ≤ s.peerVersion)

/-- Where an error for `r` that comes in now is reported: the call waits and `synDone` is
empty, or `synDone` is full and the stream's pipe open; or it has been reported already. -/
def Reportable (s : Session) (r : StreamRef) (err : IoErr) : Prop :=
  (Awaits s r ∧ (s.heap r).synDone.buf = []) ∨
    ((s.heap r).synDone.buf ≠ [] ∧ (s.heap r).pipe.done = false) ∨
    (Awaits s r ∧ (s.heap r).synDone.buf = [some err]) ∨
    s.calls r = .returned (some err) ∨
    (s.heap r).readError = some err

section

variable {s s' : Session} {a : SessionAct} {r : StreamRef} {err : IoErr}

/-! ### What the call returns -/

theorem undisturbed_openCheck : Undisturbed r s (.openCheck r) := ⟨nofun, nofun, fun _ _ => nofun⟩

theorem undisturbed_openAnswered : Undisturbed r s (.openAnswered r) :=
  ⟨nofun, nofun, fun _ _ => nofun⟩

variable {e : Option IoErr}

/-- A value in `synDone` stays there until the waiting call takes it. -/
theorem synDone_step (h : session.step s a = some s') (hr : r < s.next)
    (hbuf : (s.heap r).synDone.buf = [e]) (hact : a ≠ .openAnswered r) :
    (s'.heap r).synDone.buf = [e] ∧ (s'.heap r).id = (s.heap r).id := by
  obtain quiet | ⟨rfl, -⟩ | ⟨f, ok, -, handled⟩ := step_heap h hr
  · exact ⟨quiet.synDone ▸ hbuf, quiet.id⟩
  · exact absurd rfl hact
  · have effect := handled.arrival.effect
    refine ⟨?_, effect.id⟩
    obtain ⟨same, -⟩ | ⟨hsend, -⟩ := effect.synDone
    · exact same ▸ hbuf
    · have hroom := Chan.not_full_iff.mp (Chan.send_eq_done.mp hsend).2.1
      rw [hbuf] at hroom
      exact absurd hroom (Nat.lt_irrefl 1)

/-- The call has its result, or will find it in `synDone`. -/
def Assured (s : Session) (r : StreamRef) (err : IoErr) : Prop :=
  r < s.next ∧
    ((Awaits s r ∧ (s.heap r).synDone.buf = [some err]) ∨ s.calls r = .returned (some err))

theorem Assured.step (assured : Assured s r err) (h : session.step s a = some s')
    (undisturbed : Undisturbed r s a) : Assured s' r err := by
  obtain ⟨hr, assured⟩ := assured
  obtain ⟨hclock, hdeath, hsettings⟩ := undisturbed
  refine ⟨Nat.lt_of_lt_of_le hr (step_next_le h), ?_⟩
  by_cases hcaller : a.caller = some r
  · have moves := step_moves h hcaller
    obtain ⟨hwait | ⟨hreg, hid, hversion⟩, hbuf⟩ | hret := assured
    · rw [hwait] at moves
      generalize s'.calls r = c' at moves ⊢
      cases moves with
      | answered hrecv =>
        have hhead := (Chan.recv_eq_some.mp hrecv).1
        rw [hbuf] at hhead
        obtain ⟨rfl, -⟩ := List.cons.inj hhead
        exact .inr rfl
      | timedOut => exact absurd rfl hclock
      | died => exact absurd rfl hdeath
    · rw [hreg] at moves
      generalize hc' : s'.calls r = c' at moves ⊢
      cases moves with
      | awaits => exact .inl ⟨.inl hc', (synDone_step h hr hbuf nofun).1⟩
      | unawaited early => exact absurd ⟨hid, hversion⟩ early
    · rw [hret] at moves
      cases moves
  · have hcalls := step_calls h hr hcaller
    obtain ⟨hawaits, hbuf⟩ | hret := assured
    · have hact : a ≠ .openAnswered r := by
        rintro rfl
        exact hcaller rfl
      obtain ⟨hbuf', hid'⟩ := synDone_step h hr hbuf hact
      refine .inl ⟨?_, hbuf'⟩
      unfold Awaits
      rw [hcalls, hid', step_peerVersion h hsettings]
      exact hawaits
    · exact .inr (hcalls.trans hret)

/-- The waiting call takes what is in `synDone` and returns it. -/
theorem answer_returned (hwait : s.calls r = .waiting) (hbuf : (s.heap r).synDone.buf = [e]) :
    ∃ t, session.step s (.openAnswered r) = some t ∧ t.calls r = .returned e := by
  have hrecv : (s.heap r).synDone.recv =
      .done (some e, ⟨[], (s.heap r).synDone.closed, Nat.zero_le 1⟩) :=
    Chan.recv_eq_some.mpr ⟨hbuf, rfl⟩
  have hstep : ∃ t, session.step s (.openAnswered r) = some t := by
    simp only [session, Session.openAnswered, if_pos hwait, hrecv]
    cases e <;> exact ⟨_, rfl⟩
  obtain ⟨t, ht⟩ := hstep
  refine ⟨t, ht, ?_⟩
  have moves := step_moves ht rfl
  rw [hwait] at moves
  generalize t.calls r = c at moves ⊢
  cases moves with
  | answered hrecv' =>
    rw [hrecv] at hrecv'
    cases hrecv'
    rfl

/-- A call that waits, or is about to, returns what is in `synDone`. -/
theorem Awaits.finish (awaits : Awaits s r) (hbuf : (s.heap r).synDone.buf = [e]) :
    ∃ bs u, session.run s bs = some u ∧ session.Guarded (Undisturbed r) s bs ∧
      u.calls r = .returned e := by
  have taken {s : Session} (hwait : s.calls r = .waiting)
      (hbuf : (s.heap r).synDone.buf = [e]) :
      ∃ u, session.run s [.openAnswered r] = some u ∧
        session.Guarded (Undisturbed r) s [.openAnswered r] ∧ u.calls r = .returned e := by
    obtain ⟨t, ht, hret⟩ := answer_returned hwait hbuf
    exact ⟨t, session.run_cons_of_step ht,
      session.guarded_cons undisturbed_openAnswered ht trivial, hret⟩
  obtain hwait | ⟨hreg, late⟩ := awaits
  · obtain ⟨u, hu⟩ := taken hwait hbuf
    exact ⟨_, u, hu⟩
  · have hcheck : session.step s (.openCheck r) = some (s.setCall r .waiting) := by
      simp only [session, Session.openCheck, if_pos hreg, if_pos late]
    obtain ⟨u, hrun, guarded, hret⟩ :=
      taken (s := s.setCall r .waiting) (Function.update_self ..) hbuf
    exact ⟨.openCheck r :: [.openAnswered r], u, (session.run_cons_of_step hcheck).trans hrun,
      session.guarded_cons undisturbed_openCheck hcheck guarded, hret⟩

/-- A call that has returned a result did not wait for another. -/
theorem answered_iff (hr : r < s.next) (hopen : Opened (s.calls r))
    (hbuf : (s.heap r).synDone.buf = [e]) :
    Answered s r err ↔ (Awaits s r ∧ e = some err) ∨ s.calls r = .returned (some err) := by
  constructor
  · intro answered
    -- whatever the call can return, it is `err`
    have only {bs : List SessionAct} {u : Session} {result : Option IoErr}
        (hrun : session.run s bs = some u) (guarded : session.Guarded (Undisturbed r) s bs)
        (hret : u.calls r = .returned result) : result = some err :=
      (answered bs u hrun guarded).1 result hret
    have of_awaits (awaits : Awaits s r) : e = some err := by
      obtain ⟨bs, u, hrun, guarded, hret⟩ := awaits.finish hbuf
      exact only hrun guarded hret
    generalize hstage : s.calls r = stage at hopen
    cases hopen with
    | waiting => exact .inl ⟨.inl hstage, of_awaits (.inl hstage)⟩
    | returned result => exact .inr (congrArg _ (only (session.run_nil s) trivial hstage))
    | registered =>
      by_cases late : 2 ≤ (s.heap r).id ∧ 2 ≤ s.peerVersion
      · exact .inl ⟨.inr ⟨hstage, late⟩, of_awaits (.inr ⟨hstage, late⟩)⟩
      · have hcheck : session.step s (.openCheck r) = some (s.setCall r (.returned none)) := by
          simp only [session, Session.openCheck, if_pos hstage, if_neg late]
        have hret : (s.setCall r (.returned none)).calls r = .returned none :=
          Function.update_self ..
        cases answered [.openCheck r] _ (session.run_cons_of_step hcheck)
          (session.guarded_cons undisturbed_openCheck hcheck trivial) |>.1 none hret
  · intro h as t hrun guarded
    have start : Assured s r err := by
      refine ⟨hr, h.imp_left ?_⟩
      rintro ⟨awaits, rfl⟩
      exact ⟨awaits, hbuf⟩
    have preserved : ∀ s a s', Assured s r err → Undisturbed r s a →
        session.step s a = some s' → Assured s' r err :=
      fun _ _ _ assured hok hstep => assured.step hstep hok
    obtain ⟨-, ⟨awaits, hbuf'⟩ | hret⟩ := session.guarded_invariant preserved hrun guarded start
    · refine ⟨fun result hret => ?_, awaits.finish hbuf'⟩
      obtain hwait | ⟨hreg, -⟩ := awaits
      · cases hwait.symm.trans hret
      · cases hreg.symm.trans hret
    · refine ⟨fun result hret' => ?_, [], t, rfl, trivial, hret⟩
      cases hret.symm.trans hret'
      rfl

/-! ### The handler of the frame -/

/-- Closing the pipe again does not change what reads return. -/
theorem readCloseError_closeWrite {p : Pipe} (hdone : p.done = true) (e : Option IoErr) :
    (p.closeWrite e).readCloseError = p.readCloseError := by
  obtain ⟨werr, rerr⟩ := p
  cases werr <;> cases rerr <;> first | rfl | cases hdone

theorem readCloseError_closeWrite_open {p : Pipe} (hopen : p.done = false) (e : IoErr) :
    (p.closeWrite (some e)).readCloseError = e := by
  obtain ⟨werr, rerr⟩ := p
  cases werr <;> cases rerr <;> first | rfl | cases hopen

/-- A stream whose reads return an error text refuses its writes. -/
theorem Stream.Sound.writeError {x : Stream} (hx : x.Sound) {t : GoString}
    (h : x.readError = some (.text t)) : x.writeError ≠ none := by
  have hclosed : x.closed = true := by
    apply hx.text t
    unfold Stream.readError Pipe.readCloseError Pipe.done at h
    revert h
    cases x.pipe.werr <;> cases x.pipe.rerr <;> simp
  unfold Stream.writeError
  rw [if_pos hclosed]
  nofun

section Handler

variable {f : Frame}

theorem Handled.awaits_iff (handled : Handled s f r s') : Awaits s' r ↔ Awaits s r := by
  unfold Awaits
  rw [handled.calls, handled.peerVersion, handled.arrival.effect.id]

/-- The answer goes into an empty `synDone`. -/
theorem reported_iff_of_empty (handled : Handled s f r s') (hr : r < s.next)
    (hopen : Opened (s.calls r)) (hx : (s.heap r).Sound)
    (hstream : s'.heap r = (s.heap r).answer f.data) (hdata : f.data ≠ [])
    (hempty : (s.heap r).synDone.buf = []) :
    Reported s' r (remoteError f.data) ↔
      Awaits s r ∨ s.calls r = .returned (some (remoteError f.data)) ∨
        (s.heap r).readError = some (remoteError f.data) := by
  have herr : synackResult f.data = some (remoteError f.data) := if_neg hdata
  have hsend : (s.heap r).synDone.send (synackResult f.data) =
      .done ⟨[synackResult f.data], false, Nat.le_refl 1⟩ := by
    refine Chan.send_eq_done.mpr ⟨hx.synDone, Chan.not_full_iff.mpr ?_, ?_, rfl⟩
    · rw [hempty]
      exact Nat.one_pos
    · rw [hempty]
      rfl
  rw [answer_of_room hsend] at hstream
  have hbuf : (s'.heap r).synDone.buf = [some (remoteError f.data)] := by rw [hstream, herr]
  have hread : (s'.heap r).readError = (s.heap r).readError := by rw [hstream]; rfl
  have hwrite : (s'.heap r).writeError = (s.heap r).writeError := by rw [hstream]; rfl
  unfold Reported
  rw [answered_iff (handled.next ▸ hr) (handled.calls ▸ hopen) hbuf, handled.awaits_iff,
    handled.calls, hread, hwrite]
  constructor
  · rintro ((⟨awaits, -⟩ | hret) | ⟨hread, -⟩)
    exacts [.inl awaits, .inr (.inl hret), .inr (.inr hread)]
  · rintro (awaits | hret | hread)
    exacts [.inl (.inl ⟨awaits, rfl⟩), .inl (.inr hret), .inr ⟨hread, hx.writeError hread⟩]

/-- Nobody can take the answer: the stream is closed with it. -/
theorem reported_iff_of_full (handled : Handled s f r s') (hr : r < s.next)
    (hopen : Opened (s.calls r)) (hstream : s'.heap r = (s.heap r).answer f.data)
    (hdata : f.data ≠ []) {e : Option IoErr} (hfull : (s.heap r).synDone.buf = [e]) :
    Reported s' r (remoteError f.data) ↔
      (Awaits s r ∧ e = some (remoteError f.data)) ∨
        s.calls r = .returned (some (remoteError f.data)) ∨
        (s.heap r).pipe.done = false ∨ (s.heap r).readError = some (remoteError f.data) := by
  have hroom : ∀ ch, (s.heap r).synDone.send (synackResult f.data) ≠ .done ch := by
    intro ch hsend
    have hlt := Chan.not_full_iff.mp (Chan.send_eq_done.mp hsend).2.1
    rw [hfull] at hlt
    exact Nat.lt_irrefl 1 hlt
  rw [answer_of_no_room hroom hdata] at hstream
  have hbuf : (s'.heap r).synDone.buf = [e] := by rw [hstream]; exact hfull
  have hwrite : (s'.heap r).writeError ≠ none := by rw [hstream]; nofun
  have hread : (s'.heap r).readError = some (remoteError f.data) ↔
      (s.heap r).pipe.done = false ∨ (s.heap r).readError = some (remoteError f.data) := by
    have hdone : ((s.heap r).pipe.closeWrite (some (remoteError f.data))).done = true := by
      unfold Pipe.closeWrite Pipe.done
      cases (s.heap r).pipe.werr <;> rfl
    rw [hstream]
    unfold Stream.readError
    rw [if_pos hdone]
    cases hpipe : (s.heap r).pipe.done with
    | false => simp [readCloseError_closeWrite_open hpipe]
    | true => simp [readCloseError_closeWrite hpipe]
  unfold Reported
  rw [answered_iff (handled.next ▸ hr) (handled.calls ▸ hopen) hbuf, handled.awaits_iff,
    handled.calls, hread, and_iff_left hwrite, or_assoc]

/-- A `SYNACK` goes to the handler of answers. -/
theorem Handled.answered (handled : Handled s f r s') (hcmd : f.cmd = cmdSYNACK) :
    s'.heap r = (s.heap r).answer f.data := by
  have arrival := handled.arrival
  generalize s'.heap r = x' at arrival ⊢
  cases arrival with
  | answer => rfl
  | data hcmd' | overflow hcmd' | fin hcmd' => cases hcmd.symm.trans hcmd'

end Handler

/-- **When a `SYNACK` with an error is reported.** In every reachable session, once
`recvLoop` has processed a `SYNACK` with a body for a stream it found in `streams`, the
error is reported exactly where the state before it was `Reportable`. -/
theorem synack_reported_iff {as : List SessionAct} {f : Frame} {ok : Bool}
    (hrun : session.run .init as = some s) (held : s.received = some (f, r))
    (hcmd : f.cmd = cmdSYNACK) (hdata : f.data ≠ []) (h : session.step s (.deliver ok) = some s') :
    Reported s' r (remoteError f.data) ↔ Reportable s r (remoteError f.data) := by
  have inv := sound_of_run hrun
  obtain ⟨hr, hopen⟩ := inv.held f r held
  have hx := inv.heap r hr
  obtain ⟨f', r', handled⟩ := deliver_eq_some h
  cases held.symm.trans handled.held
  have hstream := handled.answered hcmd
  unfold Reportable
  cases hbuf : (s.heap r).synDone.buf with
  | nil =>
    rw [reported_iff_of_empty handled hr hopen hx hstream hdata hbuf]
    simp
  | cons e rest =>
    obtain rfl : rest = [] := by
      have hlen := (s.heap r).synDone.len_le
      rw [hbuf] at hlen
      exact List.length_eq_zero_iff.mp (Nat.le_zero.mp (Nat.le_of_succ_le_succ hlen))
    rw [reported_iff_of_full handled hr hopen hstream hdata hbuf]
    simp only [List.cons_ne_nil, and_false, ne_eq, not_false_eq_true, true_and, false_or,
      List.cons.injEq, and_true]
    tauto

end

/-- A session with a version 2 server opens two streams; the second waits for its answer and
is refused. -/
def secondStreamRefused : List SessionAct :=
  [.openAlloc, .openWrite 0 none, .openFlush 0, .openRegister 0, .openCheck 0,
    .hear ⟨cmdServerSettings, 0, ascii "v=2"⟩ true,
    .openAlloc, .openWrite 1 none, .openFlush 1, .openRegister 1, .openCheck 1,
    .hear ⟨cmdSYNACK, 2, ascii "refused"⟩ true]

theorem synack_reported_secondStream :
    ∃ s s', session.run .init secondStreamRefused = some s ∧
      session.step s (.deliver true) = some s' ∧
      Reported s' 1 (remoteError (ascii "refused")) := by
  have hmap : (session.run .init secondStreamRefused).map (fun s => decide
      (s.received = some (⟨cmdSYNACK, 2, ascii "refused"⟩, 1) ∧ s.calls 1 = .waiting ∧
        (s.heap 1).synDone.buf = [])) = some true := by decide
  obtain ⟨s, hrun, hfields⟩ := Option.map_eq_some_iff.mp hmap
  obtain ⟨held, hstage, hbuf⟩ := of_decide_eq_true hfields
  have hstep : ∃ s', session.step s (.deliver true) = some s' := by
    simp only [session, Session.deliver, held]
    exact ⟨_, rfl⟩
  obtain ⟨s', hs'⟩ := hstep
  exact ⟨s, s', hrun, hs', (synack_reported_iff hrun held rfl (by decide) hs').mpr
    (.inl ⟨.inl hstage, hbuf⟩)⟩

/-- The server refuses the first stream, which `OpenStream` has already returned. -/
def firstStreamRefused : List SessionAct :=
  [.openAlloc, .openWrite 0 none, .openFlush 0, .openRegister 0, .openCheck 0,
    .hear ⟨cmdSYNACK, 1, ascii "refused"⟩ true]

theorem first_stream_failure_lost :
    ∃ s s', session.run .init firstStreamRefused = some s ∧ s.streams 1 = some 0 ∧
      s.received = some (⟨cmdSYNACK, 1, ascii "refused"⟩, 0) ∧
      session.step s (.deliver true) = some s' ∧
      ¬ Reported s' 0 (remoteError (ascii "refused")) := by
  have hmap : (session.run .init firstStreamRefused).map (fun s => decide (s.streams 1 = some 0 ∧
      s.received = some (⟨cmdSYNACK, 1, ascii "refused"⟩, 0) ∧ s.calls 0 = .returned none ∧
      (s.heap 0).synDone.buf = [] ∧ (s.heap 0).readError = none)) = some true := by decide
  obtain ⟨s, hrun, hfields⟩ := Option.map_eq_some_iff.mp hmap
  obtain ⟨hreg, held, hstage, hbuf, hread⟩ := of_decide_eq_true hfields
  have hstep : ∃ s', session.step s (.deliver true) = some s' := by
    simp only [session, Session.deliver, held]
    exact ⟨_, rfl⟩
  obtain ⟨s', hs'⟩ := hstep
  refine ⟨s, s', hrun, hreg, held, hs', ?_⟩
  have inv := sound_of_run hrun
  obtain ⟨hr, hopen⟩ := inv.held _ _ held
  obtain ⟨f', r', handled⟩ := deliver_eq_some hs'
  cases held.symm.trans handled.held
  rw [reported_iff_of_empty handled hr hopen (inv.heap 0 hr) (handled.answered rfl) (by decide)
    hbuf]
  simp [Awaits, hstage, hread]

end Glider.Anytls
