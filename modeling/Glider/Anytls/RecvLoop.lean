/-
`recvLoop` over the bytes of the connection.

An iteration checks whether the session is closed, reads a header and, in most branches of
the switch, the body it announces, and hands the frame to the session of
`Glider.Anytls.Session`. The rest of the client runs in between. The branches of `FIN`,
`HeartRequest` and `HeartResponse` do not read a body.

* `recv_inSync_iff` — a stream of frames is dispatched frame by frame, with every session and
  in every run, exactly when no frame of these three commands has a body, as far as the
  first alert that ends the loop.
* `fin_body_dispatched` — the body of a `FIN` is taken for a frame of another stream.
-/

import Glider.Anytls.SessionStep

namespace Glider.Anytls

open Glider.Go Glider.Lib

/-! ### Reading a frame -/

/-- The commands whose branch reads the body: all, unknown ones included, but three. -/
def readsBody (cmd : UInt8) : Bool :=
  cmd ≠ cmdFIN ∧ cmd ≠ cmdHeartRequest ∧ cmd ≠ cmdHeartResponse

/-- One iteration's reads: the frame as the branch sees it, and the bytes that are left. -/
def recvFrame (input : List UInt8) : Option (Frame × List UInt8) :=
  match readHeader input with
  | none => none
  | some (hdr, rest) =>
    if readsBody hdr.cmd then
      if hdr.length ≤ rest.length then
        some (⟨hdr.cmd, hdr.streamID, rest.take hdr.length⟩, rest.drop hdr.length)
      else none
    else some (⟨hdr.cmd, hdr.streamID, []⟩, rest)

/-- A frame is read as it is, if its body is read or empty. -/
theorem recvFrame_bytes (f : WireFrame) (h : readsBody f.1.cmd = true ∨ f.1.data = [])
    (rest : List UInt8) : recvFrame (f.1.bytes ++ rest) = some (f.1, rest) := by
  obtain ⟨⟨cmd, sid, data⟩, hlen⟩ := f
  have hmod : data.length % 2 ^ 16 = data.length := Nat.mod_eq_of_lt hlen
  have htake : (data ++ rest).take data.length = data := List.take_left' rfl
  have hdrop : (data ++ rest).drop data.length = rest := List.drop_left' rfl
  simp only [recvFrame, Frame.bytes, List.append_assoc, readHeader_header, length_rawHeader,
    cmd_rawHeader, streamID_rawHeader, hmod, htake, hdrop]
  obtain hread | rfl := h
  · rw [if_pos hread, if_pos (by rw [List.length_append]; exact Nat.le_add_right _ _)]
  · simp

/-- A body that is not read is left in front of the next frame. -/
theorem recvFrame_skips (f : Frame) (h : readsBody f.cmd = false) (rest : List UInt8) :
    recvFrame (f.bytes ++ rest) = some (newFrame f.cmd f.sid, f.data ++ rest) := by
  simp only [recvFrame, Frame.bytes, List.append_assoc, readHeader_header, cmd_rawHeader,
    streamID_rawHeader, h, newFrame]
  rfl

/-! ### The loop -/

/-- Why the loop has returned. -/
inductive Exit where
  | sessionClosed
  | readError
  | alert
deriving DecidableEq, Repr

inductive RecvStage where
  | top
  | reading
  | got (f : Frame)
  | delivering
  | returned (why : Exit)
deriving DecidableEq, Repr

/-- `recvLoop` in its session; `dispatched` are the frames its switch has handled. -/
structure RecvLoop where
  sess : Session
  input : List UInt8
  stage : RecvStage
  dispatched : List Frame

inductive RecvAct where
  | check
  | read
  | dispatch (ok : Bool)
  | deliver (ok : Bool)
  /-- Any step of the rest of the client. -/
  | client (a : SessionAct)
deriving DecidableEq, Repr

/-- The steps of a session that are not those of its `recvLoop`. -/
def SessionAct.isClient : SessionAct → Bool
  | .hear _ _ | .deliver _ | .quit => false
  | _ => true

namespace RecvLoop

/-- The loop at its start. -/
def start (sess : Session) (input : List UInt8) : RecvLoop := ⟨sess, input, .top, []⟩

variable (s : RecvLoop)

/-- The deferred `Close`. -/
def exit (why : Exit) : RecvLoop :=
  { s with sess := { s.sess with stopped := true, die := true }, stage := .returned why }

def check : Option RecvLoop :=
  if s.stage = .top then
    if s.sess.die then some (s.exit .sessionClosed) else some { s with stage := .reading }
  else none

def read : Option RecvLoop :=
  if s.stage = .reading then
    match recvFrame s.input with
    | some (f, rest) => some { s with input := rest, stage := .got f }
    | none => some { s.exit .readError with input := [] }
  else none

def dispatch (ok : Bool) : Option RecvLoop :=
  match s.stage with
  | .got f =>
    (session.step s.sess (.hear f ok)).map fun t =>
      { s with
        sess := t
        dispatched := s.dispatched ++ [f]
        stage :=
          if t.stopped then .returned .alert
          else if t.received ≠ none then .delivering
          else .top }
  | _ => none

def deliver (ok : Bool) : Option RecvLoop :=
  if s.stage = .delivering then
    (session.step s.sess (.deliver ok)).map fun t => { s with sess := t, stage := .top }
  else none

def client (a : SessionAct) : Option RecvLoop :=
  if a.isClient then (session.step s.sess a).map fun t => { s with sess := t } else none

end RecvLoop

def recvLoop : Machine RecvLoop RecvAct where
  step s
    | .check => s.check
    | .read => s.read
    | .dispatch ok => s.dispatch ok
    | .deliver ok => s.deliver ok
    | .client a => s.client a

/-! ### In sync -/

/-- The frames taken from the connection. -/
def RecvLoop.taken (s : RecvLoop) : List Frame :=
  match s.stage with
  | .got f => s.dispatched ++ [f]
  | _ => s.dispatched

/-- An alert that ends the loop. -/
def Frame.ends (f : Frame) : Bool := f.cmd = cmdAlert ∧ f.data ≠ []

/-- The loop has taken the first frames of the stream, as they are, and the others are before
it. It goes on until the stream has ended, an alert has come or the session is closed. -/
structure InSync (fs : List WireFrame) (s : RecvLoop) : Prop where
  split : ∃ done rest, fs = done ++ rest ∧ s.taken = done.map (·.1) ∧ s.input = wire.encodeAll rest
  ended : s.stage = .returned .readError → s.taken = fs.map (·.1)
  alert : s.stage = .returned .alert → ∃ f ∈ s.taken.getLast?, f.ends = true
  closed : s.stage = .returned .sessionClosed → s.sess.die = true
  goesOn : (∀ why, s.stage ≠ .returned why) →
    ∃ a s', (∀ b, a ≠ .client b) ∧ recvLoop.step s a = some s'

/-- No body is left unread, as far as the loop goes. -/
def BodiesRead : List WireFrame → Prop
  | [] => True
  | f :: fs => (readsBody f.1.cmd = true ∨ f.1.data = []) ∧ (f.1.ends = false → BodiesRead fs)

/-- A session whose `recvLoop` is about to start an iteration. -/
def Session.Ready (s : Session) : Prop := s.stopped = false ∧ s.received = none

/-! ### Streams without unread bodies -/

/-- The loop will read another frame. -/
def RecvStage.goesOn : RecvStage → Bool
  | .top | .reading | .delivering => true
  | .got f => !f.ends
  | .returned _ => false

/-- The loop has given no frame to the session that is not dealt with. -/
def RecvStage.idle : RecvStage → Bool
  | .top | .reading | .got _ => true
  | .delivering | .returned _ => false

/-- The invariant of the runs over `fs`. -/
structure Tracks (fs : List WireFrame) (s : RecvLoop) : Prop where
  split : ∃ done rest, fs = done ++ rest ∧ s.taken = done.map (·.1) ∧
    s.input = wire.encodeAll rest ∧ (s.stage.goesOn = true → BodiesRead rest) ∧
    (s.stage = .returned .readError → rest = [])
  alert : s.stage = .returned .alert → ∃ f ∈ s.taken.getLast?, f.ends = true
  closed : s.stage = .returned .sessionClosed → s.sess.die = true
  ready : s.stage.idle = true → s.sess.Ready
  busy : s.stage = .delivering → s.sess.stopped = false ∧ ∃ p, s.sess.received = some p

section Forward

variable {fs : List WireFrame} {s s' : RecvLoop}

theorem hear_isSome {s : Session} (h : s.Ready) (f : Frame) (ok : Bool) :
    ∃ t, session.step s (.hear f ok) = some t := by
  obtain ⟨hrun, hfree⟩ := h
  simp only [session, Session.hear, hrun, hfree]
  simp only [Bool.false_eq_true, ne_eq, not_true_eq_false, or_self, if_false]
  repeat' split
  all_goals exact ⟨_, rfl⟩

theorem deliver_isSome {s : Session} {p : Frame × StreamRef} (h : s.received = some p) (ok : Bool) :
    ∃ t, session.step s (.deliver ok) = some t := by
  obtain ⟨f, r⟩ := p
  simp only [session, Session.deliver, h]
  repeat' split
  all_goals exact ⟨_, rfl⟩

theorem Tracks.goesOn (tracks : Tracks fs s) (running : ∀ why, s.stage ≠ .returned why) :
    ∃ a s', (∀ b, a ≠ .client b) ∧ recvLoop.step s a = some s' := by
  cases hstage : s.stage with
  | top =>
    refine ⟨.check, ?_⟩
    simp only [recvLoop, RecvLoop.check, hstage, if_true]
    split
    · exact ⟨_, fun _ => nofun, rfl⟩
    · exact ⟨_, fun _ => nofun, rfl⟩
  | reading =>
    refine ⟨.read, ?_⟩
    simp only [recvLoop, RecvLoop.read, hstage, if_true]
    split
    · exact ⟨_, fun _ => nofun, rfl⟩
    · exact ⟨_, fun _ => nofun, rfl⟩
  | got f =>
    obtain ⟨t, ht⟩ := hear_isSome (tracks.ready (hstage ▸ rfl)) f true
    refine ⟨.dispatch true, ?_⟩
    simp only [recvLoop, RecvLoop.dispatch, hstage, ht]
    exact ⟨_, fun _ => nofun, rfl⟩
  | delivering =>
    obtain ⟨-, p, hp⟩ := tracks.busy hstage
    obtain ⟨t, ht⟩ := deliver_isSome hp true
    refine ⟨.deliver true, ?_⟩
    simp only [recvLoop, RecvLoop.deliver, hstage, if_true, ht]
    exact ⟨_, fun _ => nofun, rfl⟩
  | returned why => exact absurd hstage (running why)

theorem Tracks.inSync (tracks : Tracks fs s) : InSync fs s := by
  obtain ⟨done, rest, hfs, htaken, hinput, -, hended⟩ := tracks.split
  refine ⟨⟨done, rest, hfs, htaken, hinput⟩, fun hstage => ?_, tracks.alert, tracks.closed,
    tracks.goesOn⟩
  rw [htaken, hfs, hended hstage, List.append_nil]

theorem Tracks.start {sess : Session} (ready : sess.Ready) (hread : BodiesRead fs) :
    Tracks fs (.start sess (wire.encodeAll fs)) where
  split := ⟨[], fs, rfl, rfl, rfl, fun _ => hread, nofun⟩
  alert := nofun
  closed := nofun
  ready _ := ready
  busy := nofun

theorem Tracks.check (tracks : Tracks fs s) (h : s.check = some s') : Tracks fs s' := by
  obtain ⟨done, rest, hfs, htaken, hinput, hread, -⟩ := tracks.split
  unfold RecvLoop.check at h
  split at h <;> try cases h
  rename_i htop
  have hdispatched : s.dispatched = done.map (·.1) := by
    rw [← htaken, RecvLoop.taken, htop]
  split at h <;> cases h
  · exact ⟨⟨done, rest, hfs, hdispatched, hinput, nofun, nofun⟩, nofun, fun _ => rfl,
      nofun, nofun⟩
  · exact ⟨⟨done, rest, hfs, hdispatched, hinput, fun _ => hread (htop ▸ rfl), nofun⟩, nofun, nofun,
      fun _ => tracks.ready (htop ▸ rfl), nofun⟩

theorem Tracks.read (tracks : Tracks fs s) (h : s.read = some s') : Tracks fs s' := by
  obtain ⟨done, rest, hfs, htaken, hinput, hread, -⟩ := tracks.split
  unfold RecvLoop.read at h
  split at h <;> try cases h
  rename_i hreading
  have hdispatched : s.dispatched = done.map (·.1) := by
    rw [← htaken, RecvLoop.taken, hreading]
  cases rest with
  | nil =>
    -- the stream has ended
    have hnone : recvFrame s.input = none := by
      rw [hinput]
      rfl
    rw [hnone] at h
    cases h
    exact ⟨⟨done, [], hfs, hdispatched, rfl, nofun, fun _ => rfl⟩, nofun, nofun,
      nofun, nofun⟩
  | cons f rest =>
    obtain ⟨hbody, hlater⟩ := hread (hreading ▸ rfl)
    have hsome : recvFrame s.input = some (f.1, wire.encodeAll rest) := by
      rw [hinput]
      exact recvFrame_bytes f hbody _
    rw [hsome] at h
    cases h
    refine ⟨⟨done ++ [f], rest, ?_, ?_, rfl, fun hends => hlater ?_, nofun⟩, nofun, nofun,
      fun _ => tracks.ready (hreading ▸ rfl), nofun⟩
    · rw [hfs, List.append_assoc]
      rfl
    · simp [RecvLoop.taken, hdispatched]
    · simpa [RecvStage.goesOn] using hends

theorem Tracks.dispatch (tracks : Tracks fs s) {ok : Bool} (h : s.dispatch ok = some s') :
    Tracks fs s' := by
  obtain ⟨done, rest, hfs, htaken, hinput, hread, -⟩ := tracks.split
  unfold RecvLoop.dispatch at h
  split at h <;> try cases h
  rename_i f hgot
  obtain ⟨t, ht, rfl⟩ := Option.map_eq_some_iff.mp h
  have heard := hear_eq_some ht
  have hdispatched : s.dispatched ++ [f] = done.map (·.1) := by
    rw [← htaken, RecvLoop.taken, hgot]
  by_cases hstop : t.stopped = true
  · have hends : f.ends = true := by simpa [Frame.ends] using heard.stopped.mp hstop
    simp only [hstop, if_true]
    exact ⟨⟨done, rest, hfs, hdispatched, hinput, nofun, nofun⟩,
      fun _ => ⟨f, by simp [RecvLoop.taken], hends⟩, nofun,
      nofun, nofun⟩
  · have hends : f.ends = false := by
      rw [← Bool.not_eq_true]
      intro hends
      exact hstop (heard.stopped.mpr (by simpa [Frame.ends] using hends))
    have hrest : BodiesRead rest := hread (by rw [hgot, RecvStage.goesOn, hends]; rfl)
    have hstop : t.stopped = false := Bool.eq_false_iff.mpr hstop
    simp only [hstop, Bool.false_eq_true, if_false]
    by_cases hfree : t.received = none
    · rw [if_neg (not_not.mpr hfree)]
      exact ⟨⟨done, rest, hfs, hdispatched, hinput, fun _ => hrest, nofun⟩, nofun, nofun,
        fun _ => ⟨hstop, hfree⟩, nofun⟩
    · rw [if_pos hfree]
      exact ⟨⟨done, rest, hfs, hdispatched, hinput, fun _ => hrest, nofun⟩, nofun, nofun,
        nofun,
        fun _ => ⟨hstop, Option.ne_none_iff_exists'.mp hfree⟩⟩

theorem Tracks.deliver (tracks : Tracks fs s) {ok : Bool} (h : s.deliver ok = some s') :
    Tracks fs s' := by
  obtain ⟨done, rest, hfs, htaken, hinput, hread, -⟩ := tracks.split
  unfold RecvLoop.deliver at h
  split at h <;> try cases h
  rename_i hstage
  obtain ⟨t, ht, rfl⟩ := Option.map_eq_some_iff.mp h
  obtain ⟨f, r, handled⟩ := deliver_eq_some ht
  have hdispatched : s.dispatched = done.map (·.1) := by
    rw [← htaken, RecvLoop.taken, hstage]
  exact ⟨⟨done, rest, hfs, hdispatched, hinput, fun _ => hread (hstage ▸ rfl), nofun⟩, nofun, nofun,
    fun _ => ⟨handled.stopped.trans (tracks.busy hstage).1, handled.received⟩, nofun⟩

/-- The rest of the client neither reads the connection nor touches the frame in hand. -/
theorem client_step {s t : Session} {a : SessionAct} (ha : a.isClient = true)
    (h : session.step s a = some t) :
    t.stopped = s.stopped ∧ t.received = s.received ∧ (s.die = true → t.die = true) := by
  obtain ⟨-, alloc⟩ | ⟨f, ok, rfl, -⟩ | ⟨f, r, ok, rfl, -⟩ | loc := step_cases h
  · exact ⟨alloc.stopped, alloc.received, fun hdie => alloc.die.trans hdie⟩
  · cases ha
  · cases ha
  · refine ⟨loc.stopped ?_, loc.received, loc.die⟩
    rintro rfl
    cases ha

theorem Tracks.client (tracks : Tracks fs s) {a : SessionAct} (h : s.client a = some s') :
    Tracks fs s' := by
  unfold RecvLoop.client at h
  split at h <;> try cases h
  rename_i ha
  obtain ⟨t, ht, rfl⟩ := Option.map_eq_some_iff.mp h
  obtain ⟨hstopped, hreceived, hdie⟩ := client_step ha ht
  have ready : s.sess.Ready → t.Ready := fun ⟨hrun, hfree⟩ =>
    ⟨hstopped.trans hrun, hreceived.trans hfree⟩
  exact ⟨tracks.split, tracks.alert, fun hstage => hdie (tracks.closed hstage),
    fun hidle => ready (tracks.ready hidle),
    fun hbusy => ⟨hstopped.trans (tracks.busy hbusy).1,
      (tracks.busy hbusy).2.imp fun _ hp => hreceived.trans hp⟩⟩

theorem Tracks.step (tracks : Tracks fs s) {a : RecvAct} (h : recvLoop.step s a = some s') :
    Tracks fs s' := by
  cases a with
  | check => exact tracks.check h
  | read => exact tracks.read h
  | dispatch ok => exact tracks.dispatch h
  | deliver ok => exact tracks.deliver h
  | client a => exact tracks.client h

end Forward

/-! ### Streams with an unread body -/

/-- A session without streams, as it is before the first `OpenStream`. -/
structure Session.Unused (s : Session) : Prop where
  ready : s.Ready
  streams : ∀ sid, s.streams sid = none
  die : s.die = false
  buffering : s.buffering = true

theorem hear_buffered {s t : Session} (unused : s.Unused) {f : Frame} (hends : f.ends = false)
    (h : s.hear f true = some t) : t.die = false ∧ t.buffering = true := by
  have hs : s.die = false ∧ s.buffering = true := ⟨unused.die, unused.buffering⟩
  cases (hear_cases h).2.2 with
  | alert hcmd hdata => simp [Frame.ends, hcmd, hdata] at hends
  | heartRequest hcmd => simp [Session.writeControl, Session.write, hs]
  | _ => exact hs

theorem Session.Unused.hear {s : Session} (unused : s.Unused) {f : Frame} (hends : f.ends = false) :
    ∃ t, session.step s (.hear f true) = some t ∧ t.Unused := by
  obtain ⟨t, ht⟩ := hear_isSome unused.ready f true
  have heard := hear_eq_some ht
  refine ⟨t, ht, ⟨?_, ?_⟩, ?_, ?_, ?_⟩
  · rw [← Bool.not_eq_true]
    intro hstop
    have : f.ends = true := by simpa [Frame.ends] using heard.stopped.mp hstop
    rw [hends] at this
    cases this
  · rw [heard.received, unused.streams]
    split <;> rfl
  · intro sid
    rw [heard.streams]
    split
    · by_cases hsid : sid = f.sid
      · rw [hsid, Function.update_self]
      · rw [Function.update_of_ne hsid]
        exact unused.streams sid
    · exact unused.streams sid
  · exact (hear_buffered unused hends ht).1
  · exact (hear_buffered unused hends ht).2

section Backward

variable {s : RecvLoop}

theorem check_eq (hstage : s.stage = .top) (hdie : s.sess.die = false) :
    recvLoop.step s .check = some { s with stage := .reading } := by
  simp [recvLoop, RecvLoop.check, hstage, hdie]

variable {f : Frame} {rest : List UInt8}

theorem read_eq (hstage : s.stage = .reading) (h : recvFrame s.input = some (f, rest)) :
    recvLoop.step s .read = some { s with input := rest, stage := .got f } := by
  simp [recvLoop, RecvLoop.read, hstage, h]

/-- Two steps take a frame. -/
theorem take_run (hstage : s.stage = .top) (hdie : s.sess.die = false)
    (h : recvFrame s.input = some (f, rest)) :
    recvLoop.run s [.check, .read] = some { s with input := rest, stage := .got f } := by
  rw [recvLoop.run_cons_of_step (check_eq hstage hdie)]
  exact recvLoop.run_cons_of_step (read_eq (s := { s with stage := .reading }) rfl h)

/-- Three steps take and dispatch a frame no stream is registered for. -/
theorem iterate_run (hstage : s.stage = .top) (unused : s.sess.Unused)
    (h : recvFrame s.input = some (f, rest)) (hends : f.ends = false) :
    ∃ t, t.Unused ∧ recvLoop.run s [.check, .read, .dispatch true] =
      some ⟨t, rest, .top, s.dispatched ++ [f]⟩ := by
  obtain ⟨t, ht, unused'⟩ := unused.hear hends
  obtain ⟨hrun, hfree⟩ := unused'.ready
  refine ⟨t, unused', ?_⟩
  have hdispatch : recvLoop.step { s with input := rest, stage := .got f } (.dispatch true) =
      some ⟨t, rest, .top, s.dispatched ++ [f]⟩ := by
    simp [recvLoop, RecvLoop.dispatch, ht, hrun, hfree]
  exact (recvLoop.run_append (take_run hstage unused.die h)).trans
    (recvLoop.run_cons_of_step hdispatch)

/-- An unread body: the loop takes a frame that was not sent. -/
theorem exists_unread {fs : List WireFrame} (hunread : ¬ BodiesRead fs)
    (hstage : s.stage = .top) (unused : s.sess.Unused) (hinput : s.input = wire.encodeAll fs) :
    ∃ as t done f rest, recvLoop.run s as = some t ∧ fs = done ++ f :: rest ∧ f.1.data ≠ [] ∧
      t.taken = s.dispatched ++ done.map (·.1) ++ [newFrame f.1.cmd f.1.sid] := by
  induction fs generalizing s with
  | nil => exact absurd trivial hunread
  | cons f fs ih =>
    by_cases hbody : readsBody f.1.cmd = true ∨ f.1.data = []
    · -- this frame is read; the unread one comes later
      have hlater : ¬ (f.1.ends = false → BodiesRead fs) := fun hlater => hunread ⟨hbody, hlater⟩
      obtain ⟨hends, hunread'⟩ := Classical.not_imp.mp hlater
      have hrecv : recvFrame s.input = some (f.1, wire.encodeAll fs) := by
        rw [hinput]
        exact recvFrame_bytes f hbody _
      obtain ⟨t, unused', hrun⟩ := iterate_run hstage unused hrecv hends
      obtain ⟨as, u, done, g, rest, hrun', hfs, hdata, htaken⟩ := ih hunread'
        (s := ⟨t, wire.encodeAll fs, .top, s.dispatched ++ [f.1]⟩) rfl unused' rfl
      refine ⟨[.check, .read, .dispatch true] ++ as, u, f :: done, g, rest, ?_, ?_, hdata, ?_⟩
      · rw [recvLoop.run_append hrun]
        exact hrun'
      · rw [hfs]
        rfl
      · rw [htaken]
        simp
    · obtain ⟨hskips, hdata⟩ := not_or.mp hbody
      have hrecv : recvFrame s.input =
          some (newFrame f.1.cmd f.1.sid, f.1.data ++ wire.encodeAll fs) := by
        rw [hinput]
        exact recvFrame_skips f.1 (Bool.eq_false_iff.mpr hskips) _
      have hrun := take_run hstage unused.die hrecv
      refine ⟨_, _, [], f, fs, hrun, rfl, hdata, ?_⟩
      simp [RecvLoop.taken]

end Backward

/-- **When the receiving side stays in sync.** For every stream of frames: whatever the state
of the session and whatever the rest of the client does, `recvLoop` takes exactly the frames
of the stream, in order and until its end, an alert or the end of the session, if and only if
no body is left unread before an alert. -/
theorem recv_inSync_iff (fs : List WireFrame) :
    (∀ sess : Session, sess.Ready → ∀ as s,
        recvLoop.run (.start sess (wire.encodeAll fs)) as = some s → InSync fs s) ↔
      BodiesRead fs := by
  constructor
  · intro inSync
    by_contra hunread
    obtain ⟨as, t, done, f, rest, hrun, hfs, hdata, htaken⟩ := exists_unread hunread
      (s := .start .init (wire.encodeAll fs)) rfl ⟨⟨rfl, rfl⟩, fun _ => rfl, rfl, rfl⟩ rfl
    obtain ⟨done', rest', hfs', htaken', -⟩ := (inSync .init ⟨rfl, rfl⟩ as t hrun).split
    -- the frame taken in place of `f` has lost its body
    have hget : (fs.map (·.1))[done.length]? = some (newFrame f.1.cmd f.1.sid) := by
      have hlen : done.length < (done'.map (·.1)).length := by
        rw [← htaken', htaken]
        simp [RecvLoop.start]
      rw [hfs', List.map_append, List.getElem?_append_left hlen, ← htaken', htaken]
      simp [RecvLoop.start]
    rw [hfs] at hget
    have hlost : f.1 = newFrame f.1.cmd f.1.sid := by simpa using hget
    exact hdata (congrArg Frame.data hlost)
  · intro hread sess ready as s hrun
    have preserved : ∀ s a s', Tracks fs s → recvLoop.step s a = some s' → Tracks fs s' :=
      fun _ _ _ tracks h => tracks.step h
    exact (recvLoop.run_invariant preserved hrun (.start ready hread)).inSync

/-- A `FIN` for the first stream whose body reads as the header of a `SYNACK` for the second. -/
def finWithBody : WireFrame := ⟨⟨cmdFIN, 1, header cmdSYNACK 2 0⟩, by decide⟩

theorem fin_body_dispatched :
    ∃ s, recvLoop.run (.start .init (wire.encodeAll [finWithBody]))
        [.check, .read, .dispatch true, .check, .read, .dispatch true] = some s ∧
      s.dispatched = [newFrame cmdFIN 1, newFrame cmdSYNACK 2] ∧
      ¬ InSync [finWithBody] s := by
  have hmap : (recvLoop.run (.start .init (wire.encodeAll [finWithBody]))
      [.check, .read, .dispatch true, .check, .read, .dispatch true]).map
      (fun s => decide (s.dispatched = [newFrame cmdFIN 1, newFrame cmdSYNACK 2] ∧
        s.stage = .top)) = some true := by decide
  obtain ⟨s, hrun, hfields⟩ := Option.map_eq_some_iff.mp hmap
  obtain ⟨hdispatched, hstage⟩ := of_decide_eq_true hfields
  refine ⟨s, hrun, hdispatched, fun inSync => ?_⟩
  obtain ⟨done, rest, hfs, htaken, -⟩ := inSync.split
  rw [RecvLoop.taken, hstage, hdispatched] at htaken
  have hlen := congrArg List.length hfs
  have hlen' := congrArg List.length htaken
  simp only [List.length_append, List.length_map, List.length_cons, List.length_nil] at hlen hlen'
  omega

end Glider.Anytls
