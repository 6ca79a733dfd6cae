/-
An anytls session and its server, joined by the connection.

The server answers every `SYN` it has received with one `SYNACK`, sends payloads on the
streams it has answered until it ends them with a `FIN`, and may send any other frame at any
time. What it has sent and `recvLoop` has not yet read is the `inbox`. Steps that end the
session are not part of the machine.

* `link_delivers_iff` — nothing the server sends to a stream is lost, exactly in the runs in
  which `recvLoop` finds the stream of every frame it reads and the stream has room for
  every payload.
* `answer_before_registration_lost` — `OpenStream` writes the `SYN` before it registers the
  stream; an answer that comes in between is dropped, and the call waits for it in vain.
-/

import Glider.Anytls.SessionStep

namespace Glider.Anytls

open Glider.Go Glider.Lib

/-! ### What the server sends to a stream -/

/-- The two kinds of frames that bring something to a stream. -/
inductive Kind where
  | answer
  | payload
deriving DecidableEq, Repr

namespace Kind

/-- A `SYNACK` for the stream `sid`; a `PSH` with data for it. -/
def selects (sid : UInt32) : Kind → Frame → Bool
  | answer, f => f.cmd = cmdSYNACK ∧ f.sid = sid
  | payload, f => f.cmd = cmdPSH ∧ f.sid = sid ∧ f.data ≠ []

/-- What the stream has got of it. -/
def recorded : Kind → Stream → List (List UInt8)
  | answer, x => x.acked
  | payload, x => x.enqueued

end Kind

/-- The frame brings something to its stream. -/
def Frame.carries (f : Frame) : Bool :=
  Kind.answer.selects f.sid f || Kind.payload.selects f.sid f

/-- The bodies of one kind for the stream `sid`. -/
def bodies (k : Kind) (sid : UInt32) (fs : List Frame) : List (List UInt8) :=
  (fs.filter (k.selects sid)).map (·.data)

section Bodies

variable {k : Kind} {sid : UInt32}

theorem bodies_append (fs gs : List Frame) :
    bodies k sid (fs ++ gs) = bodies k sid fs ++ bodies k sid gs := by
  simp [bodies]

variable {f : Frame}

theorem bodies_of_selects (h : k.selects sid f = true) (fs : List Frame) :
    bodies k sid (f :: fs) = f.data :: bodies k sid fs := by
  simp [bodies, h]

theorem bodies_of_not_selects (h : k.selects sid f = false) (fs : List Frame) :
    bodies k sid (f :: fs) = bodies k sid fs := by
  simp [bodies, h]

theorem Kind.sid_of_selects (h : k.selects sid f = true) : f.sid = sid := by
  cases k <;> simp only [selects, decide_eq_true_eq] at h
  exacts [h.2, h.2.1]

theorem bodies_eq_nil_of_not_selects {fs : List Frame} (h : ∀ f ∈ fs, k.selects sid f = false) :
    bodies k sid fs = [] := by
  rw [bodies, List.filter_eq_nil_iff.mpr fun f hf => Bool.eq_false_iff.mp (h f hf)]
  rfl

/-- A frame that brings something is one `recvLoop` looks up a stream for. -/
theorem addressed_of_selects (h : k.selects sid f = true) :
    (f.cmd = cmdPSH ∧ f.data ≠ []) ∨ f.cmd = cmdFIN ∨ f.cmd = cmdSYNACK := by
  cases k <;> simp only [Kind.selects, decide_eq_true_eq] at h
  · exact .inr (.inr h.1)
  · exact .inl ⟨h.1, h.2.2⟩

theorem Frame.carries_iff : f.carries = true ↔ ∃ k : Kind, k.selects f.sid f = true := by
  rw [Frame.carries, Bool.or_eq_true]
  constructor
  · rintro (h | h)
    exacts [⟨_, h⟩, ⟨_, h⟩]
  · rintro ⟨k, h⟩
    cases k
    exacts [.inl h, .inr h]

end Bodies

/-! ### The machine -/

structure Link where
  sess : Session
  /-- The frames `recvLoop` has read. -/
  heard : List Frame
  inbox : List Frame

namespace Link

def init : Link := ⟨.init, [], []⟩

variable (s : Link)

/-- The frames the server has sent. -/
def out : List Frame := s.heard ++ s.inbox

/-- The frame `recvLoop` works on. -/
def held : List Frame := (s.sess.received.map Prod.fst).toList

/-- The frames on their way to their stream. -/
def onTheWay : List Frame := s.held ++ s.inbox

def send (f : Frame) : Link := { s with inbox := s.inbox ++ [f] }

end Link

def SessionAct.reads : SessionAct → Bool
  | .hear _ _ => true
  | _ => false

def SessionAct.delivers : SessionAct → Bool
  | .deliver _ => true
  | _ => false

inductive LinkAct where
  /-- Any step of the client other than reading a frame. -/
  | client (a : SessionAct)
  | recv (ok : Bool)
  | synack (sid : UInt32) (body : List UInt8)
  | push (sid : UInt32) (data : List UInt8)
  | fin (sid : UInt32)
  | other (f : Frame)
deriving DecidableEq, Repr

namespace Link

/-- A step, whether or not it ends the session. -/
def act (s : Link) : LinkAct → Option Link
  | .client a =>
    if a.reads then none else (session.step s.sess a).map fun t => { s with sess := t }
  | .recv ok =>
    match s.inbox with
    | [] => none
    | f :: rest =>
      (session.step s.sess (.hear f ok)).map fun t =>
        { sess := t, heard := s.heard ++ [f], inbox := rest }
  | .synack sid body =>
    if newFrame cmdSYN sid ∈ s.sess.sent ∧ bodies .answer sid s.out = [] then
      some (s.send ⟨cmdSYNACK, sid, body⟩)
    else none
  | .push sid data =>
    if bodies .answer sid s.out ≠ [] ∧ newFrame cmdFIN sid ∉ s.out then
      some (s.send ⟨cmdPSH, sid, data⟩)
    else none
  | .fin sid =>
    if bodies .answer sid s.out ≠ [] then some (s.send (newFrame cmdFIN sid)) else none
  | .other f =>
    if f.cmd = cmdSYNACK ∨ f.cmd = cmdPSH ∨ f.cmd = cmdFIN then none else some (s.send f)

end Link

def link : Machine Link LinkAct where
  step s a := (s.act a).filter fun t => !t.sess.die

/-- Everything the server has sent to the streams with an id in `ids` has arrived there, in
order, or is on its way. -/
def Delivered (ids : UInt32 → Prop) (s : Link) : Prop :=
  ∀ k r, r < s.sess.next → ids (s.sess.heap r).id →
    bodies k (s.sess.heap r).id s.out =
      k.recorded (s.sess.heap r) ++ bodies k (s.sess.heap r).id s.onTheWay

/-- `recvLoop` reads a frame for a stream in `ids` when the stream is registered, and gives a
payload to it when there is room. -/
def Timely (ids : UInt32 → Prop) (s : Link) : LinkAct → Prop
  | .recv _ => ∀ f ∈ s.inbox.head?, ids f.sid → f.carries = true → s.sess.streams f.sid ≠ none
  | .client a => a.delivers = true → ∀ p ∈ s.sess.received, ids p.1.sid → p.1.cmd = cmdPSH →
      (s.sess.heap p.2).Accepts p.1.data
  | _ => True

instance (ids : UInt32 → Prop) [DecidablePred ids] (s : Link) :
    (a : LinkAct) → Decidable (Timely ids s a)
  | .recv _ => inferInstanceAs (Decidable (∀ f ∈ s.inbox.head?, _))
  | .client a => inferInstanceAs (Decidable (a.delivers = true → ∀ p ∈ s.sess.received, _))
  | .synack _ _ | .push _ _ | .fin _ | .other _ => isTrue trivial

/-- The ids have not run out. -/
def IdsLeft (s : Link) (a : LinkAct) : Prop :=
  a = .client .openAlloc → s.sess.next + 1 < 2 ^ 32

instance (s : Link) (a : LinkAct) : Decidable (IdsLeft s a) :=
  inferInstanceAs (Decidable (_ → _))

/-! ### Ids -/

/-- The streams are numbered in the order they were opened. -/
structure Session.Numbered (s : Session) : Prop where
  streamID : s.streamID.toNat = s.next
  ids : ∀ r, r < s.next → (s.heap r).id.toNat = r + 1
  registered : ∀ sid r, s.streams sid = some r → (s.heap r).id = sid
  held : ∀ f r, s.received = some (f, r) → (s.heap r).id = f.sid
  syn : ∀ g ∈ s.written, g.cmd = cmdSYN → ∃ r, r < s.next ∧ (s.heap r).id = g.sid

theorem Session.Numbered.init : Session.init.Numbered where
  streamID := rfl
  ids _ hr := absurd hr (Nat.not_lt_zero _)
  registered _ _ h := by cases h
  held _ _ h := by cases h
  syn g hg hcmd := by
    obtain rfl : g = settingsFrame := by simpa [Session.written, Session.init] using hg
    cases hcmd

section Numbers

variable {s s' : Session} {a : SessionAct}

theorem Session.Numbered.step (num : s.Numbered) (inv : s.Sound)
    (left : a = .openAlloc → s.next + 1 < 2 ^ 32) (h : session.step s a = some s') :
    s'.Numbered := by
  have kept {r : StreamRef} (hr : r < s.next) : r < s'.next ∧ (s'.heap r).id = (s.heap r).id :=
    ⟨Nat.lt_of_lt_of_le hr (step_next_le h), step_id h hr⟩
  have succ (ha : a = .openAlloc) : (s.streamID + 1).toNat = s.next + 1 := by
    rw [UInt32.toNat_add, num.streamID]
    exact Nat.mod_eq_of_lt (left ha)
  refine ⟨?_, ?_, ?_, ?_, ?_⟩
  · obtain ⟨ha, alloc⟩ | ⟨f, ok, -, heard⟩ | ⟨f, r₀, ok, -, handled⟩ | loc := step_cases h
    · rw [alloc.streamID, alloc.next, succ ha]
    · rw [heard.streamID, heard.next, num.streamID]
    · rw [handled.streamID, handled.next, num.streamID]
    · rw [loc.streamID, loc.next, num.streamID]
  · intro r hr
    by_cases hold : r < s.next
    · rw [(kept hold).2, num.ids r hold]
    · obtain ⟨ha, rfl, hnew⟩ := step_heap_new h hr hold
      rw [hnew]
      exact succ ha
  · intro sid r hs
    obtain old | ⟨-, hflushed, rfl, -⟩ := step_streams h hs
    · rw [(kept (inv.registered sid r old).1).2, num.registered sid r old]
    · exact (kept (inv.lt_next (by rw [hflushed]; nofun))).2
  · intro f r hs
    obtain ⟨old, -⟩ | ⟨-, -, found, -⟩ := step_received h hs
    · rw [(kept (inv.held f r old).1).2, num.held f r old]
    · rw [(kept (inv.registered _ r found).1).2, num.registered _ r found]
  · intro g hg hcmd
    obtain old | hother | ⟨r, hstage, hsid⟩ := step_written h hg
    · obtain ⟨r, hr, hid⟩ := num.syn g old hcmd
      exact ⟨r, (kept hr).1, (kept hr).2.trans hid⟩
    · exact absurd hcmd hother
    · have hr := inv.lt_next (r := r) (by rw [hstage]; nofun)
      exact ⟨r, (kept hr).1, (kept hr).2.trans hsid.symm⟩

/-- Two streams have two ids. -/
theorem Session.Numbered.ref_eq (num : s.Numbered) {r r' : StreamRef} (hr : r < s.next)
    (hr' : r' < s.next) (h : (s.heap r).id = (s.heap r').id) : r = r' := by
  have hnat := congrArg UInt32.toNat h
  rw [num.ids r hr, num.ids r' hr'] at hnat
  exact Nat.succ.inj hnat

end Numbers

/-! ### Runs -/

/-- When the server may send `f`. -/
structure Link.Sends (s : Link) (f : Frame) : Prop where
  answer : f.cmd = cmdSYNACK → newFrame cmdSYN f.sid ∈ s.sess.sent ∧ bodies .answer f.sid s.out = []
  payload : f.cmd = cmdPSH → bodies .answer f.sid s.out ≠ []

/-- What holds in every state of the link. -/
structure Link.Sound (s : Link) : Prop where
  sess : s.sess.Sound
  numbered : s.sess.Numbered
  held : ∀ f r, s.sess.received = some (f, r) → f ∈ s.heard ∧
    ((f.cmd = cmdPSH ∧ f.data ≠ []) ∨ f.cmd = cmdFIN ∨ f.cmd = cmdSYNACK)
  out : ∀ k sid, bodies k sid s.out ≠ [] → ∃ r, r < s.sess.next ∧ (s.sess.heap r).id = sid
  once : ∀ sid, (bodies .answer sid s.out).length ≤ 1

theorem Link.Sound.init : Link.init.Sound where
  sess := .init
  numbered := .init
  held _ _ h := by cases h
  out _ _ h := absurd rfl h
  once _ := Nat.zero_le 1

section Runs

variable {s s' : Link} {a : LinkAct} {ids : UInt32 → Prop}

/-- The three kinds of steps. -/
theorem link_step_cases (ids : UInt32 → Prop) (h : link.step s a = some s') :
    (∃ b t, a = .client b ∧ (∀ f ok, b ≠ .hear f ok) ∧ session.step s.sess b = some t ∧
      s' = { s with sess := t }) ∨
    (∃ ok f rest t, a = .recv ok ∧ s.inbox = f :: rest ∧
      session.step s.sess (.hear f ok) = some t ∧ s' = ⟨t, s.heard ++ [f], rest⟩) ∨
    ∃ f, s.Sends f ∧ s' = s.send f ∧ Timely ids s a := by
  obtain ⟨hact, -⟩ := Option.filter_eq_some_iff.mp h
  cases a with
  | client b =>
    simp only [Link.act] at hact
    split at hact
    · cases hact
    rename_i hreads
    obtain ⟨t, ht, rfl⟩ := Option.map_eq_some_iff.mp hact
    refine .inl ⟨b, t, rfl, ?_, ht, rfl⟩
    rintro f ok rfl
    exact hreads rfl
  | recv ok =>
    simp only [Link.act] at hact
    split at hact
    · cases hact
    · rename_i f rest hinbox
      obtain ⟨t, ht, rfl⟩ := Option.map_eq_some_iff.mp hact
      exact .inr (.inl ⟨ok, f, rest, t, rfl, hinbox, ht, rfl⟩)
  | synack sid body =>
    simp only [Link.act] at hact
    split at hact <;> cases hact
    rename_i hsyn
    exact .inr (.inr ⟨_, ⟨fun _ => hsyn, (by cases ·)⟩, rfl, trivial⟩)
  | push sid data =>
    simp only [Link.act] at hact
    split at hact <;> cases hact
    rename_i hopen
    exact .inr (.inr ⟨_, ⟨(by cases ·), fun _ => hopen.1⟩, rfl, trivial⟩)
  | fin sid =>
    simp only [Link.act] at hact
    split at hact <;> cases hact
    exact .inr (.inr ⟨_, ⟨(by cases ·), (by cases ·)⟩, rfl, trivial⟩)
  | other f =>
    simp only [Link.act] at hact
    split at hact <;> cases hact
    rename_i hcmd
    exact .inr (.inr ⟨f, ⟨fun h => absurd (.inl h) hcmd, fun h => absurd (.inr (.inl h)) hcmd⟩,
      rfl, trivial⟩)

variable {f : Frame}

theorem mem_bodies {k : Kind} {sid : UInt32} {fs : List Frame} (hf : f ∈ fs)
    (h : k.selects sid f = true) : bodies k sid fs ≠ [] := by
  have hmem : f.data ∈ bodies k sid fs := List.mem_map_of_mem (List.mem_filter.mpr ⟨hf, h⟩)
  exact List.ne_nil_of_mem hmem

theorem bodies_eq_nil {k : Kind} {sid : UInt32} {fs gs : List Frame}
    (h : bodies k sid fs = []) (hsub : ∀ f ∈ gs, f ∈ fs) : bodies k sid gs = [] := by
  by_contra hne
  obtain ⟨data, hdata⟩ := List.exists_mem_of_ne_nil _ hne
  obtain ⟨f, hf, -⟩ := List.mem_map.mp hdata
  obtain ⟨hmem, hsel⟩ := List.mem_filter.mp hf
  exact mem_bodies (hsub f hmem) hsel h

/-- A frame the server sends. -/
theorem Link.Sound.send (inv : s.Sound) (hf : s.Sends f) : (s.send f).Sound where
  sess := inv.sess
  numbered := inv.numbered
  held := inv.held
  out k sid hne := by
    have hout : (s.send f).out = s.out ++ [f] := (List.append_assoc ..).symm
    rw [hout, bodies_append] at hne
    by_cases hold : bodies k sid s.out = []
    · rw [hold, List.nil_append] at hne
      have hsel : k.selects sid f = true := by
        by_contra hsel
        exact hne (bodies_of_not_selects (Bool.eq_false_iff.mpr hsel) [])
      cases k with
      | answer =>
        simp only [Kind.selects, decide_eq_true_eq] at hsel
        obtain ⟨hsyn, -⟩ := hf.answer hsel.1
        obtain ⟨r, hr, hid⟩ := inv.numbered.syn _ (List.mem_append_left _ hsyn) rfl
        exact ⟨r, hr, hid.trans hsel.2⟩
      | payload =>
        simp only [Kind.selects, decide_eq_true_eq] at hsel
        obtain ⟨r, hr, hid⟩ := inv.out .answer f.sid (hf.payload hsel.1)
        exact ⟨r, hr, hid.trans hsel.2.1⟩
    · exact inv.out k sid hold
  once sid := by
    have hout : (s.send f).out = s.out ++ [f] := (List.append_assoc ..).symm
    rw [hout, bodies_append, List.length_append]
    by_cases hsel : Kind.answer.selects sid f = true
    · have hcmd : f.cmd = cmdSYNACK ∧ f.sid = sid := by simpa [Kind.selects] using hsel
      have hnone := (hf.answer hcmd.1).2
      rw [hcmd.2] at hnone
      rw [hnone, bodies_of_selects hsel]
      exact Nat.le_refl 1
    · rw [bodies_of_not_selects (Bool.eq_false_iff.mpr hsel)]
      exact inv.once sid

variable {t : Session}

/-- A step of the session that leaves the frames on the wire alone. -/
theorem Link.Sound.sess_step (inv : s.Sound) {b : SessionAct}
    (left : b = .openAlloc → s.sess.next + 1 < 2 ^ 32) (h : session.step s.sess b = some t)
    {heard inbox : List Frame} (hout : heard ++ inbox = s.out)
    (hheld : ∀ f r, t.received = some (f, r) → f ∈ heard ∧
      ((f.cmd = cmdPSH ∧ f.data ≠ []) ∨ f.cmd = cmdFIN ∨ f.cmd = cmdSYNACK)) :
    (Link.mk t heard inbox).Sound where
  sess := inv.sess.step h
  numbered := inv.numbered.step inv.sess left h
  held := hheld
  out k sid hne := by
    have hne : bodies k sid s.out ≠ [] := hout ▸ hne
    obtain ⟨r, hr, hid⟩ := inv.out k sid hne
    exact ⟨r, Nat.lt_of_lt_of_le hr (step_next_le h), (step_id h hr).trans hid⟩
  once sid := by
    have hlen := inv.once sid
    rw [← hout] at hlen
    exact hlen

theorem Link.Sound.step (inv : s.Sound) (left : IdsLeft s a) (h : link.step s a = some s') :
    s'.Sound := by
  obtain ⟨b, t, rfl, hreads, ht, rfl⟩ | ⟨ok, f, rest, t, rfl, hinbox, ht, rfl⟩ | ⟨f, hf, rfl, -⟩ :=
    link_step_cases (fun _ => True) h
  · refine inv.sess_step (fun hb => left (congrArg _ hb)) ht rfl fun f r hs => ?_
    obtain ⟨old, -⟩ | ⟨ok, hb, -⟩ := step_received ht hs
    · exact inv.held f r old
    · exact absurd hb (hreads f ok)
  · refine inv.sess_step (fun hb => by cases hb) ht ?_ fun g r hs => ?_
    · rw [List.append_assoc, Link.out, hinbox]
      rfl
    · obtain ⟨old, -⟩ | ⟨ok', hb, -, haddressed⟩ := step_received ht hs
      · obtain ⟨hmem, hkind⟩ := inv.held g r old
        exact ⟨List.mem_append_left _ hmem, hkind⟩
      · cases hb
        exact ⟨List.mem_append_right _ (List.mem_singleton.mpr rfl), haddressed⟩
  · exact inv.send hf

theorem Link.Sound.onTheWay_sub (inv : s.Sound) : ∀ f ∈ s.onTheWay, f ∈ s.out := by
  intro f hf
  obtain hheld | hinbox := List.mem_append.mp hf
  · obtain ⟨⟨f', r⟩, hrecv, rfl⟩ := Option.map_eq_some_iff.mp (Option.mem_toList.mp hheld)
    exact List.mem_append_left _ (inv.held f' r hrecv).1
  · exact List.mem_append_right _ hinbox

/-- What is sent is on its way. -/
theorem delivered_send (good : Delivered ids s) (f : Frame) : Delivered ids (s.send f) := by
  intro k r hr hids
  have hout : (s.send f).out = s.out ++ [f] := (List.append_assoc ..).symm
  have hway : (s.send f).onTheWay = s.onTheWay ++ [f] := (List.append_assoc ..).symm
  rw [hout, hway, bodies_append, bodies_append, ← List.append_assoc]
  exact congrArg (· ++ _) (good k r hr hids)

/-- `recvLoop` reads a frame: it is lost if its stream is not registered. -/
theorem delivered_recv_iff (inv : s.Sound) (good : Delivered ids s) {ok : Bool} {rest : List Frame}
    (hinbox : s.inbox = f :: rest) (h : session.step s.sess (.hear f ok) = some t) :
    Delivered ids ⟨t, s.heard ++ [f], rest⟩ ↔ Timely ids s (.recv ok) := by
  have heard := hear_eq_some h
  have hway : s.onTheWay = f :: rest := by
    rw [Link.onTheWay, Link.held, heard.free, hinbox]
    rfl
  have hout : (Link.mk t (s.heard ++ [f]) rest).out = s.out := by
    rw [Link.out, Link.out, hinbox, List.append_assoc]
    rfl
  -- the property only depends on what happens to `f`
  have hiff : Delivered ids ⟨t, s.heard ++ [f], rest⟩ ↔
      ∀ k r, r < s.sess.next → ids (s.sess.heap r).id →
        bodies k (s.sess.heap r).id (f :: rest) =
          bodies k (s.sess.heap r).id (Link.mk t (s.heard ++ [f]) rest).onTheWay := by
    unfold Delivered
    rw [hout, heard.heap, heard.next]
    refine forall₄_congr fun k r hr hids => ?_
    rw [good k r hr hids, hway, List.append_cancel_left_eq]
  have lost (hnone : s.sess.streams f.sid = none) :
      (Link.mk t (s.heard ++ [f]) rest).onTheWay = rest := by
    rw [Link.onTheWay, Link.held, heard.received, hnone]
    split <;> rfl
  have found {k : Kind} {sid : UInt32} (hsel : k.selects sid f = true)
      (hsome : s.sess.streams f.sid ≠ none) :
      (Link.mk t (s.heard ++ [f]) rest).onTheWay = f :: rest := by
    obtain ⟨r, hr⟩ := Option.ne_none_iff_exists'.mp hsome
    rw [Link.onTheWay, Link.held, heard.received, if_pos (addressed_of_selects hsel), hr]
    rfl
  rw [hiff]
  constructor
  · intro same f' hhead hids hcarries hnone
    obtain rfl : f = f' := by
      rw [hinbox] at hhead
      exact Option.some.inj hhead
    obtain ⟨k, hsel⟩ := Frame.carries_iff.mp hcarries
    have hmem : f ∈ s.out := List.mem_append_right _ (hinbox ▸ List.mem_cons_self)
    obtain ⟨r, hr, hid⟩ := inv.out k f.sid (mem_bodies hmem hsel)
    have heq := same k r hr (hid.symm ▸ hids)
    rw [hid, lost hnone, bodies_of_selects hsel] at heq
    exact List.cons_ne_self _ _ heq
  · intro timely k r hr hids
    by_cases hsel : k.selects (s.sess.heap r).id f = true
    · have hsid := Kind.sid_of_selects hsel
      have hhead : f ∈ s.inbox.head? := by
        rw [hinbox]
        rfl
      have hsome := timely f hhead (hsid.symm ▸ hids)
        (Frame.carries_iff.mpr ⟨k, hsid.symm ▸ hsel⟩)
      rw [found hsel hsome]
    · have hsel : k.selects (s.sess.heap r).id f = false := Bool.eq_false_iff.mpr hsel
      have hheld : bodies k (s.sess.heap r).id (Link.mk t (s.heard ++ [f]) rest).held = [] := by
        apply bodies_eq_nil_of_not_selects
        intro g hg
        obtain ⟨⟨g', r'⟩, hrecv, rfl⟩ := Option.map_eq_some_iff.mp (Option.mem_toList.mp hg)
        rw [heard.received] at hrecv
        split at hrecv
        · obtain ⟨r'', -, heq⟩ := Option.map_eq_some_iff.mp hrecv
          cases heq
          exact hsel
        · cases hrecv
      rw [bodies_of_not_selects hsel, Link.onTheWay, bodies_append, hheld]
      rfl

/-- Only the stream a frame was found for can be selected by it. -/
theorem Link.Sound.not_selects (inv : s.Sound) {r r' : StreamRef} {k : Kind}
    (hrecv : s.sess.received = some (f, r)) (hr' : r' < s.sess.next) (hne : r' ≠ r) :
    k.selects (s.sess.heap r').id f = false := by
  rw [← Bool.not_eq_true]
  intro hsel
  have hr := (inv.sess.held f r hrecv).1
  have hid : (s.sess.heap r').id = (s.sess.heap r).id :=
    (Kind.sid_of_selects hsel).symm.trans (inv.numbered.held f r hrecv).symm
  exact hne (inv.numbered.ref_eq hr' hr hid)

/-- The only answer of a stream finds `synDone` empty. -/
theorem Link.Sound.room (inv : s.Sound) (good : Delivered ids s) {r : StreamRef}
    (hrecv : s.sess.received = some (f, r)) (hids : ids (s.sess.heap r).id)
    (hcmd : f.cmd = cmdSYNACK) :
    ∃ ch, (s.sess.heap r).synDone.send (synackResult f.data) = .done ch := by
  have hr := (inv.sess.held f r hrecv).1
  have hx := inv.sess.heap r hr
  have hsel : Kind.answer.selects (s.sess.heap r).id f = true := by
    simp [Kind.selects, hcmd, inv.numbered.held f r hrecv]
  have hway : s.onTheWay = f :: s.inbox := by
    rw [Link.onTheWay, Link.held, hrecv]
    rfl
  have hlen := inv.once (s.sess.heap r).id
  rw [good .answer r hr hids, hway, bodies_of_selects hsel, List.length_append,
    List.length_cons] at hlen
  have hacked : (s.sess.heap r).acked.length = 0 := by
    have : (Kind.answer.recorded (s.sess.heap r)).length = (s.sess.heap r).acked.length := rfl
    omega
  have hbuf : (s.sess.heap r).synDone.buf.length < 1 :=
    Nat.lt_of_le_of_lt (hacked ▸ hx.answers) Nat.one_pos
  unfold Chan.send
  rw [hx.synDone, dif_pos hbuf]
  exact ⟨_, rfl⟩

/-- `recvLoop` gives a frame to its stream: a payload is lost if there is no room. -/
theorem delivered_deliver_iff (inv : s.Sound) (good : Delivered ids s) {ok : Bool}
    (h : session.step s.sess (.deliver ok) = some t) :
    Delivered ids { s with sess := t } ↔ Timely ids s (.client (.deliver ok)) := by
  obtain ⟨f, r, handled⟩ := deliver_eq_some h
  have hr := (inv.sess.held f r handled.held).1
  have hx := inv.sess.heap r hr
  have hsid := inv.numbered.held f r handled.held
  have effect := handled.arrival.effect
  have hway : s.onTheWay = f :: s.inbox := by
    rw [Link.onTheWay, Link.held, handled.held]
    rfl
  have hway' : (Link.mk t s.heard s.inbox).onTheWay = s.inbox := by
    rw [Link.onTheWay, Link.held, handled.received]
    rfl
  have hsplit (k : Kind) (sid : UInt32) :
      bodies k sid (f :: s.inbox) = bodies k sid [f] ++ bodies k sid s.inbox :=
    bodies_append [f] s.inbox
  -- the other streams keep what they have
  have hiff : Delivered ids { s with sess := t } ↔ (ids f.sid → ∀ k : Kind,
      k.recorded (s.sess.heap r) ++ bodies k f.sid [f] = k.recorded (t.heap r)) := by
    constructor
    · intro all hids k
      have hnew := all k r (handled.next.symm ▸ hr) (effect.id.symm ▸ hsid.symm ▸ hids)
      have hold := good k r hr (hsid.symm ▸ hids)
      rw [hway, hsplit, hsid, ← List.append_assoc] at hold
      rw [hway', effect.id, hsid] at hnew
      exact List.append_cancel_right (hold.symm.trans hnew)
    · intro grown k r' hr' hids'
      rw [hway']
      have hr' : r' < s.sess.next := handled.next ▸ hr'
      by_cases hne : r' = r
      · subst hne
        simp only [effect.id, hsid] at hids' ⊢
        rw [← grown hids' k, List.append_assoc, ← hsplit, ← hway, ← hsid]
        exact good k r' hr (hsid.symm ▸ hids')
      · simp only [handled.others r' hne] at hids' ⊢
        have hold := good k r' hr' hids'
        rw [hway, bodies_of_not_selects (inv.not_selects handled.held hr' hne)] at hold
        exact hold
  have htimely : Timely ids s (.client (.deliver ok)) ↔
      (ids f.sid → f.cmd = cmdPSH → (s.sess.heap r).Accepts f.data) := by
    constructor
    · intro timely
      exact timely rfl (f, r) handled.held
    · rintro accepts - p hrecv
      cases handled.held.symm.trans hrecv
      exact accepts
  rw [hiff, htimely]
  refine imp_congr_right fun hids => ?_
  have arrival := handled.arrival
  have haddressed := (inv.held f r handled.held).2
  have hdata (hcmd : f.cmd = cmdPSH) : f.data ≠ [] := by
    obtain ⟨-, hdata⟩ | hfin | hack := haddressed
    · exact hdata
    · cases hcmd.symm.trans hfin
    · cases hcmd.symm.trans hack
  have room := inv.room good handled.held (hsid.symm ▸ hids)
  generalize t.heap r = x' at arrival
  cases arrival with
  | data hcmd accepted =>
    refine iff_of_true (fun k => ?_) fun _ => hx.enqueue_iff.mp accepted
    obtain ⟨ch, -, heq⟩ := enqueue_accepted accepted
    rw [heq]
    cases k with
    | answer => simp [Kind.recorded, bodies, Kind.selects, hcmd, cmdPSH, cmdSYNACK]
    | payload => simp [Kind.recorded, bodies, Kind.selects, hcmd, hdata hcmd]
  | overflow hcmd refused =>
    refine iff_of_false (fun all => ?_) fun accepts => ?_
    · have hkept := all .payload
      have hsame : Kind.payload.recorded (s.sess.heap r).overflowClose =
          Kind.payload.recorded (s.sess.heap r) := (Quiet.overflowClose _).enqueued
      rw [hsame, bodies_of_selects (by simp [Kind.selects, hcmd, hdata hcmd])] at hkept
      exact List.cons_ne_nil _ _ (List.append_right_eq_self.mp hkept)
    · rw [hx.enqueue_iff.mpr (accepts hcmd)] at refused
      cases refused
  | fin hcmd =>
    refine iff_of_true (fun k => ?_) fun hpsh => ?_
    · have quiet := Quiet.closeGracefully (s.sess.heap r)
      cases k with
      | answer => simp [Kind.recorded, bodies, Kind.selects, hcmd, cmdFIN, cmdSYNACK,
          Stream.closeLocally, quiet.acked]
      | payload => simp [Kind.recorded, bodies, Kind.selects, hcmd, cmdFIN, cmdPSH,
          Stream.closeLocally, quiet.enqueued]
    · cases hcmd.symm.trans hpsh
  | answer hpsh hfin =>
    have hcmd : f.cmd = cmdSYNACK := by
      obtain ⟨h, -⟩ | h | h := haddressed
      exacts [absurd h hpsh, absurd h hfin, h]
    refine iff_of_true (fun k => ?_) fun h => absurd h hpsh
    obtain ⟨ch, hsend⟩ := room hcmd
    rw [answer_of_room hsend]
    cases k with
    | answer => simp [Kind.recorded, bodies, Kind.selects, hcmd]
    | payload => simp [Kind.recorded, bodies, Kind.selects, hcmd, cmdSYNACK, cmdPSH]

/-- Nothing else the client does touches a frame. -/
theorem delivered_client (inv : s.Sound) (good : Delivered ids s) {b : SessionAct}
    (left : b = .openAlloc → s.sess.next + 1 < 2 ^ 32) (hhear : ∀ f ok, b ≠ .hear f ok)
    (hdeliver : ∀ ok, b ≠ .deliver ok) (h : session.step s.sess b = some t) :
    Delivered ids { s with sess := t } := by
  have hway : (Link.mk t s.heard s.inbox).onTheWay = s.onTheWay := by
    have hrecv : t.received = s.sess.received := by
      obtain ⟨-, alloc⟩ | ⟨f, ok, hb, -⟩ | ⟨f, r₀, ok, hb, -⟩ | loc := step_cases h
      · exact alloc.received
      · exact absurd hb (hhear f ok)
      · exact absurd hb (hdeliver ok)
      · exact loc.received
    rw [Link.onTheWay, Link.onTheWay, Link.held, Link.held, hrecv]
  intro k r hr hids
  rw [hway]
  by_cases hold : r < s.sess.next
  · have hrecorded : k.recorded (t.heap r) = k.recorded (s.sess.heap r) := by
      obtain quiet | ⟨-, -, e, ch, -, -, quiet⟩ | ⟨f, ok, hb, -⟩ := step_heap h hold
      · cases k
        exacts [quiet.acked, quiet.enqueued]
      · cases k
        exacts [quiet.acked, quiet.enqueued]
      · exact absurd hb (hdeliver ok)
    simp only [step_id h hold, hrecorded] at hids ⊢
    exact good k r hold hids
  · -- a new stream: its id is in no frame yet
    have hnew := (inv.numbered.step inv.sess left h).ids r hr
    have hnone : bodies k (t.heap r).id s.out = [] := by
      by_contra hne
      obtain ⟨r', hr', hid⟩ := inv.out k _ hne
      have hnat := inv.numbered.ids r' hr'
      rw [hid, hnew] at hnat
      exact hold (Nat.succ.inj hnat ▸ hr')
    have hfresh : k.recorded (t.heap r) = [] := by
      rw [(step_heap_new h hr hold).2.2]
      cases k <;> rfl
    rw [hfresh, bodies_eq_nil hnone inv.onTheWay_sub]
    exact hnone

/-- **A step loses nothing exactly when it is timely.** -/
theorem delivered_step_iff (inv : s.Sound) (left : IdsLeft s a) (good : Delivered ids s)
    (h : link.step s a = some s') : Delivered ids s' ↔ Timely ids s a := by
  obtain ⟨b, t, rfl, hhear, ht, rfl⟩ | ⟨ok, f, rest, t, rfl, hinbox, ht, rfl⟩ |
    ⟨f, -, rfl, timely⟩ := link_step_cases ids h
  · by_cases hdeliver : ∃ ok, b = .deliver ok
    · obtain ⟨ok, rfl⟩ := hdeliver
      exact delivered_deliver_iff inv good ht
    · have hdeliver' : ∀ ok, b ≠ .deliver ok := fun ok hb => hdeliver ⟨ok, hb⟩
      refine iff_of_true (delivered_client inv good (fun hb => left (congrArg _ hb)) hhear
        hdeliver' ht) fun hdelivers => ?_
      cases b with
      | deliver ok => exact absurd rfl (hdeliver' ok)
      | _ => cases hdelivers
  · exact delivered_recv_iff inv good hinbox ht
  · exact iff_of_true (delivered_send good f) timely

/-- **When nothing is lost.** Take any set of stream ids, such as those `OpenStream` waits
for an answer on. In every run in which the ids do not run out, everything the server sent to
these streams has arrived there or is on its way, in every state, exactly when every step was
timely. -/
theorem link_delivers_iff {as : List LinkAct} (hrun : link.run .init as = some s)
    (left : link.Guarded IdsLeft .init as) :
    link.Always (Delivered ids) .init as ↔ link.Guarded (Timely ids) .init as := by
  have preserved : ∀ s a s', s.Sound → IdsLeft s a → link.step s a = some s' → s'.Sound :=
    fun _ _ _ inv left h => inv.step left h
  have exact_step : ∀ s a s', s.Sound → IdsLeft s a → Delivered ids s →
      link.step s a = some s' → (Delivered ids s' ↔ Timely ids s a) :=
    fun _ _ _ inv left good h => delivered_step_iff inv left good h
  have start : Delivered ids .init := fun _ r hr => absurd hr (Nat.not_lt_zero r)
  exact link.always_iff_guarded_within preserved exact_step hrun left .init start

end Runs

/-- The first stream is opened and the server announces version 2; then the second stream is
opened up to the writing of its `SYN`. -/
def secondSynWritten : List LinkAct :=
  [.client .openAlloc, .client (.openWrite 0 none), .client (.openFlush 0),
    .client (.openRegister 0), .client (.openCheck 0),
    .other ⟨cmdServerSettings, 0, ascii "v=2"⟩, .recv true,
    .client .openAlloc, .client (.openWrite 1 none)]

/-- The rest of `OpenStream`, until it waits. -/
def secondRegistered : List LinkAct :=
  [.client (.openFlush 1), .client (.openRegister 1), .client (.openCheck 1)]

/-- The server answers and sends a first payload. -/
def secondAnswered : List LinkAct :=
  [.synack 2 [], .recv true, .client (.deliver true), .push 2 [7], .recv true,
    .client (.deliver true)]

theorem link_delivers_secondStream :
    link.Always (Delivered (2 ≤ ·)) .init
      (secondSynWritten ++ secondRegistered ++ secondAnswered) := by
  have hrun : ((link.run .init (secondSynWritten ++ secondRegistered ++ secondAnswered)).map
      fun _ => ()) = some () := by decide
  obtain ⟨s, hs, -⟩ := Option.map_eq_some_iff.mp hrun
  exact (link_delivers_iff hs (by decide)).mpr (by decide)

/-- The answer is read before the stream is registered, and the call waits for it. -/
theorem answer_before_registration_lost :
    ∃ s, link.run .init (secondSynWritten ++ [.synack 2 [], .recv true] ++ secondRegistered) =
        some s ∧
      (s.sess.calls 1 = .waiting ∧ (s.sess.heap 1).id = 2 ∧ s.sess.peerVersion = 2) ∧
      (bodies .answer 2 s.out = [[]] ∧ s.onTheWay = [] ∧ (s.sess.heap 1).acked = []) ∧
      ¬ Delivered (2 ≤ ·) s := by
  have hmap : (link.run .init (secondSynWritten ++ [.synack 2 [], .recv true] ++
      secondRegistered)).map (fun s => decide (s.sess.next = 2 ∧
        (s.sess.calls 1 = .waiting ∧ (s.sess.heap 1).id = 2 ∧ s.sess.peerVersion = 2) ∧
        bodies .answer 2 s.out = [[]] ∧ s.onTheWay = [] ∧ (s.sess.heap 1).acked = [])) =
      some true := by decide
  obtain ⟨s, hrun, hfields⟩ := Option.map_eq_some_iff.mp hmap
  obtain ⟨hnext, hcall, hsent, hway, hacked⟩ := of_decide_eq_true hfields
  refine ⟨s, hrun, hcall, ⟨hsent, hway, hacked⟩, fun delivered => ?_⟩
  have hid : (2 : UInt32) ≤ (s.sess.heap 1).id := by
    rw [hcall.2.1]
    decide
  have hanswer := delivered .answer 1 (hnext ▸ Nat.lt_succ_self 1) hid
  rw [hcall.2.1, hsent, hway, Kind.recorded, hacked] at hanswer
  cases hanswer

end Glider.Anytls
