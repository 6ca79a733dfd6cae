/-
What the readers of a stream get.

The payload of a stream is what the `cmdPSH` packets for its id carry. `recvLoop` pushes it into the
stream that is registered under the id, readers take it out again, and `Close` drops the rest.

* `read_in_order` — in every interleaving of readers, what has been read from a stream, followed by
  what is buffered, is the payload that has arrived since the stream was registered, for as long as
  it is, and a beginning of it later. Nothing is lost, duplicated or reordered, and nothing comes
  from another stream.
* `eof_complete` — a `Read` that finds the end of the stream by its `cmdFIN` leaves nothing unread
  of what was sent before it. The other ways to the same error are that the stream was closed on
  this side and that the connection has ended.
* `handled_prefix` — the packets are those the bytes of the connection consist of.
-/

import Glider.Smux.Tokens

namespace Glider.Smux

open Glider.Go Glider.Lib

/-! ### Payloads -/

/-- A packet `recvLoop` is done with. -/
abbrev Handled := RawHeader × List UInt8

/-- The data for a stream. -/
def payload (sid : UInt32) (ps : List Handled) : List UInt8 :=
  ps.flatMap fun p => if p.1.cmd = cmdPSH ∧ p.1.streamID = sid then p.2 else []

def isFin (sid : UInt32) (p : Handled) : Bool := p.1.cmd = cmdFIN ∧ p.1.streamID = sid

/-- The data for a stream up to its end. -/
def beforeFin (sid : UInt32) (ps : List Handled) : List UInt8 :=
  payload sid (ps.takeWhile fun p => !isFin sid p)

section Payload

variable (sid : UInt32) (ps qs : List Handled)

theorem payload_append : payload sid (ps ++ qs) = payload sid ps ++ payload sid qs :=
  List.flatMap_append

theorem payload_concat (p : Handled) :
    payload sid (ps ++ [p])
      = payload sid ps ++ if p.1.cmd = cmdPSH ∧ p.1.streamID = sid then p.2 else [] := by
  rw [payload_append]
  exact congrArg _ (List.append_nil _)

theorem payload_prefix_append : payload sid ps <+: payload sid (ps ++ qs) := by
  rw [payload_append]
  exact List.prefix_append _ _

theorem beforeFin_prefix : beforeFin sid ps <+: payload sid ps := by
  have hsplit := List.takeWhile_append_dropWhile (p := fun p => !isFin sid p) (l := ps)
  rw [beforeFin]
  conv => rhs; rw [← hsplit]
  exact payload_prefix_append _ _ _

/-- What follows the end of a stream does not belong to it. -/
theorem beforeFin_append (h : ∃ p ∈ ps, isFin sid p = true) :
    beforeFin sid (ps ++ qs) = beforeFin sid ps := by
  obtain ⟨p, hp, hfin⟩ := h
  have hne : (ps.takeWhile fun p => !isFin sid p).length ≠ ps.length := by
    intro hlen
    have hall := List.takeWhile_prefix (l := ps) fun p => !isFin sid p
    have heq := hall.eq_of_length hlen
    have := List.all_takeWhile (p := fun p => !isFin sid p) (l := ps)
    rw [heq, List.all_eq_true] at this
    simpa [hfin] using this p hp
  rw [beforeFin, beforeFin, List.takeWhile_append, if_neg hne]

end Payload

/-! ### Streams -/

/-- What is known of every stream, with the packets handled so far. -/
structure Stream.Ok (handled : List Handled) (s : Stream) : Prop where
  since : s.since ≤ handled.length
  kept : s.recycled = false → s.pushed = s.read ++ s.buffered
  sent : s.pushed <+: payload s.id (handled.drop s.since)
  fin : s.finEvent = true → (∃ p ∈ handled.drop s.since, isFin s.id p = true) ∧
    beforeFin s.id (handled.drop s.since) <+: s.pushed
  /-- A stream the peer has opened begins right after its `cmdSYN`. -/
  syn : s.opened = false → ∃ n p, s.since = n + 1 ∧ handled[n]? = some p ∧
    p.1.cmd = cmdSYN ∧ p.1.streamID = s.id

/-- What is known of the stream that is registered under an id: it has got all of the payload, and
the end if it has arrived. -/
structure Stream.Live (sid : UInt32) (handled : List Handled) (s : Stream) : Prop where
  pushed : s.pushed = payload sid (handled.drop s.since)
  fin : s.finEvent = true ↔ ∃ p ∈ handled.drop s.since, isFin sid p = true

namespace Stream.Ok

variable {handled : List Handled} {s s' : Stream}

/-- One more packet. -/
theorem more (ok : s.Ok handled) (p : Handled) : s.Ok (handled ++ [p]) := by
  have hdrop : (handled ++ [p]).drop s.since = handled.drop s.since ++ [p] :=
    List.drop_append_of_le_length ok.since
  constructor
  · rw [List.length_append]
    exact Nat.le_add_right_of_le ok.since
  · exact ok.kept
  · rw [hdrop]
    exact ok.sent.trans (payload_prefix_append _ _ _)
  · intro hfin
    obtain ⟨⟨q, hq, hqfin⟩, hbefore⟩ := ok.fin hfin
    rw [hdrop, beforeFin_append _ _ _ ⟨q, hq, hqfin⟩]
    exact ⟨⟨q, List.mem_append_left _ hq, hqfin⟩, hbefore⟩
  · intro hopened
    obtain ⟨n, q, hn, hq, hcmd⟩ := ok.syn hopened
    have hlt := (List.getElem?_eq_some_iff.mp hq).1
    exact ⟨n, q, hn, (List.getElem?_append_left hlt).trans hq, hcmd⟩

theorem move (ok : s.Ok handled) (h : Stream.Move s s') : s'.Ok handled := by
  constructor
  · rw [h.since]
    exact ok.since
  · intro hkept
    obtain ⟨hkept, hread⟩ := h.kept hkept
    rw [h.pushed, hread]
    exact ok.kept hkept
  · rw [h.pushed, h.id, h.since]
    exact ok.sent
  · rw [h.finEvent, h.id, h.since, h.pushed]
    exact ok.fin
  · rw [h.opened, h.since, h.id]
    exact ok.syn

/-- A new stream. -/
theorem new {id : UInt32} {opened : Bool}
    (syn : opened = false → ∃ n p, handled.length = n + 1 ∧ handled[n]? = some p ∧
      p.1.cmd = cmdSYN ∧ p.1.streamID = id) :
    Stream.Ok handled { id := id, since := handled.length, opened := opened } :=
  ⟨Nat.le_refl _, fun _ => rfl, List.nil_prefix, nofun, syn⟩

end Stream.Ok

namespace Stream.Live

variable {handled : List Handled} {s s' : Stream} {sid : UInt32}

theorem move (live : s.Live sid handled) (h : Stream.Move s s') : s'.Live sid handled := by
  constructor
  · rw [h.pushed, h.since]
    exact live.pushed
  · rw [h.finEvent, h.since]
    exact live.fin

theorem new (sid id : UInt32) (opened : Bool) :
    Stream.Live sid handled { id := id, since := handled.length, opened := opened } := by
  constructor <;> simp [payload]

/-- One more packet, for the stream or not. -/
theorem more (live : s.Live sid handled) (hsince : s.since ≤ handled.length) {p : Handled}
    (since : s'.since = s.since)
    (pushed : s'.pushed = s.pushed ++ if p.1.cmd = cmdPSH ∧ p.1.streamID = sid then p.2 else [])
    (fin : s'.finEvent = (s.finEvent || isFin sid p)) : s'.Live sid (handled ++ [p]) := by
  have hdrop : (handled ++ [p]).drop s.since = handled.drop s.since ++ [p] :=
    List.drop_append_of_le_length hsince
  constructor
  · rw [since, hdrop, payload_concat, pushed, live.pushed]
  · rw [since, hdrop, fin, Bool.or_eq_true, live.fin]
    simp only [List.mem_append, List.mem_singleton]
    constructor
    · rintro (⟨q, hq, hqfin⟩ | hp)
      · exact ⟨q, .inl hq, hqfin⟩
      · exact ⟨p, .inr rfl, hp⟩
    · rintro ⟨q, hq | rfl, hqfin⟩
      · exact .inl ⟨q, hq, hqfin⟩
      · exact .inr hqfin

end Stream.Live

namespace System

variable {cfg : Verified} {s s' : System}

/-! ### The registered streams -/

structure Delivery (m : Session) : Prop where
  valid : m.Valid
  ok : ∀ (k : Nat) (st : Stream), m.heap[k]? = some st → st.Ok m.handled
  live : ∀ (sid : UInt32) (k : Nat) (st : Stream), m.streams sid = some k →
    m.heap[k]? = some st → st.Live sid m.handled

variable {m m' : Session}

theorem delivery_of_step {p p' : Proc} (step : Step m p m' p') (inv : Delivery m) :
    Delivery m' := by
  -- a stream of the new heap is an old one, moved, or a new one
  have origin : ∀ (k : Nat) (st' : Stream), m'.heap[k]? = some st' →
      (∃ st, m.heap[k]? = some st ∧ Stream.Move st st') ∨
        ∃ sid, st' = { id := sid, since := m.handled.length, opened := true } := by
    intro k st' hst'
    cases hst : m.heap[k]? with
    | some st =>
      obtain ⟨st'', hst'', hmove⟩ := step.moves k st hst
      rw [hst'] at hst''
      cases hst''
      exact .inl ⟨st, rfl, hmove⟩
    | none =>
      have hlen : m.heap.length ≤ k := List.getElem?_eq_none_iff.mp hst
      have hlt' := (List.getElem?_eq_some_iff.mp hst').1
      cases step.registers with
      | same streams length => omega
      | delete j st err proc here heap streams => rw [heap] at hlt'; omega
      | register sid proc heap streams =>
        rw [heap] at hst'
        rcases Goroutines.getElem?_concat_cases hst' with ⟨-, hst'⟩ | ⟨hlt, -⟩
        · exact .inr ⟨sid, hst'⟩
        · omega
  refine ⟨valid_of_step step inv.valid, fun k st' hst' => ?_, fun sid k st' hk hst' => ?_⟩
  · rw [step.handled]
    rcases origin k st' hst' with ⟨st, hst, hmove⟩ | ⟨sid, rfl⟩
    · exact (inv.ok k st hst).move hmove
    · exact .new nofun
  · rw [step.handled]
    rcases origin k st' hst' with ⟨st, hst, hmove⟩ | ⟨id, rfl⟩
    · have hlt := (List.getElem?_eq_some_iff.mp hst).1
      have hold : m.streams sid = some k := by
        cases step.registers with
        | same streams length => exact streams ▸ hk
        | register id proc heap streams =>
          rw [streams] at hk
          rcases Session.setStream_eq_some hk with ⟨-, hk⟩ | ⟨-, hk⟩
          · cases hk
            omega
          · exact hk
        | delete j t err proc here heap streams =>
          rw [streams] at hk
          rcases Session.setStream_eq_some hk with ⟨-, hk⟩ | ⟨-, hk⟩
          · cases hk
          · exact hk
      exact (inv.live sid k st hold hst).move hmove
    · exact .new sid id true

variable {h : RawHeader} {body : List UInt8} {k : Nat}

/-- A packet that leaves the registered streams as they are is none for them. -/
theorem nothing_of_ignored (why : Ignored m h body) {sid : UInt32} (hk : m.streams sid = some k) :
    (if h.cmd = cmdPSH ∧ h.streamID = sid then body else []) = [] ∧
      isFin sid (h, body) = false := by
  constructor
  · split
    · rename_i hpsh
      rcases why.1 hpsh.1 with hnil | hnone
      · exact hnil
      · rw [hpsh.2, hk] at hnone
        cases hnone
    · rfl
  · refine decide_eq_false fun hfin => ?_
    have hnone := why.2 hfin.1
    rw [hfin.2, hk] at hnone
    cases hnone

theorem delivery_of_ignored (inv : Delivery m) (why : Ignored m h body) (heap : m'.heap = m.heap)
    (streams : m'.streams = m.streams) (handled : m'.handled = m.handled ++ [(h, body)]) :
    Delivery m' := by
  refine ⟨inv.valid.of_extends (.of_heap heap) fun sid k hk => .inl (streams ▸ hk), ?_, ?_⟩
  · intro k st hst
    rw [handled]
    exact (inv.ok k st (heap ▸ hst)).more _
  · intro sid k st hk hst
    rw [streams] at hk
    rw [heap] at hst
    obtain ⟨hpsh, hfin⟩ := nothing_of_ignored why hk
    rw [handled]
    refine (inv.live sid k st hk hst).more (inv.ok k st hst).since rfl ?_ ?_
    · rw [hpsh, List.append_nil]
    · rw [hfin, Bool.or_false]

/-- A step that sets flags of a stream. -/
theorem delivery_of_flags {f : Stream → Stream} (inv : Delivery m)
    (heap : m'.heap = (m.modify k f).heap) (streams : m'.streams = m.streams)
    (handled : m'.handled = m.handled) (move : ∀ st, Stream.Move st (f st)) : Delivery m' := by
  have origin : ∀ (j : Nat) (st' : Stream), m'.heap[j]? = some st' →
      ∃ st, m.heap[j]? = some st ∧ Stream.Move st st' := by
    intro j st' hst'
    rw [heap, Session.getElem?_modify] at hst'
    split at hst'
    · obtain ⟨st, hst, rfl⟩ := Option.map_eq_some_iff.mp hst'
      exact ⟨st, hst, move st⟩
    · exact ⟨st', hst', .refl st'⟩
  have hext : m.Extends m' := fun j st hst => by
    rw [heap]
    exact Session.Extends.modify (fun st _ => (move st).id) j st hst
  refine ⟨inv.valid.of_extends hext fun sid j hj => .inl (streams ▸ hj), ?_, ?_⟩
  · intro j st' hst'
    rw [handled]
    obtain ⟨st, hst, hmove⟩ := origin j st' hst'
    exact (inv.ok j st hst).move hmove
  · intro sid j st' hj hst'
    rw [streams] at hj
    rw [handled]
    obtain ⟨st, hst, hmove⟩ := origin j st' hst'
    exact (inv.live sid j st hj hst).move hmove

/-- A packet for a registered stream. -/
theorem delivery_of_packet {f : Stream → Stream} (inv : Delivery m)
    (here : m.streams h.streamID = some k) (heap : m'.heap = (m.modify k f).heap)
    (streams : m'.streams = m.streams) (handled : m'.handled = m.handled ++ [(h, body)])
    (same : ∀ st : Stream, (f st).id = st.id ∧ (f st).since = st.since ∧
      (f st).read = st.read ∧ (f st).recycled = st.recycled ∧ (f st).opened = st.opened)
    (pushed : ∀ st, (f st).pushed = st.pushed ++ if h.cmd = cmdPSH then body else [])
    (buffered : ∀ st, (f st).buffered = st.buffered ++ if h.cmd = cmdPSH then body else [])
    (fin : ∀ st, (f st).finEvent = (st.finEvent || decide (h.cmd = cmdFIN))) : Delivery m' := by
  have hext : m.Extends m' := fun j st hst => by
    rw [heap]
    exact Session.Extends.modify (fun st _ => (same st).1) j st hst
  -- the stream of the packet has got all of its payload, with the packet, too
  have live : ∀ st, m.heap[k]? = some st →
      (f st).Live h.streamID (m.handled ++ [(h, body)]) := by
    intro st hst
    refine (inv.live _ k st here hst).more (inv.ok k st hst).since (same st).2.1 ?_ ?_
    · simpa using pushed st
    · simpa [isFin] using fin st
  refine ⟨inv.valid.of_extends hext fun sid j hj => .inl (streams ▸ hj), ?_, ?_⟩
  · intro j st' hst'
    rw [heap, Session.getElem?_modify] at hst'
    rw [handled]
    split at hst'
    · rename_i hkj
      subst hkj
      obtain ⟨st, hst, rfl⟩ := Option.map_eq_some_iff.mp hst'
      have hid : st.id = h.streamID := by
        obtain ⟨t, ht, hid⟩ := inv.valid _ _ here
        rw [hst] at ht
        cases ht
        exact hid
      obtain ⟨hid', hsince, hread, hrecycled, hopened⟩ := same st
      have more := (inv.ok k st hst).more (h, body)
      constructor
      · rw [hsince]
        exact more.since
      · intro hkept
        rw [hrecycled] at hkept
        rw [pushed, buffered, hread, (inv.ok k st hst).kept hkept, List.append_assoc]
      · rw [hid', hid, (live st hst).pushed]
      · intro hfin
        rw [hid', hid]
        refine ⟨(live st hst).fin.mp hfin, ?_⟩
        rw [(live st hst).pushed]
        exact beforeFin_prefix _ _
      · rw [hopened, hsince, hid']
        exact more.syn
    · exact (inv.ok j st' hst').more _
  · intro sid j st' hj hst'
    rw [streams] at hj
    rw [heap, Session.getElem?_modify] at hst'
    rw [handled]
    split at hst'
    · rename_i hkj
      subst hkj
      obtain ⟨st, hst, rfl⟩ := Option.map_eq_some_iff.mp hst'
      obtain ⟨t, ht, hid⟩ := inv.valid _ _ here
      obtain ⟨t', ht', hid'⟩ := inv.valid _ _ hj
      rw [ht] at ht'
      cases ht'
      rw [← hid', hid]
      exact live st hst
    · rename_i hkj
      have hne : h.streamID ≠ sid := by
        rintro rfl
        rw [here] at hj
        exact hkj (Option.some.inj hj)
      refine (inv.live sid j st' hj hst').more (inv.ok j st' hst').since rfl ?_ ?_
      · simp [hne]
      · simp [isFin, hne]

theorem delivery_of_recvStep {me : Nat} {pc pc' : RecvPc} (step : RecvStep cfg me m pc m' pc')
    (inv : Delivery m) : Delivery m' := by
  cases step with
  | quiet going same handled =>
    refine ⟨inv.valid.of_extends (.of_heap same.heap) fun sid k hk => .inl (same.streams ▸ hk), ?_,
      ?_⟩
    · rw [same.heap, handled]
      exact inv.ok
    · rw [same.heap, handled, same.streams]
      exact inv.live
  | ignored h body going same handled settled why =>
    exact delivery_of_ignored inv why same.heap same.streams handled
  | created h body cmd new =>
    have why : Ignored m h body :=
      ⟨fun h' => absurd (cmd.symm.trans h') (by decide),
        fun h' => absurd (cmd.symm.trans h') (by decide)⟩
    have hlen : m.handled.length + 1 = (m.handled ++ [(h, body)]).length := by simp
    refine ⟨valid_of_recvStep (@RecvStep.created cfg me m h body cmd new) inv.valid, ?_, ?_⟩
    · intro k st hst
      rcases Goroutines.getElem?_concat_cases hst with ⟨-, rfl⟩ | ⟨-, hst⟩
      · rw [hlen]
        exact .new fun _ => ⟨m.handled.length, (h, body), by simp, List.getElem?_concat_length, cmd,
          rfl⟩
      · exact (inv.ok k st hst).more _
    · intro sid k st hk hst
      rcases Goroutines.getElem?_concat_cases hst with ⟨-, rfl⟩ | ⟨hlt, hst⟩
      · rw [hlen]
        exact .new _ _ false
      · rcases Session.setStream_eq_some hk with ⟨-, hk⟩ | ⟨-, hk⟩
        · cases hk
          exact absurd hlt (Nat.lt_irrefl _)
        · obtain ⟨hpsh, hfin⟩ := nothing_of_ignored why hk
          refine (inv.live sid k st hk hst).more (inv.ok k st hst).since rfl ?_ ?_
          · rw [hpsh, List.append_nil]
          · rw [hfin, Bool.or_false]
  | finned h body k cmd here =>
    refine delivery_of_packet inv here rfl rfl rfl (fun _ => ⟨rfl, rfl, rfl, rfl, rfl⟩) ?_ ?_ ?_
    · intro st
      rw [cmd]
      exact (List.append_nil _).symm
    · intro st
      rw [cmd]
      exact (List.append_nil _).symm
    · intro st
      rw [decide_eq_true cmd, Bool.or_true]
      rfl
  | pushed h body k cmd here =>
    refine delivery_of_packet inv here rfl rfl rfl (fun _ => ⟨rfl, rfl, rfl, rfl, rfl⟩) ?_ ?_ ?_
    · intro st
      rw [if_pos cmd]
      rfl
    · intro st
      rw [if_pos cmd]
      simp [Stream.pushBytes, Stream.buffered]
    · intro st
      rw [cmd]
      exact (Bool.or_false _).symm
  | updated h body k consumed window cmd here =>
    refine delivery_of_packet inv here rfl rfl rfl (fun _ => ⟨rfl, rfl, rfl, rfl, rfl⟩) ?_ ?_ ?_
    · intro st
      rw [if_neg cmd.1]
      exact (List.append_nil _).symm
    · intro st
      rw [if_neg cmd.1]
      exact (List.append_nil _).symm
    · intro st
      rw [decide_eq_false cmd.2]
      exact (Bool.or_false _).symm
  | deducted k written => exact ⟨inv.valid, inv.ok, inv.live⟩
  | notified k before =>
    exact delivery_of_flags inv rfl rfl rfl fun st => ⟨rfl, rfl, rfl, rfl, rfl, fun h => ⟨h, rfl⟩⟩

theorem delivery_new (cfg : Verified) (conn : Source) (client : Bool) :
    Delivery (newSession cfg conn client).shared :=
  ⟨fun _ _ h => (nomatch h), fun _ _ h => (nomatch h), fun _ _ _ h => (nomatch h)⟩

theorem Happens.delivery (h : Happens cfg s s') (inv : Delivery s.shared) :
    Delivery s'.shared := by
  cases h with
  | go p start => exact inv
  | recv here step => exact delivery_of_recvStep step inv
  | other here isRecv isRecv' program step => exact delivery_of_step step inv

variable {conn : Source} {client : Bool} {acts : List Act}

theorem run_delivery (hrun : (machine cfg).run (newSession cfg conn client) acts = some s) :
    Delivery s.shared :=
  (run_inv (fun _ _ _ inv h => h.delivery inv) hrun (delivery_new cfg conn client)).2

/-- **In order, once, and to the right stream.** Whatever the peer sends and however the readers of
a stream interleave with each other and with the rest of the session, what they have read, followed
by what is buffered, is a beginning of the payload for the stream since its registration, until a
`Close` drops the rest. It is all of the payload, and the stream knows of its end if that has
arrived, as long as the stream is registered. -/
theorem read_in_order (hrun : (machine cfg).run (newSession cfg conn client) acts = some s)
    {k : Nat} {st : Stream} (hst : s.shared.heap[k]? = some st) (open_ : st.recycled = false) :
    st.read ++ st.buffered <+: payload st.id (s.shared.handled.drop st.since) ∧
      (s.shared.streams st.id = some k →
        st.read ++ st.buffered = payload st.id (s.shared.handled.drop st.since) ∧
        (st.finEvent = true ↔
          ∃ p ∈ s.shared.handled.drop st.since, isFin st.id p = true)) := by
  have inv := run_delivery hrun
  have ok := inv.ok k st hst
  rw [← ok.kept open_]
  refine ⟨ok.sent, fun hk => ?_⟩
  have live := inv.live st.id k st hk hst
  exact ⟨live.pushed, live.fin⟩

theorem read_in_order_oneByte :
    ∃ s, ∃ st : Stream,
      (machine oneByte).run (newSession oneByte oneByteConn false) oneByteRun = some s ∧
      s.shared.heap[0]? = some st ∧ st.recycled = false ∧
      st.read ++ st.buffered <+: payload st.id (s.shared.handled.drop st.since) := by
  have hsome : ((machine oneByte).run (newSession oneByte oneByteConn false) oneByteRun).any
      (fun s => s.shared.heap[0]?.any fun st => !st.recycled) = true := by decide +kernel
  obtain ⟨s, hrun, h⟩ := (Option.any_eq_true _ _).mp hsome
  obtain ⟨st, hst, hkept⟩ := (Option.any_eq_true _ _).mp h
  have kept : st.recycled = false := by simpa using hkept
  exact ⟨s, st, hrun, hst, kept, (read_in_order hrun hst kept).1⟩

/-! ### The end of a stream -/

/-- **The end of a stream.** Where a `Read` returns `io.EOF` and no data, the connection has ended,
or the stream was closed on this side, or its end has arrived and everything sent before it has been
read, unless it was dropped. -/
theorem eof_complete (hrun : (machine cfg).run (newSession cfg conn client) acts = some s)
    {i k cap : Nat} {pc : ReadPc} {c : Choice} (hp : s.procs[i]? = some (.read k cap pc))
    (hstep : (program cfg).step i s.shared (.read k cap pc) c
      = some (m', .read k cap (.returned [] (some .eof)))) :
    s.shared.socketReadError = some .eof ∨
      ∃ st : Stream, s.shared.heap[k]? = some st ∧
        (st.die = true ∨ st.finEvent = true ∧
          (st.recycled = false →
            beforeFin st.id (s.shared.handled.drop st.since) <+: st.read)) := by
  have inv := run_delivery hrun
  obtain ⟨⟨m₁, pc'⟩, hread, heq⟩ := Option.map_eq_some_iff.mp hstep
  cases heq
  have after : ∀ data notify, ReadPc.afterTokens data notify ≠ .returned [] (some .eof) := by
    intro data notify hpc
    unfold ReadPc.afterTokens at hpc
    split at hpc
    · cases hpc
    · cases (ReadPc.returned.inj hpc).2
  unfold readStep at hread
  cases pc with
  | tryRead =>
    -- `tryRead` returns no error
    cases c with
    | go =>
      dsimp only at hread
      split at hread
      · cases hread
      · obtain ⟨st, -, heq⟩ := Option.map_eq_some_iff.mp hread
        have hpc := (Prod.mk.inj heq).2
        split at hpc <;> cases hpc
    | _ => cases hread
  | owing data notify =>
    cases c with
    | go =>
      have hpc := (Prod.mk.inj (Option.some.inj hread)).2
      split at hpc
      · cases hpc
      · exact absurd hpc (after _ _)
    | _ => cases hread
  | signalling data notify =>
    cases c with
    | go => exact absurd (Prod.mk.inj (Option.some.inj hread)).2 (after _ _)
    | _ => cases hread
  | updating data notify =>
    -- after a window update there is data
    cases c with
    | answers err =>
      obtain ⟨st, -, heq⟩ := Option.map_eq_some_iff.mp hread
      exact absurd (ReadPc.returned.inj (Prod.mk.inj heq).2).1 data.2
    | _ => cases hread
  | empty =>
    -- nothing to read: the stream is closed
    cases c with
    | go =>
      obtain ⟨st, hst, heq⟩ := Option.map_eq_some_iff.mp hread
      have hpc := (Prod.mk.inj heq).2
      split at hpc
      · rename_i hdie
        exact .inr ⟨st, hst, .inl hdie⟩
      · cases hpc
    | _ => cases hread
  | waiting =>
    -- the end has arrived, or the connection has ended
    obtain ⟨⟨m₁, e⟩, hwait, heq⟩ := Option.map_eq_some_iff.mp hread
    have he : e = some .eof := by
      have hpc := (Prod.mk.inj heq).2
      cases e <;> cases hpc
      rfl
    cases waitRead_spec hwait with
    | event st here ready => cases he
    | fin st here ready =>
      by_cases hempty : st.buffers.isEmpty = true
      · refine .inr ⟨st, here, .inr ⟨ready, fun hkept => ?_⟩⟩
        have ok := inv.ok k st here
        have hread : st.pushed = st.read := by
          rw [ok.kept hkept, Stream.buffered, List.isEmpty_iff.mp hempty]
          exact List.append_nil _
        exact hread ▸ (ok.fin ready).2
      · rw [if_neg hempty] at he
        cases he
    | socket e ready =>
      cases he
      exact .inl ready
    | other e not_eof =>
      cases he
      exact absurd rfl not_eof
  | returned data err => cases hread

/-- The stream is accepted, the byte read, and the end awaited. -/
def oneByteReads : List Act :=
  oneByteRun ++ [.go (.acceptStream .waiting), .step 2 .accepts, .go (.read 0 1 .tryRead),
    .step 3 .go, .step 3 .go, .step 3 .go, .step 0 .bucketNotify, .step 0 .go, .step 0 .go,
    .step 0 .go, .step 0 .go, .go (.read 0 1 .tryRead), .step 4 .go, .step 4 .go]

theorem eof_complete_oneByte :
    ∃ s, (machine oneByte).run (newSession oneByte oneByteConn false) oneByteReads = some s ∧
      (s.shared.socketReadError = some .eof ∨
        ∃ st : Stream, s.shared.heap[0]? = some st ∧
          (st.die = true ∨ st.finEvent = true ∧ (st.recycled = false →
            beforeFin st.id (s.shared.handled.drop st.since) <+: st.read))) := by
  have hsome : ((machine oneByte).run (newSession oneByte oneByteConn false) oneByteReads).any
      (fun s => s.procs[4]? = some (.read 0 1 .waiting) &&
        ((program oneByte).step 4 s.shared (.read 0 1 .waiting) .finEvent).any
          fun r => r.2 = .read 0 1 (.returned [] (some .eof))) = true := by decide +kernel
  obtain ⟨s, hrun, h⟩ := (Option.any_eq_true _ _).mp hsome
  obtain ⟨hp, hstep⟩ := Bool.and_eq_true_iff.mp h
  obtain ⟨⟨m', p'⟩, hstep, hp'⟩ := (Option.any_eq_true _ _).mp hstep
  cases of_decide_eq_true hp'
  exact ⟨s, hrun, eof_complete hrun (of_decide_eq_true hp) hstep⟩

/-! ### The connection -/

/-- What `recvLoop` has handled and what it is at is what the connection has delivered. -/
structure Input (cfg : Verified) (conn : Source) (s : System) : Prop where
  known : ∀ p ∈ s.shared.handled, p.1.Known cfg.version ∧ p.2.length = p.1.bodyLength
  reads : ∀ pc, s.procs[0]? = some (.recvLoop pc) → pc ≠ .returned →
    s.shared.handled.flatMap (fun p => p.1.bytes ++ p.2) ++ (pc.taken ++ s.shared.conn.data)
      = conn.data
  handled : s.shared.handled.flatMap (fun p => p.1.bytes ++ p.2) <+: conn.data

theorem Happens.input (h : Happens cfg s s') (one : OneRecv cfg s) (inv : Input cfg conn s) :
    Input cfg conn s' := by
  cases h with
  | go p start first => exact ⟨inv.known, fun pc hpc => inv.reads pc (first ▸ hpc), inv.handled⟩
  | @recv pc pc' m' here step first =>
    have hpc' : ∀ {q}, (s.procs.set 0 (.recvLoop pc'))[0]? = some (.recvLoop q) → q = pc' := by
      intro q hq
      rw [first] at hq
      cases hq
      rfl
    obtain ⟨going, hinput⟩ := step.input (one.wf here)
    have reads := inv.reads pc here going
    rcases hinput with ⟨hhandled, hinput⟩ | ⟨h, body, hhandled, hinput, known⟩
    · refine ⟨hhandled ▸ inv.known, fun q hq hgoing => ?_, hhandled ▸ inv.handled⟩
      cases hpc' hq
      dsimp only
      rw [hhandled, hinput hgoing]
      exact reads
    · have hmore : (s.shared.handled ++ [(h, body)]).flatMap (fun p => p.1.bytes ++ p.2)
          ++ (pc'.taken ++ m'.conn.data) = conn.data := by
        rw [← reads, ← hinput, List.flatMap_append, List.flatMap_singleton, List.append_assoc]
      refine ⟨fun p hp => ?_, fun q hq _ => ?_, hhandled ▸ ⟨_, hmore⟩⟩
      · dsimp only at hp
        rw [hhandled] at hp
        rcases List.mem_append.mp hp with hp | hp
        · exact inv.known p hp
        · cases List.mem_singleton.mp hp
          exact known
      · cases hpc' hq
        exact hhandled ▸ hmore
  | other here isRecv isRecv' program step first =>
    refine ⟨?_, fun pc hpc => ?_, ?_⟩
    · rw [step.handled]
      exact inv.known
    · rw [step.handled, step.conn]
      exact inv.reads pc (first ▸ hpc)
    · rw [step.handled]
      exact inv.handled

theorem input_new (cfg : Verified) (conn : Source) (client : Bool) :
    Input cfg conn (newSession cfg conn client) := by
  refine ⟨fun p hp => (List.not_mem_nil hp).elim, fun pc hpc _ => ?_, List.nil_prefix⟩
  rw [first_newSession] at hpc
  cases hpc
  rfl

/-- **The packets are those of the connection.** -/
theorem handled_prefix (hrun : (machine cfg).run (newSession cfg conn client) acts = some s) :
    ∃ ps : List (KnownPacket cfg.version),
      s.shared.handled = ps.map (fun p => (p.1.header, p.1.body)) ∧
      (packets cfg.version).encodeAll ps <+: conn.data := by
  have inv := (run_inv (fun _ _ one inv h => h.input one inv) hrun (input_new cfg conn client)).2
  have hpackets : ∀ ps : List Handled,
      (∀ p ∈ ps, p.1.Known cfg.version ∧ p.2.length = p.1.bodyLength) →
      ∃ qs : List (KnownPacket cfg.version), ps = qs.map (fun p => (p.1.header, p.1.body)) ∧
        (packets cfg.version).encodeAll qs = ps.flatMap fun p => p.1.bytes ++ p.2 := by
    intro ps
    induction ps with
    | nil => exact fun _ => ⟨[], rfl, rfl⟩
    | cons p ps ih =>
      intro known
      obtain ⟨qs, rfl, henc⟩ := ih fun q hq => known q (List.mem_cons_of_mem _ hq)
      obtain ⟨hknown, hlen⟩ := known p List.mem_cons_self
      refine ⟨⟨⟨p.1, p.2, hlen⟩, hknown⟩ :: qs, rfl, ?_⟩
      rw [Framing.encodeAll_cons, henc, List.flatMap_cons]
      rfl
  obtain ⟨qs, hqs, henc⟩ := hpackets s.shared.handled inv.known
  exact ⟨qs, hqs, henc ▸ inv.handled⟩

end System

end Glider.Smux
