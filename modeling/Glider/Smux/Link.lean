/-
Two sessions on one connection: what one side writes to a stream, the other side reads.

The sending half (`Shaper`) and the receiving half (`Session`) are put together. One goroutine opens
a stream, writes pieces of data to it and closes it, and waits for the result of each call; the
others do what they like, with other streams. On the other side any number of goroutines run.

* `patient_served` — the frames of a goroutine that never gives up go to the connection in the order
  of its calls, whatever their class, and at most the last one is missing.
* `end_to_end` — what has been read from the stream, followed by what is buffered, is a beginning of
  what was written, and all of it once its end has arrived.
-/

import Glider.Lib.Chunks
import Glider.Smux.Delivery
import Glider.Smux.Shaper

namespace Glider.Smux

open Glider.Go Glider.Lib

/-- The calls of a goroutine that `sendLoop` has not taken, by where the goroutine is. -/
def Caller.Left : Caller → List Request → Prop
  | .idle, rest => rest = []
  | .offering r, rest => rest = [r]
  | .waiting r, rest => rest = [r] ∨ rest = []

theorem Caller.Left.of_mem {c : Caller} {rest : List Request} {r : Request} (h : c.Left rest)
    (hr : r ∈ rest) : rest = [r] ∧ (c = .offering r ∨ c = .waiting r) := by
  cases c with
  | idle =>
    cases h
    cases hr
  | offering r' =>
    cases h
    cases List.mem_singleton.mp hr
    exact ⟨rfl, .inl rfl⟩
  | waiting r' =>
    rcases h with rfl | rfl
    · cases List.mem_singleton.mp hr
      exact ⟨rfl, .inr rfl⟩
    · cases hr

namespace Sender

variable {cfg : Verified} {s s' : Sender} {a : Act} {acts : List Act} {g : Nat} {r : Request}

/-! ### Goroutines that wait for their results -/

/-- The requests of the calls, in their order. -/
def requestsOf (calls : List (Nat × Op)) : List Request :=
  calls.mapIdx fun i c => ⟨c.2, i + 1, c.1⟩

/-- The requests of one goroutine. -/
def ofOwner (g : Nat) (rs : List Request) : List Request := rs.filter fun r => r.owner = g

theorem requestsOf_concat (calls : List (Nat × Op)) (g : Nat) (op : Op) :
    requestsOf (calls ++ [(g, op)]) = requestsOf calls ++ [⟨op, calls.length + 1, g⟩] := by
  rw [requestsOf, List.mapIdx_append]
  simp [requestsOf]

theorem Made.mem_requestsOf (h : s.Made r) : r ∈ requestsOf s.calls := by
  obtain ⟨n, hid, hget⟩ := h
  refine List.mem_iff_getElem?.mpr ⟨n, ?_⟩
  rw [requestsOf, List.getElem?_mapIdx, hget]
  obtain ⟨op, id, owner⟩ := r
  cases hid
  rfl

theorem mem_ofOwner {rs : List Request} : r ∈ ofOwner g rs ↔ r ∈ rs ∧ r.owner = g := by
  simp [ofOwner]

/-- A call has one request. -/
theorem nodup_requestsOf (calls : List (Nat × Op)) : (requestsOf calls).Nodup := by
  rw [List.nodup_iff_injective_get]
  rintro ⟨i, hi⟩ ⟨j, hj⟩ heq
  have hid := congrArg Request.id heq
  exact Fin.ext (by simpa [requestsOf] using hid)

theorem ofOwner_concat_self (rs : List Request) (h : r.owner = g) :
    ofOwner g (rs ++ [r]) = ofOwner g rs ++ [r] := by
  simp [ofOwner, h]

theorem ofOwner_concat_other (rs : List Request) (h : r.owner ≠ g) :
    ofOwner g (rs ++ [r]) = ofOwner g rs := by
  simp [ofOwner, h]

/-- All calls of a goroutine have been taken in their order, except the one it is in, and it waits
for the one that is being written. -/
structure Patient (g : Nat) (s : Sender) : Prop where
  served : ∃ rest, ofOwner g (requestsOf s.calls) = ofOwner g s.taken ++ rest ∧
    (s.callers g).Left rest
  waits : ∀ r ∈ s.sendLoop.inHand, r.owner = g → s.callers g = .waiting r

theorem patient_new (g : Nat) : Patient g {} :=
  ⟨⟨[], rfl, rfl⟩, fun _ h => (List.not_mem_nil h).elim⟩

/-- A request on its way has not been taken yet, and does not belong to a call that is still being
offered. -/
theorem Inv.pending_fresh (inv : Inv s) (hr : r ∈ s.shaper.pending) :
    s.Made r ∧ r ∉ s.taken ∧ ∀ g, s.callers g ≠ .offering r := by
  have hoffered : r ∈ s.offered := inv.accounted.symm.subset (List.mem_append_right _ hr)
  refine ⟨inv.made r hoffered, fun htaken => ?_, fun g hg => ?_⟩
  · have hpair := (inv.accounted.pairwise_iff (fun h => Ne.symm h)).mp inv.distinct
    exact (List.pairwise_append.mp hpair).2.2 r htaken r hr rfl
  · exact ((inv.offering g r hg).2.2 r hoffered).1 rfl

/-- A step that is not about the goroutine. -/
theorem Patient.other (patient : Patient g s) (callers : s'.callers g = s.callers g)
    (calls : ofOwner g (requestsOf s'.calls) = ofOwner g (requestsOf s.calls))
    (taken : s'.taken = s.taken) (inHand : s'.sendLoop.inHand ⊆ s.sendLoop.inHand) :
    Patient g s' := by
  obtain ⟨⟨rest, hrest, hleft⟩, waits⟩ := patient
  refine ⟨⟨rest, ?_, callers ▸ hleft⟩, fun r hr hg => callers.trans (waits r (inHand hr) hg)⟩
  rw [calls, taken]
  exact hrest

theorem patient_call (patient : Patient g s) (i : Nat) (op : Op) (idle : s.callers i = .idle) :
    Patient g { s with callers := s.setCaller i (.offering (s.request i op)),
                       calls := s.calls ++ [(i, op)] } := by
  by_cases hi : g = i
  · subst hi
    obtain ⟨⟨rest, hrest, hleft⟩, waits⟩ := patient
    rw [idle] at hleft
    cases hleft
    refine ⟨⟨[s.request g op], ?_, ?_⟩, fun r hr hg => ?_⟩
    · dsimp only
      rw [requestsOf_concat, ofOwner_concat_self (g := g) _ rfl, hrest, List.append_nil]
      rfl
    · dsimp only
      rw [setCaller_self]
      rfl
    · cases idle.symm.trans (waits r hr hg)
  · refine patient.other (s.setCaller_other _ hi) ?_ rfl (List.Subset.refl _)
    dsimp only
    rw [requestsOf_concat, ofOwner_concat_other _ (Ne.symm hi)]

theorem patient_offer (patient : Patient g s) {i : Nat} (offers : s.callers i = .offering r) :
    Patient g { s with callers := s.setCaller i (.waiting r), shaper := s.shaper.receive r,
                       offered := s.offered ++ [r] } := by
  by_cases hi : g = i
  · subst hi
    obtain ⟨⟨rest, hrest, hleft⟩, waits⟩ := patient
    rw [offers] at hleft
    refine ⟨⟨rest, hrest, ?_⟩, fun r' hr hg => ?_⟩
    · dsimp only
      rw [setCaller_self]
      exact .inl hleft
    · cases offers.symm.trans (waits r' hr hg)
  · exact patient.other (s.setCaller_other _ hi) rfl rfl (List.Subset.refl _)

/-- What `sendLoop` takes of a goroutine is the call it waits for. -/
theorem patient_give (inv : Inv s) (patient : Patient g s) (next : s.shaper.next = some r) :
    Patient g { s with shaper := Shaper.top s.shaper.reqs, sendLoop := .writing r,
                       taken := s.taken ++ [r] } := by
  obtain ⟨⟨rest, hrest, hleft⟩, -⟩ := patient
  have hpending : r ∈ s.shaper.pending := Shaper.pending_of_next next ▸ List.mem_cons_self
  obtain ⟨made, hnew, hoffering⟩ := inv.pending_fresh hpending
  by_cases howner : r.owner = g
  · have hmem : r ∈ ofOwner g s.taken ++ rest := by
      rw [← hrest]
      exact mem_ofOwner.mpr ⟨made.mem_requestsOf, howner⟩
    have hr : r ∈ rest := (List.mem_append.mp hmem).resolve_left fun h => hnew (mem_ofOwner.mp h).1
    obtain ⟨rfl, hcaller⟩ := hleft.of_mem hr
    have hwaiting : s.callers g = .waiting r := hcaller.resolve_left (hoffering g)
    refine ⟨⟨[], ?_, ?_⟩, fun r' hr' _ => ?_⟩
    · dsimp only
      rw [hrest, ofOwner_concat_self _ howner, List.append_nil]
    · rw [hwaiting]
      exact .inr rfl
    · cases List.mem_singleton.mp hr'
      exact hwaiting
  · refine ⟨⟨rest, ?_, hleft⟩, fun r' hr' hg => ?_⟩
    · dsimp only
      rw [ofOwner_concat_other _ howner]
      exact hrest
    · cases List.mem_singleton.mp hr'
      exact absurd hg howner

/-- A call that has its result returns. -/
theorem patient_answer (inv : Inv s) (wired : Wired cfg s) (patient : Patient g s) {i : Nat}
    (hwaiting : s.callers i = .waiting r) (hwritten : r ∈ s.written) :
    Patient g { s with callers := s.setCaller i .idle } := by
  by_cases hi : g = i
  · subst hi
    obtain ⟨⟨rest, hrest, hleft⟩, waits⟩ := patient
    rw [hwaiting] at hleft
    rcases hleft with rfl | rfl
    · -- the result is there, so the request has been taken: once, and not a second time
      exfalso
      have htaken : r ∈ s.taken := wired.taken ▸ List.mem_append_left _ hwritten
      have hmem : r ∈ ofOwner g (requestsOf s.calls) := hrest ▸ List.mem_concat_self
      have hnodup := (nodup_requestsOf s.calls).filter fun r => decide (r.owner = g)
      rw [← ofOwner, hrest, List.nodup_append] at hnodup
      exact hnodup.2.2 r (mem_ofOwner.mpr ⟨htaken, (mem_ofOwner.mp hmem).2⟩) r
        (List.mem_singleton.mpr rfl) rfl
    · refine ⟨⟨[], hrest, ?_⟩, fun r' hr' hg => ?_⟩
      · dsimp only
        rw [setCaller_self]
        rfl
      · cases hwaiting.symm.trans (waits r' hr' hg)
        exact absurd hwritten (wired.notMem_written inv hr')
  · exact patient.other (s.setCaller_other _ hi) rfl rfl (List.Subset.refl _)

theorem step_patient (inv : Inv s) (wired : Wired cfg s) (patient : Patient g s)
    (stays : ∀ cause, a ≠ .quit g cause) (h : (machine cfg).step s a = some s') :
    Patient g s' := by
  cases step_effect h with
  | call i op idle => exact patient_call patient i op idle
  | offer i r offers accepts => exact patient_offer patient offers
  | give r next idle => exact patient_give inv patient next
  | answer i r waiting written => exact patient_answer inv wired patient waiting written
  | quit i cause =>
    have hi : g ≠ i := fun hi => stays cause (hi ▸ rfl)
    exact patient.other (s.setCaller_other _ hi) rfl rfl (List.Subset.refl _)
  | write n err r writing ok =>
    refine patient.other rfl rfl rfl ?_
    cases err <;> exact List.nil_subset _
  | fail | sendReturn => exact patient.other rfl rfl rfl (List.nil_subset _)
  | close | shaperReturn | reuse => exact ⟨patient.served, patient.waits⟩

/-- A goroutine that waits for its results gets its buffers back when they are written. -/
theorem Patient.leaves (patient : Patient g s) (wired : Wired cfg s)
    (h : (machine cfg).step s a = some s') : Leaves g s a := by
  cases step_effect h with
  | reuse r piece returned =>
    intro hg _
    obtain ⟨⟨hpos, hget⟩, ⟨hoffering, hwaiting⟩, -⟩ := returned
    rw [hg] at hoffering hwaiting
    obtain ⟨⟨rest, hrest, hleft⟩, waits⟩ := patient
    have made : s.Made r := ⟨r.id - 1, by omega, hget⟩
    have hmem : r ∈ ofOwner g s.taken ++ rest := by
      rw [← hrest]
      exact mem_ofOwner.mpr ⟨made.mem_requestsOf, hg⟩
    have hnot : r ∉ rest := fun hr => (hleft.of_mem hr).2.elim hoffering hwaiting
    have htaken := (mem_ofOwner.mp ((List.mem_append.mp hmem).resolve_right hnot)).1
    rw [wired.taken] at htaken
    exact (List.mem_append.mp htaken).resolve_right fun hr => hwaiting (waits r hr hg)
  | _ => trivial

/-- The state a run reaches, for a goroutine that stays until its calls have their results. -/
theorem run_patient (hrun : (machine cfg).run {} acts = some s)
    (reach : (machine cfg).Guarded InReach {} acts) (stays : ∀ cause, .quit g cause ∉ acts) :
    Inv s ∧ Wired cfg s ∧ Careful g s ∧ Patient g s := by
  have guarded : (machine cfg).Guarded (fun s a => s.InReach a ∧ ∀ cause, a ≠ .quit g cause) {}
      acts := by
    refine (machine cfg).guarded_and reach ((machine cfg).guarded_of_forall ?_ _)
    intro a ha cause hcause
    exact stays cause (hcause ▸ ha)
  refine @Machine.guarded_invariant _ _ (machine cfg)
    (fun s => Inv s ∧ Wired cfg s ∧ Careful g s ∧ Patient g s) _ _ _ _ ?_ hrun guarded
    ⟨inv_new, wired_new, careful_new g, patient_new g⟩
  rintro s a s' ⟨inv, wired, careful, patient⟩ ⟨reach, stays⟩ h
  exact ⟨step_inv inv reach h, step_wired wired h,
    step_careful inv wired careful (patient.leaves wired h) h,
    step_patient inv wired patient stays h⟩

/-! ### The frames of one stream -/

theorem map_op_requestsOf (g : Nat) (calls : List (Nat × Op)) :
    (ofOwner g (requestsOf calls)).map (·.op) = (calls.filter fun p => p.1 = g).map Prod.snd := by
  induction calls using List.reverseRecOn with
  | nil => rfl
  | append_singleton calls call ih =>
    obtain ⟨i, op⟩ := call
    rw [requestsOf_concat, List.filter_append]
    by_cases hi : i = g
    · rw [ofOwner_concat_self _ hi, List.map_append, ih]
      simp [hi]
    · rw [ofOwner_concat_other _ hi, ih]
      simp [hi]

/-- **A patient goroutine is served in order.** -/
theorem patient_served (hrun : (machine cfg).run {} acts = some s) (patient : Patient g s) :
    (ofOwner g s.taken).map (·.op) <+: askedBy g acts := by
  obtain ⟨rest, hrest, -⟩ := patient.served
  have hcalls : s.calls = callsOf acts := run_calls hrun
  rw [askedBy, ← hcalls, ← map_op_requestsOf, hrest, List.map_append]
  exact List.prefix_append _ _

end Sender

/-- The frames a stream consists of. -/
def Op.isOf (sid : UInt32) : Op → Bool
  | .syn i | .fin i | .psh i _ => i = sid
  | .nop | .upd _ _ => false

namespace Sender

/-- Where one goroutine alone speaks for a stream, its frames are sent in the order of its calls. -/
theorem stream_in_order {sid : UInt32} (hrun : (machine cfg).run {} acts = some s) (inv : Inv s)
    (wired : Wired cfg s) (careful : Careful g s) (patient : Patient g s)
    (only : ∀ call ∈ callsOf acts, call.2.isOf sid → call.1 = g) :
    (s.sent.map (·.op)).filter (Op.isOf sid) <+: (askedBy g acts).filter (Op.isOf sid) := by
  have hcalls : s.calls = callsOf acts := run_calls hrun
  have howner : ∀ r ∈ s.taken, Op.isOf sid r.op = true → r.owner = g := by
    intro r hr hof
    have hoffered : r ∈ s.offered := inv.accounted.symm.subset (List.mem_append_left _ hr)
    obtain ⟨n, -, hget⟩ := inv.made r hoffered
    exact only _ (hcalls ▸ List.mem_of_getElem? hget) hof
  have hwritten : s.written <+: s.taken := ⟨_, wired.taken.symm⟩
  have hsent : s.sent.filter (fun r => Op.isOf sid r.op)
      = s.written.filter fun r => Op.isOf sid r.op := by
    refine careful.sent _ (fun r piece => ?_) fun r hr => howner r (hwritten.subset hr)
    obtain ⟨op, id, owner⟩ := r
    cases op <;> rfl
  have hfilter : (s.taken.map (·.op)).filter (Op.isOf sid)
      = ((ofOwner g s.taken).map (·.op)).filter (Op.isOf sid) := by
    rw [List.filter_map, List.filter_map, ofOwner, List.filter_filter]
    refine congrArg _ (List.filter_congr fun r hr => ?_)
    cases hof : Op.isOf sid r.op with
    | true => simp [hof, howner r hr hof]
    | false => simp [hof]
  calc (s.sent.map (·.op)).filter (Op.isOf sid)
    _ = (s.written.map (·.op)).filter (Op.isOf sid) := by
      rw [List.filter_map, List.filter_map]
      exact congrArg _ hsent
    _ <+: (s.taken.map (·.op)).filter (Op.isOf sid) := (hwritten.map _).filter _
    _ = ((ofOwner g s.taken).map (·.op)).filter (Op.isOf sid) := hfilter
    _ <+: (askedBy g acts).filter (Op.isOf sid) := (patient_served hrun patient).filter _

end Sender

/-! ### A stream and its frames -/

/-- The loop of `Write`: the data in pieces of at most `frameSize` bytes. -/
def writeOps (cfg : Verified) (sid : UInt32) (b : List UInt8) : List Op :=
  (chunks cfg.maxFrameSize b).pmap (fun data h => .psh sid ⟨data, h⟩) fun _ hc =>
    let hlen := length_of_mem_chunks hc
    ⟨hlen.1, hlen.2.trans cfg.maxFrameSize_le⟩

/-- What a goroutine asks for that opens a stream, writes to it and closes it. -/
def dialogue (cfg : Verified) (sid : UInt32) (writes : List (List UInt8)) : List Op :=
  .syn sid :: (writes.flatMap (writeOps cfg sid) ++ [.fin sid])

section Frames

variable (cfg : Verified) (sid : UInt32)

/-- A frame as `recvLoop` handles it. -/
def Op.handled (op : Op) : Handled := (op.rawHeader cfg, op.data cfg)

theorem payload_handled (ops : List Op) :
    payload sid (ops.map (Op.handled cfg)) = (ops.filter (Op.isOf sid)).flatMap (Op.data cfg) := by
  induction ops with
  | nil => rfl
  | cons op ops ih =>
    have hhead : (if (op.handled cfg).1.cmd = cmdPSH ∧ (op.handled cfg).1.streamID = sid then
        (op.handled cfg).2 else []) = if op.isOf sid then op.data cfg else [] := by
      cases op with
      | upd i consumed => simp [Op.handled, Op.isOf, Op.rawHeader, Op.cmd, cmdUPD, cmdPSH]
      | _ => simp [Op.handled, Op.isOf, Op.rawHeader, Op.cmd, Op.sid, Op.data]
    rw [payload, List.map_cons, List.flatMap_cons, hhead, ← payload, ih, List.filter_cons]
    split <;> rfl

theorem isFin_handled (op : Op) : isFin sid (op.handled cfg) = true ↔ op = .fin sid := by
  cases op <;> simp [isFin, Op.handled, Op.rawHeader, Op.cmd, Op.sid, cmdSYN, cmdFIN, cmdPSH,
    cmdNOP, cmdUPD]

theorem cmd_handled_eq_syn (op : Op) (hcmd : (op.handled cfg).1.cmd = cmdSYN)
    (hsid : (op.handled cfg).1.streamID = sid) : op = .syn sid := by
  cases op <;> simp_all [Op.handled, Op.rawHeader, Op.cmd, Op.sid, cmdSYN, cmdFIN, cmdPSH,
    cmdNOP, cmdUPD]

theorem mem_writeOps {op : Op} {b : List UInt8} (h : op ∈ writeOps cfg sid b) :
    ∃ piece, op = .psh sid piece := by
  obtain ⟨data, hdata, rfl⟩ := List.mem_pmap.mp h
  exact ⟨_, rfl⟩

theorem data_writeOps (b : List UInt8) : (writeOps cfg sid b).flatMap (Op.data cfg) = b := by
  have hdata : (writeOps cfg sid b).map (Op.data cfg) = chunks cfg.maxFrameSize b := by
    rw [writeOps, List.map_pmap]
    exact List.pmap_eq_self.mpr fun _ _ => rfl
  rw [List.flatMap, hdata]
  exact flatten_chunks cfg.maxFrameSize_pos b

theorem data_writes (writes : List (List UInt8)) :
    (writes.flatMap (writeOps cfg sid)).flatMap (Op.data cfg) = writes.flatten := by
  rw [List.flatMap_assoc]
  simp only [data_writeOps, List.flatMap_id']

end Frames

/-! ### Both sides -/

/-- The frames that have come after that of `OpenStream` are the first of those that followed it. -/
theorem after_syn {sid : UInt32} {before after pieces : List Op}
    (hpieces : ∀ op ∈ pieces, ∃ piece, op = .psh sid piece)
    (h : before ++ .syn sid :: after <+: .syn sid :: (pieces ++ [.fin sid])) :
    before = [] ∧ after <+: pieces ++ [.fin sid] := by
  cases before with
  | nil => exact ⟨rfl, (List.cons_prefix_cons.mp h).2⟩
  | cons op before =>
    exfalso
    have hrest := (List.cons_prefix_cons.mp h).2
    have hmem : Op.syn sid ∈ pieces ++ [.fin sid] :=
      hrest.subset (List.mem_append_right _ List.mem_cons_self)
    rcases List.mem_append.mp hmem with hmem | hmem
    · obtain ⟨piece, hpiece⟩ := hpieces _ hmem
      cases hpiece
    · cases List.mem_singleton.mp hmem

/-- The frames before the end of a stream are all of its data. -/
theorem before_fin {sid : UInt32} {pieces before after : List Op}
    (hpieces : ∀ op ∈ pieces, ∃ piece, op = .psh sid piece)
    (hbefore : Op.fin sid ∉ before)
    (h : before ++ .fin sid :: after <+: pieces ++ [.fin sid]) : before = pieces := by
  have hfin : Op.fin sid ∉ pieces := by
    intro hmem
    obtain ⟨piece, hpiece⟩ := hpieces _ hmem
    cases hpiece
  induction before generalizing pieces with
  | nil =>
    cases pieces with
    | nil => rfl
    | cons op pieces =>
      exact absurd (List.cons_prefix_cons.mp h).1 fun heq => hfin (heq ▸ List.mem_cons_self)
  | cons op before ih =>
    cases pieces with
    | nil =>
      have heq : op = .fin sid := (List.cons_prefix_cons.mp h).1
      exact absurd List.mem_cons_self (heq ▸ hbefore)
    | cons op' pieces =>
      obtain ⟨rfl, hrest⟩ := List.cons_prefix_cons.mp h
      rw [ih (fun q hq => hpieces q (List.mem_cons_of_mem _ hq))
        (fun hmem => hbefore (List.mem_cons_of_mem _ hmem)) hrest
        fun hmem => hfin (List.mem_cons_of_mem _ hmem)]

/-- What the receiver has handled are the first of the frames sent. -/
theorem handled_eq_sent {cfg : Verified} {t : Sender} {conn : Source} {client : Bool}
    {acts : List Act} {s : System} (wired : Sender.Wired cfg t) (hconn : conn.data <+: t.wire)
    (hrun : (machine cfg).run (newSession cfg conn client) acts = some s) :
    ∃ ops, s.shared.handled = ops.map (Op.handled cfg) ∧ ops <+: t.sent.map (·.op) := by
  obtain ⟨ps, hps, hwire⟩ := System.handled_prefix hrun
  have hpackets : ps <+: t.sent.map (·.op.packet cfg) :=
    Framing.prefix_of_encodeAll _ (hwire.trans (hconn.trans wired.prefix))
  refine ⟨(t.sent.take ps.length).map (·.op), ?_, (List.take_prefix _ _).map _⟩
  have htake : ps = (t.sent.take ps.length).map (·.op.packet cfg) := by
    rw [List.map_take]
    exact List.prefix_iff_eq_take.mp hpackets
  rw [hps]
  conv => lhs; rw [htake]
  rw [List.map_map, List.map_map]
  rfl

/-- The data before the end of a stream. -/
theorem beforeFin_handled (cfg : Verified) {sid : UInt32} {before after : List Op}
    (hbefore : Op.fin sid ∉ before) :
    beforeFin sid ((before ++ .fin sid :: after).map (Op.handled cfg))
      = (before.filter (Op.isOf sid)).flatMap (Op.data cfg) := by
  have htake : ((before ++ .fin sid :: after).map (Op.handled cfg)).takeWhile
      (fun p => !isFin sid p) = before.map (Op.handled cfg) := by
    rw [List.map_append, List.takeWhile_append_of_pos, List.map_cons,
      List.takeWhile_cons_of_neg, List.append_nil]
    · simp [(isFin_handled cfg sid (.fin sid)).mpr rfl]
    · intro p hp
      obtain ⟨op, hop, rfl⟩ := List.mem_map.mp hp
      cases hfin : isFin sid (op.handled cfg) with
      | false => rfl
      | true => exact absurd ((isFin_handled cfg sid op).mp hfin ▸ hop) hbefore
  rw [beforeFin, htake, payload_handled]

/-- **From one side to the other.** A goroutine opens a stream, writes to it and closes it, or has
done a part of this, and does not give a call up; nobody else speaks for the stream. Its frames
cross the connection among those of all others. Then what has been read from the accepted stream,
followed by what is buffered, is a beginning of what was written, and all of it when the end has
arrived. -/
theorem end_to_end {cfg : Verified} {sid : UInt32} {g : Nat} {writes : List (List UInt8)}
    {sends : List Sender.Act} {t : Sender} (hsend : (Sender.machine cfg).run {} sends = some t)
    (reach : (Sender.machine cfg).Guarded Sender.InReach {} sends)
    (stays : ∀ cause, .quit g cause ∉ sends)
    (only : ∀ call ∈ Sender.callsOf sends, call.2.isOf sid → call.1 = g)
    (asks : (Sender.askedBy g sends).filter (Op.isOf sid) <+: dialogue cfg sid writes)
    {conn : Source} (hconn : conn.data <+: t.wire) {client : Bool} {acts : List Act} {s : System}
    (hrun : (machine cfg).run (newSession cfg conn client) acts = some s) {k : Nat} {st : Stream}
    (hst : s.shared.heap[k]? = some st) (hid : st.id = sid) (accepted : st.opened = false)
    (kept : st.recycled = false) :
    st.read ++ st.buffered <+: writes.flatten ∧
      (st.finEvent = true → st.read ++ st.buffered = writes.flatten) := by
  obtain ⟨inv, wired, careful, patient⟩ := Sender.run_patient hsend reach stays
  obtain ⟨ops, hhandled, hops⟩ := handled_eq_sent wired hconn hrun
  have ok := (System.run_delivery hrun).ok k st hst
  rw [hhandled] at ok
  subst hid
  rw [← ok.kept kept]
  have hpieces : ∀ op ∈ writes.flatMap (writeOps cfg st.id), ∃ piece, op = .psh st.id piece := by
    intro op hop
    obtain ⟨b, -, hb⟩ := List.mem_flatMap.mp hop
    exact mem_writeOps cfg st.id hb
  have hdialogue : ops.filter (Op.isOf st.id) <+: dialogue cfg st.id writes :=
    (hops.filter _).trans
      ((Sender.stream_in_order hsend inv wired careful patient only).trans asks)
  -- the stream begins after the frame of `OpenStream`
  obtain ⟨n, p, hsince, hget, hcmd, hsid⟩ := ok.syn accepted
  rw [List.getElem?_map] at hget
  obtain ⟨op, hop, rfl⟩ := Option.map_eq_some_iff.mp hget
  cases cmd_handled_eq_syn cfg st.id op hcmd hsid
  obtain ⟨hn, hop⟩ := List.getElem?_eq_some_iff.mp hop
  have hsplit : ops = ops.take n ++ .syn st.id :: ops.drop (n + 1) := by
    rw [← hop, ← List.drop_eq_getElem_cons hn, List.take_append_drop]
  rw [hsplit, List.filter_append, List.filter_cons_of_pos (by simp [Op.isOf])] at hdialogue
  have hafter := (after_syn hpieces hdialogue).2
  have hdrop : (ops.map (Op.handled cfg)).drop st.since
      = (ops.drop (n + 1)).map (Op.handled cfg) := by
    rw [hsince, List.map_drop]
  have hdata : ∀ qs, qs <+: writes.flatMap (writeOps cfg st.id) ++ [.fin st.id] →
      qs.flatMap (Op.data cfg) <+: writes.flatten := by
    intro qs hqs
    have hflat := hqs.flatMap (Op.data cfg)
    rw [List.flatMap_append, data_writes] at hflat
    simpa [Op.data] using hflat
  have hsent : st.pushed <+: writes.flatten := by
    have hsent := ok.sent
    rw [hdrop, payload_handled] at hsent
    exact hsent.trans (hdata _ hafter)
  refine ⟨hsent, fun hfin => ?_⟩
  obtain ⟨⟨p, hp, hpfin⟩, hbefore⟩ := ok.fin hfin
  rw [hdrop] at hp hbefore
  obtain ⟨op, hop, rfl⟩ := List.mem_map.mp hp
  cases (isFin_handled cfg st.id op).mp hpfin
  obtain ⟨before, after, hrest, hnot⟩ := List.eq_append_cons_of_mem hop
  rw [hrest, List.filter_append, List.filter_cons_of_pos (by simp [Op.isOf])] at hafter
  rw [hrest, beforeFin_handled cfg hnot,
    before_fin hpieces (fun h => hnot (List.mem_of_mem_filter h)) hafter, data_writes] at hbefore
  exact hsent.eq_of_length (Nat.le_antisymm hsent.length_le hbefore.length_le)

/-- A goroutine opens a stream, writes a byte to it and closes it, while another keeps the
connection alive. -/
def sampleSends : List Sender.Act :=
  [.call 0 (.syn 3), .offer 0, .give, .write 8 none, .answer 0, .call 1 .nop,
    .call 0 (.psh 3 System.aByte), .offer 0, .offer 1, .give, .write 8 none, .give,
    .write 9 none, .answer 0, .call 0 (.fin 3), .offer 0, .give, .write 8 none]

/-- The other side has handled all of it. -/
def sampleReceives : List Act :=
  [.step 0 .go, .step 0 .go, .step 0 .go, .step 0 .accepts, .step 0 .go, .step 0 .go, .step 0 .go,
    .step 0 .go, .step 0 .go, .step 0 .go, .step 0 .go, .step 0 .go, .step 0 .go, .step 0 .go,
    .step 0 .go, .step 0 .go, .step 0 .go]

theorem end_to_end_sample :
    ∃ t s, ∃ st : Stream, (Sender.machine .default).run {} sampleSends = some t ∧
      (machine .default).run (newSession .default ⟨t.wire, .eof⟩ false) sampleReceives = some s ∧
      s.shared.heap[0]? = some st ∧ st.finEvent = true ∧ st.read ++ st.buffered = [7] := by
  have hsome : ((Sender.machine .default).run {} sampleSends).any (fun t =>
      ((machine .default).run (newSession .default ⟨t.wire, .eof⟩ false) sampleReceives).any
        fun s => s.shared.heap[0]?.any fun st =>
          st.id = 3 && !st.opened && !st.recycled && st.finEvent) = true := by decide +kernel
  obtain ⟨t, hsend, h⟩ := (Option.any_eq_true _ _).mp hsome
  obtain ⟨s, hrun, h⟩ := (Option.any_eq_true _ _).mp h
  obtain ⟨st, hst, h⟩ := (Option.any_eq_true _ _).mp h
  simp only [Bool.and_eq_true, Bool.not_eq_true', decide_eq_true_eq] at h
  obtain ⟨⟨⟨hid, accepted⟩, kept⟩, hfin⟩ := h
  refine ⟨t, s, st, hsend, hrun, hst, hfin, ?_⟩
  have hdialogue : dialogue .default 3 [[7]] = [.syn 3, .psh 3 System.aByte, .fin 3] := by
    have hsize : [(7 : UInt8)].length ≤ Verified.default.maxFrameSize := by decide
    simp [dialogue, writeOps, System.aByte, chunks_of_length_le _ hsize]
  have hstays : ∀ cause, Sender.Act.quit 0 cause ∉ sampleSends := by simp [sampleSends]
  have hasks : (Sender.askedBy 0 sampleSends).filter (Op.isOf 3) <+: dialogue .default 3 [[7]] := by
    rw [hdialogue]
    decide
  exact (end_to_end hsend (by decide) hstays (by decide) hasks (List.prefix_refl _) hrun hst hid
    accepted kept).2 hfin

end Glider.Smux
