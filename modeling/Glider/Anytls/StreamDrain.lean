/-
What the readers of an anytls stream get.

`Glider.Anytls.StreamRace` shows that no run loses or reorders bytes on their way. Here the
only close is `closeLocally`, the answer to a `FIN` of the peer: the queue is then drained
before the pipe is closed, by nobody but `writeLoop`, so that the readers get everything and
then `io.EOF`.

* `stream_lossless` — the results for all runs and for these.
-/

import Glider.Anytls.StreamRace
import Mathlib.Algebra.GroupWithZero.Nat

namespace Glider.Anytls

open Glider.Go Glider.Lib

/-! ### Only closeLocally -/

/-- The actions of the runs in which `closeLocally` is the only close. -/
def Graceful : RaceAct → Prop
  | .call _ k => k = .closeLocally
  | .refused | .closeWith _ => False
  | _ => True

instance (a : RaceAct) : Decidable (Graceful a) :=
  match a with
  | .call _ k => inferInstanceAs (Decidable (k = .closeLocally))
  | .refused | .closeWith _ => isFalse id
  | .enqueue _ | .sender | .enter _ | .body | .after _ | .recv | .stop | .writer | .read _ _
  | .transfer _ | .readEnd _ => isTrue trivial

/-- What holds in these runs. -/
structure Gentle (s : StreamRace) : Prop where
  entering : ∀ t k, s.closers t = .entering k → k = .closeLocally
  after : ∀ t k, s.closers t = .after k → k = .closeLocally
  running : ∀ t k stage, s.once = .running t k stage → k = .closeLocally ∧ stage ≠ .begun
  done : s.done = false
  pipe : s.pipe = if s.writer = .exited then ⟨some .eof, none⟩ else .new
  drained : s.writer.live = false → s.dataCh.closed = true ∧ s.enqueued.flatten = s.got
  errors : ∀ e ∈ s.errors, e.2 = .eof ∧ s.writer = .exited

namespace Gentle

variable {s s' : StreamRace}

theorem init : Gentle .init where
  entering _ _ := nofun
  after _ _ := nofun
  running _ _ _ := nofun
  done := rfl
  pipe := rfl
  drained := nofun
  errors _ h := by cases h

/-- The pipe is closed by `writeLoop` alone. -/
theorem pipe_done (inv : Gentle s) : s.pipe.done = true ↔ s.writer = .exited := by
  rw [inv.pipe]
  split <;> simp [*, Pipe.done, Pipe.new]

variable {t : Tid}

theorem setCloser (inv : Gentle s) {c : CloseStage}
    (hentering : ∀ k, c = .entering k → k = .closeLocally)
    (hafter : ∀ k, c = .after k → k = .closeLocally) : Gentle (s.setCloser t c) := by
  exact { inv with
    entering := (Function.forall_update_iff s.closers fun _ c => ∀ k, c = .entering k →
      k = .closeLocally).mpr ⟨hentering, fun t' _ => inv.entering t'⟩
    after := (Function.forall_update_iff s.closers fun _ c => ∀ k, c = .after k →
      k = .closeLocally).mpr ⟨hafter, fun t' _ => inv.after t'⟩ }

/-- The function inside `dieOnce` goes on. -/
theorem advance (inv : Gentle s) {k : CloseKind} {stage : BodyStage}
    (h : s.once = .running t k stage) (stage' : BodyStage) (hstage : stage' ≠ .begun) :
    Gentle { s with once := .running t k stage' } := by
  refine { inv with running := fun t' k' stage h' => ?_ }
  cases h'
  exact ⟨(inv.running t k _ h).1, hstage⟩

/-- `writeLoop` goes on. -/
theorem setWriter (inv : Gentle s) {w : WriteStage} (hw : s.writer ≠ .exited)
    (hlive : w.live = true) : Gentle { s with writer := w } := by
  have hexited : w ≠ .exited := by
    rintro rfl
    cases hlive
  exact { inv with
    pipe := (inv.pipe.trans (if_neg hw)).trans (if_neg hexited).symm
    drained := fun h => by cases hlive.symm.trans h
    errors := fun e he => absurd (inv.errors e he).2 hw }

theorem senderStep (inv : Gentle s) (orderly : Orderly s) (h : s.senderStep = some s') :
    Gentle s' := by
  obtain ⟨data, ch, hunclosed, -, rfl⟩ | ⟨_, _, _, _, rfl⟩ := senderStep_cases h
  · -- `dataCh` is open, so `writeLoop` is still there
    refine { inv with drained := fun hlive => ?_ }
    cases (inv.drained hlive).1.symm.trans (orderly.unclosed data hunclosed)
  · exact { inv with }

theorem enter (inv : Gentle s) (h : s.enter t = some s') : Gentle s' := by
  unfold StreamRace.enter at h
  split at h
  · rename_i k hentering
    obtain rfl := inv.entering t k hentering
    split at h <;> cases h
    · refine { inv.setCloser (t := t) (c := .inside) (fun _ => nofun) (fun _ => nofun) with
        running := fun t' k' stage h => ?_ }
      cases h
      exact ⟨rfl, nofun⟩
    · exact inv.setCloser (fun _ => nofun) fun k h => by cases h; rfl
  · cases h

theorem bodyStep (inv : Gentle s) (h : s.bodyStep = some s') : Gentle s' := by
  unfold StreamRace.bodyStep at h
  split at h
  · rename_i t k hbegun
    exact absurd rfl (inv.running t k _ hbegun).2
  · rename_i t k hstage
    split at h <;> cases h
    exact { inv.advance hstage .locked nofun with }
  · rename_i t k hstage
    cases h
    exact { inv.advance hstage .stored nofun with }
  · rename_i t k hstage
    split at h <;> cases h
    · rename_i ch hclose
      exact { inv.advance hstage .chClosed nofun with
        drained := fun hlive => ⟨(Chan.close_eq_done.mp hclose).2.2, (inv.drained hlive).2⟩ }
    · exact { inv with }
  · rename_i t k hstage
    cases h
    exact { inv.advance hstage .unlocked nofun with }
  · rename_i t k hstage
    obtain ⟨rfl, -⟩ := inv.running t k _ hstage
    cases h
    exact { inv.setCloser (t := t) (c := .after .closeLocally) (fun _ => nofun)
        (fun k h => by cases h; rfl) with
      running := fun _ _ _ => nofun }
  · cases h

theorem recv (inv : Gentle s) (flow : Flow s) (h : s.recv = some s') : Gentle s' := by
  unfold StreamRace.recv at h
  split at h <;> try cases h
  rename_i hselect
  have hw : s.writer ≠ .exited := by rw [hselect]; nofun
  split at h <;> cases h
  · rename_i data ch hrecv
    exact { inv.setWriter (w := .taken data) hw rfl with drained := nofun }
  · rename_i hrecv
    obtain ⟨hbuf, hclosed, -⟩ := Chan.recv_eq_none.mp hrecv
    have hflow := flow.flow (hselect ▸ rfl)
    rw [hselect, hbuf] at hflow
    exact { inv with
      pipe := inv.pipe.trans (if_neg hw)
      drained := fun _ => ⟨hclosed, by simpa [WriteStage.pending] using hflow⟩
      errors := fun e he => absurd (inv.errors e he).2 hw }

theorem writerStep (inv : Gentle s) (h : s.writerStep = some s') : Gentle s' := by
  have hopen (hw : s.writer ≠ .exited) : ¬ s.pipe.done = true := fun hd => hw (inv.pipe_done.mp hd)
  unfold StreamRace.writerStep at h
  split at h <;> try cases h
  · rename_i data hstage
    have hw : s.writer ≠ .exited := by rw [hstage]; nofun
    exact { inv.setWriter (w := .entering data) hw rfl with }
  · rename_i data hstage
    have hw : s.writer ≠ .exited := by rw [hstage]; nofun
    rw [if_neg (hopen hw)]
    exact inv.setWriter hw rfl
  · rename_i rest hstage
    have hw : s.writer ≠ .exited := by rw [hstage]; nofun
    rw [if_neg (hopen hw)] at h
    cases h
  · rename_i hstage
    have hw : s.writer ≠ .exited := by rw [hstage]; nofun
    refine { inv with
      pipe := ?_
      drained := fun _ => inv.drained (hstage ▸ rfl)
      errors := fun e he => absurd (inv.errors e he).2 hw }
    rw [inv.pipe, if_neg hw]
    rfl

/-- A `Read` that fails. -/
theorem fail (inv : Gentle s) (hdone : s.pipe.done = true) : Gentle (s.fail t) := by
  have hexited := inv.pipe_done.mp hdone
  refine { inv with errors := fun e he => ?_ }
  obtain hold | hnew := List.mem_append.mp he
  · exact inv.errors e hold
  · obtain rfl := List.mem_singleton.mp hnew
    refine ⟨?_, hexited⟩
    rw [inv.pipe, if_pos hexited]
    rfl

theorem transfer (inv : Gentle s) (h : s.transfer t = some s') : Gentle s' := by
  unfold StreamRace.transfer at h
  split at h <;> try cases h
  rename_i n rest hreader hwriting
  have hw : s.writer ≠ .exited := by rw [hwriting]; nofun
  have hlive : WriteStage.live (if rest.drop n = [] then .select else .writing (rest.drop n)) =
      true := by split <;> rfl
  exact { inv.setWriter hw hlive with drained := fun h => by cases hlive.symm.trans h }

theorem step (inv : Gentle s) (orderly : Orderly s) (flow : Flow s) {a : RaceAct}
    (graceful : Graceful a) (h : streamRace.step s a = some s') : Gentle s' := by
  cases a with
  | enqueue data =>
    simp only [streamRace, StreamRace.enqueue] at h
    split at h <;> try cases h
    split at h <;> cases h <;> exact { inv with }
  | sender => exact inv.senderStep orderly h
  | call t k =>
    simp only [streamRace, StreamRace.call] at h
    split at h <;> cases h
    refine inv.setCloser (fun k' h => ?_) fun k' h => ?_
    · cases h
      exact graceful
    · cases h
  | enter t => exact inv.enter h
  | body => exact inv.bodyStep h
  | after t =>
    simp only [streamRace, StreamRace.after] at h
    split at h <;> cases h
    rename_i k hafter
    obtain rfl := inv.after t k hafter
    refine inv.setCloser (fun k h => ?_) fun k h => ?_
    · cases h
    · cases h
  | recv => exact inv.recv flow h
  | stop =>
    simp only [streamRace, StreamRace.stop, inv.done] at h
    split at h <;> cases h
    rename_i hstop
    cases hstop.2
  | writer => exact inv.writerStep h
  | read t n =>
    simp only [streamRace, StreamRace.read] at h
    split at h <;> try cases h
    split at h <;> cases h
    · rename_i hdone
      exact inv.fail hdone
    · exact { inv with }
  | transfer t => exact inv.transfer h
  | readEnd t =>
    simp only [streamRace, StreamRace.readEnd] at h
    split at h <;> try cases h
    split at h <;> cases h
    rename_i hdone
    exact { inv.fail (t := t) hdone with }
  | refused => cases graceful
  | closeWith err => cases graceful

end Gentle

/-! ### Draining -/

/-- The goroutines at work after a close: `recvLoop` and the caller `c` of `closeLocally`
finish their calls, `writeLoop` goes on, and the reader `t` reads into non-empty buffers. -/
def Drains (t c : Tid) : RaceAct → Prop
  | .sender | .body | .recv | .writer => True
  | .enter c' => c' = c
  | .read t' n => t' = t ∧ 0 < n
  | .transfer t' | .readEnd t' => t' = t
  | _ => False

/-- `closeLocally` has been called by `c`, or by another goroutine that got ahead. -/
def Called (c : Tid) (s : StreamRace) : Prop :=
  s.once ≠ .idle ∨ ∃ k, s.closers c = .entering k

/-- The reader `t` has got everything and then `io.EOF`. -/
def Complete (t : Tid) (s : StreamRace) : Prop :=
  (t, .eof) ∈ s.errors ∧ s.got = s.enqueued.flatten

/-- The steps a queued payload still takes; a byte may take a `Read` and a transfer. -/
def payloadWork (data : List UInt8) : Nat := 2 * data.length + 5

def SendStage.work : SendStage → Nat
  | .asked data => payloadWork data + 5
  | .locked data => payloadWork data + 4
  | .unclosed data => payloadWork data + 3
  | .sent _ => 2
  | .leaving => 1
  | .idle => 0

def BodyStage.work : BodyStage → Nat
  | .begun => 6
  | .closing => 5
  | .locked => 4
  | .stored => 3
  | .chClosed => 2
  | .unlocked => 1

def Once.work : Once → Nat
  | .idle => 7
  | .running _ _ stage => stage.work
  | .finished => 0

def WriteStage.work : WriteStage → Nat
  | .taken data => 2 * data.length + 6
  | .entering data => 2 * data.length + 5
  | .writing data => 2 * data.length + 4
  | .select => 2
  | .exiting => 1
  | .exited => 0

def CloseStage.work : CloseStage → Nat
  | .entering _ => 1
  | _ => 0

/-- A `Read` into an empty buffer takes nothing. -/
def readWork : Option Nat → Nat
  | none => 1
  | some 0 => 2
  | some (_ + 1) => 0

def queueWork (queue : List (List UInt8)) : Nat := (queue.map payloadWork).sum

def StreamRace.work (t c : Tid) (s : StreamRace) : Nat :=
  s.sender.work + s.once.work + s.writer.work + queueWork s.dataCh.buf + readWork (s.readers t) +
    (s.closers c).work

section Progress

variable {s s' : StreamRace} {t c : Tid}

theorem sender_lowers (h : s.senderStep = some s') (orderly : Orderly s) :
    s'.work t c < s.work t c := by
  unfold StreamRace.senderStep at h
  split at h
  · cases h
  · rename_i hstage
    split at h <;> cases h
    simp only [StreamRace.work, hstage, SendStage.work]
    omega
  · rename_i data hstage
    cases h
    simp only [StreamRace.work, hstage]
    split <;> simp only [SendStage.work] <;> omega
  · rename_i data hstage
    split at h <;> cases h
    · rename_i ch hsend
      have hbuf : ch.buf = s.dataCh.buf ++ [data] := (Chan.send_eq_done.mp hsend).2.2.1
      simp only [StreamRace.work, hstage, SendStage.work, hbuf, queueWork, List.map_append,
        List.sum_append, List.map_cons, List.map_nil, List.sum_cons, List.sum_nil]
      omega
    · simp only [StreamRace.work, hstage, SendStage.work]
      omega
    · rename_i hsend
      cases (Chan.send_eq_panics.mp hsend).symm.trans (orderly.unclosed data hstage)
  · rename_i n hstage
    cases h
    simp only [StreamRace.work, hstage, SendStage.work]
    omega
  · rename_i hstage
    cases h
    simp only [StreamRace.work, hstage, SendStage.work]
    omega

theorem body_lowers (h : s.bodyStep = some s') (orderly : Orderly s) :
    s'.work t c < s.work t c := by
  unfold StreamRace.bodyStep at h
  split at h
  · rename_i hstage
    rw [orderly.undone (hstage ▸ rfl)] at h
    cases h
    simp only [StreamRace.work, hstage, Once.work, BodyStage.work]
    omega
  · rename_i hstage
    split at h <;> cases h
    simp only [StreamRace.work, hstage, Once.work, BodyStage.work]
    omega
  · rename_i hstage
    cases h
    simp only [StreamRace.work, hstage, Once.work, BodyStage.work]
    omega
  · rename_i hstage
    have hclose : s.dataCh.close = .done { s.dataCh with closed := true } :=
      Chan.close_eq_done.mpr ⟨orderly.early (hstage ▸ rfl), rfl, rfl⟩
    rw [hclose] at h
    cases h
    simp only [StreamRace.work, hstage, Once.work, BodyStage.work]
    omega
  · rename_i hstage
    cases h
    simp only [StreamRace.work, hstage, Once.work, BodyStage.work]
    omega
  · rename_i t₀ k hstage
    cases h
    have hcaller : ((s.setCloser t₀ (.after k)).closers c).work ≤ (s.closers c).work := by
      by_cases hc : c = t₀
      · rw [hc, StreamRace.setCloser_self]
        exact Nat.zero_le _
      · rw [StreamRace.setCloser_of_ne hc]
    simp only [StreamRace.work, hstage, Once.work, BodyStage.work]
    simp only [StreamRace.setCloser] at hcaller ⊢
    omega
  · cases h

theorem enter_lowers (h : s.enter c = some s') : s'.work t c < s.work t c := by
  unfold StreamRace.enter at h
  split at h <;> try cases h
  rename_i k hstage
  split at h <;> cases h
  · rename_i hidle
    simp only [StreamRace.work, StreamRace.setCloser, Function.update_self, hstage, hidle,
      Once.work, CloseStage.work]
    split <;> simp only [BodyStage.work] <;> omega
  · simp only [StreamRace.work, StreamRace.setCloser, Function.update_self, hstage,
      CloseStage.work]
    omega

theorem recv_lowers (h : s.recv = some s') : s'.work t c < s.work t c := by
  unfold StreamRace.recv at h
  split at h <;> try cases h
  rename_i hselect
  split at h <;> cases h
  · rename_i data ch hrecv
    have hbuf : s.dataCh.buf = data :: ch.buf := (Chan.recv_eq_some.mp hrecv).1
    simp only [StreamRace.work, hselect, hbuf, WriteStage.work, queueWork, List.map_cons,
      List.sum_cons, payloadWork]
    omega
  · simp only [StreamRace.work, hselect, WriteStage.work]
    omega

theorem writer_lowers (h : s.writerStep = some s') : s'.work t c < s.work t c := by
  unfold StreamRace.writerStep at h
  split at h
  · rename_i data hstage
    cases h
    simp only [StreamRace.work, hstage, WriteStage.work]
    omega
  · rename_i data hstage
    cases h
    simp only [StreamRace.work, hstage]
    split <;> simp only [WriteStage.work] <;> omega
  · rename_i rest hstage
    split at h <;> cases h
    simp only [StreamRace.work, hstage, WriteStage.work]
    omega
  · rename_i hstage
    cases h
    simp only [StreamRace.work, hstage, WriteStage.work]
    omega
  · cases h

theorem transfer_lowers (h : s.transfer t = some s') : s'.work t c < s.work t c := by
  unfold StreamRace.transfer at h
  split at h <;> try cases h
  rename_i n rest hreader hwriting
  simp only [StreamRace.work, StreamRace.setReader, Function.update_self, hreader, hwriting,
    WriteStage.work]
  by_cases hdrop : rest.drop n = []
  · rw [if_pos hdrop]
    simp only [readWork]
    omega
  · rw [if_neg hdrop]
    have hlt : n < rest.length := by
      by_contra hle
      exact hdrop (List.drop_eq_nil_of_le (Nat.not_lt.mp hle))
    simp only [List.length_drop]
    cases n <;> simp only [readWork] <;> omega

variable {a : RaceAct}

theorem enabled_of_isSome (ha : Drains t c a) (h : (streamRace.step s a).isSome = true) :
    ∃ a s', Drains t c a ∧ streamRace.step s a = some s' :=
  ⟨a, _, ha, (Option.some_get h).symm⟩

/-- A call of `enqueue` that holds the mutex goes on. -/
theorem sender_enabled (h : s.sender.holds = true) : s.senderStep.isSome = true := by
  unfold StreamRace.senderStep
  cases hstage : s.sender with
  | idle | asked => cases hstage ▸ h
  | locked | sent | leaving => rfl
  | unclosed data =>
    dsimp only
    cases s.dataCh.send data <;> rfl

/-- The goroutine inside `dieOnce` and `enqueue` do not wait for each other, so `dataCh` will
be closed. -/
theorem closing_enabled (orderly : Orderly s) (called : Called c s)
    (hopen : s.dataCh.closed = false) : ∃ a s', Drains t c a ∧ streamRace.step s a = some s' := by
  cases honce : s.once with
  | idle =>
    obtain hne | ⟨k, hentering⟩ := called
    · exact absurd honce hne
    · refine enabled_of_isSome (a := .enter c) rfl ?_
      simp [streamRace, StreamRace.enter, hentering, honce]
  | running t₀ k stage =>
    cases stage with
    | closing =>
      cases hmu : s.mu with
      | none =>
        refine enabled_of_isSome (a := .body) trivial ?_
        simp [streamRace, StreamRace.bodyStep, honce, hmu]
      | some holder =>
        cases holder with
        | sender =>
          exact enabled_of_isSome (a := .sender) trivial (sender_enabled (orderly.sender.mp hmu))
        | closer =>
          have hholds := orderly.closer.mp hmu
          rw [honce] at hholds
          cases hholds
    | begun | stored =>
      refine enabled_of_isSome (a := .body) trivial ?_
      simp only [streamRace, StreamRace.bodyStep, honce]
      split <;> rfl
    | locked | chClosed | unlocked =>
      refine enabled_of_isSome (a := .body) trivial ?_
      simp only [streamRace, StreamRace.bodyStep, honce, Option.isSome_some]
  | finished => cases (orderly.late (honce ▸ rfl)).symm.trans hopen

/-- Somebody can always go on. -/
theorem drain_enabled (orderly : Orderly s) (gentle : Gentle s) (called : Called c s) :
    ∃ a s', Drains t c a ∧ streamRace.step s a = some s' := by
  cases hstage : s.writer with
  | select =>
    cases hbuf : s.dataCh.buf with
    | cons data rest =>
      refine enabled_of_isSome (a := .recv) trivial ?_
      have hlen : rest.length ≤ dataQueueCap := by
        have := s.dataCh.len_le
        rw [hbuf, List.length_cons] at this
        omega
      have hrecv : s.dataCh.recv = .done (some data, ⟨rest, s.dataCh.closed, hlen⟩) :=
        Chan.recv_eq_some.mpr ⟨hbuf, rfl⟩
      simp only [streamRace, StreamRace.recv, hstage, if_true, hrecv, Option.isSome_some]
    | nil =>
      cases hclosed : s.dataCh.closed with
      | false => exact closing_enabled orderly called hclosed
      | true =>
        refine enabled_of_isSome (a := .recv) trivial ?_
        have hrecv : s.dataCh.recv = .done (none, s.dataCh) :=
          Chan.recv_eq_none.mpr ⟨hbuf, hclosed, rfl⟩
        simp only [streamRace, StreamRace.recv, hstage, if_true, hrecv, Option.isSome_some]
  | taken | entering | exiting =>
    refine enabled_of_isSome (a := .writer) trivial ?_
    simp only [streamRace, StreamRace.writerStep, hstage, Option.isSome_some]
  | writing rest =>
    cases hreader : s.readers t with
    | none =>
      refine enabled_of_isSome (a := .read t 1) ⟨rfl, Nat.one_pos⟩ ?_
      simp only [streamRace, StreamRace.read, hreader, if_true]
      split <;> rfl
    | some n =>
      refine enabled_of_isSome (a := .transfer t) rfl ?_
      simp only [streamRace, StreamRace.transfer, hreader, hstage, Option.isSome_some]
  | exited =>
    have hdone := gentle.pipe_done.mpr hstage
    cases hreader : s.readers t with
    | none =>
      refine enabled_of_isSome (a := .read t 1) ⟨rfl, Nat.one_pos⟩ ?_
      simp only [streamRace, StreamRace.read, hreader, if_true, hdone, Option.isSome_some]
    | some n =>
      refine enabled_of_isSome (a := .readEnd t) rfl ?_
      simp only [streamRace, StreamRace.readEnd, hreader, hdone, if_true, Option.isSome_some]

/-- A failed `Read` of `t` is the end of the stream. -/
theorem fail_complete (gentle : Gentle s) (hdone : s.pipe.done = true) :
    Complete t (s.fail t) := by
  have hexited := gentle.pipe_done.mp hdone
  refine ⟨List.mem_append_right _ (List.mem_singleton.mpr ?_), ?_⟩
  · rw [gentle.pipe, if_pos hexited]
    rfl
  · exact (gentle.drained (hexited ▸ rfl)).2.symm

/-- Every step of the drain is one step nearer to the end. -/
theorem drain_lowers (orderly : Orderly s) (gentle : Gentle s) (ha : Drains t c a)
    (h : streamRace.step s a = some s') : Complete t s' ∨ s'.work t c < s.work t c := by
  cases a with
  | sender => exact .inr (sender_lowers h orderly)
  | enter c' =>
    obtain rfl : c' = c := ha
    exact .inr (enter_lowers h)
  | body => exact .inr (body_lowers h orderly)
  | recv => exact .inr (recv_lowers h)
  | writer => exact .inr (writer_lowers h)
  | read t' n =>
    obtain ⟨rfl, hpos⟩ := ha
    simp only [streamRace, StreamRace.read] at h
    split at h <;> try cases h
    rename_i hreader
    split at h <;> cases h
    · rename_i hdone
      exact .inl (fail_complete gentle hdone)
    · obtain ⟨m, rfl⟩ := Nat.exists_eq_succ_of_ne_zero (Nat.ne_of_gt hpos)
      simp only [StreamRace.work, StreamRace.setReader, Function.update_self, hreader, readWork]
      omega
  | transfer t' =>
    obtain rfl : t' = t := ha
    exact .inr (transfer_lowers h)
  | readEnd t' =>
    obtain rfl : t' = t := ha
    simp only [streamRace, StreamRace.readEnd] at h
    split at h <;> try cases h
    split at h <;> cases h
    rename_i hdone
    exact .inl (fail_complete gentle hdone)
  | enqueue | call | after | stop | refused | closeWith => cases ha

/-- After the end nothing is read or queued any more. -/
theorem Complete.step (complete : Complete t s) (orderly : Orderly s) (gentle : Gentle s)
    (h : streamRace.step s a = some s') : Complete t s' := by
  obtain ⟨heof, hall⟩ := complete
  have hexited := (gentle.errors _ heof).2
  have hclosed := (gentle.drained (hexited ▸ rfl)).1
  cases a with
  | sender =>
    obtain ⟨data, ch, hunclosed, -, -⟩ | ⟨_, _, _, _, rfl⟩ := senderStep_cases h
    · cases (orderly.unclosed data hunclosed).symm.trans hclosed
    · exact ⟨heof, hall⟩
  | body =>
    obtain ⟨-, ⟨_, _, _, -, -, rfl⟩ | ⟨_, _, _, _, _, _, rfl⟩⟩ := bodyStep_cases h
    · exact ⟨heof, hall⟩
    · exact ⟨heof, hall⟩
  | recv => simp [streamRace, StreamRace.recv, hexited] at h
  | stop => simp [streamRace, StreamRace.stop, hexited] at h
  | writer => simp [streamRace, StreamRace.writerStep, hexited] at h
  | transfer t => simp [streamRace, StreamRace.transfer, hexited] at h
  | enqueue | call | enter | after | read | readEnd | refused | closeWith =>
    obtain ⟨_, _, _, _, _, _, _, herrors, rfl⟩ := aside_step rfl h
    exact ⟨herrors heof, hall⟩

/-- A close that was called stays called. -/
theorem Called.step (called : Called c s) (ha : Drains t c a) (h : streamRace.step s a = some s') :
    Called c s' := by
  cases a with
  | sender =>
    obtain ⟨_, _, -, -, rfl⟩ | ⟨_, _, _, _, rfl⟩ := senderStep_cases h
    · exact called
    · exact called
  | enter c' =>
    simp only [streamRace, StreamRace.enter] at h
    split at h <;> try cases h
    split at h <;> cases h
    · refine .inl fun hidle => ?_
      cases hidle
    · rename_i hfinished
      refine .inl fun hidle => ?_
      cases hfinished.symm.trans hidle
  | body => exact .inl (bodyStep_cases h).1
  | recv =>
    simp only [streamRace, StreamRace.recv] at h
    split at h <;> try cases h
    split at h <;> cases h <;> exact called
  | writer | read | transfer | readEnd =>
    obtain ⟨_, _, _, _, _, _, rfl⟩ := atPipe_step rfl h
    exact called
  | enqueue | call | after | stop | refused | closeWith => cases ha

theorem graceful_of_drains (ha : Drains t c a) : Graceful a := by
  cases a with
  | call | refused | closeWith => cases ha
  | _ => trivial

/-- What holds while the stream is drained after a `closeLocally`. -/
structure Draining (c : Tid) (s : StreamRace) : Prop where
  orderly : Orderly s
  flow : Flow s
  gentle : Gentle s
  called : Called c s

theorem Draining.step (inv : Draining c s) (ha : Drains t c a) (h : streamRace.step s a = some s') :
    Draining c s' where
  orderly := inv.orderly.step h
  flow := inv.flow.step h
  gentle := inv.gentle.step inv.orderly inv.flow (graceful_of_drains ha) h
  called := inv.called.step ha h

/-- A reader that keeps reading gets everything and then `io.EOF`. -/
theorem Draining.settles (inv : Draining c s) :
    streamRace.Settles (Drains t c) (Complete t) s :=
  streamRace.settles_of_measure (StreamRace.work t c)
    (fun _ _ _ inv ha h => inv.step ha h)
    (fun _ _ _ inv complete _ h => complete.step inv.orderly inv.gentle h)
    (fun _ _ _ inv _ ha h => drain_lowers inv.orderly inv.gentle ha h)
    (fun _ inv _ => drain_enabled inv.orderly inv.gentle inv.called)
    inv

end Progress

theorem orderly_of_run {as : List RaceAct} {s : StreamRace}
    (hrun : streamRace.run .init as = some s) : Orderly s ∧ Flow s := by
  have preserved : ∀ s a s', Orderly s ∧ Flow s → streamRace.step s a = some s' →
      Orderly s' ∧ Flow s' := fun s a s' inv h => ⟨inv.1.step h, inv.2.step h⟩
  exact streamRace.run_invariant preserved hrun ⟨.init, .init⟩

theorem gentle_of_run {as : List RaceAct} {s : StreamRace}
    (hrun : streamRace.run .init as = some s)
    (graceful : streamRace.Guarded (fun _ a => Graceful a) .init as) : Gentle s := by
  have preserved : ∀ s a s', Orderly s ∧ Flow s ∧ Gentle s → Graceful a →
      streamRace.step s a = some s' → Orderly s' ∧ Flow s' ∧ Gentle s' :=
    fun s a s' ⟨orderly, flow, gentle⟩ ha h =>
      ⟨orderly.step h, flow.step h, gentle.step orderly flow ha h⟩
  exact (streamRace.guarded_invariant preserved hrun graceful ⟨.init, .init, .init⟩).2.2

/-- **Delivery on a stream.** In every run nothing panics, `dataCh` is closed at most once, and
the bytes read are a prefix of the payloads queued. If `closeLocally` is the only close, a
failed `Read` returns `io.EOF` after all of them, and once it has been called a reader that
keeps reading gets there. -/
theorem stream_lossless {as : List RaceAct} {s : StreamRace}
    (hrun : streamRace.run .init as = some s) :
    (s.panicked = false ∧ s.closes ≤ 1) ∧ s.got <+: s.enqueued.flatten ∧
      (streamRace.Guarded (fun _ a => Graceful a) .init as →
        (∀ e ∈ s.errors, e.2 = .eof ∧ s.got = s.enqueued.flatten) ∧
        ∀ t c, Called c s → streamRace.Settles (Drains t c) (Complete t) s) := by
  obtain ⟨orderly, flow⟩ := orderly_of_run hrun
  refine ⟨⟨orderly.calm, ?_⟩, flow.got, fun graceful => ?_⟩
  · rw [orderly.closes]
    split <;> decide
  · have gentle := gentle_of_run hrun graceful
    refine ⟨fun e he => ?_, fun t c called => ?_⟩
    · obtain ⟨heof, hexited⟩ := gentle.errors e he
      exact ⟨heof, (gentle.drained (hexited ▸ rfl)).2.symm⟩
    · exact Draining.settles ⟨orderly, flow, gentle, called⟩

/-- Two payloads are queued and the peer ends the stream; goroutine `1` reads byte by byte. -/
def finRun : List RaceAct :=
  .enqueue [1, 2] :: List.replicate 5 .sender ++ .enqueue [3] :: List.replicate 5 .sender ++
    [.call 0 .closeLocally, .enter 0] ++ List.replicate 5 .body ++
    [.recv, .writer, .read 1 1, .writer, .transfer 1, .read 1 1, .transfer 1, .recv, .writer,
      .writer, .read 1 1, .transfer 1, .read 1 1, .recv, .writer, .readEnd 1]

theorem stream_lossless_fin :
    ∃ s, streamRace.run .init finRun = some s ∧ s.panicked = false ∧ s.closes ≤ 1 ∧
      (1, .eof) ∈ s.errors ∧ s.got = s.enqueued.flatten := by
  have hmap : (streamRace.run .init finRun).map (fun s => decide ((1, IoErr.eof) ∈ s.errors)) =
      some true := by decide
  obtain ⟨s, hrun, hfields⟩ := Option.map_eq_some_iff.mp hmap
  have heof : (1, IoErr.eof) ∈ s.errors := of_decide_eq_true hfields
  have hgraceful : ∀ a ∈ finRun, Graceful a := by decide
  obtain ⟨⟨hcalm, hcloses⟩, -, hends⟩ := stream_lossless hrun
  have hend := (hends (streamRace.guarded_of_forall hgraceful _)).1 _ heof
  exact ⟨s, hrun, hcalm, hcloses, heof, hend.2⟩

end Glider.Anytls
