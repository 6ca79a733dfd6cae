/-
The token bucket of a session, which bounds the data that waits in its streams.

`recvLoop` begins a packet when the bucket is not empty, and deducts the payload after it is pushed
into a stream; whoever takes data out of a stream returns the tokens, and notifies `recvLoop` if the
bucket is not empty then. The bucket is an `int32` that goes below zero by design.

* `tokens_conserved` — in every interleaving, what the bucket holds, what is buffered and what is
  about to be returned make up `MaxReceiveBuffer`. So at most that and one frame is buffered in a
  session that is not closed, whatever the peer sends.
* `stalled_full` — no wake-up is lost: `recvLoop` waits for tokens only while at least
  `MaxReceiveBuffer` bytes wait to be read.
-/

import Glider.Lib.Concurrent
import Glider.Smux.Steps
import Mathlib.Algebra.Order.BigOperators.Group.List

namespace Glider.Smux

open Glider.Go Glider.Lib

namespace System

variable {cfg : Verified} {s s' : System}

/-- What the bucket should hold. -/
def credit (cfg : Verified) (s : System) : Int :=
  cfg.maxReceiveBuffer - s.shared.buffered - Goroutines.total Proc.owed s.procs

/-- `recvLoop` will be woken up, or has nothing to be woken up for. -/
def Woken (s : System) : Prop :=
  s.shared.bucketNotify = true ∨ s.shared.bucket ≤ 0 ∨ ∃ p ∈ s.procs, p.signals = true

structure Tokens (cfg : Verified) (s : System) : Prop where
  valid : s.shared.Valid
  bucket : s.shared.bucket = wrap32 (credit cfg s)
  floor : s.shared.die = false → -65536 < credit cfg s
  charged : s.shared.die = false → ∀ pc, s.procs[0]? = some (.recvLoop pc) →
    pc.charged = true → 0 < credit cfg s
  woken : s.procs[0]? = some (.recvLoop .wait) → Woken s

/-! ### Arithmetic -/

theorem wrap32_add (a b : Int) : wrap32 (wrap32 a + b) = wrap32 (a + b) := Int.bmod_add_bmod

theorem wrap32_of_range {n : Int} (h : -2147483648 ≤ n) (h' : n < 2147483648) : wrap32 n = n :=
  Int.bmod_eq_of_le h h'

/-- Only `recvLoop` holds fewer tokens than none. -/
theorem owed_nonneg {p : Proc} (hp : p.isRecv = false) : 0 ≤ p.owed := by
  unfold Proc.owed
  split
  all_goals first
    | exact Int.natCast_nonneg _
    | exact Int.le_refl 0
    | cases hp

theorem OneRecv.total_ge (recv : OneRecv cfg s) {pc : RecvPc}
    (hpc : s.procs[0]? = some (.recvLoop pc)) :
    (Proc.recvLoop pc).owed ≤ Goroutines.total Proc.owed s.procs := by
  cases hprocs : s.procs with
  | nil =>
    rw [hprocs] at hpc
    cases hpc
  | cons p rest =>
    rw [hprocs] at hpc
    cases hpc
    have hrest : 0 ≤ (rest.map Proc.owed).sum := by
      refine List.sum_nonneg fun w hw => ?_
      obtain ⟨q, hq, rfl⟩ := List.mem_map.mp hw
      obtain ⟨j, hj⟩ := List.mem_iff_getElem?.mp hq
      refine owed_nonneg (Bool.eq_false_iff.mpr fun hrecv => ?_)
      have := recv.only (j + 1) q (by rw [hprocs]; exact hj) hrecv
      omega
    rw [Goroutines.total, List.map_cons, List.sum_cons]
    omega

theorem owed_recvLoop_ge {pc : RecvPc} (wf : pc.Wf cfg) : -65535 ≤ (Proc.recvLoop pc).owed := by
  cases pc with
  | pushed k written =>
    have hle : written ≤ 65535 := wf
    show (-65535 : Int) ≤ -(written : Int)
    omega
  | _ =>
    show (-65535 : Int) ≤ 0
    decide

namespace Tokens

/-- As long as the session is not closed, the bucket does not wrap around. -/
theorem bucket_eq (tokens : Tokens cfg s) (one : OneRecv cfg s)
    (hsize : cfg.maxReceiveBuffer + 65535 < 2147483648) (alive : s.shared.die = false) :
    s.shared.bucket = credit cfg s := by
  have hfloor := tokens.floor alive
  obtain ⟨pc, hpc, wf⟩ := one.first
  have htotal := (owed_recvLoop_ge wf).trans (one.total_ge hpc)
  have hupper : credit cfg s ≤ cfg.maxReceiveBuffer + 65535 := by
    unfold credit
    omega
  rw [tokens.bucket]
  exact wrap32_of_range (by omega) (by omega)

end Tokens

/-! ### Steps -/

variable {m m' : Session}

theorem valid_of_step {p p' : Proc} (step : Step m p m' p') (valid : m.Valid) : m'.Valid := by
  have hext : m.Extends m' := by
    intro k s hs
    obtain ⟨s', hs', hmove⟩ := step.moves k s hs
    exact ⟨s', hs', hmove.id⟩
  refine valid.of_extends hext fun sid k hk => ?_
  cases step.registers with
  | same streams length => exact .inl (streams ▸ hk)
  | register id proc heap streams =>
    rw [streams] at hk
    rcases Session.setStream_eq_some hk with ⟨rfl, hj⟩ | ⟨-, hold⟩
    · cases hj
      exact .inr ⟨_, heap ▸ List.getElem?_concat_length, rfl⟩
    · exact .inl hold
  | delete j s err proc here heap streams =>
    rw [streams] at hk
    rcases Session.setStream_eq_some hk with ⟨-, hj⟩ | ⟨-, hold⟩
    · cases hj
    · exact .inl hold

variable {me : Nat} {pc pc' : RecvPc}

theorem valid_of_recvStep (step : RecvStep cfg me m pc m' pc') (valid : m.Valid) : m'.Valid := by
  have flags : ∀ {k : Nat} {f : Stream → Stream}, (∀ s, (f s).id = s.id) →
      (m.modify k f).Valid := fun hid =>
    valid.of_extends (.modify fun s _ => hid s) fun _ _ => .inl
  cases step with
  | quiet going same | ignored h body going same =>
    exact valid.of_extends (.of_heap same.heap) fun sid k hk => .inl (same.streams ▸ hk)
  | created h body cmd new =>
    refine valid.of_extends (.concat _ rfl) fun sid k hk => ?_
    rcases Session.setStream_eq_some hk with ⟨rfl, hj⟩ | ⟨-, hold⟩
    · cases hj
      exact .inr ⟨_, List.getElem?_concat_length, rfl⟩
    · exact .inl hold
  | deducted k written => exact valid
  | finned h body k cmd here | pushed h body k cmd here
  | updated h body k consumed window cmd here | notified k before => exact flags fun _ => rfl

/-- What a step of `recvLoop` does to the tokens. -/
theorem recvStep_tokens (step : RecvStep cfg me m pc m' pc') (valid : m.Valid) :
    m'.die = m.die ∧
      ((m'.bucket = m.bucket ∧
          (m'.buffered : Int) + (Proc.recvLoop pc').owed = m.buffered + (Proc.recvLoop pc).owed ∧
          (pc'.charged = true → pc.charged = true ∨ 0 < m.bucket ∨ m.die = true) ∧
          (pc' = .wait → m.bucket ≤ 0)) ∨
        ∃ k written, pc = .pushed k written ∧ pc' = .deducted k ∧ m'.buffered = m.buffered ∧
          m'.bucket = wrap32 (m.bucket - written)) := by
  have flags : ∀ {k : Nat} {f : Stream → Stream}, (∀ s, (f s).buffers = s.buffers) →
      ((m.modify k f).buffered : Int) + 0 = m.buffered + 0 := by
    intro k f hf
    rw [m.buffered_modify_flags k hf]
  have unpushed : ∀ {pc : RecvPc}, pc.isPushed = false → (Proc.recvLoop pc).owed = 0 := by
    intro pc hpc
    cases pc <;> first | rfl | cases hpc
  -- the other steps begin no packet and do not wait
  have on : ∀ {pc₁ : RecvPc}, pc₁.charged = false → pc₁ ≠ .wait →
      (pc₁.charged = true → pc.charged = true ∨ 0 < m.bucket ∨ m.die = true) ∧
        (pc₁ = .wait → m.bucket ≤ 0) := by
    intro pc₁ huncharged hwait
    rw [huncharged]
    exact ⟨fun h => (Bool.false_ne_true h).elim, fun h => (hwait h).elim⟩
  cases step with
  | quiet going same handled settled charged waits =>
    refine ⟨same.die, .inl ⟨same.bucket, ?_, charged, waits⟩⟩
    rw [Session.buffered, Session.buffered, same.heap, unpushed settled.1, unpushed settled.2]
  | ignored h body going same handled settled =>
    refine ⟨same.die, .inl ⟨same.bucket, ?_, on rfl (by simp)⟩⟩
    rw [Session.buffered, Session.buffered, same.heap, unpushed settled]
    rfl
  | created h body cmd new =>
    refine ⟨rfl, .inl ⟨rfl, ?_, on rfl (by simp)⟩⟩
    rw [Session.buffered_concat (m := m) rfl]
    rfl
  | pushed h body k cmd here =>
    obtain ⟨s, hs, -⟩ := valid _ _ here
    have hmod := m.buffered_modify hs (Stream.pushBytes · body)
    have hpush : (s.pushBytes body).buffered.length = s.buffered.length + body.length := by
      simp [Stream.pushBytes, Stream.buffered]
    refine ⟨rfl, .inl ⟨rfl, ?_, fun _ => .inl rfl, fun h => by cases h⟩⟩
    show ((m.modify k _).buffered : Int) + -(body.length : Int) = m.buffered + 0
    omega
  | finned h body k cmd here | updated h body k consumed window cmd here =>
    exact ⟨rfl, .inl ⟨rfl, flags fun _ => rfl, on rfl (by simp)⟩⟩
  | deducted k written => exact ⟨rfl, .inr ⟨k, written, rfl, rfl, rfl, rfl⟩⟩
  | notified k before =>
    refine ⟨rfl, .inl ⟨rfl, ?_, on rfl (by simp)⟩⟩
    rcases before with rfl | rfl <;> exact flags fun _ => rfl

/-- A step of another goroutine than `recvLoop`. -/
theorem tokens_of_step (tokens : Tokens cfg s) {i : Nat} {p p' : Proc} {m' : Session}
    (hp : s.procs[i]? = some p) (hfirst : (s.procs.set i p')[0]? = s.procs[0]?)
    (step : Step s.shared p m' p') : Tokens cfg ⟨m', s.procs.set i p'⟩ := by
  have hlt : i < s.procs.length := (List.getElem?_eq_some_iff.mp hp).1
  have htotal := Goroutines.total_set Proc.owed hp p'
  have alive : m'.die = false → s.shared.die = false := fun h =>
    Bool.eq_false_iff.mpr fun h' => by rw [step.die h'] at h; cases h
  have valid := valid_of_step step tokens.valid
  have hbucket := tokens.bucket
  cases step.tokens with
  | keep bucket balance signal notify =>
    have hcredit : credit cfg ⟨m', s.procs.set i p'⟩ = credit cfg s := by
      simp only [credit, htotal]
      omega
    refine ⟨valid, ?_, ?_, ?_, fun hpc => ?_⟩
    · rw [hcredit, ← hbucket]
      exact bucket
    · rw [hcredit]
      exact fun h => tokens.floor (alive h)
    · rw [hcredit]
      exact fun h pc hpc => tokens.charged (alive h) pc (hfirst ▸ hpc)
    · rcases tokens.woken (hfirst ▸ hpc) with h | h | ⟨q, hq, hsignals⟩
      · exact .inl (notify h)
      · exact .inr (.inl (bucket ▸ h))
      · by_cases hqp : q = p
        · exact .inl (signal (hqp ▸ hsignals))
        · exact .inr (.inr ⟨q, Concurrent.mem_set_of_ne hp hq hqp, hsignals⟩)
  | back n bucket buffered owed owed' quiet signals notify =>
    have hcredit : credit cfg ⟨m', s.procs.set i p'⟩ = credit cfg s + n := by
      simp only [credit, htotal, buffered, owed, owed']
      omega
    refine ⟨valid, ?_, ?_, ?_, fun hpc => ?_⟩
    · rw [hcredit, bucket, hbucket, wrap32_add]
    · intro h
      have := tokens.floor (alive h)
      omega
    · intro h pc hpc hcharged
      have := tokens.charged (alive h) pc (hfirst ▸ hpc) hcharged
      omega
    · by_cases hpos : m'.bucket > 0
      · exact .inr (.inr ⟨p', List.mem_set hlt p', signals hpos⟩)
      · exact .inr (.inl (Int.not_lt.mp hpos))

/-- A step of `recvLoop`. -/
theorem tokens_of_recvStep (hsize : cfg.maxReceiveBuffer + 65535 < 2147483648) (one : OneRecv cfg s)
    (tokens : Tokens cfg s) {m' : Session} (hpc : s.procs[0]? = some (.recvLoop pc))
    (step : RecvStep cfg me s.shared pc m' pc')
    (hfirst : (s.procs.set 0 (.recvLoop pc'))[0]? = some (.recvLoop pc')) :
    Tokens cfg ⟨m', s.procs.set 0 (.recvLoop pc')⟩ := by
  have hpc' : ∀ {q}, (s.procs.set 0 (.recvLoop pc'))[0]? = some (.recvLoop q) → q = pc' := by
    intro q hq
    rw [hfirst] at hq
    cases hq
    rfl
  have htotal := Goroutines.total_set Proc.owed hpc (.recvLoop pc')
  have valid := valid_of_recvStep step tokens.valid
  obtain ⟨die, hcases⟩ := recvStep_tokens step tokens.valid
  have hbucket := tokens.bucket
  rcases hcases with ⟨bucket, balance, charged, waits⟩ | ⟨k, written, rfl, rfl, buffered, bucket⟩
  · have hcredit : credit cfg ⟨m', s.procs.set 0 (.recvLoop pc')⟩ = credit cfg s := by
      simp only [credit, htotal]
      omega
    refine ⟨valid, ?_, ?_, ?_, fun hq => ?_⟩
    · rw [hcredit, ← hbucket]
      exact bucket
    · rw [hcredit]
      exact fun h => tokens.floor (die ▸ h)
    · intro h q hq hcharged
      have alive : s.shared.die = false := die ▸ h
      rw [hcredit]
      rcases charged (hpc' hq ▸ hcharged) with h | h | h
      · exact tokens.charged alive pc hpc h
      · exact tokens.bucket_eq one hsize alive ▸ h
      · rw [alive] at h
        cases h
    · have hle := waits (hpc' hq).symm
      exact .inr (.inl (by rw [bucket]; exact hle))
  · have hcredit : credit cfg ⟨m', s.procs.set 0 (.recvLoop (.deducted k))⟩
        = credit cfg s - written := by
      simp only [credit, htotal, buffered, Proc.owed]
      omega
    have hle : written ≤ 65535 := one.wf hpc
    refine ⟨valid, ?_, ?_, ?_, fun hq => ?_⟩
    · rw [hcredit, bucket, hbucket, Int.sub_eq_add_neg, Int.sub_eq_add_neg, wrap32_add]
    · intro h
      have := tokens.charged (die ▸ h) _ hpc rfl
      omega
    · intro h q hq hcharged
      rw [hpc' hq] at hcharged
      cases hcharged
    · cases hpc' hq

/-- A new call holds no tokens. -/
theorem tokens_of_go (tokens : Tokens cfg s) {p : Proc} (hstart : startable s.shared p = true)
    (hfirst : (s.procs ++ [p])[0]? = s.procs[0]?) : Tokens cfg ⟨s.shared, s.procs ++ [p]⟩ := by
  obtain ⟨-, howed, -⟩ := startable_spec hstart
  have hcredit : credit cfg ⟨s.shared, s.procs ++ [p]⟩ = credit cfg s := by
    simp only [credit, Goroutines.total_concat, howed]
    omega
  refine ⟨tokens.valid, hcredit ▸ tokens.bucket, hcredit ▸ tokens.floor, ?_, fun hpc => ?_⟩
  · rw [hcredit]
    exact fun h pc hpc => tokens.charged h pc (hfirst ▸ hpc)
  · rcases tokens.woken (hfirst ▸ hpc) with h | h | ⟨q, hq, hsignals⟩
    · exact .inl h
    · exact .inr (.inl h)
    · exact .inr (.inr ⟨q, List.mem_append_left _ hq, hsignals⟩)

theorem Happens.tokens (hsize : cfg.maxReceiveBuffer + 65535 < 2147483648)
    (h : Happens cfg s s') (one : OneRecv cfg s) (tokens : Tokens cfg s) : Tokens cfg s' := by
  cases h with
  | go p start first => exact tokens_of_go tokens start first
  | recv here step first => exact tokens_of_recvStep hsize one tokens here step first
  | other here isRecv isRecv' program step first => exact tokens_of_step tokens here first step

theorem tokens_new (cfg : Verified) (conn : Source) (client : Bool) :
    Tokens cfg (newSession cfg conn client) := by
  have hfirst := first_newSession cfg conn client
  have hcredit : credit cfg (newSession cfg conn client) = cfg.maxReceiveBuffer := by
    have hbuffered : (newSession cfg conn client).shared.buffered = 0 := rfl
    have htotal : Goroutines.total Proc.owed (newSession cfg conn client).procs = 0 := by
      refine List.sum_eq_zero fun n hn => ?_
      obtain ⟨p, hp, rfl⟩ := List.mem_map.mp hn
      rcases List.mem_cons.mp hp with rfl | hp
      · rfl
      · exact (others_newSession cfg conn client hp).2
    rw [credit, hbuffered, htotal]
    omega
  constructor
  · exact fun _ _ h => nomatch h
  · rw [hcredit]
    simp only [newSession]
  · intro _
    rw [hcredit]
    omega
  · intro _ pc hpc hcharged
    rw [hfirst] at hpc
    cases hpc
    cases hcharged
  · intro hpc
    rw [hfirst] at hpc
    cases hpc

variable {conn : Source} {client : Bool} {acts : List Act}

/-- **Tokens are conserved.** Whatever the peer sends and however the goroutines interleave, in a
session that is not closed the bucket, the bytes in the streams and the tokens about to be returned
make up `MaxReceiveBuffer`. The bucket never wraps around, and no more than `MaxReceiveBuffer` and
one frame is buffered. -/
theorem tokens_conserved (hsize : cfg.maxReceiveBuffer + 65535 < 2147483648)
    (hrun : (machine cfg).run (newSession cfg conn client) acts = some s)
    (alive : s.shared.die = false) :
    s.shared.bucket + s.shared.buffered + Goroutines.total Proc.owed s.procs
        = cfg.maxReceiveBuffer ∧
      -65536 < s.shared.bucket ∧ s.shared.buffered ≤ cfg.maxReceiveBuffer + 65535 := by
  obtain ⟨one, tokens⟩ := run_inv (fun _ _ one tokens h => h.tokens hsize one tokens) hrun
    (tokens_new cfg conn client)
  have hbucket := tokens.bucket_eq one hsize alive
  have hfloor := tokens.floor alive
  obtain ⟨pc, hpc, wf⟩ := one.first
  have htotal := one.total_ge hpc
  have hcredit : credit cfg s
      = cfg.maxReceiveBuffer - s.shared.buffered - Goroutines.total Proc.owed s.procs := rfl
  refine ⟨by omega, by omega, ?_⟩
  -- what is pushed and not yet deducted was begun with tokens left
  cases hpushed : pc.isPushed with
  | true =>
    cases pc with
    | pushed k written =>
      have hpos := tokens.charged alive _ hpc rfl
      have hle : written ≤ 65535 := wf
      have howed : (Proc.recvLoop (.pushed k written)).owed = -(written : Int) := rfl
      omega
    | _ => cases hpushed
  | false =>
    have howed : (Proc.recvLoop pc).owed = 0 := by cases pc <;> first | rfl | cases hpushed
    omega

/-- A session that buffers one byte. -/
def oneByte : Verified where
  config :=
    { version := 1, keepAliveDisabled := true, keepAliveInterval := 0, keepAliveTimeout := 0,
      maxFrameSize := 1, maxReceiveBuffer := 1, maxStreamBuffer := 1 }
  valid := by decide

def aByte : Piece := ⟨[7], by decide⟩

/-- The peer opens a stream, sends a byte and ends it. -/
def oneByteConn : Source :=
  { data := [Op.syn 3, .psh 3 aByte, .fin 3].flatMap fun op => (op.frame oneByte).bytes }

/-- `recvLoop` takes the stream and the byte, and has no tokens left. -/
def oneByteRun : List Act :=
  [.step 0 .go, .step 0 .go, .step 0 .go, .step 0 .accepts, .step 0 .go, .step 0 .go, .step 0 .go,
    .step 0 .go, .step 0 .go, .step 0 .go, .step 0 .go]

theorem tokens_conserved_oneByte :
    ∃ s, (machine oneByte).run (newSession oneByte oneByteConn false) oneByteRun = some s ∧
      s.shared.die = false ∧
      s.shared.bucket + s.shared.buffered + Goroutines.total Proc.owed s.procs = 1 := by
  have hsome : ((machine oneByte).run (newSession oneByte oneByteConn false) oneByteRun).any
      (fun s => !s.shared.die) = true := by decide +kernel
  obtain ⟨s, hrun, hdie⟩ := (Option.any_eq_true _ _).mp hsome
  have alive : s.shared.die = false := by simpa using hdie
  exact ⟨s, hrun, alive, (tokens_conserved (by decide) hrun alive).1⟩

/-- **No wake-up is lost.** If `recvLoop` waits for tokens without being notified, and no goroutine
is about to return some, then there are streams with at least `MaxReceiveBuffer` bytes to read. -/
theorem stalled_full (hsize : cfg.maxReceiveBuffer + 65535 < 2147483648)
    (hrun : (machine cfg).run (newSession cfg conn client) acts = some s)
    (alive : s.shared.die = false) (waits : s.procs[0]? = some (.recvLoop .wait))
    (silent : s.shared.bucketNotify = false)
    (settled : ∀ p ∈ s.procs, p.owed = 0 ∧ p.signals = false) :
    cfg.maxReceiveBuffer ≤ s.shared.buffered ∧
      ∃ (k : Nat) (stream : Stream), s.shared.heap[k]? = some stream ∧ stream.buffers ≠ [] := by
  obtain ⟨one, tokens⟩ := run_inv (fun _ _ one tokens h => h.tokens hsize one tokens) hrun
    (tokens_new cfg conn client)
  have htotal : Goroutines.total Proc.owed s.procs = 0 := by
    refine List.sum_eq_zero fun w hw => ?_
    obtain ⟨p, hp, rfl⟩ := List.mem_map.mp hw
    exact (settled p hp).1
  have hempty : s.shared.bucket ≤ 0 := by
    rcases tokens.woken waits with h | h | ⟨p, hp, hsignals⟩
    · rw [silent] at h
      cases h
    · exact h
    · rw [(settled p hp).2] at hsignals
      cases hsignals
  have hbucket := tokens.bucket_eq one hsize alive
  have hcredit : credit cfg s
      = cfg.maxReceiveBuffer - s.shared.buffered - Goroutines.total Proc.owed s.procs := rfl
  have hfull : cfg.maxReceiveBuffer ≤ s.shared.buffered := by omega
  refine ⟨hfull, ?_⟩
  by_contra hnone
  have hzero : s.shared.buffered = 0 := by
    refine List.sum_eq_zero fun n hn => ?_
    obtain ⟨stream, hstream, rfl⟩ := List.mem_map.mp hn
    obtain ⟨k, hk⟩ := List.mem_iff_getElem?.mp hstream
    have hnil : stream.buffers = [] := by
      by_contra hne
      exact hnone ⟨k, stream, hk, hne⟩
    rw [Stream.buffered, hnil]
    rfl
  have := cfg.maxReceiveBuffer_pos
  omega

theorem stalled_full_oneByte :
    ∃ s, (machine oneByte).run (newSession oneByte oneByteConn false) oneByteRun = some s ∧
      s.procs = [.recvLoop .wait, .sendLoop false] ∧ 1 ≤ s.shared.buffered := by
  have hsome : ((machine oneByte).run (newSession oneByte oneByteConn false) oneByteRun).any
      (fun s => !s.shared.die && !s.shared.bucketNotify &&
        s.procs = [.recvLoop .wait, .sendLoop false]) = true := by decide +kernel
  obtain ⟨s, hrun, h⟩ := (Option.any_eq_true _ _).mp hsome
  simp only [Bool.and_eq_true, Bool.not_eq_true', decide_eq_true_eq] at h
  obtain ⟨⟨alive, silent⟩, hprocs⟩ := h
  refine ⟨s, hrun, hprocs, (stalled_full (by decide) hrun alive (by rw [hprocs]; rfl) silent ?_).1⟩
  intro p hp
  rw [hprocs] at hp
  have hcases : p = .recvLoop .wait ∨ p = .sendLoop false := by simpa using hp
  rcases hcases with rfl | rfl <;> exact ⟨rfl, rfl⟩

end System

end Glider.Smux
