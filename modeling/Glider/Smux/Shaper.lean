/-
The sending half of a multiplexed session (`pkg/smux/session.go`, `shaper.go`).

Any number of goroutines call `writeFrameInternal`: the call takes a number, offers its request to
`shaperLoop` and waits for the result, and it can give up at both places. `shaperLoop` keeps the
requests in a heap, by class and then by number, and offers the first one to `sendLoop`, which
writes it to the connection. All channels are unbuffered but the one for the result, so a transfer
is one step of two goroutines.

The number is a `uint32` that wraps around, and numbers are compared by the sign of their
difference. The model numbers the calls without a bound; `Near` says when the comparison of the
wrapped numbers is still that of the calls.

A request holds a slice of its caller's buffer, which `sendLoop` copies when it writes the frame (no
connection of the repository has `WriteBuffers`). A call that has given up may have left it in the
queue, so a goroutine that uses the buffer again changes what is sent; `Leaves` says that it does
not.

* `frames_in_order` — a frame is written at most once, only if a call asked for it, and the frames
  of one goroutine and one class in the order of its calls, whatever the other goroutines do and
  whichever of its calls have given up, if it leaves its buffers alone until they are written.
* `accepted_first` — what the shaper has accepted is written before everything of lower priority
  that is not yet in the hands of `sendLoop`.
-/

import Glider.Go.Heap
import Glider.Go.Io
import Glider.Lib.Machine
import Glider.Smux.Frame
import Mathlib.Data.Prod.Lex

namespace Glider.Smux

open Glider.Go Glider.Lib

/-! ### Requests -/

/-- `writeRequest`. The call that made it is the `id`-th one, counted from one, and was made by the
goroutine `owner`, which holds the other end of the result channel. `op` is the frame as it was
asked for: its data stays in the buffer of the caller. -/
structure Request where
  op : Op
  id : Nat
  owner : Nat
deriving DecidableEq, Repr

/-- The request with other data in the buffer of its caller. -/
def Request.refill (r : Request) (piece : Piece) : Request :=
  match r.op with
  | .psh sid _ => { r with op := .psh sid piece }
  | _ => r

/-- `seq`. -/
def Request.seq (r : Request) : UInt32 := UInt32.ofNat r.id

def Request.cls (r : Request) : Op.Class := r.op.cls

/-- The number behind a `CLASSID`. -/
def Op.Class.rank : Op.Class → Nat
  | .ctrl => 0
  | .data => 1

/-- `_itimediff`: the difference as an `int32`. -/
def itimediff (later earlier : UInt32) : Int := Int.bmod ((later - earlier).toNat : Int) 4294967296

/-- `shaperHeap.Less`, of the elements. -/
def less (a b : Request) : Bool :=
  if a.cls.rank ≠ b.cls.rank then a.cls.rank < b.cls.rank else itimediff b.seq a.seq > 0

/-- What `less` is meant to compare. -/
def Request.key (r : Request) : Nat ×ₗ Nat := toLex (r.cls.rank, r.id)

/-- The calls of a class are less than 2^31 apart. -/
def Near (rs : List Request) : Prop :=
  ∀ a ∈ rs, ∀ b ∈ rs, a.cls = b.cls → a.id < b.id + 2147483648

section Less

theorem Op.Class.rank_inj {c c' : Op.Class} : c.rank = c'.rank ↔ c = c' := by
  cases c <;> cases c' <;> decide

/-- The sign of the wrapped difference is the order of the calls. -/
theorem itimediff_pos {m n : Nat} (hmn : m < n + 2147483648) (hnm : n < m + 2147483648) :
    itimediff (UInt32.ofNat n) (UInt32.ofNat m) > 0 ↔ m < n := by
  unfold itimediff Int.bmod
  rw [UInt32.toNat_sub, UInt32.toNat_ofNat', UInt32.toNat_ofNat']
  dsimp only
  split <;> omega

theorem less_iff {a b : Request} (hab : a.cls = b.cls → a.id < b.id + 2147483648)
    (hba : b.cls = a.cls → b.id < a.id + 2147483648) : less a b = true ↔ a.key < b.key := by
  rw [Request.key, Request.key, Prod.Lex.toLex_lt_toLex, less]
  by_cases hcls : a.cls = b.cls
  · have hrank : a.cls.rank = b.cls.rank := congrArg _ hcls
    rw [if_neg (not_not_intro hrank), decide_eq_true_iff, Request.seq, Request.seq,
      itimediff_pos (hab hcls) (hba hcls.symm)]
    simp [hrank]
  · have hrank : a.cls.rank ≠ b.cls.rank := fun h => hcls (Op.Class.rank_inj.mp h)
    rw [if_pos hrank, decide_eq_true_iff]
    simp [hrank]

theorem Near.compares {h : Array Request} (near : Near h.toList) :
    Heap.Compares less Request.key h := by
  intro a ha b hb
  have ha' := Array.mem_toList_iff.mpr ha
  have hb' := Array.mem_toList_iff.mpr hb
  exact less_iff (near a ha' b hb') (near b hb' a ha')

theorem Near.mono {rs rs' : List Request} (near : Near rs) (hsub : rs' ⊆ rs) : Near rs' :=
  fun a ha b hb => near a (hsub ha) b (hsub hb)

end Less

/-! ### The shaper -/

def maxShaperSize : Nat := 1024

/-- Where `shaperLoop` is. -/
inductive ShaperPc where
  | select
  | returned
  | panicked
deriving DecidableEq, Repr

/-- `shaperLoop` at its `select`: the heap, and the request it offers, if `chWrite` is not nil. -/
structure Shaper where
  pc : ShaperPc
  reqs : Array Request
  next : Option Request
deriving DecidableEq, Repr

namespace Shaper

/-- The requests it has accepted and not passed on. -/
def pending (sh : Shaper) : List Request := sh.next.toList ++ sh.reqs.toList

/-- From the assertion on the channels to the `select`. -/
def settle (reqs : Array Request) (next : Option Request) : Shaper :=
  if maxShaperSize ≤ reqs.size ∧ next = none then ⟨.panicked, reqs, next⟩
  else ⟨.select, reqs, next⟩

/-- From the top of the loop to the `select`. -/
def top (reqs : Array Request) : Shaper :=
  if 0 < reqs.size then
    match Heap.pop less reqs with
    | some (next, rest) => settle rest (some next)
    | none => ⟨.panicked, reqs, none⟩
  else settle reqs none

/-- `chShaper` is not nil. -/
def Accepts (sh : Shaper) : Prop := sh.pc = .select ∧ sh.reqs.size < maxShaperSize

instance (sh : Shaper) : Decidable sh.Accepts := inferInstanceAs (Decidable (_ ∧ _))

/-- The case of a new request: the one on offer goes back. -/
def receive (sh : Shaper) (r : Request) : Shaper :=
  match sh.next with
  | some next => top (Heap.push less (Heap.push less sh.reqs next) r)
  | none => top (Heap.push less sh.reqs r)

/-- What holds at the `select`. -/
structure Ok (sh : Shaper) : Prop where
  near : Near sh.pending
  heap : Heap.IsHeap Request.key sh.reqs
  least : ∀ r ∈ sh.next, ∀ r' ∈ sh.reqs, r.key ≤ r'.key
  offers : sh.next = none → sh.reqs.size = 0
  size : sh.reqs.size ≤ maxShaperSize
  safe : sh.pc ≠ .panicked

/-- The loop gets to its `select` with all it has, the first one on offer. -/
theorem top_spec {reqs : Array Request} (near : Near reqs.toList)
    (heap : Heap.IsHeap Request.key reqs) (size : reqs.size ≤ maxShaperSize + 1) :
    (top reqs).Ok ∧ (top reqs).pending.Perm reqs.toList ∧ (top reqs).pc = .select := by
  unfold top
  split
  · rename_i hpos
    obtain ⟨next, rest, hpop, hheap, hperm, hleast⟩ := Heap.pop_spec near.compares heap hpos
    have hsize : rest.size + 1 = reqs.size := by simpa using hperm.length_eq
    have hsettle : settle rest (some next) = ⟨.select, rest, some next⟩ := if_neg (by simp)
    rw [hpop]
    dsimp only
    rw [hsettle]
    refine ⟨⟨near.mono hperm.subset, hheap, ?_, by simp, by dsimp only; omega, by simp⟩, hperm, rfl⟩
    intro r hr r' hr'
    cases hr
    exact hleast r' (Array.mem_toList_iff.mp
      (hperm.subset (List.mem_cons_of_mem _ (Array.mem_toList_iff.mpr hr'))))
  · rename_i hpos
    have hzero : reqs.size = 0 := Nat.eq_zero_of_not_pos hpos
    have hsettle : settle reqs none = ⟨.select, reqs, none⟩ := if_neg (by
      rw [hzero]
      decide)
    rw [hsettle]
    exact ⟨⟨near, heap, by simp, fun _ => hzero, by dsimp only; omega, by simp⟩, .refl _, rfl⟩

variable {sh : Shaper} {r : Request}

theorem receive_spec (ok : sh.Ok) (accepts : sh.Accepts) (near : Near (r :: sh.pending)) :
    (sh.receive r).Ok ∧ (sh.receive r).pending.Perm (r :: sh.pending) ∧
      (sh.receive r).pc = .select := by
  -- one more request in the heap, none of them out of reach of the others
  have push : ∀ (h : Array Request) (x : Request), Heap.IsHeap Request.key h →
      Near (x :: h.toList) → Heap.IsHeap Request.key (Heap.push less h x) ∧
        (Heap.push less h x).toList.Perm (x :: h.toList) := by
    intro h x heap near
    refine Heap.push_spec (Near.compares ?_) heap
    rw [Array.toList_push]
    exact near.mono (List.perm_append_singleton x h.toList).subset
  have size := accepts.2
  unfold receive
  cases hnext : sh.next with
  | none =>
    have hpending : sh.pending = sh.reqs.toList := by rw [pending, hnext]; rfl
    rw [hpending] at near ⊢
    obtain ⟨heap, perm⟩ := push sh.reqs r ok.heap near
    have hsize : (Heap.push less sh.reqs r).size = sh.reqs.size + 1 := by
      simpa using perm.length_eq
    obtain ⟨ok', perm', hpc⟩ := top_spec (near.mono perm.subset) heap (by omega)
    exact ⟨ok', perm'.trans perm, hpc⟩
  | some next =>
    have hpending : sh.pending = next :: sh.reqs.toList := by rw [pending, hnext]; rfl
    rw [hpending] at near ⊢
    obtain ⟨heap₁, perm₁⟩ := push sh.reqs next ok.heap (near.mono (List.subset_cons_self _ _))
    have near₂ : Near (r :: (Heap.push less sh.reqs next).toList) :=
      near.mono (List.cons_subset_cons r perm₁.subset)
    obtain ⟨heap₂, perm₂⟩ := push _ r heap₁ near₂
    have hsize : (Heap.push less (Heap.push less sh.reqs next) r).size = sh.reqs.size + 2 := by
      have := perm₁.length_eq
      have := perm₂.length_eq
      simp only [List.length_cons, Array.length_toList] at *
      omega
    obtain ⟨ok', perm', hpc⟩ := top_spec (near₂.mono perm₂.subset) heap₂ (by omega)
    exact ⟨ok', perm'.trans (perm₂.trans (perm₁.cons r)), hpc⟩

theorem pending_of_next (hnext : sh.next = some r) : sh.pending = r :: sh.reqs.toList := by
  rw [pending, hnext]
  rfl

/-- The request on offer is passed on. -/
theorem give_spec (ok : sh.Ok) (hnext : sh.next = some r) :
    (top sh.reqs).Ok ∧ (top sh.reqs).pending.Perm sh.reqs.toList ∧
      (top sh.reqs).pc = .select := by
  refine top_spec (ok.near.mono ?_) ok.heap (Nat.le_succ_of_le ok.size)
  rw [pending_of_next hnext]
  exact List.subset_cons_self _ _

/-- A new session. -/
theorem ok_top_empty : (top #[]).Ok := by
  have hheap : Heap.IsHeap Request.key (#[] : Array Request) :=
    fun i _ hlt => absurd hlt (Nat.not_lt_zero i)
  have hnear : Near (#[] : Array Request).toList := fun a ha => (List.not_mem_nil ha).elim
  exact (top_spec hnear hheap (Nat.zero_le _)).1

end Shaper

/-! ### The senders of a session -/

/-- A goroutine that calls `writeFrameInternal`, again and again. -/
inductive Caller where
  | idle
  | offering (r : Request)
  | waiting (r : Request)
deriving DecidableEq, Repr

/-- The request a goroutine offers, if any, is less than 2^31 calls away from those of its class. -/
def Caller.Within (pending : List Request) : Caller → Prop
  | .offering r => ∀ b ∈ pending, b.cls = r.cls →
      r.id < b.id + 2147483648 ∧ b.id < r.id + 2147483648
  | .idle | .waiting _ => True

instance (pending : List Request) : DecidablePred (Caller.Within pending)
  | .offering _ => inferInstanceAs (Decidable (∀ b ∈ pending, _))
  | .idle | .waiting _ => isTrue trivial

/-- Where `sendLoop` is. -/
inductive SendLoop where
  | idle
  | writing (r : Request)
  | failing (e : IoErr)
  | returned
deriving DecidableEq, Repr

/-- The request it has taken and not written. -/
def SendLoop.inHand : SendLoop → List Request
  | .writing r => [r]
  | .idle | .failing _ | .returned => []

/-- What ends a call without a result. -/
inductive Cause where
  | die
  | socketWriteError
  | deadline
deriving DecidableEq, Repr

/-- The sending half of a session. `memory` has what was written into the buffer of a call after it
has returned. `calls`, `offered`, `taken` and `sent` are its history: the calls of
`writeFrameInternal` with the goroutines that make them, the requests `shaperLoop` has received,
those `sendLoop` has, and the frames as it has copied them. -/
structure Sender where
  callers : Nat → Caller := fun _ => .idle
  shaper : Shaper := Shaper.top #[]
  sendLoop : SendLoop := .idle
  results : List (Request × Nat × Option IoErr) := []
  die : Bool := false
  socketWriteError : Option IoErr := none
  wire : List UInt8 := []
  memory : Request → Option Piece := fun _ => none
  calls : List (Nat × Op) := []
  offered : List Request := []
  taken : List Request := []
  sent : List Request := []

namespace Sender

inductive Act where
  /-- A goroutine calls `writeFrameInternal`. -/
  | call (g : Nat) (op : Op)
  /-- Its request goes to `shaperLoop`. -/
  | offer (g : Nat)
  /-- `shaperLoop` passes a request on. -/
  | give
  /-- `sendLoop` writes it: `conn.Write` takes `n` bytes. -/
  | write (n : Nat) (err : Option IoErr)
  /-- `sendLoop` ends after an error. -/
  | fail
  /-- A call returns with its result. -/
  | answer (g : Nat)
  /-- A call returns without one. -/
  | quit (g : Nat) (cause : Cause)
  /-- The session is closed. -/
  | close
  /-- `shaperLoop` ends. -/
  | shaperReturn
  /-- `sendLoop` ends. -/
  | sendReturn
  /-- A goroutine whose call has returned writes into the buffer of the call. -/
  | reuse (r : Request) (piece : Piece)
deriving DecidableEq, Repr

variable (cfg : Verified)

/-- The request of the next call. -/
def request (s : Sender) (g : Nat) (op : Op) : Request := ⟨op, s.calls.length + 1, g⟩

/-- A call can be ended for this reason. A goroutine that has no deadline does not meet it. -/
def Ends (s : Sender) : Cause → Prop
  | .die => s.die = true
  | .socketWriteError => s.socketWriteError.isSome
  | .deadline => True

instance (s : Sender) : DecidablePred s.Ends
  | .die => inferInstanceAs (Decidable (_ = _))
  | .socketWriteError => inferInstanceAs (Decidable (_ = _))
  | .deadline => isTrue trivial

def setCaller (s : Sender) (g : Nat) (c : Caller) : Nat → Caller :=
  fun i => if i = g then c else s.callers i

/-- The request with what is in its buffer now. -/
def current (s : Sender) (r : Request) : Request := (s.memory r).elim r r.refill

/-- The call is over, and had a buffer of this size. -/
def Returned (s : Sender) (r : Request) (piece : Piece) : Prop :=
  (0 < r.id ∧ s.calls[r.id - 1]? = some (r.owner, r.op)) ∧
    (s.callers r.owner ≠ .offering r ∧ s.callers r.owner ≠ .waiting r) ∧
      (r.op.data cfg).length = piece.1.length

instance (s : Sender) (r : Request) (piece : Piece) : Decidable (s.Returned cfg r piece) :=
  inferInstanceAs (Decidable (_ ∧ _))

/-- What the caller of `Write` can rely on. -/
def WriteOk (bytes : List UInt8) (n : Nat) (err : Option IoErr) : Prop :=
  n ≤ bytes.length ∧ (err = none → n = bytes.length)

instance (bytes : List UInt8) (n : Nat) (err : Option IoErr) : Decidable (WriteOk bytes n err) :=
  inferInstanceAs (Decidable (_ ∧ _))

def machine : Machine Sender Act where
  step s
    | .call g op =>
      if s.callers g = .idle then
        some { s with callers := s.setCaller g (.offering (s.request g op)),
                      calls := s.calls ++ [(g, op)] }
      else none
    | .offer g =>
      match s.callers g with
      | .offering r =>
        if s.shaper.Accepts then
          some { s with callers := s.setCaller g (.waiting r), shaper := s.shaper.receive r,
                        offered := s.offered ++ [r] }
        else none
      | _ => none
    | .give =>
      match s.shaper.pc, s.shaper.next, s.sendLoop with
      | .select, some r, .idle =>
        some { s with shaper := Shaper.top s.shaper.reqs, sendLoop := .writing r,
                      taken := s.taken ++ [r] }
      | _, _, _ => none
    | .write n err =>
      match s.sendLoop with
      | .writing r =>
        if WriteOk ((s.current r).op.frame cfg).bytes n err then
          some { s with wire := s.wire ++ ((s.current r).op.frame cfg).bytes.take n,
                        sent := s.sent ++ [s.current r],
                        results := s.results ++ [(r, n - headerSize, err)],
                        sendLoop := match err with
                          | none => .idle
                          | some e => .failing e }
        else none
      | _ => none
    | .fail =>
      match s.sendLoop with
      | .failing e =>
        some { s with socketWriteError := s.socketWriteError.or (some e), sendLoop := .returned }
      | _ => none
    | .answer g =>
      match s.callers g with
      | .waiting r =>
        if s.results.any fun result => result.1 = r then
          some { s with callers := s.setCaller g .idle }
        else none
      | _ => none
    | .quit g cause =>
      if s.callers g ≠ .idle ∧ s.Ends cause then some { s with callers := s.setCaller g .idle }
      else none
    | .close => some { s with die := true }
    | .shaperReturn =>
      if s.die ∧ s.shaper.pc = .select then
        some { s with shaper := { s.shaper with pc := .returned } }
      else none
    | .sendReturn =>
      if s.die ∧ s.sendLoop = .idle then some { s with sendLoop := .returned } else none
    | .reuse r piece =>
      if s.Returned cfg r piece then
        some { s with memory := fun r' => if r' = r then some piece else s.memory r' }
      else none

/-- A request is offered to a shaper that holds none of its class from 2^31 calls away. -/
def InReach (s : Sender) : Act → Prop
  | .offer g => (s.callers g).Within s.shaper.pending
  | _ => True

instance (s : Sender) : DecidablePred s.InReach
  | .offer g => inferInstanceAs (Decidable ((s.callers g).Within _))
  | .call _ _ | .give | .write _ _ | .fail | .answer _ | .quit _ _ | .close | .shaperReturn
  | .sendReturn | .reuse _ _ => isTrue trivial

/-- The requests that have been written. -/
def written (s : Sender) : List Request := s.results.map (·.1)

/-- The goroutine `g` writes into a buffer only if the frame in it is written or was never
queued. -/
def Leaves (g : Nat) (s : Sender) : Act → Prop
  | .reuse r _ => r.owner = g → r ∈ s.offered → r ∈ s.written
  | _ => True

instance (g : Nat) (s : Sender) : DecidablePred (Leaves g s)
  | .reuse _ _ => inferInstanceAs (Decidable (_ → _ → _))
  | .offer _ | .call _ _ | .give | .write _ _ | .fail | .answer _ | .quit _ _ | .close
  | .shaperReturn | .sendReturn => isTrue trivial

variable {cfg} {s s' : Sender} {a : Act} {g : Nat} {r : Request}

/-! ### What a step does to the requests -/

/-- The request is the one of its call. -/
def Made (s : Sender) (r : Request) : Prop :=
  ∃ n, r.id = n + 1 ∧ s.calls[n]? = some (r.owner, r.op)

/-- What a step can do. -/
inductive Effect (cfg : Verified) (s : Sender) : Act → Sender → Prop
  | call (g : Nat) (op : Op) (idle : s.callers g = .idle) :
      Effect cfg s (.call g op)
        { s with callers := s.setCaller g (.offering (s.request g op)),
                 calls := s.calls ++ [(g, op)] }
  | offer (g : Nat) (r : Request) (offers : s.callers g = .offering r)
      (accepts : s.shaper.Accepts) :
      Effect cfg s (.offer g)
        { s with callers := s.setCaller g (.waiting r), shaper := s.shaper.receive r,
                 offered := s.offered ++ [r] }
  | give (r : Request) (next : s.shaper.next = some r) (idle : s.sendLoop = .idle) :
      Effect cfg s .give
        { s with shaper := Shaper.top s.shaper.reqs, sendLoop := .writing r,
                 taken := s.taken ++ [r] }
  | write (n : Nat) (err : Option IoErr) (r : Request) (writing : s.sendLoop = .writing r)
      (ok : WriteOk ((s.current r).op.frame cfg).bytes n err) :
      Effect cfg s (.write n err)
        { s with wire := s.wire ++ ((s.current r).op.frame cfg).bytes.take n,
                 sent := s.sent ++ [s.current r],
                 results := s.results ++ [(r, n - headerSize, err)],
                 sendLoop := err.elim .idle .failing }
  | fail (e : IoErr) (failing : s.sendLoop = .failing e) :
      Effect cfg s .fail
        { s with socketWriteError := s.socketWriteError.or (some e), sendLoop := .returned }
  | answer (g : Nat) (r : Request) (waiting : s.callers g = .waiting r) (written : r ∈ s.written) :
      Effect cfg s (.answer g) { s with callers := s.setCaller g .idle }
  | quit (g : Nat) (cause : Cause) :
      Effect cfg s (.quit g cause) { s with callers := s.setCaller g .idle }
  | close : Effect cfg s .close { s with die := true }
  | shaperReturn : Effect cfg s .shaperReturn { s with shaper := { s.shaper with pc := .returned } }
  | sendReturn (idle : s.sendLoop = .idle) :
      Effect cfg s .sendReturn { s with sendLoop := .returned }
  | reuse (r : Request) (piece : Piece) (returned : s.Returned cfg r piece) :
      Effect cfg s (.reuse r piece)
        { s with memory := fun r' => if r' = r then some piece else s.memory r' }

theorem step_effect (h : (machine cfg).step s a = some s') : Effect cfg s a s' := by
  cases a <;> simp only [machine] at h
  case call g op =>
    split at h <;> cases h
    exact .call g op ‹_›
  case offer g =>
    split at h
    · split at h <;> cases h
      exact .offer g _ ‹_› ‹_›
    · cases h
  case give =>
    split at h <;> cases h
    exact .give _ ‹_› ‹_›
  case write n err =>
    split at h
    · split at h <;> cases h
      cases err <;> exact .write n _ _ ‹_› ‹_›
    · cases h
  case fail =>
    split at h <;> cases h
    exact .fail _ ‹_›
  case answer g =>
    split at h
    · split at h <;> cases h
      rename_i hany
      obtain ⟨result, hmem, heq⟩ := List.any_eq_true.mp hany
      exact .answer g _ ‹_› (List.mem_map.mpr ⟨result, hmem, of_decide_eq_true heq⟩)
    · cases h
  case quit g cause =>
    split at h <;> cases h
    exact .quit g cause
  case close =>
    cases h
    exact .close
  case shaperReturn =>
    split at h <;> cases h
    exact .shaperReturn
  case sendReturn =>
    split at h <;> cases h
    rename_i hidle
    exact .sendReturn hidle.2
  case reuse r piece =>
    split at h <;> cases h
    exact .reuse r piece ‹_›

/-! ### The invariant -/

structure Inv (s : Sender) : Prop where
  shaper : s.shaper.Ok
  /-- No request is lost or duplicated on the way. -/
  accounted : s.offered.Perm (s.taken ++ s.shaper.pending)
  made : ∀ r ∈ s.offered, s.Made r
  offering : ∀ g r, s.callers g = .offering r → r.owner = g ∧ s.Made r ∧
    ∀ o ∈ s.offered, o.id ≠ r.id ∧ (o.owner = g → o.id < r.id)
  distinct : s.offered.Pairwise (·.id ≠ ·.id)
  sorted : s.taken.Pairwise fun a b => a.owner = b.owner → a.cls = b.cls → a.id < b.id
  ahead : ∀ a ∈ s.taken, ∀ b ∈ s.shaper.pending, a.owner = b.owner → a.cls = b.cls → a.id < b.id

theorem Made.mono {r : Request} (h : s.Made r) {s' : Sender} {more : List (Nat × Op)}
    (hcalls : s'.calls = s.calls ++ more) : s'.Made r := by
  obtain ⟨n, hid, hget⟩ := h
  refine ⟨n, hid, ?_⟩
  have hlt : n < s.calls.length := (List.getElem?_eq_some_iff.mp hget).1
  rw [hcalls, List.getElem?_append_left hlt, hget]

theorem Made.id_le {r : Request} (h : s.Made r) : r.id ≤ s.calls.length := by
  obtain ⟨n, hid, hget⟩ := h
  have hlt : n < s.calls.length := (List.getElem?_eq_some_iff.mp hget).1
  omega

theorem Made.owner_eq {r r' : Request} (h : s.Made r) (h' : s.Made r') (hid : r.id = r'.id) :
    r.owner = r'.owner := by
  obtain ⟨n, hn, hget⟩ := h
  obtain ⟨n', hn', hget'⟩ := h'
  have hnn : n = n' := by omega
  rw [hnn, hget'] at hget
  exact (congrArg Prod.fst (Option.some.inj hget)).symm

@[simp] theorem setCaller_self (s : Sender) (g : Nat) (c : Caller) : s.setCaller g c g = c :=
  if_pos rfl

theorem setCaller_other (s : Sender) {g i : Nat} (c : Caller) (h : i ≠ g) :
    s.setCaller g c i = s.callers i :=
  if_neg h

theorem setCaller_eq_offering {c : Caller} {i : Nat}
    (h : s.setCaller g c i = .offering r) :
    (i = g ∧ c = .offering r) ∨ (i ≠ g ∧ s.callers i = .offering r) := by
  unfold setCaller at h
  split at h
  · exact .inl ⟨‹_›, h⟩
  · exact .inr ⟨‹_›, h⟩

theorem inv_new : Inv {} where
  shaper := Shaper.ok_top_empty
  accounted := .refl _
  made _ h := (List.not_mem_nil h).elim
  offering _ _ h := nomatch h
  distinct := .nil
  sorted := .nil
  ahead _ h := (List.not_mem_nil h).elim

/-- A call makes a request with a number of its own, larger than all before it. -/
theorem inv_call (inv : Inv s) (g : Nat) (op : Op) :
    Inv { s with callers := s.setCaller g (.offering (s.request g op)),
                 calls := s.calls ++ [(g, op)] } where
  shaper := inv.shaper
  accounted := inv.accounted
  made r hr := (inv.made r hr).mono rfl
  offering i r hoff := by
    rcases setCaller_eq_offering hoff with ⟨rfl, hr⟩ | ⟨-, hi⟩
    · cases hr
      refine ⟨rfl, ⟨s.calls.length, rfl, List.getElem?_concat_length⟩, fun o ho => ?_⟩
      have hle := (inv.made o ho).id_le
      show o.id ≠ s.calls.length + 1 ∧ (_ → o.id < s.calls.length + 1)
      omega
    · obtain ⟨howner, hmade, hall⟩ := inv.offering i r hi
      exact ⟨howner, hmade.mono rfl, hall⟩
  distinct := inv.distinct
  sorted := inv.sorted
  ahead := inv.ahead

/-- A request the shaper receives is new to it, and the last one of its goroutine. -/
theorem inv_offer (inv : Inv s) (hoff : s.callers g = .offering r) (accepts : s.shaper.Accepts)
    (within : (s.callers g).Within s.shaper.pending) :
    Inv { s with callers := s.setCaller g (.waiting r), shaper := s.shaper.receive r,
                 offered := s.offered ++ [r] } := by
  obtain ⟨howner, hmade, hall⟩ := inv.offering g r hoff
  rw [hoff] at within
  have hnear : Near (r :: s.shaper.pending) := by
    intro a ha b hb hcls
    rcases List.mem_cons.mp ha with rfl | ha' <;> rcases List.mem_cons.mp hb with rfl | hb'
    · omega
    · exact (within b hb' hcls.symm).1
    · exact (within a ha' hcls).2
    · exact inv.shaper.near a ha' b hb' hcls
  obtain ⟨hok, hperm, -⟩ := Shaper.receive_spec inv.shaper accepts hnear
  have htaken : ∀ a ∈ s.taken, a ∈ s.offered := fun a ha =>
    inv.accounted.symm.subset (List.mem_append_left _ ha)
  constructor
  · exact hok
  · calc s.offered ++ [r]
      _ |>.Perm (r :: s.offered) := List.perm_append_singleton r s.offered
      _ |>.Perm (r :: (s.taken ++ s.shaper.pending)) := inv.accounted.cons r
      _ |>.Perm (s.taken ++ r :: s.shaper.pending) := List.perm_middle.symm
      _ |>.Perm (s.taken ++ (s.shaper.receive r).pending) := hperm.symm.append_left s.taken
  · intro o ho
    rcases List.mem_append.mp ho with ho | ho
    · exact (inv.made o ho).mono (List.append_nil _).symm
    · cases List.mem_singleton.mp ho
      exact hmade.mono (List.append_nil _).symm
  · intro i r' hoff'
    rcases setCaller_eq_offering hoff' with ⟨-, hr⟩ | ⟨hne, hi⟩
    · cases hr
    obtain ⟨howner', hmade', hall'⟩ := inv.offering i r' hi
    refine ⟨howner', hmade'.mono (List.append_nil _).symm, fun o ho => ?_⟩
    rcases List.mem_append.mp ho with ho | ho
    · exact hall' o ho
    · cases List.mem_singleton.mp ho
      -- two goroutines, so two calls
      have hown : r.owner ≠ r'.owner := by
        rw [howner, howner']
        exact hne.symm
      exact ⟨fun hid => hown (hmade.owner_eq hmade' hid), fun h => (hne (h.symm.trans howner)).elim⟩
  · refine List.pairwise_append.mpr
      ⟨inv.distinct, List.pairwise_singleton _ _, fun o ho o' ho' => ?_⟩
    cases List.mem_singleton.mp ho'
    exact (hall o ho).1
  · exact inv.sorted
  · intro a ha b hb hown hcls
    rcases List.mem_cons.mp (hperm.subset hb) with rfl | hb
    · exact (hall a (htaken a ha)).2 (hown.trans howner)
    · exact inv.ahead a ha b hb hown hcls

/-- The requests that wait behind the one on offer are of lower priority. -/
theorem next_lt (inv : Inv s) (hnext : s.shaper.next = some r) :
    ∀ b ∈ s.shaper.reqs.toList, r.key < b.key := by
  intro b hb
  have hle := inv.shaper.least r hnext b (Array.mem_toList_iff.mp hb)
  have hpair := (inv.accounted.pairwise_iff (fun h => Ne.symm h)).mp inv.distinct
  have hpending := Shaper.pending_of_next hnext
  rw [hpending, List.pairwise_append, List.pairwise_cons] at hpair
  have hne : r.id ≠ b.id := hpair.2.1.1 b hb
  refine lt_of_le_of_ne hle fun heq => hne ?_
  exact congrArg Prod.snd (toLex_inj.mp heq)

theorem key_lt_iff {a b : Request} (hcls : a.cls = b.cls) : a.key < b.key ↔ a.id < b.id := by
  rw [Request.key, Request.key, Prod.Lex.toLex_lt_toLex, hcls]
  simp

/-- The first of the waiting requests goes on. -/
theorem inv_give (inv : Inv s) (hnext : s.shaper.next = some r) :
    Inv { s with shaper := Shaper.top s.shaper.reqs, sendLoop := .writing r,
                 taken := s.taken ++ [r] } := by
  obtain ⟨hok, hperm, -⟩ := Shaper.give_spec inv.shaper hnext
  have hpending := Shaper.pending_of_next hnext
  have hmem : r ∈ s.shaper.pending := hpending ▸ List.mem_cons_self
  constructor
  · exact hok
  · calc s.offered
      _ |>.Perm (s.taken ++ s.shaper.pending) := inv.accounted
      _ |>.Perm (s.taken ++ [r] ++ s.shaper.reqs.toList) := by
        rw [hpending, List.append_assoc]
        exact .refl _
      _ |>.Perm (s.taken ++ [r] ++ (Shaper.top s.shaper.reqs).pending) :=
        hperm.symm.append_left _
  · exact fun o ho => (inv.made o ho).mono (List.append_nil _).symm
  · intro i r' hoff
    obtain ⟨howner, hmade, hall⟩ := inv.offering i r' hoff
    exact ⟨howner, hmade.mono (List.append_nil _).symm, hall⟩
  · exact inv.distinct
  · refine List.pairwise_append.mpr ⟨inv.sorted, List.pairwise_singleton _ _, fun a ha b hb => ?_⟩
    cases List.mem_singleton.mp hb
    exact inv.ahead a ha r hmem
  · intro a ha b hb hown hcls
    have hb := hperm.subset hb
    rcases List.mem_append.mp ha with ha | ha
    · exact inv.ahead a ha b (hpending ▸ List.mem_cons_of_mem r hb) hown hcls
    · cases List.mem_singleton.mp ha
      exact (key_lt_iff hcls).mp (next_lt inv hnext b hb)

/-- A call returns. -/
theorem inv_leave (inv : Inv s) (g : Nat) : Inv { s with callers := s.setCaller g .idle } where
  shaper := inv.shaper
  accounted := inv.accounted
  made := inv.made
  offering i r hoff := by
    rcases setCaller_eq_offering hoff with ⟨-, hr⟩ | ⟨-, hi⟩
    · cases hr
    · exact inv.offering i r hi
  distinct := inv.distinct
  sorted := inv.sorted
  ahead := inv.ahead

theorem step_inv (inv : Inv s) (reach : s.InReach a) (h : (machine cfg).step s a = some s') :
    Inv s' := by
  cases step_effect h with
  | call g op idle => exact inv_call inv g op
  | offer g r offers accepts => exact inv_offer inv offers accepts reach
  | give r next idle => exact inv_give inv next
  | answer g r waiting written | quit g cause => exact inv_leave inv g
  | shaperReturn => exact { inv with shaper := { inv.shaper with safe := nofun } }
  | write | fail | close | sendReturn | reuse => exact { inv with }

variable {acts : List Act}

theorem run_inv (hrun : (machine cfg).run {} acts = some s)
    (reach : (machine cfg).Guarded InReach {} acts) : Inv s :=
  (machine cfg).guarded_invariant (fun _ _ _ inv hok h => step_inv inv hok h) hrun reach inv_new

/-! ### The connection -/

/-- What `sendLoop` has taken is written or in its hands, and what has been written to the
connection is a beginning of the frames sent, and just them between two writes. -/
structure Wired (cfg : Verified) (s : Sender) : Prop where
  taken : s.taken = s.written ++ s.sendLoop.inHand
  wire : match s.sendLoop with
    | .idle | .writing _ => s.wire = (packets cfg.version).encodeAll (s.sent.map (·.op.packet cfg))
    | .failing _ | .returned =>
      s.wire <+: (packets cfg.version).encodeAll (s.sent.map (·.op.packet cfg))

theorem Wired.prefix (h : Wired cfg s) :
    s.wire <+: (packets cfg.version).encodeAll (s.sent.map (·.op.packet cfg)) := by
  have hwire := h.wire
  split at hwire
  · exact hwire ▸ List.prefix_refl _
  · exact hwire ▸ List.prefix_refl _
  · exact hwire
  · exact hwire

theorem wired_new : Wired cfg {} := ⟨rfl, rfl⟩

theorem step_wired (wired : Wired cfg s) (h : (machine cfg).step s a = some s') :
    Wired cfg s' := by
  have htaken := wired.taken
  have hwire := wired.wire
  cases step_effect h with
  | call | offer | answer | quit | close | shaperReturn | reuse => exact ⟨htaken, hwire⟩
  | give r next hidle =>
    rw [hidle] at htaken hwire
    exact ⟨by rw [htaken, List.append_assoc]; rfl, hwire⟩
  | write n err r hwriting hok =>
    rw [hwriting] at htaken hwire
    have hwritten : s.taken = (s.results ++ [(r, n - headerSize, err)]).map (·.1) := by
      rw [htaken, List.map_append]
      rfl
    have hall : (packets cfg.version).encodeAll ((s.sent ++ [s.current r]).map (·.op.packet cfg))
        = s.wire ++ ((s.current r).op.frame cfg).bytes := by
      rw [List.map_append, Framing.encodeAll_append, hwire, Op.bytes_eq_encode]
      exact congrArg _ (List.append_nil _)
    cases err with
    | none =>
      refine ⟨hwritten.trans (List.append_nil _).symm, ?_⟩
      show s.wire ++ ((s.current r).op.frame cfg).bytes.take n = _
      rw [hall, hok.2 rfl, List.take_length]
    | some e =>
      refine ⟨hwritten.trans (List.append_nil _).symm, ?_⟩
      show s.wire ++ ((s.current r).op.frame cfg).bytes.take n <+: _
      rw [hall]
      exact (List.prefix_append_right_inj _).mpr (List.take_prefix _ _)
  | fail e hfailing =>
    rw [hfailing] at htaken
    exact ⟨htaken, wired.prefix⟩
  | sendReturn hidle =>
    rw [hidle] at htaken
    exact ⟨htaken, wired.prefix⟩

/-! ### Buffers -/

/-- What a goroutine that leaves its buffers alone asks for is what is sent. -/
structure Careful (g : Nat) (s : Sender) : Prop where
  /-- The buffers it has used again. -/
  reused : ∀ r, r.owner = g → s.memory r ≠ none →
    s.Made r ∧ (r ∈ s.offered → r ∈ s.written) ∧ s.callers g ≠ .offering r
  sent : ∀ sel : Request → Bool, (∀ r piece, sel (r.refill piece) = sel r) →
    (∀ r ∈ s.written, sel r = true → r.owner = g) → s.sent.filter sel = s.written.filter sel

theorem careful_new (g : Nat) : Careful g {} := ⟨fun _ _ h => (h rfl).elim, fun _ _ _ => rfl⟩

theorem Inv.nodup_taken (inv : Inv s) : s.taken.Nodup := by
  have hpair := (inv.accounted.pairwise_iff (fun h => Ne.symm h)).mp inv.distinct
  exact (List.pairwise_append.mp hpair).1.imp fun hne heq => hne (congrArg Request.id heq)

/-- What is being written has not been written before. -/
theorem Wired.notMem_written (wired : Wired cfg s) (inv : Inv s) (hr : r ∈ s.sendLoop.inHand) :
    r ∉ s.written := by
  have hnodup := inv.nodup_taken
  rw [wired.taken, List.nodup_append] at hnodup
  exact fun hmem => hnodup.2.2 r hmem r hr rfl

theorem sel_current {sel : Request → Bool} (hsel : ∀ r piece, sel (r.refill piece) = sel r)
    (s : Sender) (r : Request) : sel (s.current r) = sel r := by
  unfold current
  cases s.memory r with
  | none => rfl
  | some piece => exact hsel r piece

theorem Careful.leave (careful : Careful g s) (i : Nat) :
    Careful g { s with callers := s.setCaller i .idle } := by
  refine ⟨fun r hg hr => ?_, careful.sent⟩
  obtain ⟨hmade, hwritten, hcaller⟩ := careful.reused r hg hr
  refine ⟨hmade, hwritten, fun hoff => ?_⟩
  rcases setCaller_eq_offering hoff with ⟨-, heq⟩ | ⟨-, hoff⟩
  · cases heq
  · exact hcaller hoff

/-- The buffer of a request that is being written is as it was. -/
theorem Careful.memory_eq_none (careful : Careful g s) (inv : Inv s) (wired : Wired cfg s)
    (hwriting : s.sendLoop = .writing r) (hg : r.owner = g) : s.memory r = none := by
  have hhand : r ∈ s.sendLoop.inHand := by simp [hwriting, SendLoop.inHand]
  have hmem : r ∈ s.taken := wired.taken ▸ List.mem_append_right _ hhand
  have hoffered : r ∈ s.offered := inv.accounted.symm.subset (List.mem_append_left _ hmem)
  by_contra hne
  exact wired.notMem_written inv hhand ((careful.reused r hg hne).2.1 hoffered)

theorem step_careful (inv : Inv s) (wired : Wired cfg s) (careful : Careful g s)
    (leaves : Leaves g s a) (h : (machine cfg).step s a = some s') : Careful g s' := by
  cases step_effect h with
  | give | fail | close | shaperReturn | sendReturn => exact ⟨careful.reused, careful.sent⟩
  | answer i | quit i => exact careful.leave i
  | call i op idle =>
    refine ⟨fun r hg hr => ?_, careful.sent⟩
    obtain ⟨hmade, hwritten, hcaller⟩ := careful.reused r hg hr
    refine ⟨hmade.mono rfl, hwritten, fun hoff => ?_⟩
    rcases setCaller_eq_offering hoff with ⟨-, heq⟩ | ⟨-, hoff⟩
    · -- the new call has a number of its own
      have hle := hmade.id_le
      rw [← Caller.offering.inj heq] at hle
      exact absurd hle (Nat.not_succ_le_self _)
    · exact hcaller hoff
  | offer i r₀ offers accepts =>
    refine ⟨fun r hg hr => ?_, careful.sent⟩
    obtain ⟨hmade, hwritten, hcaller⟩ := careful.reused r hg hr
    refine ⟨hmade, fun hmem => ?_, fun hoff => ?_⟩
    · rcases List.mem_append.mp hmem with hmem | hmem
      · exact hwritten hmem
      · cases List.mem_singleton.mp hmem
        have hi : i = g := (inv.offering i _ offers).1.symm.trans hg
        exact absurd (hi ▸ offers) hcaller
    · rcases setCaller_eq_offering hoff with ⟨-, heq⟩ | ⟨-, hoff⟩
      · cases heq
      · exact hcaller hoff
  | write n err r hwriting ok =>
    have hmore : written { s with results := s.results ++ [(r, n - headerSize, err)] }
        = s.written ++ [r] := List.map_append
    constructor
    · intro r' hg hr
      obtain ⟨hmade, hwritten, hcaller⟩ := careful.reused r' hg hr
      exact ⟨hmade, fun hmem => hmore ▸ List.mem_append_left _ (hwritten hmem), hcaller⟩
    · intro sel hsel howner
      replace howner : ∀ r' ∈ s.written ++ [r], sel r' = true → r'.owner = g := hmore ▸ howner
      show (s.sent ++ [s.current r]).filter sel = (written _).filter sel
      refine Eq.trans ?_ (congrArg _ hmore.symm)
      rw [List.filter_append, List.filter_append,
        careful.sent sel hsel fun r hr => howner r (List.mem_append_left _ hr)]
      refine congrArg _ ?_
      cases hr : sel r with
      | false => simp [hr, sel_current hsel]
      | true =>
        have hg := howner r (List.mem_append_right _ List.mem_cons_self) hr
        rw [current, careful.memory_eq_none inv wired hwriting hg]
        rfl
  | reuse r piece returned =>
    obtain ⟨⟨hpos, hget⟩, ⟨hoffering, -⟩, -⟩ := returned
    refine ⟨fun r' hg hr => ?_, careful.sent⟩
    by_cases heq : r' = r
    · subst heq
      exact ⟨⟨r'.id - 1, by omega, hget⟩, leaves hg, hg ▸ hoffering⟩
    · dsimp only at hr
      rw [if_neg heq] at hr
      exact careful.reused r' hg hr

/-! ### Order -/

/-- The calls of a run, with the goroutines that make them. -/
def callsOf (acts : List Act) : List (Nat × Op) :=
  acts.filterMap fun
    | .call g op => some (g, op)
    | _ => none

/-- The frames a goroutine asks for. -/
def askedBy (g : Nat) (acts : List Act) : List Op :=
  ((callsOf acts).filter fun p => p.1 = g).map Prod.snd

/-- The frames of one class a goroutine asks for. -/
def asked (g : Nat) (c : Op.Class) (acts : List Act) : List Op :=
  ((callsOf acts).filter fun p => p.1 = g ∧ p.2.cls = c).map Prod.snd

/-- The requests of one goroutine and one class. -/
def ofCaller (g : Nat) (c : Op.Class) (rs : List Request) : List Request :=
  rs.filter fun r => r.owner = g ∧ r.cls = c

/-- The history of the calls is that of the actions. -/
theorem run_calls {s₀ : Sender} (hrun : (machine cfg).run s₀ acts = some s) :
    s.calls = s₀.calls ++ callsOf acts := by
  induction acts generalizing s₀ with
  | nil =>
    cases hrun
    exact (List.append_nil _).symm
  | cons a acts ih =>
    obtain ⟨next, hstep, hrest⟩ := (machine cfg).run_cons_eq_some hrun
    rw [ih hrest]
    cases step_effect hstep with
    | call g' op idle => exact List.append_assoc _ _ _
    | _ => rfl

theorem Made.place_lt (h : s.Made r) : r.id - 1 < s.calls.length := by
  obtain ⟨n, hid, hget⟩ := h
  rw [hid]
  exact (List.getElem?_eq_some_iff.mp hget).1

/-- Requests of increasing numbers are a part of the calls. -/
theorem sublist_calls {rs : List Request} (made : ∀ r ∈ rs, s.Made r)
    (hsorted : rs.Pairwise (·.id < ·.id)) :
    (rs.map fun r => (r.owner, r.op)).Sublist s.calls := by
  let places : List (Fin s.calls.length) := rs.pmap (fun r h => ⟨r.id - 1, Made.place_lt h⟩) made
  have hplaces : places.Pairwise (· < ·) := by
    refine hsorted.pmap made ?_
    rintro a ⟨n, hn, -⟩ b ⟨m, hm, -⟩ hlt
    show a.id - 1 < b.id - 1
    omega
  have hmap : places.map (fun i => s.calls[i]) = rs.map fun r => (r.owner, r.op) := by
    rw [List.map_pmap, ← List.pmap_eq_map made]
    refine List.pmap_congr_left rs ?_
    rintro r - ⟨n, hn, hget⟩ -
    obtain ⟨hlt, hget⟩ := List.getElem?_eq_some_iff.mp hget
    show s.calls[r.id - 1] = _
    simp only [hn, Nat.add_sub_cancel, hget]
  exact hmap ▸ List.map_getElem_sublist hplaces

/-- The requests of one goroutine and one class are taken in the order of its calls. -/
theorem taken_in_order (inv : Inv s) (hcalls : s.calls = callsOf acts) (g : Nat) (c : Op.Class) :
    ((ofCaller g c s.taken).map (·.op)).Sublist (asked g c acts) := by
  have hcaller : ∀ r ∈ ofCaller g c s.taken, r ∈ s.taken ∧ r.owner = g ∧ r.cls = c := by
    intro r hr
    simpa [ofCaller] using hr
  have hmade : ∀ r ∈ ofCaller g c s.taken, s.Made r := fun r hr =>
    inv.made r (inv.accounted.symm.subset (List.mem_append_left _ (hcaller r hr).1))
  have hsorted : (ofCaller g c s.taken).Pairwise (·.id < ·.id) := by
    refine (inv.sorted.sublist List.filter_sublist).imp_of_mem ?_
    intro a b ha hb hlt
    obtain ⟨-, hga, hca⟩ := hcaller a ha
    obtain ⟨-, hgb, hcb⟩ := hcaller b hb
    exact hlt (hga.trans hgb.symm) (hca.trans hcb.symm)
  have hsub := ((sublist_calls hmade hsorted).filter
    fun p => decide (p.1 = g ∧ p.2.cls = c)).map Prod.snd
  have hall : (((ofCaller g c s.taken).map fun r => (r.owner, r.op)).filter
      fun p => decide (p.1 = g ∧ p.2.cls = c)) =
        (ofCaller g c s.taken).map fun r => (r.owner, r.op) := by
    refine List.filter_eq_self.mpr fun p hp => ?_
    obtain ⟨r, hr, rfl⟩ := List.mem_map.mp hp
    exact decide_eq_true (hcaller r hr).2
  rw [hcalls, hall, List.map_map] at hsub
  exact hsub

theorem run_wired (hrun : (machine cfg).run {} acts = some s) : Wired cfg s :=
  (machine cfg).run_invariant (fun _ _ _ wired h => step_wired wired h) hrun wired_new

theorem run_careful (hrun : (machine cfg).run {} acts = some s)
    (reach : (machine cfg).Guarded InReach {} acts)
    (leaves : (machine cfg).Guarded (Leaves g) {} acts) : Careful g s := by
  refine (@Machine.guarded_invariant _ _ (machine cfg)
    (fun s => Inv s ∧ Wired cfg s ∧ Careful g s) _ _ _ _ ?_ hrun
    ((machine cfg).guarded_and reach leaves) ⟨inv_new, wired_new, careful_new g⟩).2.2
  rintro s a s' ⟨inv, wired, careful⟩ ⟨reach, leaves⟩ h
  exact ⟨step_inv inv reach h, step_wired wired h, step_careful inv wired careful leaves h⟩

/-- **Order of the frames.** Whatever the goroutines, the shaper and the connection do, the requests
taken for one goroutine and one class are some of those it made, in the order of its calls and each
at most once; and if the goroutine leaves its buffers alone until they are written, the frames sent
for it are those it asked for. The connection has got the frames sent, up to the end of the last
one, and a peer reads back just them. The shaper holds at most 1025 requests and never finds both
its channels nil. -/
theorem frames_in_order (hrun : (machine cfg).run {} acts = some s)
    (reach : (machine cfg).Guarded InReach {} acts) :
    (∀ g c, ((ofCaller g c s.taken).map (·.op)).Sublist (asked g c acts) ∧
      ((machine cfg).Guarded (Leaves g) {} acts →
        ((ofCaller g c s.sent).map (·.op)).Sublist (asked g c acts))) ∧
      s.wire <+: (packets cfg.version).encodeAll (s.sent.map (·.op.packet cfg)) ∧
      (s.sendLoop = .idle →
        (packets cfg.version).decodeAll s.wire = some (s.sent.map (·.op.packet cfg))) ∧
      s.shaper.pending.length ≤ maxShaperSize + 1 ∧ s.shaper.pc ≠ .panicked := by
  have inv := run_inv hrun reach
  have wired := run_wired hrun
  refine ⟨fun g c => ?_, wired.prefix, fun hidle => ?_, ?_, inv.shaper.safe⟩
  · have htaken := taken_in_order inv (run_calls hrun) g c
    refine ⟨htaken, fun leaves => ?_⟩
    have hsent : ofCaller g c s.sent = ofCaller g c s.written := by
      refine (run_careful hrun reach leaves).sent _ (fun r piece => ?_) fun r _ hr => ?_
      · obtain ⟨op, id, owner⟩ := r
        cases op <;> rfl
      · exact (of_decide_eq_true hr).1
    rw [hsent]
    rw [wired.taken, ofCaller, List.filter_append, List.map_append] at htaken
    exact (List.sublist_append_left _ _).trans htaken
  · have hwire := wired.wire
    rw [hidle] at hwire
    exact (Framing.decodeAll_eq_some _).mpr hwire
  · have hreqs := inv.shaper.size
    have hnext : s.shaper.next.toList.length ≤ 1 := by cases s.shaper.next <;> simp
    have hlen : s.shaper.reqs.toList.length = s.shaper.reqs.size := Array.length_toList
    rw [Shaper.pending, List.length_append, hlen]
    omega

/-- Two goroutines: a data frame whose call gives up, the end of the stream, and a keep-alive that
overtakes them. The buffer is used again when its frame is written. -/
def sample : List Act :=
  [.call 0 (.psh 3 ⟨[1], by decide⟩), .offer 0, .quit 0 .deadline, .call 0 (.fin 3), .offer 0,
    .call 1 .nop, .offer 1, .give, .write 8 none, .give, .write 9 none, .answer 1,
    .reuse ⟨.psh 3 ⟨[1], by decide⟩, 1, 0⟩ ⟨[2], by decide⟩]

theorem frames_in_order_sample :
    ∃ s, (machine .default).run {} sample = some s ∧
      s.sent.map (·.op) = [.nop, .psh 3 ⟨[1], by decide⟩] ∧
      ((ofCaller 0 .data s.sent).map (·.op)).Sublist (asked 0 .data sample) :=
  ⟨_, rfl, rfl, ((frames_in_order rfl (by decide)).1 0 .data).2 (by decide)⟩

/-! ### Priority -/

/-- A step takes the first of the waiting requests, or none. -/
theorem step_taken (inv : Inv s) (reach : s.InReach a) (h : (machine cfg).step s a = some s') :
    (s'.taken = s.taken ∧ s.shaper.pending ⊆ s'.shaper.pending) ∨
      ∃ r, s'.taken = s.taken ++ [r] ∧ s.shaper.pending ⊆ r :: s'.shaper.pending ∧
        ∀ b ∈ s.shaper.pending, r.key ≤ b.key := by
  have inv' := step_inv inv reach h
  cases step_effect h with
  | offer g r offers accepts =>
    -- the requests are the old ones and the new one, in the heap's order
    have hperm : (s.taken ++ (s.shaper.receive r).pending).Perm
        (s.taken ++ (s.shaper.pending ++ [r])) := by
      rw [← List.append_assoc]
      exact inv'.accounted.symm.trans (inv.accounted.append_right [r])
    have hpending := (List.perm_append_left_iff s.taken).mp hperm
    exact .inl ⟨rfl, fun b hb => hpending.symm.subset (List.mem_append_left _ hb)⟩
  | give r hnext idle =>
    obtain ⟨-, hperm, -⟩ := Shaper.give_spec inv.shaper hnext
    have hpending := Shaper.pending_of_next hnext
    refine .inr ⟨r, rfl, ?_, ?_⟩
    · rw [hpending]
      exact List.cons_subset_cons r hperm.symm.subset
    · intro b hb
      rcases List.mem_cons.mp (hpending ▸ hb) with rfl | hb
      · exact le_refl _
      · exact le_of_lt (next_lt inv hnext b hb)
  | _ => exact .inl ⟨rfl, List.Subset.refl _⟩

theorem step_taken_grows (h : (machine cfg).step s a = some s') : s.taken <+: s'.taken := by
  cases step_effect h with
  | give r next idle => exact List.prefix_append _ _
  | _ => exact List.prefix_refl _

/-- A run takes further requests. -/
theorem run_taken {s₁ s₂ : Sender} (hrun : (machine cfg).run s₁ acts = some s₂) :
    s₁.taken <+: s₂.taken := by
  refine @Machine.run_invariant _ _ (machine cfg) (fun s => s₁.taken <+: s.taken) _ _ _ ?_ hrun
    (List.prefix_refl _)
  exact fun s a s' hs hstep => hs.trans (step_taken_grows hstep)

theorem run_accepted {s₁ s₂ : Sender} (inv : Inv s₁) (hrun : (machine cfg).run s₁ acts = some s₂)
    (reach : (machine cfg).Guarded InReach s₁ acts) (hr : r ∈ s₁.shaper.pending)
    {before after : List Request} {r' : Request}
    (htaken : s₂.taken = s₁.taken ++ before ++ r' :: after) (hlt : r.key < r'.key) :
    r ∈ before := by
  induction acts generalizing s₁ before with
  | nil =>
    cases hrun
    have hlen := congrArg List.length htaken
    simp only [List.length_append, List.length_cons] at hlen
    omega
  | cons a acts ih =>
    obtain ⟨next, hstep, hrest⟩ := (machine cfg).run_cons_eq_some hrun
    have inv' := step_inv inv reach.1 hstep
    have reach' := reach.2 next hstep
    rcases step_taken inv reach.1 hstep with ⟨hsame, hsub⟩ | ⟨first, hfirst, hsub, hleast⟩
    · exact ih inv' hrest reach' (hsub hr) (hsame ▸ htaken)
    · -- the first request taken is that of the run
      obtain ⟨later, hlater⟩ := run_taken hrest
      rw [hfirst] at hlater
      rw [← hlater, List.append_assoc, List.append_assoc] at htaken
      have hcons := List.append_cancel_left htaken
      cases before with
      | nil =>
        cases (List.cons.inj hcons).1
        exact (lt_irrefl _ (lt_of_lt_of_le hlt (hleast r hr))).elim
      | cons b before =>
        obtain ⟨rfl, hrest'⟩ := List.cons.inj hcons
        have hsplit : later = before ++ r' :: after := hrest'
        rcases List.mem_cons.mp (hsub hr) with rfl | hr'
        · exact List.mem_cons_self
        · refine List.mem_cons_of_mem _ (ih inv' hrest reach' hr' ?_)
          rw [← hlater, hfirst, hsplit]
          exact (List.append_assoc _ _ _).symm

/-- **Priority.** A request the shaper has accepted goes to the connection before every request of
lower priority that was not yet taken then: control frames before data, and of one class the frame
of the earlier call. -/
theorem accepted_first {first later : List Act} {s₁ s₂ : Sender}
    (hfirst : (machine cfg).run {} first = some s₁) (hlater : (machine cfg).run s₁ later = some s₂)
    (reach : (machine cfg).Guarded InReach {} first)
    (reach' : (machine cfg).Guarded InReach s₁ later) (hr : r ∈ s₁.shaper.pending)
    {before after : List Request} {r' : Request}
    (htaken : s₂.taken = s₁.taken ++ before ++ r' :: after) (hlt : r.key < r'.key) :
    r ∈ before := by
  exact run_accepted (run_inv hfirst reach) hlater reach' hr htaken hlt

/-- The three requests wait. -/
def sampleWaiting : Sender := ((machine .default).run {} (sample.take 7)).getD {}

/-- The shaper passes all of them on. -/
def sampleGives : List Act := [.give, .write 8 none, .give, .write 9 none, .give]

theorem accepted_first_sample :
    ∃ s₂, (machine .default).run sampleWaiting sampleGives = some s₂ ∧
      (⟨.psh 3 ⟨[1], by decide⟩, 1, 0⟩ : Request) ∈ s₂.taken.take 2 := by
  have hwaiting : (machine .default).run {} (sample.take 7) = some sampleWaiting := rfl
  have hgives : (machine .default).run sampleWaiting sampleGives
      = some (((machine .default).run sampleWaiting sampleGives).getD {}) := rfl
  refine ⟨_, hgives, ?_⟩
  exact accepted_first hwaiting hgives (by decide) (by decide) (by decide)
    (show _ = _ ++ _ ++ (⟨.fin 3, 2, 0⟩ : Request) :: [] from rfl) (by decide)

end Sender

end Glider.Smux
