/-
Byte slices with a capacity, and code that reads them.

A `Slice` shows `len` bytes of its memory; what lies behind them, up to the capacity,
can still be read by extending the slice, as Go's `s[lo:hi]` allows. A computation of
type `Read` ends with a value, an error, a run-time panic or not at all, and keeps the
accesses it made with the bound each of them should have respected. An access beyond
its bound need not panic: it may return stale bytes.

* `safe_bind` — a composed computation is safe exactly when its parts are.
* `Agrees.bind` — evaluation of a computation, for its outcome and its safety at once.
-/

import Mathlib.Tactic.Basic
import Mathlib.Tactic.Lemma
import Mathlib.Logic.Basic

namespace Glider.Go

/-- How a computation ends. -/
inductive Outcome (α : Type) where
  | ok (a : α)
  | err (e : String)
  | panic
  /-- Out of fuel. -/
  | loop
deriving DecidableEq, Repr

/-- The value meets `P`, if there is one. -/
def Outcome.Holds {α : Type} (P : α → Prop) : Outcome α → Prop
  | .ok a => P a
  | _ => True

instance Outcome.decidableHolds {α : Type} (P : α → Prop) [DecidablePred P] :
    (o : Outcome α) → Decidable (o.Holds P)
  | .ok a => inferInstanceAs (Decidable (P a))
  | .err _ => isTrue trivial
  | .panic => isTrue trivial
  | .loop => isTrue trivial

/-- One access to memory: the bytes from `lo` to `hi`, which should lie before
`limit`. Positions count from the start of the memory. -/
structure Access where
  lo : Nat
  hi : Nat
  limit : Nat
deriving DecidableEq, Repr

def Access.InBounds (a : Access) : Prop := a.lo ≤ a.hi ∧ a.hi ≤ a.limit

instance (a : Access) : Decidable a.InBounds := inferInstanceAs (Decidable (_ ∧ _))

/-- A computation that reads slices. -/
structure Read (α : Type) where
  outcome : Outcome α
  accesses : List Access

namespace Read

variable {α β : Type}

/-- Sequencing: what follows runs only on a value. -/
def andThen (x : Read α) (f : α → Read β) : Read β :=
  match x.outcome with
  | .ok a => ⟨(f a).outcome, x.accesses ++ (f a).accesses⟩
  | .err e => ⟨.err e, x.accesses⟩
  | .panic => ⟨.panic, x.accesses⟩
  | .loop => ⟨.loop, x.accesses⟩

instance : Monad Read where
  pure a := ⟨.ok a, []⟩
  bind := andThen

def fail (e : String) : Read α := ⟨.err e, []⟩

def outOfFuel : Read α := ⟨.loop, []⟩

/-- Every access is in bounds, and nothing panics. -/
structure Safe (x : Read α) : Prop where
  inBounds : ∀ a ∈ x.accesses, a.InBounds
  noPanic : x.outcome ≠ .panic

variable {x y z : Read α} {f : α → Read β}

theorem bind_def : (x >>= f) = x.andThen f := rfl

theorem andThen_pure (x : Read α) : x.andThen pure = x := by
  obtain ⟨outcome, accesses⟩ := x
  cases outcome with
  | ok a => exact congrArg (Read.mk _) (List.append_nil _)
  | err e => rfl
  | panic => rfl
  | loop => rfl

theorem andThen_assoc {γ : Type} (x : Read α) (f : α → Read β) (g : β → Read γ) :
    (x.andThen f).andThen g = x.andThen fun a => (f a).andThen g := by
  obtain ⟨outcome, accesses⟩ := x
  cases outcome with
  | ok a =>
    simp only [andThen]
    cases (f a).outcome <;> simp
  | err e => rfl
  | panic => rfl
  | loop => rfl

instance : LawfulMonad Read :=
  LawfulMonad.mk' Read andThen_pure (fun _ _ => rfl) andThen_assoc

@[simp] theorem pure_outcome (a : α) : (pure a : Read α).outcome = .ok a := rfl

@[simp] theorem fail_outcome (e : String) : (fail e : Read α).outcome = .err e := rfl

variable {a : α}

theorem bind_outcome_of_ok (h : x.outcome = .ok a) : (x >>= f).outcome = (f a).outcome := by
  rw [bind_def, andThen, h]

/-- Inversion: a value comes from a value. -/
theorem bind_eq_ok {b : β} (h : (x >>= f).outcome = .ok b) :
    ∃ a, x.outcome = .ok a ∧ (f a).outcome = .ok b := by
  rw [bind_def, andThen] at h
  split at h
  · exact ⟨_, ‹_›, h⟩
  · cases h
  · cases h
  · cases h

/-- A composed computation runs out of fuel in its first part or in its second. -/
theorem bind_eq_loop :
    (x >>= f).outcome = .loop ↔
      x.outcome = .loop ∨ ∃ a, x.outcome = .ok a ∧ (f a).outcome = .loop := by
  rw [bind_def, andThen]
  cases h : x.outcome with
  | ok a | err e | panic | loop => simp

theorem safe_of_ok (h : x.outcome = .ok a) (hin : ∀ a ∈ x.accesses, a.InBounds) :
    Safe x := ⟨hin, by rw [h]; intro hp; cases hp⟩

theorem safe_pure (a : α) : Safe (pure a : Read α) := safe_of_ok rfl fun _ h => (nomatch h)

theorem safe_fail (e : String) : Safe (fail e : Read α) :=
  ⟨fun _ h => (nomatch h), by intro h; cases h⟩

theorem safe_outOfFuel : Safe (outOfFuel : Read α) :=
  ⟨fun _ h => (nomatch h), by intro h; cases h⟩

/-- **Safety is compositional.** -/
theorem safe_bind : Safe (x >>= f) ↔ Safe x ∧ ∀ a, x.outcome = .ok a → Safe (f a) := by
  rw [bind_def, andThen]
  cases h : x.outcome with
  | ok a =>
    constructor
    · rintro ⟨hin, hno⟩
      refine ⟨safe_of_ok h fun b hb => hin b (List.mem_append_left _ hb), ?_⟩
      rintro b hb
      cases hb
      exact ⟨fun c hc => hin c (List.mem_append_right _ hc), hno⟩
    · rintro ⟨first, second⟩
      obtain ⟨hin, hno⟩ := second a rfl
      refine ⟨fun b hb => ?_, hno⟩
      rcases List.mem_append.mp hb with hb | hb
      · exact first.inBounds b hb
      · exact hin b hb
  | panic =>
    constructor
    · rintro ⟨-, hno⟩
      exact absurd rfl hno
    · rintro ⟨first, -⟩
      exact absurd h first.noPanic
  | err | loop =>
    constructor
    · rintro ⟨hin, -⟩
      exact ⟨⟨hin, by simp [h]⟩, fun b hb => by cases hb⟩
    · rintro ⟨first, -⟩
      exact ⟨first.inBounds, by simp⟩

/-! ### Agreement

Two computations agree when they end alike and are safe alike. A safe computation
with a value agrees with that value, so a decoder can be evaluated step by step up
to the first access that may be out of bounds. -/

/-- The same end, and safety for both or for neither. -/
structure Agrees (x y : Read α) : Prop where
  outcome : x.outcome = y.outcome
  safe : x.Safe ↔ y.Safe

theorem Agrees.refl (x : Read α) : Agrees x x := ⟨rfl, Iff.rfl⟩

theorem Agrees.trans (h : Agrees x y) (h' : Agrees y z) : Agrees x z :=
  ⟨h.outcome.trans h'.outcome, h.safe.trans h'.safe⟩

theorem agrees_of_safe (h : x.outcome = .ok a) (safe : x.Safe) : Agrees x (pure a) :=
  ⟨h, iff_of_true safe (safe_pure a)⟩

variable {e : String}

theorem agrees_fail (h : x.outcome = .err e) (safe : x.Safe) :
    Agrees x (fail e) := ⟨h, iff_of_true safe (safe_fail e)⟩

theorem Agrees.pure_ne_loop (h : Agrees x (pure a)) : x.outcome ≠ .loop := by
  rw [h.outcome]
  intro hloop
  cases hloop

theorem Agrees.fail_ne_loop (h : Agrees x (fail e)) : x.outcome ≠ .loop := by
  rw [h.outcome]
  intro hloop
  cases hloop

theorem Agrees.bind_congr (h : Agrees x y) : Agrees (x >>= f) (y >>= f) := by
  constructor
  · rw [bind_def, bind_def, andThen, andThen, h.outcome]
    cases y.outcome <;> rfl
  · rw [safe_bind, safe_bind, h.outcome, h.safe]

/-- Evaluation: a first part that agrees with a value. -/
theorem Agrees.bind (h : Agrees x (pure a)) : Agrees (x >>= f) (f a) := h.bind_congr

/-- An error ends the computation. -/
theorem Agrees.bind_fail (h : Agrees x (fail e)) : Agrees (x >>= f) (fail e) :=
  h.bind_congr

end Read

/-! ### Slices -/

/-- A byte slice: it starts at `off` of its memory, shows `len` bytes, and `mem` is
the memory from its start to its capacity. -/
structure Slice where
  off : Nat
  len : Nat
  mem : List UInt8
  len_le : len ≤ mem.length
deriving DecidableEq, Repr

namespace Slice

/-- A slice over fresh memory: the bytes, and what lies behind them. -/
def ofBytes (data spare : List UInt8) : Slice where
  off := 0
  len := data.length
  mem := data ++ spare
  len_le := by simp

variable (s : Slice)

/-- The bytes the slice shows. -/
def bytes : List UInt8 := s.mem.take s.len

/-- The byte at a position of the memory. -/
def byteAt (i : Nat) : UInt8 := s.mem.getD i 0

/-- The big-endian 16-bit number at a position of the memory. -/
def wordAt (i : Nat) : UInt16 :=
  UInt16.ofNat ((s.byteAt i).toNat * 256 + (s.byteAt (i + 1)).toNat)

/-- The big-endian 32-bit number at a position of the memory. -/
def dwordAt (i : Nat) : UInt32 :=
  UInt32.ofNat
    ((((s.byteAt i).toNat * 256 + (s.byteAt (i + 1)).toNat) * 256 + (s.byteAt (i + 2)).toNat) * 256
      + (s.byteAt (i + 3)).toNat)

/-- The slice without its first `i` bytes. -/
def tail (i : Nat) : Slice where
  off := s.off + i
  len := s.len - i
  mem := s.mem.drop i
  len_le := by
    have := s.len_le
    rw [List.length_drop]
    omega

/-- The bytes from `lo` to `hi`, as far as there is memory. -/
def part (lo hi : Nat) : Slice where
  off := s.off + lo
  len := min (hi - lo) (s.mem.length - lo)
  mem := s.mem.drop lo
  len_le := by
    rw [List.length_drop]
    exact Nat.min_le_right _ _

/-- `s[i:]`. -/
def sliceFrom (i : Nat) : Read Slice where
  outcome := if i ≤ s.len then .ok (s.tail i) else .panic
  accesses := [⟨s.off + i, s.off + s.len, s.off + s.len⟩]

/-- `s[lo:hi]`, which may reach up to the capacity. -/
def slice (lo hi : Nat) : Read Slice where
  outcome := if lo ≤ hi ∧ hi ≤ s.mem.length then .ok (s.part lo hi) else .panic
  accesses := [⟨s.off + lo, s.off + hi, s.off + s.len⟩]

/-- `s[i]`. -/
def index (i : Nat) : Read UInt8 where
  outcome := if i < s.len then .ok (s.byteAt i) else .panic
  accesses := [⟨s.off + i, s.off + i + 1, s.off + s.len⟩]

/-- `binary.BigEndian.Uint16(s)`. -/
def uint16 : Read UInt16 := do
  let b1 ← s.index 1
  let b0 ← s.index 0
  pure (UInt16.ofNat (b0.toNat * 256 + b1.toNat))

/-- `binary.BigEndian.Uint32(s)`. -/
def uint32 : Read UInt32 := do
  let b3 ← s.index 3
  let b2 ← s.index 2
  let b1 ← s.index 1
  let b0 ← s.index 0
  pure (UInt32.ofNat (((b0.toNat * 256 + b1.toNat) * 256 + b2.toNat) * 256 + b3.toNat))

variable {s}

@[simp] theorem tail_len (i : Nat) : (s.tail i).len = s.len - i := rfl

@[simp] theorem tail_mem (i : Nat) : (s.tail i).mem = s.mem.drop i := rfl

@[simp] theorem part_mem (lo hi : Nat) : (s.part lo hi).mem = s.mem.drop lo := rfl

variable {lo hi : Nat}

theorem part_len (h : hi ≤ s.mem.length) : (s.part lo hi).len = hi - lo :=
  Nat.min_eq_left (Nat.sub_le_sub_right h lo)

theorem tail_byteAt (i j : Nat) : (s.tail i).byteAt j = s.byteAt (i + j) := by
  rw [byteAt, byteAt, tail_mem, List.getD_eq_getElem?_getD, List.getElem?_drop,
    List.getD_eq_getElem?_getD]

theorem tail_wordAt (i j : Nat) : (s.tail i).wordAt j = s.wordAt (i + j) := by
  rw [wordAt, wordAt, tail_byteAt, tail_byteAt, Nat.add_assoc]

theorem tail_dwordAt (i j : Nat) : (s.tail i).dwordAt j = s.dwordAt (i + j) := by
  simp only [dwordAt, tail_byteAt, Nat.add_assoc]

theorem part_wordAt (lo hi j : Nat) : (s.part lo hi).wordAt j = s.wordAt (lo + j) :=
  tail_wordAt lo j

/-- A part of a tail is a part of the slice. -/
theorem tail_part {i lo hi : Nat} (h : i ≤ lo) :
    (s.tail i).part (lo - i) (hi - i) = s.part lo hi := by
  simp only [part, tail, mk.injEq, List.drop_drop, List.length_drop]
  refine ⟨by omega, by omega, ?_⟩
  rw [Nat.add_sub_cancel' h]

theorem part_bytes (h : hi ≤ s.mem.length) :
    (s.part lo hi).bytes = (s.mem.drop lo).take (hi - lo) := by
  rw [bytes, part_len h, part_mem]

/-- Taking a tail is safe up to the length. -/
theorem sliceFrom_agrees {i : Nat} (h : i ≤ s.len) : (s.sliceFrom i).Agrees (pure (s.tail i)) := by
  refine Read.agrees_of_safe (if_pos h) (Read.safe_of_ok (if_pos h) fun a ha => ?_)
  obtain rfl := List.mem_singleton.mp ha
  exact ⟨Nat.add_le_add_left h _, Nat.le_refl _⟩

theorem slice_outcome (hle : lo ≤ hi) (h : hi ≤ s.mem.length) :
    (s.slice lo hi).outcome = .ok (s.part lo hi) := if_pos ⟨hle, h⟩

/-- A sub-slice is safe up to the length, not up to the capacity. -/
theorem safe_slice (hle : lo ≤ hi) : (s.slice lo hi).Safe ↔ hi ≤ s.len := by
  constructor
  · rintro ⟨hin, -⟩
    exact Nat.add_le_add_iff_left.mp (hin _ (List.mem_singleton.mpr rfl)).2
  · intro h
    refine Read.safe_of_ok (slice_outcome hle (Nat.le_trans h s.len_le)) fun a ha => ?_
    obtain rfl := List.mem_singleton.mp ha
    exact ⟨Nat.add_le_add_left hle _, Nat.add_le_add_left h _⟩

theorem slice_agrees (hle : lo ≤ hi) (h : hi ≤ s.len) :
    (s.slice lo hi).Agrees (pure (s.part lo hi)) :=
  Read.agrees_of_safe (slice_outcome hle (Nat.le_trans h s.len_le)) ((safe_slice hle).mpr h)

theorem index_agrees {i : Nat} (h : i < s.len) : (s.index i).Agrees (pure (s.byteAt i)) := by
  refine Read.agrees_of_safe (if_pos h) (Read.safe_of_ok (if_pos h) fun a ha => ?_)
  obtain rfl := List.mem_singleton.mp ha
  exact ⟨Nat.le_succ _, Nat.add_le_add_left (Nat.succ_le_of_lt h) s.off⟩

theorem uint16_agrees (h : 2 ≤ s.len) : s.uint16.Agrees (pure (s.wordAt 0)) :=
  (index_agrees h).bind.trans (index_agrees (Nat.lt_of_lt_of_le Nat.two_pos h)).bind

theorem uint32_agrees (h : 4 ≤ s.len) : s.uint32.Agrees (pure (s.dwordAt 0)) :=
  (index_agrees h).bind.trans ((index_agrees (by omega)).bind.trans
    ((index_agrees (by omega)).bind.trans (index_agrees (by omega)).bind))

/-! Numbers read out of a slice, as decoders do it: cut first, then convert. -/

section Fields

variable {α : Type}

theorem sliceFrom_uint16_agrees {i : Nat} {f : UInt16 → Read α} (h : i + 2 ≤ s.len) :
    (s.sliceFrom i >>= fun q => q.uint16 >>= f).Agrees (f (s.wordAt i)) := by
  have hlen : 2 ≤ (s.tail i).len := Nat.le_sub_of_add_le' h
  refine (sliceFrom_agrees (Nat.le_of_add_right_le h)).bind.trans ?_
  refine (uint16_agrees hlen).bind.trans ?_
  rw [tail_wordAt, Nat.add_zero]
  exact .refl _

theorem sliceFrom_uint32_agrees {i : Nat} {f : UInt32 → Read α} (h : i + 4 ≤ s.len) :
    (s.sliceFrom i >>= fun q => q.uint32 >>= f).Agrees (f (s.dwordAt i)) := by
  have hlen : 4 ≤ (s.tail i).len := Nat.le_sub_of_add_le' h
  refine (sliceFrom_agrees (Nat.le_of_add_right_le h)).bind.trans ?_
  refine (uint32_agrees hlen).bind.trans ?_
  rw [tail_dwordAt, Nat.add_zero]
  exact .refl _

section Word

variable {i j : Nat} {f : UInt16 → Read α} (hj : j = i + 2)

include hj

theorem part_uint16_agrees (h : j ≤ s.mem.length) :
    ((s.part i j).uint16 >>= f).Agrees (f (s.wordAt i)) := by
  have hlen : 2 ≤ (s.part i j).len := by
    rw [part_len h]
    omega
  refine (uint16_agrees hlen).bind.trans ?_
  rw [part_wordAt, Nat.add_zero]
  exact .refl _

theorem slice_uint16_agrees (h : j ≤ s.len) :
    (s.slice i j >>= fun q => q.uint16 >>= f).Agrees (f (s.wordAt i)) :=
  (slice_agrees (by omega) h).bind.trans (part_uint16_agrees hj (Nat.le_trans h s.len_le))

/-- Whether a number is read depends on the memory. -/
theorem slice_uint16_outcome :
    (s.slice i j >>= fun q => q.uint16 >>= f).outcome =
      if j ≤ s.mem.length then (f (s.wordAt i)).outcome else .panic := by
  by_cases h : j ≤ s.mem.length
  · rw [if_pos h, Read.bind_outcome_of_ok (slice_outcome (by omega) h),
      (part_uint16_agrees hj h).outcome]
  · rw [if_neg h, Read.bind_def, Read.andThen, slice, if_neg fun hle => h hle.2]

/-- Whether it should be depends on the slice. -/
theorem safe_slice_uint16 :
    (s.slice i j >>= fun q => q.uint16 >>= f).Safe ↔ j ≤ s.len ∧ (f (s.wordAt i)).Safe := by
  constructor
  · intro safe
    have h := (safe_slice (by omega)).mp (Read.safe_bind.mp safe).1
    exact ⟨h, (slice_uint16_agrees hj h).safe.mp safe⟩
  · rintro ⟨h, safe⟩
    exact (slice_uint16_agrees hj h).safe.mpr safe

end Word

end Fields

/-! ### Known bytes -/

/-- The slice has these bytes at a position. -/
structure Has (s : Slice) (pos : Nat) (data : List UInt8) : Prop where
  mem : data <+: s.mem.drop pos
  len : pos + data.length ≤ s.len

section Has

variable {s : Slice} {pos : Nat} {data data' : List UInt8}

theorem ofBytes_has (data spare : List UInt8) : (ofBytes data spare).Has 0 data :=
  ⟨⟨spare, rfl⟩, Nat.le_of_eq (Nat.zero_add _)⟩

theorem Has.left (h : s.Has pos (data ++ data')) : s.Has pos data := by
  refine ⟨(List.prefix_append data data').trans h.mem, ?_⟩
  have := h.len
  rw [List.length_append] at this
  omega

theorem Has.right (h : s.Has pos (data ++ data')) : s.Has (pos + data.length) data' := by
  obtain ⟨rest, hrest⟩ := h.mem
  refine ⟨⟨rest, ?_⟩, ?_⟩
  · rw [← List.drop_drop, ← hrest, List.append_assoc, List.drop_left]
  · have := h.len
    rw [List.length_append] at this
    omega

theorem Has.take_eq (h : s.Has pos data) : (s.mem.drop pos).take data.length = data :=
  (List.prefix_iff_eq_take.mp h.mem).symm

theorem Has.byteAt_eq {b : UInt8} (h : s.Has pos (b :: data)) : s.byteAt pos = b := by
  obtain ⟨rest, hrest⟩ := h.mem
  have hget : s.mem[pos]? = some b := by
    rw [← Nat.add_zero pos, ← List.getElem?_drop, ← hrest]
    rfl
  rw [byteAt, List.getD_eq_getElem?_getD, hget]
  rfl

theorem Has.next {b : UInt8} (h : s.Has pos (b :: data)) : s.Has (pos + 1) data := by
  have hsplit : s.Has pos ([b] ++ data) := h
  exact hsplit.right

end Has

end Slice

end Glider.Go
