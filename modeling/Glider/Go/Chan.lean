/-
Buffered channels.

A channel is its buffer, oldest value first, and the flag `close` sets; the field
`len_le` keeps the buffer within the capacity. A channel operation either goes
through, blocks, or panics (a send on a closed channel, a second `close`). A
`select` with a `default` branch takes that branch exactly where the operation
blocks. A channel that is only ever closed (`finCh`, `done`, `die`) has capacity 0.

* `send_eq_done`, `recv_eq_some`, `recv_eq_none`, `close_eq_done` — when an
  operation goes through, and what it leaves.
-/

namespace Glider.Go

/-- How a channel operation ends. -/
inductive Comm (β : Type) where
  | done (result : β)
  | blocks
  | panics
deriving DecidableEq, Repr

/-- A channel of capacity `cap`. -/
structure Chan (α : Type) (cap : Nat) where
  buf : List α
  closed : Bool
  len_le : buf.length ≤ cap
deriving DecidableEq, Repr

namespace Chan

variable {α : Type} {cap : Nat}

/-- `make(chan α, cap)`. -/
def make : Chan α cap := ⟨[], false, Nat.zero_le cap⟩

instance : Inhabited (Chan α cap) := ⟨make⟩

/-- The buffer has no room. -/
def full (c : Chan α cap) : Bool := cap ≤ c.buf.length

/-- `c <- v`. -/
def send (c : Chan α cap) (v : α) : Comm (Chan α cap) :=
  if c.closed then .panics
  else if h : c.buf.length < cap then
    .done ⟨c.buf ++ [v], false, by rw [List.length_append]; exact h⟩
  else .blocks

/-- `v, ok := <-c`, with `none` for the zero value a closed, drained channel gives. -/
def recv (c : Chan α cap) : Comm (Option α × Chan α cap) :=
  match h : c.buf with
  | v :: rest =>
    .done (some v, ⟨rest, c.closed, Nat.le_of_lt (by have := c.len_le; rw [h] at this; exact this)⟩)
  | [] => if c.closed then .done (none, c) else .blocks

/-- `close(c)`. -/
def close (c : Chan α cap) : Comm (Chan α cap) :=
  if c.closed then .panics else .done { c with closed := true }

variable {c c' : Chan α cap}

@[ext] theorem ext (buf : c.buf = c'.buf) (closed : c.closed = c'.closed) : c = c' := by
  cases c
  cases c'
  cases buf
  cases closed
  rfl

@[simp] theorem make_buf : (make : Chan α cap).buf = [] := rfl

@[simp] theorem make_closed : (make : Chan α cap).closed = false := rfl

theorem not_full_iff {c : Chan α cap} : c.full = false ↔ c.buf.length < cap := by
  simp [full]

theorem send_eq_done {v : α} :
    c.send v = .done c' ↔
      c.closed = false ∧ c.full = false ∧ c'.buf = c.buf ++ [v] ∧ c'.closed = false := by
  rw [not_full_iff]
  unfold send
  constructor
  · intro h
    split at h
    · cases h
    · rename_i hopen
      split at h <;> cases h
      rename_i hroom
      exact ⟨by simpa using hopen, hroom, rfl, rfl⟩
  · rintro ⟨hopen, hroom, hbuf, hclosed⟩
    rw [hopen, dif_pos hroom]
    exact congrArg Comm.done (ext hbuf.symm hclosed.symm)

theorem send_eq_panics {c : Chan α cap} {v : α} : c.send v = .panics ↔ c.closed = true := by
  unfold send
  split
  · simp [*]
  · split <;> simp [*]

/-- A value is received exactly when it is the oldest one of the buffer. -/
theorem recv_eq_some {v : α} :
    c.recv = .done (some v, c') ↔ c.buf = v :: c'.buf ∧ c'.closed = c.closed := by
  obtain ⟨buf, closed, len_le⟩ := c
  cases buf with
  | nil =>
    cases closed <;> simp [recv]
  | cons u rest =>
    constructor
    · intro h
      cases h
      exact ⟨rfl, rfl⟩
    · rintro ⟨hbuf, hclosed⟩
      cases hbuf
      exact congrArg (fun d => Comm.done (some v, d)) (ext rfl hclosed.symm)

/-- The end of the channel is received exactly when it is closed and drained. -/
theorem recv_eq_none : c.recv = .done (none, c') ↔ c.buf = [] ∧ c.closed = true ∧ c' = c := by
  obtain ⟨buf, closed, len_le⟩ := c
  cases buf with
  | nil => cases closed <;> simp [recv, eq_comm]
  | cons u rest => simp [recv]

theorem close_eq_done :
    c.close = .done c' ↔ c.closed = false ∧ c'.buf = c.buf ∧ c'.closed = true := by
  unfold close
  constructor
  · intro h
    split at h <;> cases h
    rename_i hopen
    exact ⟨by simpa using hopen, rfl, rfl⟩
  · rintro ⟨hopen, hbuf, hclosed⟩
    rw [hopen]
    exact congrArg Comm.done (ext hbuf.symm hclosed.symm)

theorem close_eq_panics {c : Chan α cap} : c.close = .panics ↔ c.closed = true := by
  unfold close
  split <;> simp [*]

end Chan

end Glider.Go
