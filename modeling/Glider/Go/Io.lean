/-
Errors of the `io` package, pipes (`io.Pipe`) and full reads (`io.ReadFull`).

A pipe keeps the first error of each side; which one a later `Read` returns is
`readCloseError`, as in the standard library. A `Source` is an
`io.Reader` seen through `io.ReadFull`: the bytes still to come and the error after them;
how the transport cuts them makes no difference there.
-/

import Glider.Go.Strings

namespace Glider.Go

/-- The errors the modelled code returns or compares. -/
inductive IoErr where
  | eof
  | unexpectedEOF
  | closedPipe
  | deadlineExceeded
  | text (s : GoString)
deriving DecidableEq, Repr

/-- `Error`. -/
def IoErr.message : IoErr → GoString
  | .eof => ascii "EOF"
  | .unexpectedEOF => ascii "unexpected EOF"
  | .closedPipe => ascii "io: read/write on closed pipe"
  | .deadlineExceeded => ascii "i/o timeout"
  | .text s => s

/-- `fmt.Errorf` with the message of an error at the end. -/
def IoErr.after (what : GoString) (e : IoErr) : IoErr := .text (what ++ e.message)

/-- What ends a sequence of calls: an error, or a panic of the call. -/
inductive Stop where
  | err (e : IoErr)
  | panic
deriving DecidableEq, Repr

/-! ### Pipes -/

/-- The state of `io.Pipe` apart from a pending transfer: the errors its ends were closed
with. -/
structure Pipe where
  werr : Option IoErr
  rerr : Option IoErr
deriving DecidableEq, Repr

namespace Pipe

def new : Pipe := ⟨none, none⟩

instance : Inhabited Pipe := ⟨new⟩

variable (p : Pipe)

/-- `p.done` is closed. -/
def done : Bool := p.werr.isSome || p.rerr.isSome

/-- `PipeWriter.CloseWithError`; `PipeWriter.Close` passes no error. -/
def closeWrite (err : Option IoErr) : Pipe := { p with werr := p.werr.or (some (err.getD .eof)) }

/-- `PipeReader.Close`. -/
def closeRead : Pipe := { p with rerr := p.rerr.or (some .closedPipe) }

/-- What a `Read` returns once the pipe is closed. -/
def readCloseError : IoErr :=
  match p.rerr, p.werr with
  | none, some err => err
  | _, _ => .closedPipe

end Pipe

/-! ### Full reads -/

/-- The bytes a reader still delivers, and the error at their end. -/
structure Source where
  data : List UInt8
  fail : IoErr := .eof
deriving DecidableEq, Repr

/-- `io.ReadFull` into `n` bytes: what was read, the error, and what is left. -/
def readFull (n : Nat) (r : Source) : List UInt8 × Option IoErr × Source :=
  if n ≤ r.data.length then (r.data.take n, none, { r with data := r.data.drop n })
  else
    (r.data,
      some (if r.data = [] then r.fail else if r.fail = .eof then .unexpectedEOF else r.fail),
      { r with data := [] })

variable {n : Nat} {bytes : List UInt8}

theorem readFull_eq_ok {r r' : Source} (h : readFull n r = (bytes, none, r')) :
    bytes.length = n ∧ r.data = bytes ++ r'.data ∧ r'.fail = r.fail := by
  unfold readFull at h
  split at h <;> cases h
  rename_i hle
  exact ⟨List.length_take_of_le hle, (List.take_append_drop n r.data).symm, rfl⟩

/-- A read of just the first bytes. -/
theorem readFull_append (h : bytes.length = n) (rest : List UInt8) (fail : IoErr) :
    readFull n ⟨bytes ++ rest, fail⟩ = (bytes, none, ⟨rest, fail⟩) := by
  unfold readFull
  rw [if_pos (by rw [List.length_append]; omega), ← h, List.take_left, List.drop_left]

/-- A read at the end. -/
theorem readFull_nil (h : 0 < n) (fail : IoErr) :
    readFull n ⟨[], fail⟩ = ([], some fail, ⟨[], fail⟩) := by
  unfold readFull
  rw [if_neg (by rw [List.length_nil]; omega)]
  rfl

/-- A read that fails has taken everything, and less than it asked for. -/
theorem readFull_eq_error {r r' : Source} {e : IoErr} (h : readFull n r = (bytes, some e, r')) :
    bytes = r.data ∧ bytes.length < n ∧ r'.data = [] ∧ r'.fail = r.fail := by
  unfold readFull at h
  split at h <;> cases h
  rename_i hlt
  exact ⟨rfl, Nat.not_le.mp hlt, rfl, rfl⟩

end Glider.Go
