/-
Buffered readers: `bufio.Reader` over a transport.

A reader holds the bytes it got and the caller has not taken yet, and an error that came with
them, which is returned once and only after the bytes. A read into a large slice goes past an
empty buffer: it returns what the transport returns, an error together with bytes included.

* `read_takes`, `readFull_takes`, `Discard_takes` — no byte is lost or invented, and a call that
  fails leaves the buffer empty.
* `read_size_lt` — a call takes bytes or an answer.
-/

import Glider.Go.Transport

namespace Glider.Go

/-- `bufio.Reader`. -/
structure Bufio where
  buf : List UInt8
  err : Option IoErr
  src : Transport
deriving DecidableEq, Repr

namespace Bufio

/-- `defaultBufSize`. -/
def bufSize : Nat := 4096

def maxConsecutiveEmptyReads : Nat := 100

def errNoProgress : IoErr := .text (ascii "multiple Read calls return no data or error")

/-- `bufio.NewReader`. -/
def new (src : Transport) : Bufio := ⟨[], none, src⟩

variable (b : Bufio)

/-- All that is still to come. -/
def bytes : List UInt8 := b.buf ++ b.src.bytes

/-- The bytes and the answers that are left. -/
def size : Nat := b.buf.length + b.src.size

/-- `Read` into `n` bytes. -/
def read (n : Nat) : List UInt8 × Option IoErr × Bufio :=
  if n = 0 then
    if b.buf = [] then ([], b.err, { b with err := none }) else ([], none, b)
  else if b.buf = [] then
    match b.err with
    | some err => ([], some err, { b with err := none })
    | none =>
      if bufSize ≤ n then
        let (data, err, src) := b.src.read n
        (data, err, { b with src := src })
      else
        match b.src.read bufSize with
        | ([], err, src) => ([], err, { b with src := src })
        | (data, err, src) => (data.take n, none, ⟨data.drop n, err, src⟩)
  else (b.buf.take n, none, { b with buf := b.buf.drop n })

/-- The loop of `fill`. -/
def fillLoop : Nat → Bufio → Bufio
  | 0, b => { b with err := some errNoProgress }
  | i + 1, b =>
    match b.src.read (bufSize - b.buf.length) with
    | (data, some err, src) => ⟨b.buf ++ data, some err, src⟩
    | (data, none, src) =>
      if data = [] then fillLoop i { b with src := src } else ⟨b.buf ++ data, b.err, src⟩

def fill : Bufio := fillLoop maxConsecutiveEmptyReads b

theorem fillLoop_progress (i : Nat) (b : Bufio) :
    (fillLoop i b).buf ≠ [] ∨ (fillLoop i b).err ≠ none := by
  fun_induction fillLoop i b with
  | case1 b | case2 i b data err src _ => exact .inr (by simp)
  | case3 i b src _ ih => exact ih
  | case4 i b data src _ hne => exact .inl (by simp [hne])

/-- The reader `Discard` takes the next bytes from. -/
def filled : Bufio := if b.buf = [] then b.fill else b

theorem filled_progress (b : Bufio) : b.filled.buf ≠ [] ∨ b.filled.err ≠ none := by
  unfold filled
  split
  · exact fillLoop_progress _ b
  · rename_i hne
    exact .inl hne

/-- The loop of `Discard`, with `remain` bytes to be dropped. -/
def discardLoop (b : Bufio) (remain : Nat) : Bufio × Nat × Option IoErr :=
  if remain ≤ b.filled.buf.length then
    ({ b.filled with buf := b.filled.buf.drop remain }, 0, none)
  else
    match _ : b.filled.err with
    | some err => (⟨[], none, b.filled.src⟩, remain - b.filled.buf.length, some err)
    | none => discardLoop { b.filled with buf := [] } (remain - b.filled.buf.length)
termination_by remain
decreasing_by
  have hpos := List.length_pos_iff.mpr (b.filled_progress.resolve_right (fun h => h ‹_›))
  omega

/-- `Discard`; the number is that of the bytes which could not be dropped. -/
def Discard (n : Nat) : Bufio × Nat × Option IoErr :=
  if n = 0 then (b, 0, none) else b.discardLoop n

/-! ### Conservation -/

variable {b : Bufio} {b' : Bufio} {n : Nat} {data : List UInt8} {err : Option IoErr}

/-- From `b` to `b'` the reader has passed on just `xs`. -/
structure Takes (b : Bufio) (xs : List UInt8) (b' : Bufio) : Prop where
  bytes_eq : b.bytes = xs ++ b'.bytes
  answers_le : b'.src.answers.length ≤ b.src.answers.length

theorem Takes.refl (b : Bufio) : b.Takes [] b := ⟨rfl, Nat.le_refl _⟩

theorem Takes.trans {b b' b'' : Bufio} {xs ys : List UInt8} (h : b.Takes xs b')
    (h' : b'.Takes ys b'') : b.Takes (xs ++ ys) b'' :=
  ⟨by rw [h.bytes_eq, h'.bytes_eq, List.append_assoc], Nat.le_trans h'.answers_le h.answers_le⟩

theorem Takes.size_le {b b' : Bufio} {xs : List UInt8} (h : b.Takes xs b') :
    b'.size + xs.length ≤ b.size := by
  have hbytes := congrArg List.length h.bytes_eq
  have hanswers := h.answers_le
  simp only [bytes, List.length_append] at hbytes
  simp only [size, Transport.size]
  omega

/-- What `Read` can do: nothing, return the error that was kept, give from the buffer, read past
the empty buffer, or fill it first. -/
theorem read_cases (n : Nat) (b : Bufio) :
    (n = 0 ∧ b.buf ≠ [] ∧ b.read n = ([], none, b)) ∨
    (b.buf = [] ∧ (n = 0 ∨ b.err ≠ none) ∧ b.read n = ([], b.err, { b with err := none })) ∨
    (0 < n ∧ b.buf ≠ [] ∧ b.read n = (b.buf.take n, none, { b with buf := b.buf.drop n })) ∨
    (0 < n ∧ b.buf = [] ∧ b.err = none ∧ ∃ k data err src, b.src.read k = (data, err, src) ∧
      0 < k ∧ data.length ≤ n ∧ b.read n = (data, err, { b with src := src })) ∨
    (0 < n ∧ b.buf = [] ∧ b.err = none ∧ ∃ data err src, b.src.read bufSize = (data, err, src) ∧
      data ≠ [] ∧ b.read n = (data.take n, none, ⟨data.drop n, err, src⟩)) := by
  unfold read
  by_cases hn : n = 0
  · by_cases hbuf : b.buf = []
    · exact .inr (.inl ⟨hbuf, .inl hn, by rw [if_pos hn, if_pos hbuf]⟩)
    · exact .inl ⟨hn, hbuf, by rw [if_pos hn, if_neg hbuf]⟩
  · have hpos := Nat.pos_of_ne_zero hn
    by_cases hbuf : b.buf = []
    · cases herr : b.err with
      | some err => exact .inr (.inl ⟨hbuf, .inr (by simp), by rw [if_neg hn, if_pos hbuf]⟩)
      | none =>
        by_cases hlarge : bufSize ≤ n
        · cases hread : b.src.read n with
          | mk data rest =>
            refine .inr (.inr (.inr (.inl ⟨hpos, hbuf, rfl, n, data, rest.1, rest.2, hread, hpos,
              (Transport.read_bytes hread).2.1, ?_⟩)))
            rw [if_neg hn, if_pos hbuf, if_pos hlarge]
        · cases hread : b.src.read bufSize with
          | mk data rest =>
            obtain ⟨err, src⟩ := rest
            cases data with
            | nil =>
              refine .inr (.inr (.inr (.inl ⟨hpos, hbuf, rfl, bufSize, [], err, src, hread,
                by decide, Nat.zero_le n, ?_⟩)))
              rw [if_neg hn, if_pos hbuf, if_neg hlarge]
            | cons x xs =>
              refine .inr (.inr (.inr (.inr
                ⟨hpos, hbuf, rfl, x :: xs, err, src, rfl, by simp, ?_⟩)))
              rw [if_neg hn, if_pos hbuf, if_neg hlarge]
    · exact .inr (.inr (.inl ⟨hpos, hbuf, by rw [if_neg hn, if_neg hbuf]⟩))

theorem read_takes (h : b.read n = (data, err, b')) :
    b.Takes data b' ∧ data.length ≤ n ∧ (err ≠ none → b'.buf = []) := by
  obtain ⟨hn, hbuf, hread⟩ | ⟨hbuf, -, hread⟩ | ⟨hn, hbuf, hread⟩ |
    ⟨hn, hbuf, -, k, data', err', src, hsrc, -, hle, hread⟩ |
    ⟨hn, hbuf, -, data', err', src, hsrc, -, hread⟩ := b.read_cases n
  all_goals cases hread.symm.trans h
  · exact ⟨.refl b, Nat.zero_le n, fun h => absurd rfl h⟩
  · exact ⟨⟨rfl, Nat.le_refl _⟩, Nat.zero_le n, fun _ => hbuf⟩
  · refine ⟨⟨?_, Nat.le_refl _⟩, List.length_take_le n b.buf, fun h => absurd rfl h⟩
    dsimp only [bytes]
    rw [← List.append_assoc, List.take_append_drop]
  · refine ⟨⟨?_, Transport.length_answers_read hsrc⟩, hle, fun _ => hbuf⟩
    dsimp only [bytes]
    rw [hbuf]
    exact (Transport.read_bytes hsrc).1
  · refine ⟨⟨?_, Transport.length_answers_read hsrc⟩, List.length_take_le n data',
      fun h => absurd rfl h⟩
    dsimp only [bytes]
    rw [hbuf, ← List.append_assoc, List.take_append_drop]
    exact (Transport.read_bytes hsrc).1

/-- A read with room for something takes bytes or an answer. -/
theorem read_size_lt (hn : 0 < n) (h : b.read n = (data, none, b')) : b'.size < b.size := by
  unfold size
  obtain ⟨hzero, -⟩ | ⟨-, herr, hread⟩ | ⟨-, hbuf, hread⟩ |
    ⟨-, hbuf, -, k, data', err', src, hsrc, hk, -, hread⟩ |
    ⟨-, hbuf, -, data', err', src, hsrc, hne, hread⟩ := b.read_cases n
  · omega
  · obtain ⟨-, hrest⟩ := Prod.mk.inj (hread.symm.trans h)
    exact absurd (Prod.mk.inj hrest).1 (herr.resolve_left (by omega))
  · cases hread.symm.trans h
    have hlen := List.length_pos_iff.mpr hbuf
    dsimp only
    rw [List.length_drop]
    omega
  · cases hread.symm.trans h
    exact Nat.add_lt_add_left (Transport.read_size_lt hk hsrc) _
  · cases hread.symm.trans h
    have hlen := List.length_pos_iff.mpr hne
    have hsize := Transport.read_size hsrc
    dsimp only
    rw [List.length_drop]
    omega

/-! ### Full reads -/

/-- The loop of `io.ReadFull`, with `n` bytes to go. -/
def readFullLoop (b : Bufio) (got : List UInt8) (n : Nat) : List UInt8 × Option IoErr × Bufio :=
  if n = 0 then (got, none, b)
  else
    match _ : b.read n with
    | (data, some err, rest) =>
      if data.length = n then (got ++ data, none, rest)
      else (got ++ data, some (Transport.shortErr (got ++ data) err), rest)
    | (data, none, rest) =>
      if data.length = n then (got ++ data, none, rest)
      else readFullLoop rest (got ++ data) (n - data.length)
termination_by b.size
decreasing_by
  rename_i hn hread _
  exact read_size_lt (Nat.pos_of_ne_zero hn) hread

/-- `io.ReadFull` into `n` bytes. -/
def readFull (b : Bufio) (n : Nat) : List UInt8 × Option IoErr × Bufio := b.readFullLoop [] n

theorem readFullLoop_takes {got got' : List UInt8} (h : b.readFullLoop got n = (got', err, b')) :
    ∃ xs, got' = got ++ xs ∧ b.Takes xs b' ∧ xs.length ≤ n ∧ (err = none ↔ xs.length = n) ∧
      (err ≠ none → b'.buf = []) := by
  fun_induction readFullLoop b got n with
  | case1 b got =>
    cases h
    exact ⟨[], (List.append_nil _).symm, .refl _, Nat.le_refl _, by simp, fun h => absurd rfl h⟩
  | case2 b got data e rest hn hread =>
    cases h
    obtain ⟨htakes, hle, hbuf⟩ := read_takes hread
    exact ⟨data, rfl, htakes, hle, by simp, fun h => absurd rfl h⟩
  | case3 b got n hn data e rest hread hshort =>
    cases h
    obtain ⟨htakes, hle, hbuf⟩ := read_takes hread
    exact ⟨data, rfl, htakes, hle, by simp [hshort], fun _ => hbuf (by simp)⟩
  | case4 b got data rest hn hread =>
    cases h
    obtain ⟨htakes, hle, -⟩ := read_takes hread
    exact ⟨data, rfl, htakes, hle, by simp, fun h => absurd rfl h⟩
  | case5 b got n hn data rest hread hshort ih =>
    obtain ⟨htakes, hle, -⟩ := read_takes hread
    obtain ⟨xs, rfl, htakes', hle', hiff, hbuf⟩ := ih h
    refine ⟨data ++ xs, List.append_assoc .., htakes.trans htakes', ?_, hiff.trans ?_, hbuf⟩
    all_goals rw [List.length_append]
    · omega
    · constructor <;> intro <;> omega

theorem readFull_takes (h : b.readFull n = (data, err, b')) :
    b.Takes data b' ∧ data.length ≤ n ∧ (err = none ↔ data.length = n) ∧
      (err ≠ none → b'.buf = []) := by
  obtain ⟨xs, rfl, hspec⟩ := readFullLoop_takes h
  exact hspec

/-! ### Discards -/

theorem fillLoop_takes (i : Nat) (b : Bufio) : b.Takes [] (fillLoop i b) := by
  fun_induction fillLoop i b with
  | case1 b => exact ⟨rfl, Nat.le_refl _⟩
  | case3 i b src hread ih =>
    have hempty : b.Takes [] { b with src := src } := by
      refine ⟨?_, Transport.length_answers_read hread⟩
      simp only [bytes, (Transport.read_bytes hread).1, List.nil_append]
    exact hempty.trans ih
  | case2 i b data err src hread | case4 i b data src hread hne =>
    refine ⟨?_, Transport.length_answers_read hread⟩
    simp only [bytes, (Transport.read_bytes hread).1, List.append_assoc, List.nil_append]

theorem filled_takes (b : Bufio) : b.Takes [] b.filled := by
  unfold filled
  split
  · exact fillLoop_takes _ b
  · exact .refl b

theorem discardLoop_takes {remain k : Nat} (h : b.discardLoop remain = (b', k, err)) :
    ∃ xs, b.Takes xs b' ∧ xs.length + k = remain ∧ (err = none ↔ k = 0) ∧
      (err ≠ none → b'.buf = []) := by
  fun_induction discardLoop b remain with
  | case1 b remain hle =>
    cases h
    refine ⟨b.filled.buf.take remain, (filled_takes b).trans ⟨?_, Nat.le_refl _⟩, ?_, by simp,
      fun h => absurd rfl h⟩
    · dsimp only [bytes]
      rw [← List.append_assoc, List.take_append_drop]
    · rw [List.length_take]
      omega
  | case2 b remain hlt e herr =>
    cases h
    refine ⟨b.filled.buf, (filled_takes b).trans ⟨rfl, Nat.le_refl _⟩, by omega, ?_, fun _ => rfl⟩
    simp
    omega
  | case3 b remain hlt herr ih =>
    obtain ⟨xs, htakes, hlen, hiff, hbuf⟩ := ih h
    have hskip : b.filled.Takes b.filled.buf { b.filled with buf := [] } := ⟨rfl, Nat.le_refl _⟩
    refine ⟨b.filled.buf ++ xs, (filled_takes b).trans (hskip.trans htakes), ?_, hiff, hbuf⟩
    rw [List.length_append]
    omega

/-- `Discard` drops just `n` bytes, or all there is and then fails. -/
theorem Discard_takes {k : Nat} (h : b.Discard n = (b', k, err)) :
    ∃ xs, b.Takes xs b' ∧ xs.length + k = n ∧ (err = none ↔ k = 0) ∧
      (err ≠ none → b'.buf = []) := by
  unfold Discard at h
  split at h
  · rename_i hn
    cases h
    exact ⟨[], .refl b, hn.symm, by simp, fun h => absurd rfl h⟩
  · exact discardLoop_takes h

end Bufio

end Glider.Go
