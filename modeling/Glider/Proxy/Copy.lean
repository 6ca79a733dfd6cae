/-
Copying from a reader to a writer: `CopyBuffer` and `CopyN` of `proxy/conn.go`.

`Copy` leaves the work to the kernel for some pairs of connections; the bytes moved are the same.

* `copyLoop_keeps` — what every read of the source keeps, the loop keeps.
* `CopyBuffer_final` — everything a transport has arrives at a writer that works.
-/

import Glider.Go.Readers

namespace Glider.Proxy

open Glider.Go

def TCPBufSize : Nat := 32 <<< 10

/-- `io.ErrShortWrite`. -/
def errShortWrite : IoErr := .text (ascii "short write")

/-- `io.Discard`. -/
def discard (_ : Unit) (p : List UInt8) : Unit × Nat × Option IoErr := ((), p.length, none)

/-- The results of a copy, and the two ends after it. -/
structure Copied (S W : Type) where
  written : Nat
  err : Option IoErr
  src : S
  dst : W

section

variable {S W : Type} (R : ByteReader S) (write : W → List UInt8 → W × Nat × Option IoErr)

/-- What is done with the bytes of one read, if there are any. -/
def writeAll (w : W) (data : List UInt8) : W × Nat × Option IoErr :=
  if data = [] then (w, 0, none)
  else
    match write w data with
    | (w', nw, some ew) => (w', nw, some ew)
    | (w', nw, none) => (w', nw, if data.length ≠ nw then some errShortWrite else none)

/-- The loop of `CopyBuffer`, with a buffer of `size` bytes. -/
def copyLoop (size : Nat) (hsize : 0 < size) (s : S) (w : W) (written : Nat) : Copied S W :=
  match _hread : R.read size s with
  | (data, some er, s') =>
    match writeAll write w data with
    | (w', nw, some ew) => ⟨written + nw, some ew, s', w'⟩
    | (w', nw, none) => ⟨written + nw, if er = .eof then none else some er, s', w'⟩
  | (data, none, s') =>
    match writeAll write w data with
    | (w', nw, some ew) => ⟨written + nw, some ew, s', w'⟩
    | (w', nw, none) => copyLoop size hsize s' w' (written + nw)
termination_by R.size s
decreasing_by exact R.size_lt hsize _hread

/-- `CopyBuffer`. -/
def CopyBuffer (w : W) (s : S) : Copied S W :=
  copyLoop R write TCPBufSize (by decide) s w 0

/-- `CopyBuffer` from a limited reader, whose limit bounds the buffer. -/
def CopyBufferLimited (w : W) (s : S × Nat) : Copied (S × Nat) W :=
  copyLoop (limited R) write (max 1 (min TCPBufSize s.2)) (by omega) s w 0

/-- `CopyN`. -/
def CopyN (w : W) (s : S) (n : Nat) : Copied S W :=
  let c := CopyBufferLimited R write w (s, n)
  if c.written = n then ⟨n, none, c.src.1, c.dst⟩
  else ⟨c.written, if c.written < n ∧ c.err = none then some .eof else c.err, c.src.1, c.dst⟩

variable {R write}

/-- What every read keeps. -/
theorem copyLoop_keeps {P : S → Prop} (keeps : ∀ {n s data err s'}, P s →
    R.read n s = (data, err, s') → P s') {size : Nat} {hsize : 0 < size} {s : S} {w : W}
    {written : Nat} (hs : P s) : P (copyLoop R write size hsize s w written).src := by
  fun_induction copyLoop R write size hsize s w written with
  | case1 s w written data er s' hread w' nw ew hwrite
  | case2 s w written data er s' hread w' nw hwrite
  | case3 s w written data s' hread w' nw ew hwrite => exact keeps hs hread
  | case4 s w written data s' hread w' nw hwrite ih => exact ih (keeps hs hread)

/-- `CopyN` reads through the limited reader. -/
theorem CopyN_keeps {P : S → Prop} (keeps : ∀ {n s data err s'}, P s →
    R.read n s = (data, err, s') → P s') (w : W) {s : S} (n : Nat) (hs : P s) :
    P (CopyN R write w s n).src := by
  have hlimited : ∀ {k : Nat} {s : S × Nat} {data : List UInt8} {err : Option IoErr} {s' : S × Nat},
      P s.1 → (limited R).read k s = (data, err, s') → P s'.1 := by
    intro k s data err s' hs h
    simp only [limited] at h
    split at h
    · cases h
      exact hs
    · cases h
      exact keeps hs rfl
  have hsrc : P (CopyBufferLimited R write w (s, n)).src.1 := copyLoop_keeps hlimited hs
  unfold CopyN
  dsimp only
  split
  · exact hsrc
  · exact hsrc

end

variable {w : Sink}

theorem writeAll_sink (works : w.answers = []) (data : List UInt8) :
    writeAll Sink.write w data = (⟨w.data ++ data, []⟩, data.length, none) := by
  unfold writeAll
  split
  · rename_i hdata
    obtain ⟨wdata, wanswers⟩ := w
    dsimp only at works
    rw [hdata, works, List.append_nil]
    rfl
  · rw [Sink.write_of_works works]
    simp

/-- What has been written of the bytes of one read. -/
theorem writeAll_prefix {w w' : Sink} {data : List UInt8} {nw : Nat} {err : Option IoErr}
    (h : writeAll Sink.write w data = (w', nw, err)) :
    ∃ sent, w'.data = w.data ++ sent ∧ sent <+: data ∧ (err = none → sent = data) := by
  unfold writeAll at h
  split at h
  · rename_i hdata
    cases h
    exact ⟨[], (List.append_nil _).symm, List.nil_prefix, fun _ => hdata.symm⟩
  · cases hwrite : Sink.write w data with
    | mk w₁ res =>
      obtain ⟨n, res⟩ := res
      obtain ⟨sent, hdata, hsent, hall⟩ := Sink.write_prefix hwrite
      rw [hwrite] at h
      cases res with
      | some e =>
        cases h
        exact ⟨sent, hdata, hsent, fun herr => by cases herr⟩
      | none =>
        cases h
        exact ⟨sent, hdata, hsent, fun _ => hall rfl⟩

variable {t : Transport}

/-- Whatever fails, the bytes written are the first ones of the source. -/
theorem copyLoop_prefix {size : Nat} {hsize : 0 < size} {written : Nat} :
    ∃ sent,
      (copyLoop Transport.reader Sink.write size hsize t w written).dst.data = w.data ++ sent ∧
      sent <+: t.bytes := by
  fun_induction copyLoop Transport.reader Sink.write size hsize t w written with
  | case1 t w written data er t' hread w' nw ew hwrite
  | case2 t w written data er t' hread w' nw hwrite
  | case3 t w written data t' hread w' nw ew hwrite =>
    obtain ⟨sent, hdata, hsent, -⟩ := writeAll_prefix hwrite
    refine ⟨sent, hdata, hsent.trans ?_⟩
    rw [(Transport.read_bytes hread).1]
    exact List.prefix_append _ _
  | case4 t w written data t' hread w' nw hwrite ih =>
    obtain ⟨sent, hdata, -, hall⟩ := writeAll_prefix hwrite
    obtain ⟨sent', hdata', hsent'⟩ := ih
    refine ⟨data ++ sent', ?_, ?_⟩
    · rw [hdata', hdata, hall rfl, List.append_assoc]
    · rw [(Transport.read_bytes hread).1]
      exact (List.prefix_append_right_inj data).mpr hsent'

theorem copyLoop_final {size : Nat} {hsize : 0 < size} {written : Nat} (works : w.answers = [])
    (final : t.Final) :
    (copyLoop Transport.reader Sink.write size hsize t w written).dst.data = w.data ++ t.bytes := by
  fun_induction copyLoop Transport.reader Sink.write size hsize t w written with
  | case2 t w written data er t' hread w' nw hwrite =>
    cases (writeAll_sink works data).symm.trans hwrite
    rw [(Transport.read_bytes hread).1, (Transport.read_final final hread).2 (by simp),
      List.append_nil]
  | case1 t w written data er t' hread w' nw ew hwrite
  | case3 t w written data t' hread w' nw ew hwrite =>
    cases (writeAll_sink works data).symm.trans hwrite
  | case4 t w written data t' hread w' nw hwrite ih =>
    cases (writeAll_sink works data).symm.trans hwrite
    rw [ih rfl (Transport.read_final final hread).1, (Transport.read_bytes hread).1,
      List.append_assoc]

/-- **Everything arrives.** A copy from a transport with errors at the end only, to a writer that
works. -/
theorem CopyBuffer_final (works : w.answers = []) (final : t.Final) :
    (CopyBuffer Transport.reader Sink.write w t).dst.data = w.data ++ t.bytes :=
  copyLoop_final works final

end Glider.Proxy
