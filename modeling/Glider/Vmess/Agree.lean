/-
Whether what a VMess stream under an AEAD delivers depends on the buffers it is read with
(`proxy/vmess/aead.go`).

`Read` takes a chunk into the caller's buffer if that has at least `chunkSize` bytes, and into an
internal one of `chunkSize` bytes otherwise. `read` compares the size of a chunk with the buffer
it was given. A size above `chunkSize` is the end of the stream for the internal buffer, while a
caller's buffer may be large enough to read on.

* `decode` — what a stream stands for, up to the first size above `chunkSize`.
* `read_cases` — what `read` does is what `decode` says, in any buffer that takes the largest
  chunk.
* `delivered_iff` — the buffers make no difference exactly if the stream ends at such a size.
* `runs_of_oversize` — a peer with the key can always make a stream where they do.
-/

import Glider.Vmess.Aead

namespace Glider.Vmess

open Glider.Go Glider.Lib

/-- An AEAD whose `Open` takes off the overhead exactly; `read` returns `int(size) - r.Overhead()`
and so relies on it. -/
structure ExactAEAD extends AEAD where
  length_open : ∀ nonce c p, Open nonce c = some p → c.length = p.length + overhead

/-! ### The meaning of a stream -/

/-- A place in a stream. -/
structure Cursor extends Counters where
  src : Source

def AeadReader.cursor (r : AeadReader) : Cursor := ⟨r.toCounters, r.src⟩

/-- The reader at another place. -/
def AeadReader.moved (r : AeadReader) (c : Cursor) : AeadReader := ⟨c.toCounters, c.src, r.buf⟩

/-- The first half of `read`: the size of the next chunk. -/
def Cursor.readSize (c : Cursor) : Cursor × Except IoErr Nat :=
  match readFull ShakeSizeParser.sizeBytes c.src with
  | (_, some err, src) => ({ c with src := src }, .error err)
  | (b, none, src) =>
    let (size, parser) := c.parser.Decode b
    ({ c with parser := parser, src := src }, .ok size.toNat)

/-- The second half of `read`: the payload of a chunk of `size` bytes. -/
def Cursor.readPayload (aead : AEAD) (iv : Iv) (c : Cursor) (size : Nat) :
    Cursor × Except IoErr (List UInt8) :=
  match readFull size c.src with
  | (_, some err, src) => ({ c with src := src }, .error err)
  | (p, none, src) =>
    ({ c with count := c.count + 1, src := src },
      match aead.Open (nonceAt aead iv c.count) p with
      | none => .error aead.authErr
      | some text => .ok text)

theorem readSize_ok {c c' : Cursor} {size : Nat} (h : c.readSize = (c', .ok size)) :
    size < 65536 ∧ c'.src.data.length + 2 = c.src.data.length := by
  unfold Cursor.readSize at h
  split at h
  · cases h
  rename_i b src hread
  obtain ⟨hlen, hdata, -⟩ := readFull_eq_ok hread
  cases h
  rw [hdata, List.length_append, hlen]
  exact ⟨UInt16.toNat_lt _, Nat.add_comm _ _⟩

theorem readPayload_ok {aead : ExactAEAD} {iv : Iv} {c c' : Cursor} {size : Nat}
    {data : List UInt8} (h : c.readPayload aead.toAEAD iv size = (c', .ok data)) :
    size = data.length + aead.overhead ∧ c'.src.data.length + size = c.src.data.length := by
  unfold Cursor.readPayload at h
  split at h
  · cases h
  rename_i p src hread
  obtain ⟨hlen, hdata, -⟩ := readFull_eq_ok hread
  split at h <;> cases h
  rename_i hopen
  have hexact := aead.length_open _ _ _ hopen
  rw [hdata, List.length_append]
  exact ⟨by omega, by dsimp only; omega⟩

/-- Behind a size, `read` gets EOF as well: nothing follows, or the block does not open and that
is the AEAD's own error. -/
def Cursor.AtEnd (aead : AEAD) (iv : Iv) (c : Cursor) (size : Nat) : Prop :=
  c.src = ⟨[], .eof⟩ ∨
    size ≤ c.src.data.length ∧
      aead.Open (nonceAt aead iv c.count) (c.src.data.take size) = none ∧ aead.authErr = .eof

theorem readPayload_eof_iff {aead : AEAD} {iv : Iv} {c : Cursor} {size : Nat} (hpos : 0 < size) :
    (c.readPayload aead iv size).2 = .error .eof ↔ c.AtEnd aead iv size := by
  obtain ⟨counters, data, fail⟩ := c
  unfold Cursor.readPayload Cursor.AtEnd readFull
  by_cases hle : size ≤ data.length
  · have hne : data ≠ [] := List.ne_nil_of_length_pos (Nat.lt_of_lt_of_le hpos hle)
    simp only [if_pos hle]
    cases aead.Open (nonceAt aead iv counters.count) (data.take size) with
    | none => simp [hne, hle]
    | some text => simp [hne]
  · simp only [if_neg hle]
    by_cases hnil : data = []
    · have hne : size ≠ 0 := Nat.ne_of_gt hpos
      simp [hnil, hne]
    · by_cases hfail : fail = .eof <;> simp [hnil, hle, hfail]

/-- Why a stream ends: an error, or a size above `chunkSize`, before the rest of the stream. -/
inductive Ending where
  | error (err : IoErr)
  | oversize (size : Nat) (c : Cursor)

/-- The payloads of a stream, and its end. -/
structure Decoded where
  text : List UInt8
  ending : Ending

/-- What the bytes from a place on stand for. -/
def decode (aead : ExactAEAD) (iv : Iv) (c : Cursor) : Decoded :=
  match _h : c.readSize with
  | (_, .error err) => ⟨[], .error err⟩
  | (c₁, .ok size) =>
    if size ≤ aead.overhead then ⟨[], .error .eof⟩
    else if chunkSize < size then ⟨[], .oversize size c₁⟩
    else
      match _h' : c₁.readPayload aead.toAEAD iv size with
      | (_, .error err) => ⟨[], .error err⟩
      | (c₂, .ok data) =>
        let rest := decode aead iv c₂
        ⟨data ++ rest.text, rest.ending⟩
termination_by c.src.data.length
decreasing_by
  have := (readSize_ok _h).2
  have := (readPayload_ok _h').2
  omega

section Decode

variable {aead : ExactAEAD} {iv : Iv} {c c₁ c₂ : Cursor} {err : IoErr} {size : Nat}
  {data : List UInt8}

theorem decode_of_size_error (h : c.readSize = (c₁, .error err)) :
    decode aead iv c = ⟨[], .error err⟩ := by
  rw [decode]
  split <;> simp_all

theorem decode_of_size (h : c.readSize = (c₁, .ok size)) :
    decode aead iv c =
      if size ≤ aead.overhead then ⟨[], .error .eof⟩
      else if chunkSize < size then ⟨[], .oversize size c₁⟩
      else
        match c₁.readPayload aead.toAEAD iv size with
        | (_, .error err) => ⟨[], .error err⟩
        | (c₂, .ok data) => ⟨data ++ (decode aead iv c₂).text, (decode aead iv c₂).ending⟩ := by
  rw [decode]
  split
  · simp_all
  · rename_i hsize
    cases h.symm.trans hsize
    split
    · rfl
    · split
      · rfl
      · split <;> simp_all

end Decode

/-! ### One call -/

section Read

theorem read_eq (aead : AEAD) (iv : Iv) (r : AeadReader) (len : Nat) :
    r.read aead iv len =
      match r.cursor.readSize with
      | (c, .error err) => (r.moved c, .error err)
      | (c, .ok size) =>
        if size ≤ aead.overhead ∨ len < size then (r.moved c, .error .eof)
        else (r.moved (c.readPayload aead iv size).1, (c.readPayload aead iv size).2) := by
  unfold AeadReader.read Cursor.readSize AeadReader.cursor
  dsimp only
  cases readFull ShakeSizeParser.sizeBytes r.src with
  | mk b rest =>
    obtain ⟨err?, src⟩ := rest
    cases err? with
    | some err => rfl
    | none =>
      dsimp only
      split
      · rfl
      unfold Cursor.readPayload
      dsimp only
      cases readFull (r.parser.Decode b).1.toNat src with
      | mk p rest =>
        obtain ⟨err?, src'⟩ := rest
        cases err? <;> rfl

/-- What `read` does in a buffer that takes the largest chunk. -/
theorem read_cases (aead : ExactAEAD) (iv : Iv) (r : AeadReader) {len : Nat}
    (hlen : chunkSize ≤ len) :
    (∃ c err, r.read aead.toAEAD iv len = (r.moved c, .error err) ∧
        decode aead iv r.cursor = ⟨[], .error err⟩) ∨
      (∃ c data, r.read aead.toAEAD iv len = (r.moved c, .ok data) ∧
        decode aead iv r.cursor = ⟨data ++ (decode aead iv c).text, (decode aead iv c).ending⟩ ∧
        data ≠ [] ∧ c.src.data.length + data.length < r.src.data.length) ∨
      ∃ c size, decode aead iv r.cursor = ⟨[], .oversize size c⟩ ∧
        aead.overhead < size ∧ chunkSize < size ∧ size < 65536 ∧
        r.read aead.toAEAD iv len =
          if len < size then (r.moved c, .error .eof)
          else (r.moved (c.readPayload aead.toAEAD iv size).1,
            (c.readPayload aead.toAEAD iv size).2) := by
  rw [read_eq]
  cases hsize : r.cursor.readSize with
  | mk c size? =>
    cases size? with
    | error err => exact .inl ⟨c, err, rfl, decode_of_size_error hsize⟩
    | ok size =>
      obtain ⟨hlt, hdata⟩ := readSize_ok hsize
      rw [decode_of_size hsize]
      dsimp only
      by_cases hsmall : size ≤ aead.overhead
      · rw [if_pos hsmall, if_pos (.inl hsmall)]
        exact .inl ⟨c, .eof, rfl, rfl⟩
      by_cases hlarge : chunkSize < size
      · rw [if_neg hsmall, if_pos hlarge]
        refine .inr (.inr ⟨c, size, rfl, Nat.not_le.mp hsmall, hlarge, hlt, ?_⟩)
        simp only [hsmall, false_or]
      · rw [if_neg hsmall, if_neg hlarge, if_neg (by omega)]
        cases hpayload : c.readPayload aead.toAEAD iv size with
        | mk c' data? =>
          cases data? with
          | error err => exact .inl ⟨c', err, rfl, rfl⟩
          | ok data =>
            obtain ⟨hlength, hrest⟩ := readPayload_ok hpayload
            have hne : data ≠ [] := List.ne_nil_of_length_pos (by omega)
            refine .inr (.inl ⟨c', data, rfl, rfl, hne, ?_⟩)
            have hsrc : r.cursor.src.data.length = r.src.data.length := rfl
            omega

theorem read_oversize {aead : ExactAEAD} {iv : Iv} {r : AeadReader} {c : Cursor} {size len : Nat}
    (hdecode : decode aead iv r.cursor = ⟨[], .oversize size c⟩) (hlen : chunkSize ≤ len) :
    aead.overhead < size ∧ chunkSize < size ∧ size < 65536 ∧
      r.read aead.toAEAD iv len =
        if len < size then (r.moved c, .error .eof)
        else (r.moved (c.readPayload aead.toAEAD iv size).1,
          (c.readPayload aead.toAEAD iv size).2) := by
  obtain ⟨_, _, -, h⟩ | ⟨c', data, -, h, hne, -⟩ | ⟨_, _, h, hread⟩ :=
    read_cases aead iv r hlen
  · cases hdecode.symm.trans h
  · have htext : [] = data ++ (decode aead iv c').text :=
      congrArg Decoded.text (hdecode.symm.trans h)
    exact absurd (List.append_eq_nil_iff.mp htext.symm).1 hne
  · cases hdecode.symm.trans h
    exact hread

/-- The error a stream ends with, where it is the same for all buffers. -/
def Ending.Yields (aead : AEAD) (iv : Iv) : Ending → IoErr → Prop
  | .error e, err => e = err
  | .oversize size c, err => err = .eof ∧ c.AtEnd aead iv size

/-- `read` follows `decode`, where the end is the same for all buffers. -/
theorem readsOn_decode (aead : ExactAEAD) (iv : Iv) (err : IoErr) :
    ReadsOn aead.toAEAD iv
      (fun s src rest => rest = (decode aead iv ⟨s, src⟩).text ∧
        (decode aead iv ⟨s, src⟩).ending.Yields aead.toAEAD iv err)
      err := by
  rintro r len rest hlen ⟨rfl, hyields⟩
  change (decode aead iv r.cursor).ending.Yields aead.toAEAD iv err at hyields
  change (∃ r', _ ∧ (decode aead iv r.cursor).text = []) ∨
    ∃ s src data rest', _ ∧ (decode aead iv r.cursor).text = data ++ rest' ∧ _
  obtain ⟨c, e, hread, hdecode⟩ | ⟨c, data, hread, hdecode, -, hless⟩ |
      ⟨c, size, hdecode, -, hlarge, -, hread⟩ :=
    read_cases aead iv r hlen
  · rw [hdecode] at hyields ⊢
    cases hyields
    exact .inl ⟨r.moved c, hread, rfl⟩
  · rw [hdecode] at hyields ⊢
    exact .inr ⟨c.toCounters, c.src, data, _, hread, rfl, ⟨rfl, hyields⟩, hless⟩
  · -- reading on ends with EOF too
    rw [hdecode] at hyields ⊢
    obtain ⟨rfl, hend⟩ := hyields
    have hpos : 0 < size := Nat.zero_lt_of_lt hlarge
    refine .inl ?_
    rw [hread]
    by_cases hfits : len < size
    · rw [if_pos hfits]
      exact ⟨_, rfl, rfl⟩
    · rw [if_neg hfits, (readPayload_eof_iff hpos).mpr hend]
      exact ⟨_, rfl, rfl⟩

end Read

/-! ### All calls -/

section Calls

variable {aead : ExactAEAD} {iv : Iv}

/-- What a reader still has to deliver. -/
def AeadPending (aead : ExactAEAD) (iv : Iv) (err : IoErr) (r : AeadReader) (text : List UInt8) :
    Prop :=
  text = r.buf ++ (decode aead iv r.cursor).text ∧
    (decode aead iv r.cursor).ending.Yields aead.toAEAD iv err

theorem aeadFeed_follows (err : IoErr) :
    (aeadFeed aead.toAEAD iv).StepsOn (AeadPending aead iv err) AeadReader.work err := by
  rintro r text len ⟨rfl, hyields⟩
  obtain ⟨r', data, rest, hread, hsplit, ⟨rfl, hyields'⟩, hless⟩ | ⟨r', hread⟩ :=
    Read_cases (readsOn_decode aead iv err) len ⟨rfl, hyields⟩
  · exact .inl ⟨r', data, _, hread, hsplit, ⟨rfl, hyields'⟩, hless⟩
  · exact .inr ⟨r', hread⟩

/-- A buffer for chunks of any size. -/
def wholeBuffer : ℕ+ := ⟨65535, by decide⟩

theorem Read_whole (aead : AEAD) (iv : Iv) {r : AeadReader} (hbuf : r.buf = []) :
    r.Read aead iv wholeBuffer =
      match r.read aead iv 65535 with
      | (r, .error err) => (r, [], some err)
      | (r, .ok text) => (r, text, none) := by
  have hdirect : chunkSize ≤ (wholeBuffer : Nat) := by decide
  exact (if_pos hbuf).trans (if_pos hdirect)

theorem Read_one (aead : AEAD) (iv : Iv) {r : AeadReader} (hbuf : r.buf = []) :
    r.Read aead iv 1 =
      match r.read aead iv chunkSize with
      | (r, .error err) => (r, [], some err)
      | (r, .ok text) => { r with buf := text : AeadReader }.copy 1 := by
  have hinternal : ¬ chunkSize ≤ ((1 : ℕ+) : Nat) := by decide
  exact (if_pos hbuf).trans (if_neg hinternal)

/-- The first size above `chunkSize` is reached, with the chunks before it read in place. -/
theorem exists_run_to_oversize {r₀ r : AeadReader} {bs : List ℕ+} {delivered : List UInt8}
    (hrun : (aeadFeed aead.toAEAD iv).run r₀ bs = some ⟨r, delivered, none⟩) (hbuf : r.buf = [])
    {size : Nat} {c : Cursor} (hoversize : (decode aead iv r.cursor).ending = .oversize size c) :
    ∃ bs' r' delivered', (aeadFeed aead.toAEAD iv).run r₀ bs' = some ⟨r', delivered', none⟩ ∧
      r'.buf = [] ∧ decode aead iv r'.cursor = ⟨[], .oversize size c⟩ := by
  induction hn : r.src.data.length using Nat.strong_induction_on generalizing r bs delivered with
  | _ n ih =>
    have hlen : chunkSize ≤ 65535 := by decide
    obtain ⟨c', e, hread, hdecode⟩ | ⟨c', data, hread, hdecode, -, hless⟩ |
        ⟨c', size', hdecode, -⟩ :=
      read_cases aead iv r hlen
    · rw [hdecode] at hoversize
      cases hoversize
    · have hRead : (aeadFeed aead.toAEAD iv).read r wholeBuffer = (r.moved c', data, none) := by
        show r.Read aead.toAEAD iv wholeBuffer = _
        rw [Read_whole aead.toAEAD iv hbuf, hread]
      rw [hdecode] at hoversize
      have hlt : (r.moved c').src.data.length < n := by
        show c'.src.data.length < n
        omega
      exact ih _ hlt (Feed.run_concat hrun hRead) hbuf hoversize rfl
    · rw [hdecode] at hoversize
      cases hoversize
      exact ⟨bs, r, delivered, hrun, hbuf, hdecode⟩

/-- If the buffers make no difference, a size above `chunkSize` is at the end of the stream:
compare a buffer of one byte with one that takes the chunk. -/
theorem atEnd_of_delivers {r₀ r : AeadReader} {bs : List ℕ+} {delivered text : List UInt8}
    {err : IoErr} {size : Nat} {c : Cursor}
    (hdelivers : (aeadFeed aead.toAEAD iv).Delivers r₀ text err)
    (hrun : (aeadFeed aead.toAEAD iv).run r₀ bs = some ⟨r, delivered, none⟩) (hbuf : r.buf = [])
    (hdecode : decode aead iv r.cursor = ⟨[], .oversize size c⟩) :
    c.AtEnd aead.toAEAD iv size := by
  have hwhole : chunkSize ≤ 65535 := by decide
  obtain ⟨-, hlarge, -, hinternal⟩ := read_oversize hdecode (Nat.le_refl chunkSize)
  obtain ⟨hsmall, -, hlt, hdirect⟩ := read_oversize hdecode hwhole
  rw [if_pos hlarge] at hinternal
  rw [if_neg (by omega)] at hdirect
  have hone : (aeadFeed aead.toAEAD iv).read r 1 = (r.moved c, [], some .eof) := by
    show r.Read aead.toAEAD iv 1 = _
    rw [Read_one aead.toAEAD iv hbuf, hinternal]
  obtain ⟨htext, rfl⟩ := hdelivers.delivered_all _ _ _ (Feed.run_concat hrun hone) rfl
  refine (readPayload_eof_iff (Nat.zero_lt_of_lt hlarge)).mp ?_
  cases hpayload : c.readPayload aead.toAEAD iv size with
  | mk c' data? =>
    rw [hpayload] at hdirect
    cases data? with
    | error e =>
      have hRead : (aeadFeed aead.toAEAD iv).read r wholeBuffer = (r.moved c', [], some e) := by
        show r.Read aead.toAEAD iv wholeBuffer = _
        rw [Read_whole aead.toAEAD iv hbuf, hdirect]
      obtain ⟨-, rfl⟩ := hdelivers.delivered_all _ _ _ (Feed.run_concat hrun hRead) rfl
      rfl
    | ok data =>
      -- data that a smaller buffer never delivers
      have hRead : (aeadFeed aead.toAEAD iv).read r wholeBuffer = (r.moved c', data, none) := by
        show r.Read aead.toAEAD iv wholeBuffer = _
        rw [Read_whole aead.toAEAD iv hbuf, hdirect]
      have hmore := hdelivers.delivered_prefix _ _ (Feed.run_concat hrun hRead)
      have hlength := hmore.length_le
      rw [← htext] at hlength
      dsimp only at hlength
      rw [List.length_append, List.length_append, List.length_nil] at hlength
      have hsize := (readPayload_ok hpayload).1
      omega

end Calls

/-- **The caller's buffers.** For every AEAD, all masks and every byte stream: what the reader
delivers, and the error after it, are the same for all sequences of buffers exactly if the stream
ends where its first size above `chunkSize` is reached, if there is one. -/
theorem delivered_iff (aead : ExactAEAD) (iv : Iv) (s : Counters) (src : Source) :
    (∃ text err, (aeadFeed aead.toAEAD iv).Delivers ⟨s, src, []⟩ text err) ↔
      ∀ size c, (decode aead iv ⟨s, src⟩).ending = .oversize size c →
        c.AtEnd aead.toAEAD iv size := by
  constructor
  · rintro ⟨text, err, hdelivers⟩ size c hoversize
    have hstart : (aeadFeed aead.toAEAD iv).run ⟨s, src, []⟩ [] = some ⟨⟨s, src, []⟩, [], none⟩ :=
      rfl
    obtain ⟨bs, r, delivered, hrun, hbuf, hdecode⟩ :=
      exists_run_to_oversize hstart rfl hoversize
    exact atEnd_of_delivers hdelivers hrun hbuf hdecode
  · intro hend
    have hyields : ∃ err, (decode aead iv ⟨s, src⟩).ending.Yields aead.toAEAD iv err := by
      cases hending : (decode aead iv ⟨s, src⟩).ending with
      | error err => exact ⟨err, rfl⟩
      | oversize size c => exact ⟨.eof, rfl, hend size c hending⟩
    obtain ⟨err, hyields⟩ := hyields
    exact ⟨_, err, Feed.delivers_of_left (aeadFeed_follows err) ⟨rfl, hyields⟩⟩

/-! ### A chunk that is too large -/

theorem readSize_sealed {aead : AEAD} {iv : Iv} (s : Counters) {c : List UInt8} (fail : IoErr)
    (hlt : c.length + aead.overhead < 2 ^ 16) :
    (⟨s, ⟨(aeadCode aead iv).encode s c, fail⟩⟩ : Cursor).readSize =
      (⟨⟨s.parser.advance, s.count⟩, ⟨aead.Seal (nonceAt aead iv s.count) c, fail⟩⟩,
        .ok (c.length + aead.overhead)) := by
  have hsize : (c.length + aead.overhead).toUInt16.toNat = c.length + aead.overhead :=
    Nat.mod_eq_of_lt hlt
  unfold Cursor.readSize aeadCode
  dsimp only
  rw [readFull_append (s.parser.length_encode _)]
  dsimp only
  rw [s.parser.decode_encode, hsize]

/-- A chunk above `chunkSize`, sealed by a peer with the key: the end of the stream in a small
buffer, and its payload in a large one. -/
theorem runs_of_oversize (aead : AEAD) (iv : Iv) (s : Counters) (c : List UInt8) (fail : IoErr)
    (hpos : 1 ≤ c.length) (hlarge : chunkSize < c.length + aead.overhead)
    (hlt : c.length + aead.overhead < 2 ^ 16) :
    ∃ r r', (aeadFeed aead iv).run ⟨s, ⟨(aeadCode aead iv).encode s c, fail⟩, []⟩ [1] =
        some ⟨r, [], some .eof⟩ ∧
      (aeadFeed aead iv).run ⟨s, ⟨(aeadCode aead iv).encode s c, fail⟩, []⟩ [wholeBuffer] =
        some ⟨r', c, none⟩ := by
  let r : AeadReader := ⟨s, ⟨(aeadCode aead iv).encode s c, fail⟩, []⟩
  have hstart : (aeadFeed aead iv).run r [] = some ⟨r, [], none⟩ := rfl
  have hinternal : ∃ r', r.read aead iv chunkSize = (r', .error .eof) := by
    rw [read_eq, show r.cursor.readSize = _ from readSize_sealed s fail hlt]
    dsimp only
    rw [if_pos (.inr hlarge)]
    exact ⟨_, rfl⟩
  obtain ⟨r₁, hinternal⟩ := hinternal
  have hone : (aeadFeed aead iv).read r 1 = (r₁, [], some .eof) := by
    show r.Read aead iv 1 = _
    rw [Read_one aead iv rfl, hinternal]
  let r₂ : AeadReader := ⟨(aeadCode aead iv).next s, ⟨[], fail⟩, []⟩
  have hdirect : r.read aead iv 65535 = (r₂, .ok c) := by
    refine read_sealed hpos hlt (by omega) ?_
    rw [List.append_nil]
  have hwhole : (aeadFeed aead iv).read r wholeBuffer = (r₂, c, none) := by
    show r.Read aead iv wholeBuffer = _
    rw [Read_whole aead iv rfl, hdirect]
  exact ⟨r₁, r₂, Feed.run_concat hstart hone, Feed.run_concat hstart hwhole⟩

/-- Sixteen zeros in the place of a tag. -/
def plainSeal (_ p : List UInt8) : List UInt8 := p ++ List.replicate 16 0

def plainOpen (_ c : List UInt8) : Option (List UInt8) :=
  if 16 ≤ c.length ∧ c.drop (c.length - 16) = List.replicate 16 0 then
    some (c.take (c.length - 16))
  else none

theorem plainOpen_plainSeal (nonce p : List UInt8) :
    plainOpen nonce (plainSeal nonce p) = some p := by
  simp [plainOpen, plainSeal]

theorem length_plainSeal (nonce p : List UInt8) : (plainSeal nonce p).length = p.length + 16 := by
  simp [plainSeal]

theorem length_plainOpen (nonce c p : List UInt8) (h : plainOpen nonce c = some p) :
    c.length = p.length + 16 := by
  unfold plainOpen at h
  split at h <;> cases h
  rename_i hc
  rw [List.length_take]
  omega

/-- An AEAD that hides nothing. -/
def plainAead : ExactAEAD where
  nonceSize := 12
  overhead := 16
  Seal := plainSeal
  Open := plainOpen
  authErr := .text (ascii "cipher: message authentication failed")
  open_seal := plainOpen_plainSeal
  length_seal := length_plainSeal
  two_le_nonceSize := by decide
  nonceSize_le := by decide
  overhead_lt := by decide
  length_open := length_plainOpen

/-- A peer sends one chunk with 16385 bytes in it. With a buffer of one byte the reader reports
EOF, with one of 65535 bytes it delivers them. -/
theorem oversize_depends_on_buffer :
    let start : AeadReader := ⟨⟨⟨fun _ => 0, 0⟩, 0⟩,
      ⟨[0x40, 0x11] ++ (List.replicate 16385 7 ++ List.replicate 16 0), .eof⟩, []⟩
    let feed := aeadFeed plainAead.toAEAD ⟨List.replicate 16 0, rfl⟩
    (feed.run start [1]).map (fun c => (c.delivered, c.final)) = some ([], some .eof) ∧
      (feed.run start [65535]).map (fun c => (c.delivered, c.final)) =
        some (List.replicate 16385 7, none) := by
  let iv : Iv := ⟨List.replicate 16 0, rfl⟩
  let s : Counters := ⟨⟨fun _ => 0, 0⟩, 0⟩
  let c : List UInt8 := List.replicate 16385 7
  have hlength : c.length = 16385 := List.length_replicate
  have hencode : (aeadCode plainAead.toAEAD iv).encode s c =
      [0x40, 0x11] ++ (c ++ List.replicate 16 0) := by
    have hsize : (s.parser.Encode (16385 + 16).toUInt16).1 = [0x40, 0x11] := by decide
    unfold aeadCode
    dsimp only
    rw [hlength, show (s.parser.Encode (16385 + plainAead.overhead).toUInt16).1 = _ from hsize]
    rfl
  have hpos : 1 ≤ c.length := by omega
  have hlarge : chunkSize < c.length + 16 := by
    rw [hlength]
    decide
  have hlt : c.length + 16 < 2 ^ 16 := by omega
  obtain ⟨r, r', hone, hwhole⟩ := runs_of_oversize plainAead.toAEAD iv s c .eof hpos hlarge hlt
  rw [hencode] at hone hwhole
  intro start feed
  rw [show feed.run start [1] = _ from hone, show feed.run start [65535] = _ from hwhole]
  exact ⟨rfl, rfl⟩

end Glider.Vmess
