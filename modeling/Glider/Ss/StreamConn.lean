/-
Shadowsocks AEAD connections (`proxy/ss/cipher/shadowaead/conn.go`, `cipher.go`).

The first `Write` sends a random salt, the first `Read` of the peer receives it; both derive
the key of the session from it. The two directions of a connection share nothing, so each is
a state of its own: not yet initialised, or a `reader` or `writer` with its AEAD.

* `StreamWriter.writes_spec` — what a sequence of calls of `Write` sends.
* `Read_progress` — a call of `Read` with a buffer that is not empty has less to do afterwards.
* `streamConn_roundTrip` — the bytes read are the bytes written.
-/

import Glider.Lib.Delivery
import Glider.Ss.AeadWriter

namespace Glider.Ss

open Glider.Go Glider.Lib

/-! ### metaCipher -/

/-- `metaCipher`. The constructors check the length of the key, so that `makeAEAD` has what it
needs; the key derivation fills the key it is given. -/
structure MetaCipher where
  psk : List UInt8
  makeAEAD : List UInt8 → Except IoErr AEAD
  hkdfSHA1 : (secret salt info : List UInt8) → (size : Nat) → List UInt8
  length_hkdfSHA1 : ∀ secret salt info size, (hkdfSHA1 secret salt info size).length = size
  makes : ∀ key, key.length = psk.length → ∃ aead, makeAEAD key = .ok aead

namespace MetaCipher

variable (c : MetaCipher)

def KeySize : Nat := c.psk.length

def SaltSize : Nat := if 16 < c.KeySize then c.KeySize else 16

def Encrypter (salt : List UInt8) : Except IoErr AEAD :=
  c.makeAEAD (c.hkdfSHA1 c.psk salt (ascii "ss-subkey") c.KeySize)

def Decrypter (salt : List UInt8) : Except IoErr AEAD :=
  c.makeAEAD (c.hkdfSHA1 c.psk salt (ascii "ss-subkey") c.KeySize)

/-- What `rand.Reader`, which does not fail, puts in the salt of a connection. -/
structure Salt where
  bytes : List UInt8
  length_bytes : bytes.length = c.SaltSize

theorem saltSize_pos : 0 < c.SaltSize := by
  unfold SaltSize
  split <;> omega

theorem exists_encrypter (salt : List UInt8) : ∃ aead, c.Encrypter salt = .ok aead :=
  c.makes _ (c.length_hkdfSHA1 _ _ _ _)

end MetaCipher

/-! ### streamConn -/

/-- The reading half of `streamConn`: `r` is `nil` at first. -/
inductive StreamReader where
  | idle (src : Source)
  | reading (aead : AEAD) (r : Reader)

/-- The writing half: `w` is `nil` at first. -/
inductive StreamWriter where
  | idle (sink : Sink)
  | writing (aead : AEAD) (w : Writer)

section StreamConn

variable (c : MetaCipher)

/-- `initReader`. -/
def initReader (src : Source) : Source × Except IoErr (AEAD × Reader) :=
  match readFull c.SaltSize src with
  | (_, some err, src) => (src, .error err)
  | (salt, none, src) =>
    match c.Decrypter salt with
    | .error err => (src, .error err)
    | .ok aead => (src, .ok (aead, newReader aead src))

def StreamReader.Read : StreamReader → Buffer → StreamReader × Result
  | .idle src, b =>
    match initReader c src with
    | (src, .error err) => (.idle src, ⟨[], some err, false, []⟩)
    | (_, .ok (aead, r)) =>
      let (r, res) := r.Read aead b
      (.reading aead r, res)
  | .reading aead r, b =>
    let (r, res) := r.Read aead b
    (.reading aead r, res)

/-- `initWriter`, with the salt that is generated. -/
def initWriter (salt : c.Salt) (sink : Sink) : Sink × Except IoErr (AEAD × Writer) :=
  match c.Encrypter salt.bytes with
  | .error err => (sink, .error err)
  | .ok aead =>
    match sink.write salt.bytes with
    | (sink, _, some err) => (sink, .error err)
    | (sink, _, none) => (sink, .ok (aead, newWriter aead sink))

def StreamWriter.Write (salt : c.Salt) :
    StreamWriter → List UInt8 → StreamWriter × Nat × Option IoErr
  | .idle sink, b =>
    match initWriter c salt sink with
    | (sink, .error err) => (.idle sink, 0, some err)
    | (_, .ok (aead, w)) =>
      let (w, res) := w.Write aead b
      (.writing aead w, res)
  | .writing aead w, b =>
    let (w, res) := w.Write aead b
    (.writing aead w, res)

/-- What has been sent. -/
def StreamWriter.data : StreamWriter → List UInt8
  | .idle sink => sink.data
  | .writing _ w => w.sink.data

/-- A buffer that is not empty. -/
structure NonEmptyBuffer extends Buffer where
  len_pos : 0 < len

/-- The calls of `Read`, with buffers that are not empty. -/
def streamFeed : Feed StreamReader NonEmptyBuffer UInt8 Stop where
  read s b :=
    let (s, res) := s.Read c b.toBuffer
    (s, res.data, if res.panicked then some .panic else res.err.map .err)

end StreamConn

/-! ### Writing -/

theorem StreamWriter.writing_writes {c : MetaCipher} {salt : c.Salt} (aead : AEAD) (w : Writer)
    (ps : List (List UInt8)) :
    callAll (StreamWriter.Write c salt) (.writing aead w) ps =
      (.writing aead (callAll (Writer.Write aead) w ps).1,
        (callAll (Writer.Write aead) w ps).2) := by
  induction ps generalizing w with
  | nil => rfl
  | cons p ps ih =>
    rw [callAll, StreamWriter.Write]
    dsimp only
    rw [ih]
    rfl

/-- The chunks of some arguments, sealed from the first nonce on. -/
def session (aead : AEAD) (ps : List (List UInt8)) : List UInt8 :=
  wire aead (blockCode.encodeAll (List.replicate aead.nonceSize 0) (ps.flatMap (chunks maxPayload)))

/-- On a connection that works, the salt is sent at the first call, every call returns the
length of its argument, and the chunks are sent after the salt. -/
theorem StreamWriter.writes_spec {c : MetaCipher} (salt : c.Salt) {aead : AEAD}
    (haead : c.Encrypter salt.bytes = .ok aead) (p : List UInt8) (ps : List (List UInt8)) :
    (callAll (StreamWriter.Write c salt) (.idle {}) (p :: ps)).1.data =
        salt.bytes ++ session aead (p :: ps) ∧
      (callAll (StreamWriter.Write c salt) (.idle {}) (p :: ps)).2 =
        (p :: ps).map fun q => (q.length, none) := by
  have hinit : initWriter c salt {} =
      (⟨salt.bytes, []⟩,
        .ok (aead, .sent aead salt.bytes (List.replicate aead.nonceSize 0) [])) := by
    unfold initWriter
    rw [haead]
    dsimp only
    rw [Sink.write_of_works rfl]
    dsimp only
    rw [newWriter, Writer.sent, wire_nil, List.append_nil, List.nil_append]
  -- the first call goes on as if the writer had been there
  have hfirst : StreamWriter.Write c salt (.idle {}) p =
      StreamWriter.Write c salt
        (.writing aead (.sent aead salt.bytes (List.replicate aead.nonceSize 0) [])) p := by
    rw [StreamWriter.Write, hinit]
    rfl
  have hall : callAll (StreamWriter.Write c salt) (.idle {}) (p :: ps) =
      callAll (StreamWriter.Write c salt)
        (.writing aead (.sent aead salt.bytes (List.replicate aead.nonceSize 0) [])) (p :: ps) := by
    rw [callAll, hfirst]
    rfl
  rw [hall, StreamWriter.writing_writes, writes_sent]
  exact ⟨rfl, rfl⟩

/-! ### Progress of the reader -/

/-- `buf` is let go of at its end. -/
def Reader.Live (r : Reader) : Prop := ∀ buf, r.buf = some buf → r.offset < buf.length

/-- The bytes that are still to be read, encrypted or not. -/
def Reader.work (r : Reader) : Nat := r.src.data.length + r.pending.length

section Progress

variable {aead : AEAD} {r r' : Reader} {p : Buffer} {res : Result}

theorem Reader.Live.fits (live : r.Live) : r.Fits := fun buf h => Nat.le_of_lt (live buf h)

theorem work_of_none (h : r.buf = none) : r.work = r.src.data.length := by
  rw [Reader.work, Reader.pending, h]
  rfl

theorem copy_live {buf : List UInt8} (hoffset : r.offset ≤ buf.length) (len : Nat) :
    (r.copy buf len).1.Live := by
  intro buf' hbuf
  unfold Reader.copy at hbuf ⊢
  dsimp only at hbuf ⊢
  split at hbuf <;> cases hbuf
  rename_i hne
  have hle : ((buf.drop r.offset).take len).length ≤ buf.length - r.offset := by
    rw [List.length_take, List.length_drop]
    exact Nat.min_le_right _ _
  omega

/-- Copying moves the bytes of `buf` out: nothing is left of them but what is still pending. -/
theorem copy_work {buf : List UInt8} (hoffset : r.offset ≤ buf.length) (p : Buffer) :
    (r.copy buf p.len).1.work + min p.len (buf.length - r.offset) =
      r.src.data.length + (buf.length - r.offset) := by
  obtain ⟨r', res, hcopy, -, -, -, hcursor, hdata⟩ := copy_spec (p := p) hoffset
  have htaken : res.data.length = min p.len (buf.length - r.offset) := by
    unfold Reader.copy at hcopy
    cases hcopy
    rw [List.length_take, List.length_drop]
  have hsplit := congrArg List.length hdata
  rw [List.length_append, List.length_drop, htaken] at hsplit
  rw [hcopy, Reader.work]
  dsimp only
  rw [hcursor]
  omega

theorem read_buf (h : r.read aead p = (r', res)) : r'.buf = r.buf := by
  unfold Reader.read at h
  dsimp only at h
  repeat' split at h
  all_goals
    cases h
    rfl

/-- A chunk that is read has a length in front of it. -/
theorem read_progress (h : r.read aead p = (r', res)) (herr : res.err = none)
    (hcalm : res.panicked = false) :
    r'.src.data.length + res.data.length < r.src.data.length := by
  unfold Reader.read at h
  dsimp only at h
  split at h
  · cases h
    cases hcalm
  · split at h
    · cases h
      cases herr
    · rename_i c size hsize
      split at h
      · cases h
        cases hcalm
      · split at h
        · cases h
          cases herr
        · rename_i c' data hpayload
          cases h
          obtain ⟨p', hopen, hsize'⟩ : ∃ q, c.openNext aead (size + aead.overhead) = (c', .ok q) ∧
              data = q.take size := by
            unfold Cursor.readPayload at hpayload
            split at hpayload <;> cases hpayload
            rename_i q hq
            exact ⟨q, hq, rfl⟩
          have hless := (readSize_eq_ok hsize).2
          have hdata := (readPayload_eq_ok hpayload).1
          have hrest := (openNext_eq_ok hopen).2
          dsimp only
          omega

theorem Read_progress (live : r.Live) (hlen : 0 < p.len) (h : r.Read aead p = (r', res))
    (herr : res.err = none) (hcalm : res.panicked = false) : r'.Live ∧ r'.work < r.work := by
  unfold Reader.Read at h
  cases hbuf : r.buf with
  | some buf =>
    rw [hbuf] at h
    dsimp only at h
    have hoffset := live buf hbuf
    have hwas : r.work = r.src.data.length + (buf.length - r.offset) := by
      rw [Reader.work, Reader.pending, hbuf, List.length_drop]
    have hwork := copy_work (Nat.le_of_lt hoffset) p
    have hlive := copy_live (Nat.le_of_lt hoffset) p.len
    rw [h] at hwork hlive
    refine ⟨hlive, ?_⟩
    dsimp only at hwork
    omega
  | none =>
    rw [hbuf] at h
    dsimp only at h
    have hwas := work_of_none hbuf
    split at h
    · -- the caller's buffer
      have hprogress := read_progress h herr hcalm
      have hnone : r'.buf = none := (read_buf h).trans hbuf
      have hwork := work_of_none hnone
      refine ⟨fun buf hbuf' => ?_, by omega⟩
      cases hnone.symm.trans hbuf'
    · -- the internal one
      cases hread : r.read aead (getBuffer bufSize) with
      | mk r₁ res₁ =>
        rw [hread] at h
        dsimp only at h
        split at h
        · rename_i hstop
          cases h
          rw [herr, hcalm] at hstop
          cases hstop
        · rename_i hgo
          rw [Bool.not_eq_true, Bool.or_eq_false_iff, Option.isSome_eq_false_iff,
            Option.isNone_iff_eq_none] at hgo
          have hprogress := read_progress hread hgo.2 hgo.1
          have hzero := Nat.zero_le res₁.data.length
          have hwork := copy_work (r := { r₁ with offset := 0 }) hzero p
          cases h
          refine ⟨copy_live (r := { r₁ with offset := 0 }) hzero p.len, ?_⟩
          dsimp only at hwork ⊢
          omega

end Progress

/-! ### Round trip -/

/-- What a reading half still has to deliver, if all lengths are in order. -/
def Remains (c : MetaCipher) (fail : IoErr) : StreamReader → List UInt8 → Prop
  | .idle src, text =>
    (src = ⟨[], fail⟩ ∧ text = []) ∨
      ∃ salt : c.Salt, ∃ aead ps, c.Decrypter salt.bytes = .ok aead ∧
        src = ⟨salt.bytes ++ session aead ps, fail⟩ ∧ text = ps.flatten
  | .reading aead r, text =>
    r.Live ∧ (∀ size ∈ (decode aead r.toCursor).sizes, size ≤ maxPayload) ∧
      (decode aead r.toCursor).err = fail ∧ text = r.pending ++ (decode aead r.toCursor).text

/-- The measure: at first there is a salt to be read, too. -/
def StreamReader.work : StreamReader → Nat
  | .idle src => src.data.length + 1
  | .reading _ r => r.work

theorem chunks_le {ps : List (List UInt8)} :
    ∀ c ∈ ps.flatMap (chunks maxPayload), 1 ≤ c.length ∧ c.length ≤ maxPayload := by
  intro c hc
  obtain ⟨p, -, hp⟩ := List.mem_flatMap.mp hc
  exact length_of_mem_chunks hp

theorem session_remains (c : MetaCipher) (aead : AEAD) (ps : List (List UInt8)) (fail : IoErr) :
    Remains c fail (.reading aead (newReader aead ⟨session aead ps, fail⟩)) ps.flatten := by
  have hle : ∀ chunk ∈ ps.flatMap (chunks maxPayload), chunk.length ≤ maxPayload :=
    fun chunk hchunk => (chunks_le chunk hchunk).2
  have hdecode := decode_wire aead hle (List.replicate aead.nonceSize 0) fail
  refine ⟨fun buf h => (by cases h), ?_, ?_, ?_⟩
  · show ∀ size ∈ (decode aead ⟨⟨session aead ps, fail⟩, _⟩).sizes, size ≤ maxPayload
    rw [session, hdecode]
    intro size hsize
    obtain ⟨c, hc, rfl⟩ := List.mem_map.mp hsize
    exact (chunks_le c hc).2
  · show (decode aead ⟨⟨session aead ps, fail⟩, _⟩).err = fail
    rw [session, hdecode]
  · show ps.flatten = [] ++ (decode aead ⟨⟨session aead ps, fail⟩, _⟩).text
    rw [session, hdecode, List.nil_append]
    exact (flatten_flatMap_chunks (by decide) ps).symm

theorem reading_steps (c : MetaCipher) {fail : IoErr} {aead : AEAD} {r : Reader}
    {text : List UInt8} (b : NonEmptyBuffer) (remains : Remains c fail (.reading aead r) text) :
    (∃ s' data text', (streamFeed c).read (.reading aead r) b = (s', data, none) ∧
        text = data ++ text' ∧ Remains c fail s' text' ∧ s'.work < r.work) ∨
      ∃ s', (streamFeed c).read (.reading aead r) b = (s', text, some (.err fail)) := by
  obtain ⟨live, hsizes, herr, rfl⟩ := remains
  obtain ⟨r', res, hread, hsafe, -, hcase⟩ := Read_cases (p := b.toBuffer) live.fits hsizes
  have hcall : (streamFeed c).read (.reading aead r) b =
      (.reading aead r', res.data, res.err.map .err) := by
    simp only [streamFeed, StreamReader.Read, hread, hsafe.returns]
    rfl
  obtain ⟨err, hres, hdata, hpending, htext, herr'⟩ | ⟨hres, htext, herr', hsub⟩ := hcase
  · refine .inr ⟨.reading aead r', ?_⟩
    rw [hcall, hres, hdata, hpending, htext, ← herr, herr']
    rfl
  · obtain ⟨live', hless⟩ := Read_progress live b.len_pos hread hres hsafe.returns
    refine .inl ⟨.reading aead r', res.data, _, ?_, htext,
      ⟨live', ?_, herr'.trans herr, rfl⟩, hless⟩
    · rw [hcall, hres]
      rfl
    · exact fun size h => hsizes size (hsub size h)

theorem streamFeed_steps (c : MetaCipher) (fail : IoErr) :
    (streamFeed c).StepsOn (Remains c fail) StreamReader.work (.err fail) := by
  intro s text b remains
  cases s with
  | reading aead r => exact reading_steps c b remains
  | idle src =>
    obtain ⟨rfl, rfl⟩ | ⟨salt, aead, ps, haead, rfl, rfl⟩ := remains
    · -- nothing was ever written
      refine .inr ⟨.idle ⟨[], fail⟩, ?_⟩
      simp only [streamFeed, StreamReader.Read, initReader, readFull_nil c.saltSize_pos]
      rfl
    · have hcall : (streamFeed c).read (.idle ⟨salt.bytes ++ session aead ps, fail⟩) b =
          (streamFeed c).read (.reading aead (newReader aead ⟨session aead ps, fail⟩)) b := by
        simp only [streamFeed, StreamReader.Read, initReader,
          readFull_append salt.length_bytes, haead]
        rfl
      have hless : (newReader aead ⟨session aead ps, fail⟩).work <
          StreamReader.work (.idle ⟨salt.bytes ++ session aead ps, fail⟩) := by
        show (session aead ps).length + 0 < (salt.bytes ++ session aead ps).length + 1
        rw [List.length_append]
        omega
      rw [hcall]
      obtain ⟨s', data, text', hread', htext, hremains, hwork⟩ | hend :=
        reading_steps c b (session_remains c aead ps fail)
      · exact .inl ⟨s', data, text', hread', htext, hremains, Nat.lt_trans hwork hless⟩
      · exact .inr hend

/-- **Round trip.** Whatever is written, in calls of any length, every call returns the length of
its argument, every chunk carries from 1 to `0x3FFF` bytes, and the peer reads exactly the bytes
written, whatever buffers it reads into, and then the end of the stream. -/
theorem streamConn_roundTrip (c : MetaCipher) (salt : c.Salt) (ps : List (List UInt8))
    (fail : IoErr) :
    (callAll (StreamWriter.Write c salt) (.idle {}) ps).2 = ps.map (fun p => (p.length, none)) ∧
      (∃ aead cs, c.Encrypter salt.bytes = .ok aead ∧ (∀ chunk ∈ cs, 1 ≤ chunk.length ∧
          chunk.length ≤ 0x3FFF) ∧ cs.flatten = ps.flatten ∧
        (callAll (StreamWriter.Write c salt) (.idle {}) ps).1.data =
          if ps = [] then []
          else salt.bytes ++ wire aead (blockCode.encodeAll (List.replicate aead.nonceSize 0) cs)) ∧
      (streamFeed c).Delivers
        (.idle ⟨(callAll (StreamWriter.Write c salt) (.idle {}) ps).1.data, fail⟩)
        ps.flatten (.err fail) := by
  obtain ⟨aead, haead⟩ := c.exists_encrypter salt.bytes
  cases ps with
  | nil =>
    refine ⟨rfl, ⟨aead, [], haead, fun _ h => (by cases h), rfl, rfl⟩, ?_⟩
    exact Feed.delivers_of_left (streamFeed_steps c fail) (.inl ⟨rfl, rfl⟩)
  | cons p ps =>
    obtain ⟨hdata, hresults⟩ := StreamWriter.writes_spec salt haead p ps
    refine ⟨hresults, ⟨aead, (p :: ps).flatMap (chunks maxPayload), haead, chunks_le,
      flatten_flatMap_chunks (by decide) _, ?_⟩, ?_⟩
    · rw [hdata, if_neg nofun]
      rfl
    · rw [hdata]
      exact Feed.delivers_of_left (streamFeed_steps c fail)
        (.inr ⟨salt, aead, p :: ps, haead, rfl, rfl⟩)

/-- A cipher that only adds tags, under a key of zeros. -/
def plainCipher : MetaCipher where
  psk := List.replicate 16 0
  makeAEAD _ := .ok plainAead
  hkdfSHA1 _ _ _ size := List.replicate size 0
  length_hkdfSHA1 _ _ _ _ := List.length_replicate
  makes _ _ := ⟨plainAead, rfl⟩

def onesSalt : plainCipher.Salt := ⟨List.replicate 16 1, rfl⟩

/-- A write that needs two chunks, and one of a single byte. -/
def largeWrites : List (List UInt8) := [List.replicate 20000 7, [8]]

theorem streamConn_roundTrip_large :
    (callAll (StreamWriter.Write plainCipher onesSalt) (.idle {}) largeWrites).2 =
        [(20000, none), (1, none)] ∧
      (streamFeed plainCipher).Delivers
        (.idle ⟨(callAll (StreamWriter.Write plainCipher onesSalt) (.idle {}) largeWrites).1.data,
          .eof⟩)
        (List.replicate 20000 7 ++ [8]) (.err .eof) := by
  obtain ⟨hresults, -, delivers⟩ := streamConn_roundTrip plainCipher onesSalt largeWrites .eof
  have hlengths : largeWrites.map (fun p => (p.length, (none : Option IoErr))) =
      [(20000, none), (1, none)] := by
    rw [largeWrites, List.map_cons, List.map_singleton, List.length_replicate,
      List.length_singleton]
  have hflat : largeWrites.flatten = List.replicate 20000 7 ++ [8] := by
    rw [largeWrites, List.flatten_cons, List.flatten_singleton]
  rw [hflat] at delivers
  exact ⟨hresults.trans hlengths, delivers⟩

end Glider.Ss
