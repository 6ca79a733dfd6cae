/-
Integrity of a shadowsocks AEAD stream: what a reader delivers from bytes somebody else has put
together.

An ideal AEAD is one whose ciphertexts cannot be made without the key. So a stream is
`Unforged` when each part of it that opens, under whatever nonce, was sealed by the writer,
with that nonce. It may otherwise be anything: blocks changed, left out, repeated, or moved.

The nonce is never sent. Reader and writer count, two for each chunk, and the counter goes back
to zero after `256 ^ nonceSize` blocks.

* `decode_prefix_written` — each block that is opened is the next one of the writer's.
* `delivered_prefix_of_unforged` — the bytes delivered are a prefix of those written, as long
  as the counter has not come round.
* `wrapped_nonce_replayed` — after that, the last chunk can be delivered as the first one.
-/

import Glider.Ss.Nonces
import Mathlib.Data.List.Infix

namespace Glider.Ss

open Glider.Go Glider.Lib

/-! ### Streams of an attacker -/

/-- The blocks a writer has sealed after the given calls. -/
def sealedBlocks (aead : AEAD) (ps : List (List UInt8)) : List (List UInt8 × List UInt8) :=
  (callAll (Writer.Write aead) (newWriter aead {}) ps).1.log

/-- What opens was sealed, with the nonce it opens with. -/
def Unforged (aead : AEAD) (blocks : List (List UInt8 × List UInt8)) (stream : List UInt8) : Prop :=
  ∀ nonce c p, nonce.length = aead.nonceSize → c <:+: stream → aead.Open nonce c = some p →
    (nonce, p) ∈ blocks ∧ c = aead.Seal nonce p

theorem sealedBlocks_eq (aead : AEAD) (ps : List (List UInt8)) :
    sealedBlocks aead ps =
      blockCode.encodeAll (List.replicate aead.nonceSize 0) (ps.flatMap (chunks maxPayload)) := by
  have hnew : newWriter aead {} = .sent aead [] (List.replicate aead.nonceSize 0) [] := rfl
  rw [sealedBlocks, hnew, writes_sent]
  rfl

theorem length_encodeAll (nonce : List UInt8) (cs : List (List UInt8)) :
    (blockCode.encodeAll nonce cs).length = 2 * cs.length := by
  induction cs generalizing nonce with
  | nil => rfl
  | cons c cs ih =>
    rw [BlockCode.encodeAll_cons, List.length_append, ih, List.length_cons]
    show 2 + 2 * cs.length = 2 * (cs.length + 1)
    omega

/-- The nonces of the blocks go up. -/
theorem le_of_mem_encodeAll {nonce : List UInt8} {cs : List (List UInt8)}
    (hroom : littleEndian nonce + 2 * cs.length < 256 ^ nonce.length)
    {b : List UInt8 × List UInt8} (hb : b ∈ blockCode.encodeAll nonce cs) :
    littleEndian nonce ≤ littleEndian b.1 := by
  induction cs generalizing nonce with
  | nil => cases hb
  | cons c cs ih =>
    rw [List.length_cons] at hroom
    have hnext := littleEndian_increment_of_lt (b := nonce) (by omega)
    have hnext' := littleEndian_increment_of_lt (b := increment nonce)
      (by rw [length_increment]; omega)
    rw [BlockCode.encodeAll_cons] at hb
    obtain hb | hb := List.mem_append.mp hb
    · obtain rfl | hb := List.mem_cons.mp hb
      · exact Nat.le_refl _
      · rw [List.mem_singleton.mp hb, hnext]
        exact Nat.le_succ _
    · have hle : littleEndian (increment (increment nonce)) ≤ littleEndian b.1 :=
        ih (by rw [length_increment, length_increment]; omega) hb
      omega

/-! ### The reader -/

section Reader

variable {aead : AEAD} {blocks : List (List UInt8 × List UInt8)}

theorem Unforged.of_infix {stream stream' : List UInt8} (unforged : Unforged aead blocks stream)
    (h : stream' <:+: stream) : Unforged aead blocks stream' :=
  fun nonce c p hlen hc hopen => unforged nonce c p hlen (hc.trans h) hopen

/-- A block that is opened was sealed under the reader's nonce. -/
theorem openNext_unforged {c c' : Cursor} {n : Nat} {p : List UInt8}
    (hlen : c.nonce.length = aead.nonceSize) (unforged : Unforged aead blocks c.src.data)
    (h : c.openNext aead n = (c', .ok p)) :
    ∃ text tail, p = text ++ tail ∧ (c.nonce, text) ∈ blocks ∧
      c'.nonce = increment c.nonce ∧ c'.src.data <:+: c.src.data := by
  unfold Cursor.openNext at h
  split at h
  · cases h
  rename_i q src hread
  obtain ⟨-, hdata, -⟩ := readFull_eq_ok hread
  split at h <;> cases h
  rename_i text hopen
  have hin : q <:+: c.src.data := ⟨[], src.data, by rw [hdata, List.nil_append]⟩
  refine ⟨text, q.drop text.length, rfl, (unforged _ _ _ hlen hin hopen).1, rfl, ?_⟩
  exact ⟨q, [], by rw [hdata, List.append_nil]⟩

/-- The reader has come to `nonce`, where the chunks `cs` begin: of the blocks that were sealed,
those whose nonce is not behind it are theirs. The nonces are enough for them. -/
structure Ahead (aead : AEAD) (blocks : List (List UInt8 × List UInt8)) (nonce : List UInt8)
    (cs : List (List UInt8)) : Prop where
  length_nonce : nonce.length = aead.nonceSize
  room : littleEndian nonce + 2 * cs.length < 256 ^ nonce.length
  mem : ∀ b ∈ blocks, littleEndian nonce ≤ littleEndian b.1 → b ∈ blockCode.encodeAll nonce cs

namespace Ahead

variable {nonce chunk p : List UInt8} {cs : List (List UInt8)}

theorem nil (ahead : Ahead aead blocks nonce []) : (nonce, p) ∉ blocks :=
  fun h => by cases ahead.mem _ h (Nat.le_refl _)

theorem counter (ahead : Ahead aead blocks nonce (chunk :: cs)) :
    littleEndian (increment nonce) = littleEndian nonce + 1 ∧
      littleEndian (increment (increment nonce)) = littleEndian nonce + 2 := by
  have hroom := ahead.room
  rw [List.length_cons] at hroom
  have hnext := littleEndian_increment_of_lt (b := nonce) (by omega)
  have hnext' := littleEndian_increment_of_lt (b := increment nonce)
    (by rw [length_increment]; omega)
  omega

/-- The two blocks of the next chunk, and those of the others. -/
theorem cases_of_mem (ahead : Ahead aead blocks nonce (chunk :: cs)) {b : List UInt8 × List UInt8}
    (hb : b ∈ blocks) (hle : littleEndian nonce ≤ littleEndian b.1) :
    b = (nonce, bigEndianBytes lenSize chunk.length) ∨ b = (increment nonce, chunk) ∨
      b ∈ blockCode.encodeAll (increment (increment nonce)) cs ∧
        littleEndian nonce + 2 ≤ littleEndian b.1 := by
  have hroom := ahead.room
  have hcounter := ahead.counter
  rw [List.length_cons] at hroom
  obtain hb | hb := List.mem_append.mp (ahead.mem b hb hle)
  · obtain rfl | hb := List.mem_cons.mp hb
    · exact .inl rfl
    · exact .inr (.inl (List.mem_singleton.mp hb))
  · have hle : littleEndian (increment (increment nonce)) ≤ littleEndian b.1 :=
      @le_of_mem_encodeAll (increment (increment nonce)) cs
        (by rw [length_increment, length_increment]; omega) b hb
    exact .inr (.inr ⟨hb, hcounter.2 ▸ hle⟩)

/-- The first nonce is that of a length. -/
theorem size_eq (ahead : Ahead aead blocks nonce (chunk :: cs)) (h : (nonce, p) ∈ blocks) :
    p = bigEndianBytes lenSize chunk.length := by
  have hcounter := ahead.counter
  obtain heq | heq | ⟨-, hle⟩ := ahead.cases_of_mem h (Nat.le_refl _)
  · exact (Prod.mk.inj heq).2
  · have hnonce := congrArg (littleEndian ·.1) heq
    dsimp only at hnonce
    omega
  · dsimp only at hle
    omega

/-- The second one is that of a payload. -/
theorem payload_eq (ahead : Ahead aead blocks nonce (chunk :: cs))
    (h : (increment nonce, p) ∈ blocks) : p = chunk := by
  have hcounter := ahead.counter
  obtain heq | heq | ⟨-, hle⟩ := ahead.cases_of_mem h (by dsimp only; omega)
  · have hnonce := congrArg (littleEndian ·.1) heq
    dsimp only at hnonce
    omega
  · exact (Prod.mk.inj heq).2
  · dsimp only at hle
    omega

/-- After both the reader is at the chunks that follow. -/
theorem next (ahead : Ahead aead blocks nonce (chunk :: cs)) :
    Ahead aead blocks (increment (increment nonce)) cs := by
  have hroom := ahead.room
  have hcounter := ahead.counter
  rw [List.length_cons] at hroom
  refine ⟨?_, ?_, fun b hb hle => ?_⟩
  · rw [length_increment, length_increment, ahead.length_nonce]
  · rw [length_increment, length_increment]
    omega
  · obtain rfl | rfl | ⟨hmem, -⟩ := ahead.cases_of_mem hb (by omega)
    · dsimp only at hle
      omega
    · dsimp only at hle
      omega
    · exact hmem

end Ahead

section Next

variable {c c' : Cursor}

/-- A length that is opened is the one that was sealed with the reader's nonce. -/
theorem readSize_unforged {size : Nat} (hlen : c.nonce.length = aead.nonceSize)
    (unforged : Unforged aead blocks c.src.data) (h : c.readSize aead = (c', .ok size)) :
    ∃ text, (c.nonce, text) ∈ blocks ∧
      (∀ n ≤ maxPayload, text = bigEndianBytes lenSize n → size = n) ∧
      c'.nonce = increment c.nonce ∧ c'.src.data <:+: c.src.data := by
  unfold Cursor.readSize at h
  split at h <;> cases h
  rename_i p hopen
  obtain ⟨text, tail, rfl, hmem, hnonce, hin⟩ := openNext_unforged hlen unforged hopen
  refine ⟨text, hmem, ?_, hnonce, hin⟩
  rintro n hn rfl
  have hlt : n < 256 ^ lenSize := Nat.lt_of_le_of_lt hn (by decide)
  rw [List.take_left' (length_bigEndianBytes _ _), bigEndian_bigEndianBytes,
    Nat.mod_eq_of_lt hlt]

/-- And so is a payload. -/
theorem readPayload_unforged {chunk data : List UInt8} (hlen : c.nonce.length = aead.nonceSize)
    (unforged : Unforged aead blocks c.src.data)
    (h : c.readPayload aead chunk.length = (c', .ok data)) :
    ∃ text, (c.nonce, text) ∈ blocks ∧ (text = chunk → data = chunk) ∧
      c'.nonce = increment c.nonce ∧ c'.src.data <:+: c.src.data := by
  unfold Cursor.readPayload at h
  split at h <;> cases h
  rename_i p hopen
  obtain ⟨text, tail, rfl, hmem, hnonce, hin⟩ := openNext_unforged hlen unforged hopen
  refine ⟨text, hmem, ?_, hnonce, hin⟩
  rintro rfl
  exact List.take_left

end Next

/-- **Each block opened is the next one.** What is read from where the chunks `cs` begin is a
prefix of them. -/
theorem decode_prefix_written {cs : List (List UInt8)} {c : Cursor}
    (ahead : Ahead aead blocks c.nonce cs) (hcs : ∀ chunk ∈ cs, chunk.length ≤ maxPayload)
    (unforged : Unforged aead blocks c.src.data) :
    (decode aead c).text <+: cs.flatten ∧ ∀ size ∈ (decode aead c).sizes, size ≤ maxPayload := by
  induction cs generalizing c with
  | nil =>
    cases hsize : c.readSize aead with
    | mk c₁ size? =>
      cases size? with
      | error err =>
        rw [decode_of_size_error hsize]
        exact ⟨List.prefix_rfl, nofun⟩
      | ok size =>
        obtain ⟨text, hmem, -⟩ := readSize_unforged ahead.length_nonce unforged hsize
        exact absurd hmem ahead.nil
  | cons chunk cs ih =>
    have hchunk := hcs chunk List.mem_cons_self
    cases hsize : c.readSize aead with
    | mk c₁ size? =>
      cases size? with
      | error err =>
        rw [decode_of_size_error hsize]
        exact ⟨List.nil_prefix, nofun⟩
      | ok size =>
        obtain ⟨text, hmem, hvalue, hnonce₁, hin₁⟩ :=
          readSize_unforged ahead.length_nonce unforged hsize
        obtain rfl := hvalue _ hchunk (ahead.size_eq hmem)
        have unforged₁ := unforged.of_infix hin₁
        cases hpayload : c₁.readPayload aead chunk.length with
        | mk c₂ data? =>
          cases data? with
          | error err =>
            rw [decode_of_payload_error hsize hpayload]
            refine ⟨List.nil_prefix, fun s hs => ?_⟩
            rw [List.mem_singleton.mp hs]
            exact hchunk
          | ok data =>
            obtain ⟨text', hmem', hdata, hnonce₂, hin₂⟩ := readPayload_unforged
              (by rw [hnonce₁, length_increment, ahead.length_nonce]) unforged₁ hpayload
            obtain rfl := hdata (ahead.payload_eq (hnonce₁ ▸ hmem'))
            obtain ⟨hpre, hsizes⟩ := ih (by rw [hnonce₂, hnonce₁]; exact ahead.next)
              (fun d hd => hcs d (List.mem_cons_of_mem _ hd)) (unforged₁.of_infix hin₂)
            rw [decode_of_chunk hsize hpayload, List.flatten_cons]
            refine ⟨(List.prefix_append_right_inj _).mpr hpre, fun s hs => ?_⟩
            obtain rfl | hs := List.mem_cons.mp hs
            · exact hchunk
            · exact hsizes s hs

end Reader

/-- **Integrity.** A writer has sealed fewer blocks than there are nonces. Whatever is made of
them on the way, as long as nothing is forged the reader delivers a prefix of the bytes written
before its first error. -/
theorem delivered_prefix_of_unforged (aead : AEAD) (ps : List (List UInt8)) (src : Source)
    (hfew : (sealedBlocks aead ps).length < 256 ^ aead.nonceSize)
    (unforged : Unforged aead (sealedBlocks aead ps) src.data) (bufs : List Buffer) (s : Reading)
    (hrun : (reads aead).run (.start aead src) bufs = some s) : s.delivered <+: ps.flatten := by
  have hcs : ∀ c ∈ ps.flatMap (chunks maxPayload), c.length ≤ maxPayload := by
    intro c hc
    obtain ⟨p, -, hp⟩ := List.mem_flatMap.mp hc
    exact (length_of_mem_chunks hp).2
  have hstart : littleEndian (List.replicate aead.nonceSize 0) = 0 := littleEndian_replicate _
  rw [sealedBlocks_eq, length_encodeAll] at hfew
  have ahead : Ahead aead (sealedBlocks aead ps) (newReader aead src).nonce
      (ps.flatMap (chunks maxPayload)) := by
    refine ⟨List.length_replicate .., ?_, fun b hb _ => sealedBlocks_eq aead ps ▸ hb⟩
    rw [newReader, hstart, Nat.zero_add, List.length_replicate]
    exact hfew
  obtain ⟨hpre, hsizes⟩ := decode_prefix_written ahead hcs unforged
  rw [flatten_flatMap_chunks (by decide)] at hpre
  exact List.IsPrefix.trans (Tracks.delivered_prefix (Tracks.of_run hsizes hrun)) hpre

/-! ### A counter that has come round -/

/-- An AEAD that hides nothing: the tag is the nonce, a mark and the length. -/
def tag (nonce p : List UInt8) : List UInt8 :=
  (nonce ++ List.replicate 12 0).take 12 ++ [0xa5, 0xa5] ++ bigEndianBytes 2 p.length

theorem length_tag (nonce p : List UInt8) : (tag nonce p).length = 16 := by
  simp [tag]

def taggedAead : AEAD where
  nonceSize := 12
  overhead := 16
  Seal nonce p := p ++ tag nonce p
  Open nonce c :=
    if 16 ≤ c.length ∧ c.drop (c.length - 16) = tag nonce (c.take (c.length - 16)) then
      some (c.take (c.length - 16))
    else none
  authErr := .text (ascii "cipher: message authentication failed")
  open_seal nonce p := by simp [length_tag]
  length_seal nonce p := by rw [List.length_append, length_tag]
  length_open nonce c p h := by
    split at h <;> cases h
    rename_i hc
    rw [List.length_take]
    omega
  nonceSize_le := plainAead.nonceSize_le
  fits := plainAead.fits

/-- A part of a stream opens only under the nonce that its tag names, and is then one of the
given blocks. -/
def windowOk (blocks : List (List UInt8 × List UInt8)) (c : List UInt8) : Bool :=
  let nonce := (c.drop (c.length - 16)).take 12
  let p := c.take (c.length - 16)
  !(decide (16 ≤ c.length) && (c.drop (c.length - 16) == tag nonce p)) || blocks.contains (nonce, p)

theorem unforged_of_windows {blocks blocks' : List (List UInt8 × List UInt8)} {stream : List UInt8}
    (hsub : ∀ b ∈ blocks', b ∈ blocks)
    (hall : ∀ i ≤ stream.length, ∀ k ≤ stream.length,
      windowOk blocks' ((stream.drop i).take k) = true) :
    Unforged taggedAead blocks stream := by
  rintro nonce c p hlen ⟨pre, post, rfl⟩ hopen
  have hopen' := hopen
  simp only [taggedAead] at hopen' hlen
  split at hopen' <;> cases hopen'
  rename_i hc
  have hnonce : (c.drop (c.length - 16)).take 12 = nonce := by
    have htake : (nonce ++ List.replicate 12 (0 : UInt8)).take 12 = nonce := List.take_left' hlen
    rw [hc.2, tag, htake, List.append_assoc]
    exact List.take_left' hlen
  have hwindow := hall pre.length (by simp) c.length (by simp; omega)
  rw [List.append_assoc, List.drop_left, List.take_left, windowOk, hnonce, ← hc.2] at hwindow
  simp only [hc.1, decide_true, beq_self_eq_true, Bool.and_self, Bool.not_true, Bool.false_or,
    List.contains_iff_mem] at hwindow
  refine ⟨hsub _ hwindow, ?_⟩
  show c = c.take (c.length - 16) ++ tag nonce (c.take (c.length - 16))
  rw [← hc.2, List.take_append_drop]

/-- With half as many one-byte chunks as there are nonces, the next chunk has the nonces of the
first. -/
theorem mem_sealedBlocks_wrap (aead : AEAD) {n : Nat} (hn : 2 * n = 256 ^ aead.nonceSize)
    (hpos : 0 < n) :
    (List.replicate aead.nonceSize 0, [0, 1]) ∈
        sealedBlocks aead (List.replicate n [0] ++ [[1]]) ∧
      (increment (List.replicate aead.nonceSize 0), [1]) ∈
        sealedBlocks aead (List.replicate n [0] ++ [[1]]) := by
  have hcs : (List.replicate n [(0 : UInt8)] ++ [[1]]).flatMap (chunks maxPayload) =
      List.replicate n [0] ++ [[1]] := by
    have hone : ∀ b : UInt8, chunks maxPayload [b] = [[b]] := fun b =>
      chunks_of_length_le (by simp) (Nat.succ_le_of_lt (by decide))
    rw [List.flatMap_append, List.flatMap_replicate, hone, List.flatMap_singleton, hone,
      List.flatten_replicate_singleton]
  have hround : blockCode.after (List.replicate aead.nonceSize 0) (List.replicate n [(0 : UInt8)]) =
      List.replicate aead.nonceSize 0 := by
    have hdouble : blockCode.next = increment^[2] := rfl
    have hwrap := iterate_increment_wrap (List.replicate aead.nonceSize 0)
    rw [List.length_replicate, ← hn, Function.iterate_mul] at hwrap
    rw [BlockCode.after, List.length_replicate, hdouble]
    exact hwrap
  obtain ⟨m, rfl⟩ := Nat.exists_eq_succ_of_ne_zero (Nat.ne_of_gt hpos)
  rw [sealedBlocks_eq, hcs, BlockCode.encodeAll_append, hround]
  refine ⟨List.mem_append_left _ ?_, List.mem_append_right _ ?_⟩
  · rw [List.replicate_succ, BlockCode.encodeAll_cons]
    exact List.mem_append_left _ List.mem_cons_self
  · exact List.mem_append_left _ (List.mem_cons_of_mem _ List.mem_cons_self)

/-- The chunk `[1]` with the first two nonces. -/
def replayed : List UInt8 :=
  taggedAead.Seal (List.replicate 12 0) [0, 1] ++
    taggedAead.Seal (increment (List.replicate 12 0)) [1]

/-- A writer sends `2 ^ 95` times the byte 0, and then the byte 1, each in a call of its own. Its
last chunk has the nonces of the first one, and a reader that gets nothing else delivers it. -/
theorem wrapped_nonce_replayed :
    Unforged taggedAead (sealedBlocks taggedAead (List.replicate (2 ^ 95) [0] ++ [[1]])) replayed ∧
      ∃ s, (reads taggedAead).run (.start taggedAead ⟨replayed, .eof⟩)
          [⟨16399, 16399, Nat.le_refl _⟩] = some s ∧
        ¬ s.delivered <+: (List.replicate (2 ^ 95) [(0 : UInt8)] ++ [[1]]).flatten := by
  obtain ⟨hfirst, hlast⟩ := mem_sealedBlocks_wrap taggedAead (n := 2 ^ 95) (by decide) (by decide)
  have hsub : ∀ b ∈ [(List.replicate 12 0, [0, 1]), (increment (List.replicate 12 0), [1])],
      b ∈ sealedBlocks taggedAead (List.replicate (2 ^ 95) [0] ++ [[1]]) := by
    intro b hb
    obtain rfl | hb := List.mem_cons.mp hb
    · exact hfirst
    · rw [List.mem_singleton.mp hb]
      exact hlast
  refine ⟨unforged_of_windows hsub (by decide +kernel), ?_⟩
  · have hrun : ((reads taggedAead).run (.start taggedAead ⟨replayed, .eof⟩)
        [⟨16399, 16399, Nat.le_refl _⟩]).map (fun s => s.delivered) = some [1] := by
      decide +kernel
    obtain ⟨s, hs, hdelivered⟩ := Option.map_eq_some_iff.mp hrun
    have hwritten : ∀ n : Nat, 0 < n →
        ¬ [(1 : UInt8)] <+: (List.replicate n [(0 : UInt8)] ++ [[1]]).flatten := by
      intro n hn hpre
      obtain ⟨m, rfl⟩ := Nat.exists_eq_succ_of_ne_zero (Nat.ne_of_gt hn)
      rw [List.replicate_succ, List.cons_append, List.flatten_cons, List.singleton_append,
        List.cons_prefix_cons] at hpre
      exact absurd hpre.1 (by decide)
    refine ⟨s, hs, ?_⟩
    rw [hdelivered]
    exact hwritten _ (by decide)

/-- A reader that gets the output of one call as it is, in two small buffers. -/
theorem delivered_prefix_of_two_bytes :
    ∃ s, (reads taggedAead).run (.start taggedAead ⟨wire taggedAead
        (blockCode.encodeAll (List.replicate 12 0) [[7, 8]]), .eof⟩)
        [⟨1, 1, Nat.le_refl _⟩, ⟨1, 1, Nat.le_refl _⟩] = some s ∧
      s.delivered <+: [[(7 : UInt8), 8]].flatten := by
  have hblocks : sealedBlocks taggedAead [[7, 8]] =
      blockCode.encodeAll (List.replicate 12 0) [[7, 8]] := by
    rw [sealedBlocks_eq, List.flatMap_singleton, chunks_of_length_le (by decide) (by decide)]
    rfl
  have hrun : ((reads taggedAead).run (.start taggedAead ⟨wire taggedAead
      (blockCode.encodeAll (List.replicate 12 0) [[7, 8]]), .eof⟩)
      [⟨1, 1, Nat.le_refl _⟩, ⟨1, 1, Nat.le_refl _⟩]).isSome = true := by
    decide +kernel
  obtain ⟨s, hs⟩ := Option.isSome_iff_exists.mp hrun
  refine ⟨s, hs, delivered_prefix_of_unforged taggedAead [[7, 8]] _ ?_ ?_ _ s hs⟩
  · rw [hblocks]
    decide
  · rw [hblocks]
    exact unforged_of_windows (fun b hb => hb) (by decide +kernel)

end Glider.Ss
