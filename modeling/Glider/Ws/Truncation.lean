/-
A websocket stream that ends early (`proxy/ws/frame.go`).

When the stream ends within a payload, `io.ReadFull` returns the bytes that are there together with
an error, and `Read` passes both on before it has taken the mask off.

* `read_cut` — one call on a stream that has been cut.
* `truncation_iff` — what all the calls return is a prefix of what was written exactly if the
  mask key is zero wherever it covers a byte of the incomplete payload.
* `masked_bytes_returned` — a payload cut after its first byte.
-/

import Glider.Lib.Reads
import Glider.Ws.FrameWriter

namespace Glider.Ws

open Glider.Go Glider.Lib

/-! ### Calls -/

/-- Calls with buffers of the given sizes, whatever they return. -/
def readAll (lens : List Nat) (r : FrameReader) : List Result × FrameReader :=
  each (fun len r => ((r.read len).2, (r.read len).1)) lens r

/-- The bytes of all the calls, those that come with an error included. -/
def returned (lens : List Nat) (r : FrameReader) : List UInt8 :=
  (readAll lens r).1.flatMap Result.data

theorem returned_cons (len : Nat) (lens : List Nat) (r : FrameReader) :
    returned (len :: lens) r = (r.read len).2.data ++ returned lens (r.read len).1 := rfl

/-! ### The cut -/

/-- Everything before the payload of a client's frame. -/
def headerLen (b : Payload) : Nat := (header false b.bytes.length).length + 4

/-- The frames of a client. -/
def wire (maskKey : Fin 4 → UInt8) (bs : List Payload) : List UInt8 :=
  bs.flatMap fun b => frame false maskKey b.bytes

/-- How many payload bytes of an incomplete frame come before the `k`-th byte of the stream. -/
def cutPayload : List Payload → Nat → Nat
  | [], _ => 0
  | b :: bs, k =>
    if headerLen b + b.bytes.length ≤ k then cutPayload bs (k - (headerLen b + b.bytes.length))
    else k - headerLen b

/-- The byte of the mask over the `i`-th byte of a payload. -/
def keyAt (maskKey : Fin 4 → UInt8) (i : Nat) : UInt8 := maskKey (Fin.ofNat 4 i)

/-- The mask covers none of the bytes of the incomplete payload. -/
def Intact (maskKey : Fin 4 → UInt8) (bs : List Payload) (k : Nat) : Prop :=
  ∀ i < cutPayload bs k, keyAt maskKey i = 0

theorem frame_eq (maskKey : Fin 4 → UInt8) (b : Payload) :
    frame false maskKey b.bytes =
      (header false b.bytes.length ++ List.ofFn maskKey) ++ masked maskKey 0 b.bytes := by
  rw [frame, List.append_assoc]
  rfl

theorem length_before (maskKey : Fin 4 → UInt8) (b : Payload) :
    (header false b.bytes.length ++ List.ofFn maskKey).length = headerLen b := by
  rw [List.length_append, List.length_ofFn, headerLen]

/-- A mask leaves bytes as they are exactly if it is zero over them. -/
theorem masked_eq_self_iff {maskKey : Fin 4 → UInt8} {b : List UInt8} :
    masked maskKey 0 b = b ↔ ∀ i < b.length, keyAt maskKey i = 0 := by
  constructor
  · intro heq i hi
    have hbyte : (masked maskKey 0 b).getD i 0 = b.getD i 0 := by rw [heq]
    simp only [masked, List.getD_eq_getElem?_getD, List.getElem?_mapIdx,
      List.getElem?_eq_getElem hi, Option.map_some, Option.getD_some, Nat.add_zero] at hbyte
    have hzero : b[i] ^^^ (b[i] ^^^ keyAt maskKey i) = b[i] ^^^ b[i] := congrArg (b[i] ^^^ ·) hbyte
    rwa [← UInt8.xor_assoc, UInt8.xor_self, UInt8.zero_xor] at hzero
  · intro hzero
    apply List.ext_getElem
    · exact length_masked b
    · intro i hi hi'
      have hkey := hzero i hi'
      simp only [masked, List.getElem_mapIdx, Nat.add_zero]
      exact (congrArg (b[i] ^^^ ·) hkey).trans UInt8.xor_zero

/-! ### Reads of a cut stream -/

/-- `io.ReadFull` before the cut. -/
theorem readFull_take {n k : Nat} {data : List UInt8} {fail : IoErr} (hdata : n ≤ data.length)
    (hk : n ≤ k) :
    readFull n ⟨data.take k, fail⟩ = (data.take n, none, ⟨(data.drop n).take (k - n), fail⟩) := by
  have hle : n ≤ (data.take k).length := by
    rw [List.length_take]
    omega
  unfold readFull
  dsimp only
  rw [if_pos hle, List.take_take, Nat.min_eq_left hk, List.drop_take]

/-- `io.ReadFull` across the cut. -/
theorem readFull_cut {n k : Nat} {data : List UInt8} {fail : IoErr} (hk : k < n) :
    ∃ err, readFull n ⟨data.take k, fail⟩ = (data.take k, some err, ⟨[], fail⟩) := by
  have hlt : ¬ n ≤ (data.take k).length := by
    rw [List.length_take]
    omega
  unfold readFull
  dsimp only
  rw [if_neg hlt]
  exact ⟨_, rfl⟩

section Read

variable {r : FrameReader} {maskKey : Fin 4 → UInt8} {fail : IoErr}

variable {rest : List UInt8}

/-- The header of a frame, with its mask key. -/
theorem readHeader_masked {n : Nat} (hn : n < 2 ^ 63) (hserver : r.server = true)
    (hsrc : r.src = ⟨(header false n ++ List.ofFn maskKey) ++ rest, fail⟩) :
    r.readHeader =
      ({ r with src := ⟨rest, fail⟩, left := n, maskKey := maskKey, maskOffset := 0 }, none) := by
  rw [List.append_assoc] at hsrc
  have hkey : (fun i : Fin 4 => (List.ofFn maskKey).getD i (r.maskKey i)) = maskKey := by
    funext i
    match i with
    | 0 | 1 | 2 | 3 => rfl
  unfold FrameReader.readHeader
  rw [readLength_header hn hsrc]
  dsimp only
  unfold FrameReader.readMaskKey
  dsimp only
  rw [if_pos hserver, readFull_append (List.length_ofFn ..)]
  dsimp only
  rw [hkey]

/-- Nothing is left to be read. -/
structure Drained (r : FrameReader) : Prop where
  src : r.src.data = []
  left : 0 ≤ r.left

/-- A header that cannot be read takes everything with it. -/
theorem drained_of_readLength {r' : FrameReader} {err : IoErr} (hleft : 0 ≤ r.left)
    (h : r.readLength = (r', some err)) : Drained r' := by
  unfold FrameReader.readLength at h
  split at h
  · rename_i hread
    cases h
    exact ⟨(readFull_eq_error hread).2.2.1, hleft⟩
  dsimp only at h
  split at h
  · split at h <;> cases h
    rename_i hread
    exact ⟨(readFull_eq_error hread).2.2.1, Int.natCast_nonneg 126⟩
  split at h
  · split at h <;> cases h
    rename_i hread
    exact ⟨(readFull_eq_error hread).2.2.1, Int.natCast_nonneg 127⟩
  · cases h

theorem drained_of_readMaskKey {r' : FrameReader} {err : IoErr} (hleft : 0 ≤ r.left)
    (h : r.readMaskKey = (r', some err)) : Drained r' := by
  unfold FrameReader.readMaskKey at h
  split at h
  · split at h <;> cases h
    rename_i hread
    exact ⟨(readFull_eq_error hread).2.2.1, hleft⟩
  · cases h

/-- The length of a header that is cut cannot be read. -/
theorem readLength_cut {n k : Nat} (hk : k < (header false n).length)
    (hsrc : r.src = ⟨(header false n ++ rest).take k, fail⟩) :
    ∃ r' err, r.readLength = (r', some err) := by
  unfold FrameReader.readLength
  rw [hsrc]
  by_cases htwo : k < 2
  · obtain ⟨err, hread⟩ := @readFull_cut 2 k (header false n ++ rest) fail htwo
    rw [hread]
    exact ⟨_, err, rfl⟩
  · -- the first two bytes are there, so the length has an extension
    have extended : ∀ {second : UInt8} {ext : List UInt8}, header false n = 0x82 :: second :: ext →
        readFull 2 ⟨(header false n ++ rest).take k, fail⟩ =
            ([0x82, second], none, ⟨(ext ++ rest).take (k - 2), fail⟩) ∧ k - 2 < ext.length := by
      intro second ext hheader
      rw [hheader] at hk ⊢
      refine ⟨readFull_take (by simp) (by omega), ?_⟩
      simp only [List.length_cons] at hk
      omega
    by_cases hshort : n ≤ 125
    · rw [header, if_pos hshort] at hk
      exact absurd hk htwo
    by_cases hmedium : n < 65536
    · have hheader : header false n = 0x82 :: (maskBit false ||| 126) :: bigEndianBytes 2 n := by
        rw [header, if_neg hshort, if_pos hmedium]
      have hbyte : ([0x82, maskBit false ||| 126].getD 1 0 &&& 0x7f).toNat = 126 :=
        header_length_byte false 126
      obtain ⟨hread, hext⟩ := extended hheader
      rw [length_bigEndianBytes] at hext
      obtain ⟨err, hcut⟩ := @readFull_cut 2 (k - 2) (bigEndianBytes 2 n ++ rest) fail hext
      rw [hread]
      dsimp only
      rw [hbyte, if_pos rfl, hcut]
      exact ⟨_, err, rfl⟩
    · have hheader : header false n = 0x82 :: (maskBit false ||| 127) :: bigEndianBytes 8 n := by
        rw [header, if_neg hshort, if_neg hmedium]
      have hbyte : ([0x82, maskBit false ||| 127].getD 1 0 &&& 0x7f).toNat = 127 :=
        header_length_byte false 127
      obtain ⟨hread, hext⟩ := extended hheader
      rw [length_bigEndianBytes] at hext
      obtain ⟨err, hcut⟩ := @readFull_cut 8 (k - 2) (bigEndianBytes 8 n ++ rest) fail hext
      rw [hread]
      dsimp only
      rw [hbyte, if_neg (by decide), if_pos rfl, hcut]
      exact ⟨_, err, rfl⟩

/-- A header that is cut, within its length or within its mask key, cannot be read. -/
theorem readHeader_cut {n k : Nat} (hn : n < 2 ^ 63) (hserver : r.server = true)
    (hleft : 0 ≤ r.left) (hk : k < (header false n).length + 4)
    (hsrc : r.src = ⟨((header false n ++ List.ofFn maskKey) ++ rest).take k, fail⟩) :
    ∃ r' err, r.readHeader = (r', some err) ∧ Drained r' := by
  rw [List.append_assoc] at hsrc
  unfold FrameReader.readHeader
  by_cases hlength : k < (header false n).length
  · obtain ⟨r', err, hread⟩ := readLength_cut hlength hsrc
    rw [hread]
    exact ⟨r', err, rfl, drained_of_readLength hleft hread⟩
  · rw [Nat.not_lt] at hlength
    rw [List.take_append, List.take_of_length_le hlength] at hsrc
    rw [readLength_header hn hsrc]
    dsimp only
    have hkey : k - (header false n).length < 4 := by omega
    obtain ⟨err, hcut⟩ := @readFull_cut 4 (k - (header false n).length)
      (List.ofFn maskKey ++ rest) fail hkey
    have hmask : ∃ r', FrameReader.readMaskKey { r with
        src := ⟨(List.ofFn maskKey ++ rest).take (k - (header false n).length), fail⟩,
        left := n } = (r', some err) := by
      unfold FrameReader.readMaskKey
      dsimp only
      rw [if_pos hserver, hcut]
      exact ⟨_, rfl⟩
    obtain ⟨r', hread⟩ := hmask
    rw [hread]
    exact ⟨r', err, rfl, drained_of_readMaskKey (Int.natCast_nonneg n) hread⟩

/-- What a payload read does to the part `b` of a payload that is left, when all it asks for comes
before the cut. -/
theorem readPayload_take {b rest : List UInt8} {len m k : Nat} (hserver : r.server = true)
    (hleft : r.left = b.length) (hm : m = min len b.length) (hk : m ≤ k)
    (hsrc : r.src = ⟨(masked r.maskKey r.maskOffset b ++ rest).take k, fail⟩) :
    ∃ r', (r.readPayload len).1 = r' ∧ (r.readPayload len).2.data = b.take m ∧
      r'.server = true ∧ r'.maskKey = r.maskKey ∧ r'.maskOffset = (m + r.maskOffset) % 4 ∧
      r'.left = (b.drop m).length ∧
      r'.src = ⟨(masked r'.maskKey r'.maskOffset (b.drop m) ++ rest).take (k - m), fail⟩ := by
  have hreadLen := r.readLen_eq len hleft
  rw [← hm] at hreadLen
  have hle : m ≤ (masked r.maskKey r.maskOffset b).length := by
    rw [length_masked]
    omega
  have hread : readFull m r.src = (masked r.maskKey r.maskOffset (b.take m), none,
      ⟨(masked r.maskKey ((m + r.maskOffset) % 4) (b.drop m) ++ rest).take (k - m), fail⟩) := by
    rw [hsrc, readFull_take (by rw [List.length_append]; omega) hk,
      List.take_append_of_le_length hle, List.drop_append_of_le_length hle, masked_take,
      masked_drop]
  have hdata : (masked r.maskKey r.maskOffset (b.take m)).length = m := by
    rw [length_masked, List.length_take]
    omega
  unfold FrameReader.readPayload
  rw [hreadLen]
  dsimp only
  rw [if_neg (Int.not_lt.mpr (Int.natCast_nonneg _)), Int.toNat_natCast, hread]
  dsimp only
  rw [if_pos hserver, if_pos hserver, hdata, r.unmask_eq, masked_masked]
  refine ⟨_, rfl, rfl, hserver, rfl, rfl, ?_, rfl⟩
  dsimp only
  rw [hleft, List.length_drop]
  omega

/-- A payload read across the cut returns what is there as it is on the wire. -/
theorem readPayload_cut {b rest : List UInt8} {len k : Nat} (hleft : r.left = b.length)
    (hk : k < min len b.length)
    (hsrc : r.src = ⟨(masked r.maskKey r.maskOffset b ++ rest).take k, fail⟩) :
    (r.readPayload len).2.data = masked r.maskKey r.maskOffset (b.take k) ∧
      Drained (r.readPayload len).1 := by
  have hreadLen := r.readLen_eq len hleft
  have hle : k ≤ (masked r.maskKey r.maskOffset b).length := by
    rw [length_masked]
    omega
  obtain ⟨err, hread⟩ := @readFull_cut _ _ (masked r.maskKey r.maskOffset b ++ rest) fail hk
  rw [List.take_append_of_le_length hle] at hread hsrc
  unfold FrameReader.readPayload
  rw [hreadLen]
  dsimp only
  rw [if_neg (Int.not_lt.mpr (Int.natCast_nonneg _)), Int.toNat_natCast, hsrc, hread]
  refine ⟨masked_take b k, rfl, ?_⟩
  dsimp only
  rw [hleft]
  exact Int.natCast_nonneg _

theorem Drained.readPayload {len : Nat} (drained : Drained r) :
    (r.readPayload len).2.data = [] ∧ Drained (r.readPayload len).1 := by
  have hempty : ∀ n, ∃ err, readFull n r.src = ([], err, ⟨[], r.src.fail⟩) := by
    intro n
    have hsrc : r.src = ⟨[], r.src.fail⟩ := by rw [← drained.src]
    rw [hsrc]
    cases n with
    | zero => exact ⟨none, rfl⟩
    | succ n => exact ⟨some r.src.fail, rfl⟩
  have hleft := drained.left
  unfold FrameReader.readPayload
  dsimp only
  rw [if_neg (by split <;> omega)]
  obtain ⟨err, hread⟩ := hempty (if r.left < len then r.left else (len : Int)).toNat
  rw [hread]
  cases err with
  | some err => exact ⟨rfl, rfl, hleft⟩
  | none =>
    refine ⟨ite_self [], rfl, ?_⟩
    dsimp only
    rwa [List.length_nil, Int.natCast_zero, Int.sub_zero]

/-- Once nothing is left, nothing more is returned. -/
theorem Drained.read {len : Nat} (drained : Drained r) :
    (r.read len).2.data = [] ∧ Drained (r.read len).1 := by
  unfold FrameReader.read
  split
  · have hlength : ∃ r' err, r.readLength = (r', some err) := by
      have hsrc : r.src = ⟨([] : List UInt8).take 0, r.src.fail⟩ := by
        rw [List.take_zero, ← drained.src]
      obtain ⟨err, hread⟩ := @readFull_cut 2 0 [] r.src.fail (by decide)
      unfold FrameReader.readLength
      rw [hsrc, hread]
      exact ⟨_, err, rfl⟩
    obtain ⟨r', err, hread⟩ := hlength
    unfold FrameReader.readHeader
    rw [hread]
    exact ⟨rfl, drained_of_readLength drained.left hread⟩
  · exact drained.readPayload

end Read

/-! ### All reads -/

section Run

variable {maskKey : Fin 4 → UInt8} {fail : IoErr} {r : FrameReader}

/-- The text of payloads. -/
def text (bs : List Payload) : List UInt8 := bs.flatMap Payload.bytes

/-- A reader within a cut stream: `b` is left of the present payload, the frames of `bs` follow,
and the stream ends after `k` bytes, with no mask over the part of a payload before its end. -/
structure Within (maskKey : Fin 4 → UInt8) (fail : IoErr) (r : FrameReader) (b : List UInt8)
    (bs : List Payload) (k : Nat) : Prop where
  server : r.server = true
  left : r.left = b.length
  src : r.src = ⟨(masked r.maskKey r.maskOffset b ++ wire maskKey bs).take k, fail⟩
  present : k < b.length → masked r.maskKey r.maskOffset (b.take k) = b.take k
  intact : b.length ≤ k → Intact maskKey bs (k - b.length)

/-- What the reader can still return is a prefix of `rest`. -/
def Behind (maskKey : Fin 4 → UInt8) (fail : IoErr) (r : FrameReader) (rest : List UInt8) : Prop :=
  Drained r ∨ ∃ b bs k, rest = b ++ text bs ∧ Within maskKey fail r b bs k

variable {k : Nat}

theorem Within.readPayload {b : List UInt8} {bs : List Payload} (len : Nat)
    (within : Within maskKey fail r b bs k) :
    ∃ rest, b ++ text bs = (r.readPayload len).2.data ++ rest ∧
      Behind maskKey fail (r.readPayload len).1 rest := by
  by_cases hk : min len b.length ≤ k
  · obtain ⟨r', hr', hdata, hserver, hkey, hoffset, hleft, hsrc⟩ :=
      readPayload_take within.server within.left rfl hk within.src
    rw [hr', hdata]
    generalize hm : min len b.length = m at *
    have hmle : m ≤ b.length := by omega
    refine ⟨b.drop m ++ text bs, ?_,
      Or.inr ⟨b.drop m, bs, k - m, rfl, hserver, hleft, hsrc, ?_, ?_⟩⟩
    · rw [← List.append_assoc, List.take_append_drop]
    · intro hlt
      rw [List.length_drop] at hlt
      have hpresent := congrArg (List.drop m) (within.present (by omega))
      rwa [masked_drop, List.drop_take, ← hkey, ← hoffset] at hpresent
    · intro hle
      rw [List.length_drop] at hle ⊢
      have hsub : k - m - (b.length - m) = k - b.length := by omega
      rw [hsub]
      exact within.intact (by omega)
  · rw [Nat.not_le] at hk
    obtain ⟨hdata, drained⟩ := readPayload_cut within.left hk within.src
    rw [hdata, within.present (by omega)]
    refine ⟨b.drop k ++ text bs, ?_, Or.inl drained⟩
    rw [← List.append_assoc, List.take_append_drop]

/-- The reader once it has read the header of the next frame. -/
def FrameReader.inFrame (r : FrameReader) (maskKey : Fin 4 → UInt8) (fail : IoErr) (c : Payload)
    (cs : List Payload) (k : Nat) : FrameReader :=
  { r with
    src := ⟨(masked maskKey 0 c.bytes ++ wire maskKey cs).take (k - headerLen c), fail⟩
    left := c.bytes.length
    maskKey := maskKey
    maskOffset := 0 }

theorem within_inFrame {c : Payload} {cs : List Payload} (hk : headerLen c ≤ k)
    (hserver : r.server = true) (intact : Intact maskKey (c :: cs) k) :
    Within maskKey fail (r.inFrame maskKey fail c cs k) c.bytes cs (k - headerLen c) where
  server := hserver
  left := rfl
  src := rfl
  present := by
    intro hlt
    unfold Intact at intact
    rw [cutPayload, if_neg (by omega)] at intact
    apply masked_eq_self_iff.mpr
    intro i hi
    rw [List.length_take] at hi
    exact intact i (by omega)
  intact := by
    intro hle
    unfold Intact at intact ⊢
    rwa [cutPayload, if_pos (by omega), Nat.sub_add_eq] at intact

/-- The header of the next frame, before the cut or across it. -/
theorem readHeader_next {c : Payload} {cs : List Payload} (hserver : r.server = true)
    (hleft : r.left = 0) (hsrc : r.src = ⟨(wire maskKey (c :: cs)).take k, fail⟩) :
    (headerLen c ≤ k → r.readHeader = (r.inFrame maskKey fail c cs k, none)) ∧
      (k < headerLen c → ∃ r' err, r.readHeader = (r', some err) ∧ Drained r') := by
  rw [wire, List.flatMap_cons, frame_eq, List.append_assoc] at hsrc
  constructor
  · intro hk
    rw [← length_before maskKey] at hk
    rw [List.take_append, List.take_of_length_le hk, length_before] at hsrc
    exact readHeader_masked c.length_lt hserver hsrc
  · intro hk
    exact readHeader_cut c.length_lt hserver (Int.le_of_eq hleft.symm) hk hsrc

/-- **One call** returns bytes of the text, and leaves the reader behind the rest of it. -/
theorem read_cut {rest : List UInt8} (len : Nat) (behind : Behind maskKey fail r rest) :
    ∃ rest', rest = (r.read len).2.data ++ rest' ∧ Behind maskKey fail (r.read len).1 rest' := by
  rcases behind with drained | ⟨b, bs, k, rfl, within⟩
  · rw [drained.read.1]
    exact ⟨rest, rfl, Or.inl drained.read.2⟩
  by_cases hleft : r.left = 0
  · have hb : b = [] := by
      have hlength := within.left
      rw [hleft] at hlength
      exact List.eq_nil_of_length_eq_zero (by omega)
    subst hb
    have hsrc : r.src = ⟨(wire maskKey bs).take k, fail⟩ := within.src
    have intact : Intact maskKey bs k := within.intact (Nat.zero_le k)
    cases bs with
    | nil =>
      have drained : Drained r := by
        constructor
        · rw [hsrc]
          exact List.take_nil
        · exact Int.le_of_eq hleft.symm
      rw [drained.read.1]
      exact ⟨_, rfl, Or.inl drained.read.2⟩
    | cons c cs =>
      obtain ⟨before, across⟩ := readHeader_next within.server hleft hsrc
      unfold FrameReader.read
      rw [if_pos hleft]
      by_cases hk : headerLen c ≤ k
      · rw [before hk]
        exact (within_inFrame hk within.server intact).readPayload len
      · obtain ⟨r', err, hread, drained⟩ := across (Nat.not_le.mp hk)
        rw [hread]
        exact ⟨_, rfl, Or.inl drained⟩
  · unfold FrameReader.read
    rw [if_neg hleft]
    exact within.readPayload len

theorem returned_of_behind {rest : List UInt8} (lens : List Nat)
    (behind : Behind maskKey fail r rest) : returned lens r <+: rest := by
  induction lens generalizing r rest with
  | nil => exact List.nil_prefix
  | cons len lens ih =>
    obtain ⟨rest', hrest, behind'⟩ := read_cut len behind
    rw [returned_cons, hrest, List.prefix_append_right_inj]
    exact ih behind'

/-- With a buffer for each payload, a part of a payload that is cut is returned masked. -/
theorem intact_of_returned {bs : List Payload} (hserver : r.server = true) (hleft : r.left = 0)
    (hsrc : r.src = ⟨(wire maskKey bs).take k, fail⟩) (h : ∀ lens, returned lens r <+: text bs) :
    Intact maskKey bs k := by
  induction bs generalizing r k with
  | nil => exact fun i hi => absurd hi (Nat.not_lt_zero i)
  | cons c cs ih =>
    have hread : headerLen c ≤ k → ∀ len,
        r.read len = (r.inFrame maskKey fail c cs k).readPayload len := by
      intro hk len
      unfold FrameReader.read
      rw [if_pos hleft, (readHeader_next hserver hleft hsrc).1 hk]
    unfold Intact
    rw [cutPayload]
    split
    · rename_i hfull
      obtain ⟨r', hr', hdata, hserver', -, -, hleft', hsrc'⟩ :=
        @readPayload_take (r.inFrame maskKey fail c cs k) fail c.bytes (wire maskKey cs)
          c.bytes.length c.bytes.length (k - headerLen c) hserver rfl (Nat.min_self _).symm
          (by omega) rfl
      rw [← hread (by omega)] at hr' hdata
      rw [List.take_length] at hdata
      rw [List.drop_length] at hleft' hsrc'
      rw [Nat.sub_add_eq]
      refine ih hserver' hleft' hsrc' ?_
      intro lens
      have hstart := h (c.bytes.length :: lens)
      rwa [returned_cons, hdata, hr', text, List.flatMap_cons,
        List.prefix_append_right_inj] at hstart
    · rename_i hpart
      intro i hi
      have hk : headerLen c ≤ k := by omega
      have hlt : k - headerLen c < min c.bytes.length c.bytes.length := by omega
      have hdata := (@readPayload_cut (r.inFrame maskKey fail c cs k) fail c.bytes
        (wire maskKey cs) c.bytes.length (k - headerLen c) rfl hlt rfl).1
      have hlength : (c.bytes.take (k - headerLen c)).length = k - headerLen c := by
        rw [List.length_take]
        omega
      have hstart : masked maskKey 0 (c.bytes.take (k - headerLen c)) <+: c.bytes ++ text cs := by
        have hone := h [c.bytes.length]
        rw [returned_cons, hread hk, hdata] at hone
        exact (List.prefix_append _ _).trans hone
      have hsame : masked maskKey 0 (c.bytes.take (k - headerLen c)) =
          c.bytes.take (k - headerLen c) := by
        rw [List.prefix_iff_eq_take, length_masked, hlength] at hstart
        rw [hstart, List.take_append_of_le_length (by omega)]
      exact masked_eq_self_iff.mp hsame i (hlength.symm ▸ hi)

end Run

/-- **A truncated stream** delivers no corrupted bytes, whatever the sizes of the buffers, exactly
if no byte of the payload that is cut is masked: `Read` returns the bytes it got together with the
error, and it does so before it takes the mask off. -/
theorem truncation_iff (maskKey : Fin 4 → UInt8) (bs : List Payload) (k : Nat) (fail : IoErr) :
    (∀ lens, returned lens (newFrameReader
        ⟨(callAll FrameWriter.Write ⟨{}, false, maskKey⟩ bs).1.sink.data.take k, fail⟩ true)
          <+: bs.flatMap Payload.bytes) ↔
      Intact maskKey bs k := by
  rw [writes_of_works _ rfl, List.nil_append]
  constructor
  · exact intact_of_returned rfl rfl rfl
  · intro intact lens
    apply returned_of_behind lens
    exact Or.inr ⟨[], bs, k, rfl, rfl, rfl, rfl, fun h => absurd h (Nat.not_lt_zero k),
      fun _ => intact⟩

/-- Of the payload `[1, 2]` under the mask `1`, only the first byte arrives: the buffer holds a
zero. -/
theorem masked_bytes_returned :
    returned [2] (newFrameReader
        ⟨(callAll FrameWriter.Write ⟨{}, false, fun _ => 1⟩
          [⟨[1, 2], by decide⟩]).1.sink.data.take 7, .eof⟩ true) = [0] ∧
      ¬ [0] <+: ([1, 2] : List UInt8) := by
  decide

end Glider.Ws
