/-
The format of TLS, as far as a client hello and the records of a connection go: data with its length
in front, in one to three bytes, and items that are a tag and such data.

* `vector`, `takeVector` — data with its length, and the reader that takes it off a stream.
* `parseTagged_eq_some` — a stream parses exactly if it is a sequence of tagged items whose lengths
  cover their contents. Records are items with a tag of three bytes, extensions with one of two.
* `parseClientHello` — the extensions of a client hello all of whose lengths cover their contents.
-/

import Glider.Go.Binary
import Glider.Lib.Framing

namespace Glider.Tls

open Glider.Go Glider.Lib

/-! ### Vectors -/

/-- Data with its length in `k` bytes. -/
def vector (k : Nat) (data : List UInt8) : List UInt8 := bigEndianBytes k data.length ++ data

/-- Take a vector off a stream. -/
def takeVector (k : Nat) (bytes : List UInt8) : Option (List UInt8 × List UInt8) :=
  let size := bigEndian (bytes.take k)
  let rest := bytes.drop k
  if k ≤ bytes.length ∧ size ≤ rest.length then some (rest.take size, rest.drop size) else none

/-- A vector and nothing else. -/
def exactVector (k : Nat) (bytes : List UInt8) : Option (List UInt8) :=
  match takeVector k bytes with
  | some (data, []) => some data
  | _ => none

section Vector

variable {k : Nat} {data bytes rest : List UInt8}

@[simp] theorem length_vector : (vector k data).length = k + data.length := by
  rw [vector, List.length_append, length_bigEndianBytes]

/-- A vector is taken off where it fits its length. -/
theorem takeVector_vector (h : data.length < 256 ^ k) (rest : List UInt8) :
    takeVector k (vector k data ++ rest) = some (data, rest) := by
  have htake : (vector k data ++ rest).take k = bigEndianBytes k data.length := by
    rw [vector, List.append_assoc, List.take_left' (length_bigEndianBytes k _)]
  have hdrop : (vector k data ++ rest).drop k = data ++ rest := by
    rw [vector, List.append_assoc, List.drop_left' (length_bigEndianBytes k _)]
  have hsize : bigEndian (bigEndianBytes k data.length) = data.length := by
    rw [bigEndian_bigEndianBytes, Nat.mod_eq_of_lt h]
  unfold takeVector
  rw [htake, hdrop, hsize]
  dsimp only
  rw [if_pos (by simp only [List.length_append, length_vector]; omega), List.take_left,
    List.drop_left]

/-- And nothing else is. -/
theorem vector_of_takeVector (h : takeVector k bytes = some (data, rest)) :
    data.length < 256 ^ k ∧ bytes = vector k data ++ rest := by
  unfold takeVector at h
  dsimp only at h
  split at h <;> cases h
  rename_i hfits
  have hlen : (bytes.take k).length = k := List.length_take_of_le hfits.1
  have hdata : ((bytes.drop k).take (bigEndian (bytes.take k))).length =
      bigEndian (bytes.take k) := List.length_take_of_le hfits.2
  have hlt := bigEndian_lt (bytes.take k)
  have hheader := bigEndianBytes_bigEndian (bytes.take k)
  rw [hlen] at hlt hheader
  refine ⟨by rw [hdata]; exact hlt, ?_⟩
  rw [vector, hdata, hheader, List.append_assoc, List.take_append_drop, List.take_append_drop]

theorem exactVector_vector (h : data.length < 256 ^ k) :
    exactVector k (vector k data) = some data := by
  have htake := takeVector_vector h []
  rw [List.append_nil] at htake
  rw [exactVector, htake]

theorem vector_of_exactVector (h : exactVector k bytes = some data) :
    data.length < 256 ^ k ∧ bytes = vector k data := by
  unfold exactVector at h
  split at h <;> cases h
  rename_i htake
  obtain ⟨hlt, hbytes⟩ := vector_of_takeVector htake
  exact ⟨hlt, hbytes.trans (List.append_nil _)⟩

/-- Vectors at the start of one stream have their lengths in common. -/
theorem length_of_vector_append {data' rest' : List UInt8} (h : data.length < 256 ^ k)
    (h' : data'.length < 256 ^ k) (heq : vector k data ++ rest = vector k data' ++ rest') :
    data.length = data'.length := by
  rw [vector, vector, List.append_assoc, List.append_assoc] at heq
  have hheader := (List.append_inj heq (by rw [length_bigEndianBytes, length_bigEndianBytes])).1
  have hvalue := congrArg bigEndian hheader
  rwa [bigEndian_bigEndianBytes, bigEndian_bigEndianBytes, Nat.mod_eq_of_lt h,
    Nat.mod_eq_of_lt h'] at hvalue

end Vector

/-! ### Tagged items -/

/-- A tag of `n` bytes, and data with a length of two bytes. -/
@[ext] structure Tagged (n : Nat) where
  tag : List UInt8
  data : List UInt8
  length_tag : tag.length = n
  length_data : data.length < 256 ^ 2

def Tagged.bytes {n : Nat} (t : Tagged n) : List UInt8 := t.tag ++ vector 2 t.data

/-- The next item of a stream. -/
def nextTagged (n : Nat) (bytes : List UInt8) : Option (Tagged n × List UInt8) :=
  if htag : (bytes.take n).length = n then
    match htake : takeVector 2 (bytes.drop n) with
    | some (data, rest) => some (⟨bytes.take n, data, htag, (vector_of_takeVector htake).1⟩, rest)
    | none => none
  else none

section Tagged

variable {n : Nat}

theorem nextTagged_bytes (t : Tagged n) (rest : List UInt8) :
    nextTagged n (t.bytes ++ rest) = some (t, rest) := by
  have htag : (t.bytes ++ rest).take n = t.tag := by
    rw [Tagged.bytes, List.append_assoc, List.take_left' t.length_tag]
  have hdata : takeVector 2 ((t.bytes ++ rest).drop n) = some (t.data, rest) := by
    rw [Tagged.bytes, List.append_assoc, List.drop_left' t.length_tag,
      takeVector_vector t.length_data]
  unfold nextTagged
  split
  · split
    · rename_i data rest' htake
      cases hdata.symm.trans htake
      exact congrArg (fun t => some (t, rest)) (Tagged.ext htag rfl)
    · rename_i htake
      rw [hdata] at htake
      cases htake
  · rename_i hshort
    exact absurd (htag ▸ t.length_tag) hshort

theorem bytes_of_nextTagged {bytes rest : List UInt8} {t : Tagged n}
    (h : nextTagged n bytes = some (t, rest)) : bytes = t.bytes ++ rest := by
  unfold nextTagged at h
  split at h
  · split at h <;> cases h
    rename_i data rest' htake
    rw [Tagged.bytes, List.append_assoc, ← (vector_of_takeVector htake).2, List.take_append_drop]
  · cases h

/-- A stream of tagged items. -/
def taggedCode (n : Nat) : Framing UInt8 (Tagged n) where
  encode := Tagged.bytes
  next := nextTagged n
  encode_ne_nil t := by simp [Tagged.bytes, vector, bigEndianBytes]
  next_encode := nextTagged_bytes
  encode_of_next := bytes_of_nextTagged

/-- The tags and the data of a stream of items. -/
def parseTagged (n : Nat) (bytes : List UInt8) : Option (List (List UInt8 × List UInt8)) :=
  ((taggedCode n).decodeAll bytes).map (List.map fun t => (t.tag, t.data))

/-- **A stream parses** exactly if it is made of items that their lengths cover. -/
theorem parseTagged_eq_some {bytes : List UInt8} {items : List (List UInt8 × List UInt8)} :
    parseTagged n bytes = some items ↔
      bytes = items.flatMap (fun p => p.1 ++ vector 2 p.2) ∧
        ∀ p ∈ items, p.1.length = n ∧ p.2.length < 256 ^ 2 := by
  unfold parseTagged
  constructor
  · intro h
    obtain ⟨ts, hts, rfl⟩ := Option.map_eq_some_iff.mp h
    rw [(taggedCode n).decodeAll_eq_some.mp hts]
    constructor
    · rw [List.flatMap_map]
      rfl
    · intro p hp
      obtain ⟨t, -, rfl⟩ := List.mem_map.mp hp
      exact ⟨t.length_tag, t.length_data⟩
  · rintro ⟨rfl, hitems⟩
    -- the items with the proofs of their lengths
    obtain ⟨ts, rfl⟩ : ∃ ts : List (Tagged n), ts.map (fun t => (t.tag, t.data)) = items := by
      induction items with
      | nil => exact ⟨[], rfl⟩
      | cons p items ih =>
        obtain ⟨ts, rfl⟩ := ih fun q hq => hitems q (List.mem_cons_of_mem p hq)
        obtain ⟨htag, hdata⟩ := hitems p List.mem_cons_self
        exact ⟨⟨p.1, p.2, htag, hdata⟩ :: ts, rfl⟩
    refine Option.map_eq_some_iff.mpr ⟨ts, (taggedCode n).decodeAll_eq_some.mpr ?_, rfl⟩
    rw [List.flatMap_map]
    rfl

end Tagged

/-! ### Client hello -/

/-- The extensions of a handshake message that is a client hello and nothing else: type, length,
version and random, session, cipher suites, compression methods, extensions. -/
def parseClientHello (message : List UInt8) : Option (List (List UInt8 × List UInt8)) :=
  match message with
  | 0x01 :: bytes => do
    let hello ← exactVector 3 bytes
    if hello.length < 34 then none
    else
      let (_, rest) ← takeVector 1 (hello.drop 34)
      let (_, rest) ← takeVector 2 rest
      let (_, rest) ← takeVector 1 rest
      let extensions ← exactVector 2 rest
      parseTagged 2 extensions
  | _ => none

/-- The data of an extension is covered by the lengths in it. -/
def extensionWellFormed (e : List UInt8 × List UInt8) : Bool :=
  -- server_name
  if e.1 = [0x00, 0x00] then
    match exactVector 2 e.2 with
    | some (0x00 :: names) => (exactVector 2 names).isSome
    | _ => false
  -- ec_point_formats
  else if e.1 = [0x00, 0x0b] then (exactVector 1 e.2).isSome
  -- supported_groups, signature_algorithms
  else if e.1 = [0x00, 0x0a] ∨ e.1 = [0x00, 0x0d] then (exactVector 2 e.2).isSome
  -- encrypt_then_mac, extended_master_secret
  else if e.1 = [0x00, 0x16] ∨ e.1 = [0x00, 0x17] then e.2 = []
  else true

/-- A client hello parses if its parts fit their lengths. -/
theorem parseClientHello_eq_some {start session suites methods : List UInt8}
    {extensions : List (List UInt8 × List UInt8)} {bytes : List UInt8}
    (hstart : start.length = 34) (hsession : session.length < 256 ^ 1)
    (hsuites : suites.length < 256 ^ 2) (hmethods : methods.length < 256 ^ 1)
    (hbytes : bytes.length < 256 ^ 2) (hextensions : parseTagged 2 bytes = some extensions)
    (hwhole : (start ++ (vector 1 session ++ (vector 2 suites ++ (vector 1 methods ++
      vector 2 bytes)))).length < 256 ^ 3) :
    parseClientHello (0x01 :: vector 3 (start ++ (vector 1 session ++ (vector 2 suites ++
      (vector 1 methods ++ vector 2 bytes))))) = some extensions := by
  simp only [parseClientHello]
  rw [exactVector_vector hwhole]
  simp only [Option.bind_eq_bind, Option.bind_some]
  rw [if_neg (by simp [hstart]), List.drop_left' hstart, takeVector_vector hsession,
    Option.bind_some, takeVector_vector hsuites, Option.bind_some, takeVector_vector hmethods,
    Option.bind_some, exactVector_vector hbytes, Option.bind_some, hextensions]

/-- And only a message that its length covers parses. -/
theorem message_of_parseClientHello {message : List UInt8}
    {extensions : List (List UInt8 × List UInt8)} (h : parseClientHello message = some extensions) :
    ∃ hello, hello.length < 256 ^ 3 ∧ message = 0x01 :: vector 3 hello := by
  unfold parseClientHello at h
  split at h
  · obtain ⟨hello, hexact, -⟩ := Option.bind_eq_some_iff.mp h
    obtain ⟨hlt, hbytes⟩ := vector_of_exactVector hexact
    exact ⟨hello, hlt, congrArg _ hbytes⟩
  · cases h

end Glider.Tls
