/-
The writer of the TLS obfuscation (`proxy/obfs/tls.go`): the first call of `Write` sends a client
hello with the data in its session ticket, the later ones send records of application data.

The lengths of the client hello are computed apart from what they stand for, and cut to two and
three bytes. The clock and the random bytes are inputs.

* `writes_sent` — what a sequence of calls sends.
* `helloBytes_eq` — the lengths of the client hello are those of its parts, cut to their width.
* `writes_parse_iff` — the bytes sent are well-formed records with all the data, exactly if the
  client hello fits in a record; whatever the later writes, if its length of three bytes is right.
-/

import Glider.Lib.Chunks
import Glider.Obfs.Tls
import Glider.Tls.Format

namespace Glider.Obfs

open Glider.Go Glider.Lib Glider.Tls

def chunkSize : Nat := 1 <<< 13

/-- `binary.Write(buf, binary.BigEndian, uint16(n))`. -/
def uint16Bytes (n : Nat) : List UInt8 := bigEndianBytes 2 n

/-- What `clientHello` takes from outside: the clock, and two calls of `rand.Read`. -/
structure HelloSeed where
  unix : UInt32
  random : List UInt8
  sessionID : List UInt8
  length_random : random.length = 28
  length_sessionID : sessionID.length = 32

/-- The 28 cipher suites. -/
def cipherSuites : List UInt8 :=
  [0xc0, 0x2c, 0xc0, 0x30, 0x00, 0x9f, 0xcc, 0xa9, 0xcc, 0xa8, 0xcc, 0xaa, 0xc0, 0x2b, 0xc0, 0x2f,
    0x00, 0x9e, 0xc0, 0x24, 0xc0, 0x28, 0x00, 0x6b, 0xc0, 0x23, 0xc0, 0x27, 0x00, 0x67, 0xc0, 0x0a,
    0xc0, 0x14, 0x00, 0x39, 0xc0, 0x09, 0xc0, 0x13, 0x00, 0x33, 0x00, 0x9d, 0x00, 0x9c, 0x00, 0x3d,
    0x00, 0x3c, 0x00, 0x35, 0x00, 0x2f, 0x00, 0xff]

def supportedGroups : List UInt8 := [0x00, 0x1d, 0x00, 0x17, 0x00, 0x19, 0x00, 0x18]

def signatureAlgorithms : List UInt8 :=
  [0x06, 0x01, 0x06, 0x02, 0x06, 0x03, 0x05, 0x01, 0x05, 0x02, 0x05, 0x03, 0x04, 0x01, 0x04, 0x02,
    0x04, 0x03, 0x03, 0x01, 0x03, 0x02, 0x03, 0x03, 0x02, 0x01, 0x02, 0x02, 0x02, 0x03]

def clientHello (seed : HelloSeed) : List UInt8 :=
  -- Version: TLS 1.2 (0x0303)
  [0x03, 0x03] ++
  -- Random
  bigEndianBytes 4 seed.unix.toNat ++ seed.random ++
  -- Session ID
  [32] ++ seed.sessionID ++
  -- Cipher Suites
  uint16Bytes 56 ++ cipherSuites ++
  -- Compression Methods
  [0x01] ++ [0x00]

def extension (b : List UInt8) (server : GoString) : List UInt8 :=
  -- Extension: SessionTicket TLS
  [0x00, 0x23] ++ uint16Bytes b.length ++ b ++
  -- Extension: server_name
  [0x00, 0x00] ++ uint16Bytes (server.length + 5) ++ uint16Bytes (server.length + 3) ++ [0x00] ++
    uint16Bytes server.length ++ server ++
  -- Extension: ec_point_formats
  [0x00, 0x0b] ++ uint16Bytes 4 ++ [0x03] ++ [0x01, 0x00, 0x02] ++
  -- Extension: supported_groups
  [0x00, 0x0a] ++ uint16Bytes 10 ++ uint16Bytes 8 ++ supportedGroups ++
  -- Extension: signature_algorithms
  [0x00, 0x0d] ++ uint16Bytes 32 ++ uint16Bytes 30 ++ signatureAlgorithms ++
  -- Extension: encrypt_then_mac
  [0x00, 0x16] ++ uint16Bytes 0 ++
  -- Extension: extended_master_secret
  [0x00, 0x17] ++ uint16Bytes 0

/-- The buffer that `handshake` sends. -/
def helloBytes (obfsHost : GoString) (seed : HelloSeed) (b : List UInt8) : List UInt8 :=
  let bufExt := extension b obfsHost
  let bufHello := clientHello seed
  let extLen := bufExt.length
  let helloLen := bufHello.length + 2 + extLen
  let handshakeLen := 4 + helloLen
  let uint24 : List UInt8 := [(helloLen >>> 16).toUInt8, (helloLen >>> 8).toUInt8, helloLen.toUInt8]
  -- TLS Record Layer
  [0x16] ++ [0x03, 0x01] ++ uint16Bytes handshakeLen ++
  -- Handshake Type: Client Hello (1)
  [0x01] ++ uint24 ++ bufHello ++
  -- Extension
  uint16Bytes extLen ++ bufExt

/-- A record of application data. -/
def recordBytes (chunk : List UInt8) : List UInt8 :=
  [0x17, 0x03, 0x03] ++ uint16Bytes chunk.length ++ chunk

/-- `TLSObfsConn`, as far as it is written to. -/
structure TLSObfsWriter where
  conn : Sink := {}
  reqSent : Bool := false
deriving DecidableEq, Repr

namespace TLSObfsWriter

def handshake (obfsHost : GoString) (seed : HelloSeed) (c : TLSObfsWriter) (b : List UInt8) :
    TLSObfsWriter × Nat × Option IoErr :=
  match c.conn.write (helloBytes obfsHost seed b) with
  | (conn, _, some err) => ({ c with conn := conn }, 0, some err)
  | (conn, _, none) => ({ c with conn := conn }, b.length, none)

/-- One turn of the loop of `Write`. -/
def writeRecord (c : TLSObfsWriter) (chunk : List UInt8) : TLSObfsWriter × Option IoErr :=
  let (conn, _, err) := c.conn.write (recordBytes chunk)
  ({ c with conn := conn }, err)

def Write (obfsHost : GoString) (seed : HelloSeed) (c : TLSObfsWriter) (b : List UInt8) :
    TLSObfsWriter × Nat × Option IoErr :=
  if c.reqSent then
    match writeChunks chunkSize writeRecord c 0 b with
    | (c, _, some err) => (c, 0, some err)
    | (c, n, none) => (c, n, none)
  else handshake obfsHost seed { c with reqSent := true } b

end TLSObfsWriter

/-! ### What is sent -/

section Sent

variable (obfsHost : GoString) (seed : HelloSeed)

/-- The bytes that the calls send on a connection that works. -/
def sentBytes (ps : List (List UInt8)) : List UInt8 :=
  (callAll (TLSObfsWriter.Write obfsHost seed) {} ps).1.conn.data

/-- Records of application data, without a state. -/
def recordCode : BlockCode Unit UInt8 UInt8 where
  encode _ := recordBytes
  next _ := ()

theorem recordCode_encodeAll (cs : List (List UInt8)) :
    recordCode.encodeAll () cs = cs.flatMap recordBytes := by
  induction cs with
  | nil => rfl
  | cons c cs ih => rw [BlockCode.encodeAll_cons, List.flatMap_cons, ← ih]; rfl

/-- A call after the first one. -/
theorem Write_later (data p : List UInt8) :
    TLSObfsWriter.Write obfsHost seed ⟨⟨data, []⟩, true⟩ p =
      (⟨⟨data ++ recordCode.encodeAll () (chunks chunkSize p), []⟩, true⟩, p.length, none) := by
  have hchunk : ∀ (_ : Unit) data c, TLSObfsWriter.writeRecord ⟨⟨data, []⟩, true⟩ c =
      (⟨⟨data ++ recordCode.encode () c, []⟩, true⟩, none) := fun _ data c => rfl
  have hloop := @BlockCode.writeChunks_eq _ _ _ recordCode _ IoErr
    (fun _ data => (⟨⟨data, []⟩, true⟩ : TLSObfsWriter)) _ hchunk chunkSize (by decide) () data 0 p
  rw [TLSObfsWriter.Write, if_pos rfl, hloop, Nat.zero_add]

/-- **All calls** return the length of their argument, and send the client hello and the records. -/
theorem writes_sent (first : List UInt8) (rest : List (List UInt8)) :
    callAll (TLSObfsWriter.Write obfsHost seed) {} (first :: rest) =
      (⟨⟨helloBytes obfsHost seed first ++ (rest.flatMap (chunks chunkSize)).flatMap recordBytes,
        []⟩, true⟩, (first :: rest).map fun p => (p.length, none)) := by
  have hlater := @BlockCode.callAll_write _ _ _ recordCode _ _
    (fun _ data => (⟨⟨data, []⟩, true⟩ : TLSObfsWriter)) _ (chunks chunkSize)
    (fun p => (p.length, none)) (fun _ data p => Write_later obfsHost seed data p) ()
    (helloBytes obfsHost seed first) rest
  have hfirst : TLSObfsWriter.Write obfsHost seed {} first =
      (⟨⟨helloBytes obfsHost seed first, []⟩, true⟩, first.length, none) := rfl
  rw [callAll, hfirst]
  dsimp only
  rw [hlater, recordCode_encodeAll, List.map_cons]

end Sent

/-! ### What it stands for -/

/-- The extensions of every client hello. -/
def fixedExtensions : List (List UInt8 × List UInt8) :=
  [([0x00, 0x0b], vector 1 [0x01, 0x00, 0x02]), ([0x00, 0x0a], vector 2 supportedGroups),
    ([0x00, 0x0d], vector 2 signatureAlgorithms), ([0x00, 0x16], []), ([0x00, 0x17], [])]

/-- The extensions of a client hello. -/
def helloExtensions (b : List UInt8) (server : GoString) : List (List UInt8 × List UInt8) :=
  ([0x00, 0x23], b) :: ([0x00, 0x00], vector 2 (0x00 :: vector 2 server)) :: fixedExtensions

/-- The handshake message in its record. -/
def helloMessage (obfsHost : GoString) (seed : HelloSeed) (b : List UInt8) : List UInt8 :=
  0x01 :: vector 3 (clientHello seed ++ vector 2 (extension b obfsHost))

theorem fixedExtensions_spec : ∀ e ∈ fixedExtensions,
    (e.1.length = 2 ∧ e.2.length < 256 ^ 2) ∧ extensionWellFormed e = true ∧
      e.1 ≠ [0x00, 0x23] := by
  decide

theorem mem_helloExtensions {b : List UInt8} {server : GoString} {e : List UInt8 × List UInt8} :
    e ∈ helloExtensions b server ↔ e = ([0x00, 0x23], b) ∨
      e = ([0x00, 0x00], vector 2 (0x00 :: vector 2 server)) ∨ e ∈ fixedExtensions := by
  rw [helloExtensions, List.mem_cons, List.mem_cons]

section Message

variable (obfsHost : GoString) (seed : HelloSeed) (b : List UInt8)

theorem extension_eq :
    extension b obfsHost =
      (helloExtensions b obfsHost).flatMap fun p => p.1 ++ vector 2 p.2 := by
  have hnames : (0x00 :: vector 2 obfsHost).length = obfsHost.length + 3 := by
    rw [List.length_cons, length_vector]
    omega
  have hlist : (vector 2 (0x00 :: vector 2 obfsHost)).length = obfsHost.length + 5 := by
    rw [length_vector, hnames]
    omega
  have hname : vector 2 (vector 2 (0x00 :: vector 2 obfsHost)) =
      uint16Bytes (obfsHost.length + 5) ++ (uint16Bytes (obfsHost.length + 3) ++
        (0x00 :: (uint16Bytes obfsHost.length ++ obfsHost))) := by
    rw [vector, hlist, vector, hnames, vector]
    rfl
  have hpoints : vector 2 (vector 1 [0x01, 0x00, 0x02]) =
      uint16Bytes 4 ++ ([0x03] ++ [0x01, 0x00, 0x02]) := rfl
  have hgroups : vector 2 (vector 2 supportedGroups) =
      uint16Bytes 10 ++ (uint16Bytes 8 ++ supportedGroups) := rfl
  have halgorithms : vector 2 (vector 2 signatureAlgorithms) =
      uint16Bytes 32 ++ (uint16Bytes 30 ++ signatureAlgorithms) := rfl
  have hticket : vector 2 b = uint16Bytes b.length ++ b := rfl
  have hempty : vector 2 [] = uint16Bytes 0 := rfl
  unfold extension helloExtensions fixedExtensions
  simp only [List.flatMap_cons, List.flatMap_nil, List.append_nil, hname, hpoints, hgroups,
    halgorithms, hticket, hempty, List.append_assoc, List.cons_append, List.nil_append]

theorem clientHello_eq :
    clientHello seed = ([0x03, 0x03] ++ bigEndianBytes 4 seed.unix.toNat ++ seed.random) ++
      (vector 1 seed.sessionID ++ (vector 2 cipherSuites ++ vector 1 [0x00])) := by
  have hsession : vector 1 seed.sessionID = [32] ++ seed.sessionID := by
    rw [vector, seed.length_sessionID]
    rfl
  rw [hsession]
  simp only [clientHello, List.append_assoc]
  rfl

theorem length_extension : (extension b obfsHost).length = obfsHost.length + b.length + 79 := by
  rw [extension_eq]
  simp only [helloExtensions, fixedExtensions, List.flatMap_cons, List.flatMap_nil,
    List.length_append,
    length_vector, List.length_cons, List.length_nil, supportedGroups, signatureAlgorithms]
  omega

theorem length_clientHello : (clientHello seed).length = 127 := by
  rw [clientHello_eq]
  simp only [List.length_append, length_vector, length_bigEndianBytes, seed.length_random,
    seed.length_sessionID, List.length_cons, List.length_nil, cipherSuites]

theorem length_helloMessage :
    (helloMessage obfsHost seed b).length = obfsHost.length + b.length + 212 := by
  rw [helloMessage, List.length_cons, length_vector, List.length_append, length_vector,
    length_clientHello, length_extension]
  omega

/-- The record of the client hello, with the lengths cut to their width. -/
theorem helloBytes_eq :
    helloBytes obfsHost seed b = [0x16, 0x03, 0x01] ++ vector 2 (helloMessage obfsHost seed b) := by
  have hhello : (clientHello seed ++ vector 2 (extension b obfsHost)).length =
      (clientHello seed).length + 2 + (extension b obfsHost).length := by
    rw [List.length_append, length_vector]
    omega
  have hmessage : (helloMessage obfsHost seed b).length =
      4 + ((clientHello seed).length + 2 + (extension b obfsHost).length) := by
    rw [helloMessage, List.length_cons, length_vector, hhello]
    omega
  rw [vector, hmessage, helloMessage, vector, hhello]
  simp only [helloBytes, List.append_assoc]
  rfl

/-- The extensions parse where their lengths are not cut. -/
theorem parse_extension (hfits : obfsHost.length + b.length + 212 ≤ 65535) :
    parseTagged 2 (extension b obfsHost) = some (helloExtensions b obfsHost) := by
  refine parseTagged_eq_some.mpr ⟨extension_eq obfsHost b, ?_⟩
  intro p hp
  rcases mem_helloExtensions.mp hp with rfl | rfl | hfixed
  · exact ⟨rfl, by dsimp only; omega⟩
  · refine ⟨rfl, ?_⟩
    rw [length_vector, List.length_cons, length_vector]
    omega
  · exact (fixedExtensions_spec p hfixed).1

/-- And so does the client hello. -/
theorem parse_helloMessage (hfits : obfsHost.length + b.length + 212 ≤ 65535) :
    parseClientHello (helloMessage obfsHost seed b) = some (helloExtensions b obfsHost) := by
  have hstart : ([0x03, 0x03] ++ bigEndianBytes 4 seed.unix.toNat ++ seed.random).length = 34 := by
    simp only [List.length_append, length_bigEndianBytes, seed.length_random, List.length_cons,
      List.length_nil]
  have hextension := length_extension obfsHost b
  have hshape : clientHello seed ++ vector 2 (extension b obfsHost) =
      ([0x03, 0x03] ++ bigEndianBytes 4 seed.unix.toNat ++ seed.random) ++
        (vector 1 seed.sessionID ++ (vector 2 cipherSuites ++ (vector 1 [0x00] ++
          vector 2 (extension b obfsHost)))) := by
    rw [clientHello_eq]
    simp only [List.append_assoc]
  have hwhole : (clientHello seed ++ vector 2 (extension b obfsHost)).length < 256 ^ 3 := by
    rw [List.length_append, length_vector, length_clientHello, hextension]
    omega
  rw [helloMessage, hshape]
  rw [hshape] at hwhole
  exact parseClientHello_eq_some hstart (by rw [seed.length_sessionID]; decide) (by decide)
    (by decide) (by rw [hextension]; omega) (parse_extension obfsHost b hfits) hwhole

theorem helloExtensions_wellFormed (hfits : obfsHost.length + b.length + 212 ≤ 65535) :
    ∀ e ∈ helloExtensions b obfsHost, extensionWellFormed e = true := by
  have hname : exactVector 2 (vector 2 obfsHost) = some obfsHost :=
    exactVector_vector (by omega)
  have hnames : exactVector 2 (vector 2 (0x00 :: vector 2 obfsHost)) =
      some (0x00 :: vector 2 obfsHost) :=
    exactVector_vector (by rw [List.length_cons, length_vector]; omega)
  have hserver :
      extensionWellFormed ([0x00, 0x00], vector 2 (0x00 :: vector 2 obfsHost)) = true := by
    simp only [extensionWellFormed, hnames, hname, if_true, Option.isSome_some]
  intro e he
  rcases mem_helloExtensions.mp he with rfl | rfl | hfixed
  · rfl
  · exact hserver
  · exact (fixedExtensions_spec e hfixed).2.1

end Message

/-! ### Well-formed writes -/

/-- What is expected of the bytes sent: a record with a client hello, all lengths of which cover
what they stand for and whose session ticket is the first write, and records of application data
with the other writes. -/
def WritesParse (bytes first : List UInt8) (rest : List (List UInt8)) : Prop :=
  ∃ message records extensions,
    parseTagged 3 bytes = some (([0x16, 0x03, 0x01], message) :: records) ∧
    parseClientHello message = some extensions ∧
    (∀ e ∈ extensions, extensionWellFormed e = true) ∧
    (extensions.filter fun e => e.1 = [0x00, 0x23]).map Prod.snd = [first] ∧
    (∀ r ∈ records, r.1 = [0x17, 0x03, 0x03] ∧ 1 ≤ r.2.length ∧ r.2.length ≤ 8192) ∧
    (records.map Prod.snd).flatten = rest.flatten

section Parse

variable (obfsHost : GoString) (seed : HelloSeed) (first : List UInt8)

theorem sentBytes_eq (rest : List (List UInt8)) :
    sentBytes obfsHost seed (first :: rest) =
      helloBytes obfsHost seed first ++ (rest.flatMap (chunks chunkSize)).flatMap recordBytes := by
  rw [sentBytes, writes_sent]

/-- What has been sent after the first write is one record only if that has a length. -/
theorem length_le_of_parses (h : WritesParse (sentBytes obfsHost seed [first]) first []) :
    obfsHost.length + first.length + 212 ≤ 65535 := by
  obtain ⟨message, records, -, hparse, -, -, -, hrecords, hdata⟩ := h
  have hnone : records = [] := by
    cases records with
    | nil => rfl
    | cons r records =>
      have hr := (hrecords r List.mem_cons_self).2.1
      have hlen := congrArg List.length hdata
      simp only [List.map_cons, List.flatten_cons, List.length_append, List.flatten_nil,
        List.length_nil] at hlen
      omega
  obtain ⟨hbytes, hitems⟩ := parseTagged_eq_some.mp hparse
  have hmessage : message.length < 256 ^ 2 := (hitems _ List.mem_cons_self).2
  rw [sentBytes_eq, hnone, helloBytes_eq] at hbytes
  have hlen := congrArg List.length hbytes
  simp only [List.flatMap_nil, List.flatMap_cons, List.length_append, length_vector,
    length_helloMessage, List.length_nil, List.length_cons] at hlen
  omega

/-- Whatever follows it, a client hello that parses is as long as its length of three bytes says. -/
theorem length_le_of_writes {rest : List (List UInt8)}
    (hsmall : obfsHost.length + first.length + 212 < 256 ^ 3)
    (h : WritesParse (sentBytes obfsHost seed (first :: rest)) first rest) :
    obfsHost.length + first.length + 212 ≤ 65535 := by
  obtain ⟨message, records, extensions, hparse, hhello, -⟩ := h
  obtain ⟨hbytes, hitems⟩ := parseTagged_eq_some.mp hparse
  have hmessage : message.length < 256 ^ 2 := (hitems _ List.mem_cons_self).2
  obtain ⟨hello, hlt, rfl⟩ := message_of_parseClientHello hhello
  rw [sentBytes_eq, helloBytes_eq, List.flatMap_cons, List.append_assoc,
    List.append_assoc] at hbytes
  -- both records begin with the same length and go on with the same bytes
  have hrecord := List.append_cancel_left hbytes
  rw [vector, vector, List.append_assoc, List.append_assoc] at hrecord
  have hbodies := (List.append_inj hrecord
    (by rw [length_bigEndianBytes, length_bigEndianBytes])).2
  have hlen := length_helloMessage obfsHost seed first
  rw [helloMessage, List.length_cons, length_vector] at hlen
  have hsame := length_of_vector_append (by omega) hlt (List.cons.inj hbodies).2
  rw [List.length_cons, length_vector] at hmessage
  omega

/-- The pieces of the later writes fit in records. -/
theorem length_of_mem_pieces {rest : List (List UInt8)} {c : List UInt8}
    (hc : c ∈ rest.flatMap (chunks chunkSize)) : 1 ≤ c.length ∧ c.length ≤ 8192 := by
  obtain ⟨p, -, hc⟩ := List.mem_flatMap.mp hc
  exact length_of_mem_chunks hc

/-- The records of everything that is sent. -/
theorem parse_sentBytes (hfits : obfsHost.length + first.length + 212 ≤ 65535)
    (rest : List (List UInt8)) :
    parseTagged 3 (sentBytes obfsHost seed (first :: rest)) =
      some (([0x16, 0x03, 0x01], helloMessage obfsHost seed first) ::
        (rest.flatMap (chunks chunkSize)).map fun c => ([0x17, 0x03, 0x03], c)) := by
  apply parseTagged_eq_some.mpr
  constructor
  · rw [sentBytes_eq, helloBytes_eq, List.flatMap_cons, List.flatMap_map]
    rfl
  · intro r hr
    rcases List.mem_cons.mp hr with rfl | hr
    · refine ⟨rfl, ?_⟩
      rw [length_helloMessage]
      omega
    · obtain ⟨c, hc, rfl⟩ := List.mem_map.mp hr
      have hlen := length_of_mem_pieces hc
      exact ⟨rfl, by dsimp only; omega⟩

theorem writesParse_of_fits (hfits : obfsHost.length + first.length + 212 ≤ 65535)
    (rest : List (List UInt8)) :
    WritesParse (sentBytes obfsHost seed (first :: rest)) first rest := by
  refine ⟨_, _, _, parse_sentBytes obfsHost seed first hfits rest,
    parse_helloMessage obfsHost seed first hfits, helloExtensions_wellFormed obfsHost first hfits,
    rfl, ?_, ?_⟩
  · intro r hr
    obtain ⟨c, hc, rfl⟩ := List.mem_map.mp hr
    exact ⟨rfl, length_of_mem_pieces hc⟩
  · have hdata : ∀ cs : List (List UInt8),
        (cs.map fun c => (([0x17, 0x03, 0x03] : List UInt8), c)).map Prod.snd = cs := by
      intro cs
      rw [List.map_map]
      exact List.map_id cs
    rw [hdata, flatten_flatMap_chunks (by decide)]

/-- **The bytes sent are well-formed records with all the data**, whatever comes after the first
write, exactly if the client hello fits in a record. If its length fits in three bytes, as it does
for every host and write below 16 MiB together, this holds for each list of later writes. -/
theorem writes_parse_iff :
    ((∀ rest, WritesParse (sentBytes obfsHost seed (first :: rest)) first rest) ↔
      obfsHost.length + first.length + 212 ≤ 65535) ∧
    (obfsHost.length + first.length + 212 < 256 ^ 3 →
      ∀ rest, WritesParse (sentBytes obfsHost seed (first :: rest)) first rest ↔
        obfsHost.length + first.length + 212 ≤ 65535) := by
  refine ⟨⟨fun h => ?_, writesParse_of_fits obfsHost seed first⟩, fun hsmall rest => ⟨fun h => ?_,
    fun hfits => writesParse_of_fits obfsHost seed first hfits rest⟩⟩
  · exact length_le_of_parses obfsHost seed first (h [])
  · exact length_le_of_writes obfsHost seed first hsmall h

/-- The header of the first record. -/
theorem take_sentBytes (rest : List (List UInt8)) :
    (sentBytes obfsHost seed (first :: rest)).take 5 =
      [0x16, 0x03, 0x01] ++ bigEndianBytes 2 (obfsHost.length + first.length + 212) := by
  rw [sentBytes_eq, helloBytes_eq, vector, length_helloMessage, List.append_assoc,
    List.append_assoc, ← List.append_assoc]
  exact List.take_left' (by rw [List.length_append, length_bigEndianBytes]; rfl)

end Parse

/-- A clock and a random source at zero. -/
def zeroSeed : HelloSeed where
  unix := 0
  random := List.replicate 28 0
  sessionID := List.replicate 32 0
  length_random := List.length_replicate
  length_sessionID := List.length_replicate

/-- A host of eleven bytes and a first write of 65313: the length of the record comes out as
zero. -/
theorem first_write_too_long :
    (sentBytes (ascii "example.com") zeroSeed [List.replicate 65313 0]).take 5 =
        [0x16, 0x03, 0x01, 0x00, 0x00] ∧
      ¬ WritesParse (sentBytes (ascii "example.com") zeroSeed [List.replicate 65313 0])
        (List.replicate 65313 0) [] := by
  have hhost : (ascii "example.com").length = 11 := by decide
  constructor
  · rw [take_sentBytes, hhost, List.length_replicate]
    rfl
  · intro h
    have hle := length_le_of_parses _ _ _ h
    rw [hhost, List.length_replicate] at hle
    exact absurd hle (by decide)

end Glider.Obfs
