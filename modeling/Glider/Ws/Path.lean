/-
The path of a websocket handshake (`proxy/ws/ws.go`, `proxy/ws/client.go`, `proxy/ws/server.go`).

A server is configured with a path, and its `Handshake` is given it. The short variable declaration
`_, path, _, ok := parseFirstLine(line)` assigns the path of the request to that parameter, and the
comparison after it is of the path with itself.

* `newServerConn_ok_iff`, `completes_iff` — when the server, and when both sides, return no error:
  the configured path does not come into it.
* `understood_iff` — the configurations of a client that a server understands.
* `path_iff` — when the server accepts no path but its own.
* `other_path_accepted` — a client for `/a` at a server for `/b`.
-/

import Glider.Http.Header
import Glider.Ws.Handshake

namespace Glider.Ws

open Glider.Go Glider.Http

/-- The fields of `WS` that the handshakes are given. -/
structure WS where
  host : GoString
  path : GoString
  origin : GoString

/-! ### Keys -/

/-- The alphabet of `base64.StdEncoding`. -/
def stdAlphabet : GoString :=
  ascii "ABCDEFGHIJKLMNOPQRSTUVWXYZabcdefghijklmnopqrstuvwxyz0123456789+/"

/-- The character for the lowest six bits. -/
def stdChar (val : Nat) : UInt8 := stdAlphabet.getD (val % 64) 0

/-- `base64.StdEncoding.EncodeToString`. -/
def encodeToString : List UInt8 → GoString
  | a :: b :: c :: rest =>
    let val := a.toNat <<< 16 ||| b.toNat <<< 8 ||| c.toNat
    stdChar (val >>> 18) :: stdChar (val >>> 12) :: stdChar (val >>> 6) :: stdChar val ::
      encodeToString rest
  | [a, b] =>
    let val := a.toNat <<< 16 ||| b.toNat <<< 8
    [stdChar (val >>> 18), stdChar (val >>> 12), stdChar (val >>> 6), 61]
  | [a] =>
    let val := a.toNat <<< 16
    [stdChar (val >>> 18), stdChar (val >>> 12), 61, 61]
  | [] => []

example : encodeToString (ascii "glide") = ascii "Z2xpZGU=" := by decide +kernel

def keyGUID : GoString := ascii "258EAFA5-E914-47DA-95CA-C5AB0DC85B11"

/-- `generateClientKey`, with the bytes it has drawn. -/
def generateClientKey (p : List UInt8) : GoString := encodeToString p

/-- `computeServerKey`. -/
def computeServerKey (sha1 : List UInt8 → List UInt8) (clientKey : GoString) : GoString :=
  encodeToString (sha1 (clientKey ++ keyGUID))

/-- The bytes of a value that is read as it was written. -/
def isGraphic (b : UInt8) : Bool := validHeaderValueByte b && !isBlank b

theorem isGraphic_stdChar (val : Nat) : isGraphic (stdChar val) = true := by
  have hall : ∀ n < 64, isGraphic (stdAlphabet.getD n 0) = true := by decide +kernel
  exact hall (val % 64) (Nat.mod_lt val (by decide))

theorem all_encodeToString : ∀ src : List UInt8, (encodeToString src).all isGraphic = true
  | a :: b :: c :: rest => by
    simp only [encodeToString, List.all_cons, isGraphic_stdChar, all_encodeToString rest,
      Bool.and_self]
  | [a, b] => by
    simp only [encodeToString, List.all_cons, isGraphic_stdChar]
    rfl
  | [a] => by
    simp only [encodeToString, List.all_cons, isGraphic_stdChar]
    rfl
  | [] => rfl

theorem isGraphic_spec {b : UInt8} (h : isGraphic b = true) :
    validHeaderValueByte b = true ∧ isBlank b = false := by
  rw [isGraphic, Bool.and_eq_true, Bool.not_eq_true'] at h
  exact h

theorem trim_of_all {s : GoString} (h : s.all isGraphic = true) : trim s = s := by
  have hblank : ∀ b ∈ s, isBlank b = false := fun b hb =>
    (isGraphic_spec (List.all_eq_true.mp h b hb)).2
  have hleft : trimLeft s = s := trimLeft_of_head fun b hb => hblank b (List.mem_of_head? hb)
  rw [trim, hleft, List.rdropWhile_eq_self_iff]
  intro hne
  rw [hblank _ (List.getLast_mem hne)]
  exact Bool.false_ne_true

theorem valid_of_all {s : GoString} (h : s.all isGraphic = true) :
    s.all validHeaderValueByte = true :=
  List.all_eq_true.mpr fun b hb => (isGraphic_spec (List.all_eq_true.mp h b hb)).1

theorem newline_notMem_of_valid {s : GoString} (h : s.all validHeaderValueByte = true) :
    newline ∉ s :=
  fun hmem => absurd (List.all_eq_true.mp h newline hmem) (by decide)

/-! ### Connections -/

section

variable (sha1 : List UInt8 → List UInt8)

/-- `NewClientConn`. -/
def NewClientConn (s : WS) (clientKey : GoString) (rc : Conn) : Except ReadErr Conn :=
  ClientConn.Handshake (computeServerKey sha1) s.host s.path s.origin clientKey rc

/-- `NewServerConn`. The host and the path of the server are handed to `Handshake`, which does not
read the one and overwrites the other. -/
def NewServerConn (_s : WS) (rc : Conn) : Except ReadErr Conn :=
  ServerConn.Handshake (computeServerKey sha1) rc

/-- How the bytes of a stream arrive. -/
structure Segmentation where
  segments : List UInt8 → List (List UInt8)
  flatten_segments : ∀ data, (segments data).flatten = data

/-- Both handshakes return without an error, each side reading what the other has written. -/
def Completes (toClient toServer : Segmentation) (fail fail' : IoErr) (client server : WS)
    (clientKey : GoString) : Prop :=
  ∃ c s, NewClientConn sha1 client clientKey ⟨toClient.segments s.out.data, fail, {}⟩ = .ok c ∧
    NewServerConn sha1 server ⟨toServer.segments c.out.data, fail', {}⟩ = .ok s

/-! ### The server -/

/-- A stream starts with a request: the second field of its first line, and the key in its
header. -/
def Requests (r : Source) (path key : GoString) : Prop :=
  ∃ line mid first third header rest, readLine r = .ok (line, mid) ∧
    parseFirstLine line = some (first, path, third) ∧ readMIMEHeader mid = .ok (header, rest) ∧
      MIMEHeader.get header (ascii "Sec-WebSocket-Key") = key

theorem readRequest_iff {r : Source} {key : GoString} :
    (∃ rest, readRequest r = .ok (key, rest)) ↔ ∃ path, Requests r path key := by
  constructor
  · rintro ⟨rest, h⟩
    unfold readRequest at h
    split at h
    · cases h
    rename_i line mid hline
    split at h
    · cases h
    rename_i first path third hparts
    rw [if_neg (not_not_intro rfl)] at h
    split at h
    · cases h
    rename_i header rest' hheader
    cases h
    exact ⟨path, line, mid, first, third, header, _, hline, hparts, hheader, rfl⟩
  · rintro ⟨path, line, mid, first, third, header, rest, hline, hparts, hheader, rfl⟩
    refine ⟨rest, ?_⟩
    unfold readRequest
    rw [hline]
    dsimp only
    rw [hparts]
    dsimp only
    rw [if_neg (not_not_intro rfl), hheader]

/-- **The server accepts every request** whose response it can write, whatever its own path. -/
theorem newServerConn_ok_iff (server : WS) (rc : Conn) {out : Sink} :
    (∃ s, NewServerConn sha1 server rc = .ok s ∧ s.out = out) ↔
      ∃ path key n, Requests ⟨rc.unread, rc.fail⟩ path key ∧
        rc.out.write (handshakeResponse (computeServerKey sha1 key)) = (out, n, none) := by
  unfold NewServerConn ServerConn.Handshake
  constructor
  · rintro ⟨s, h, rfl⟩
    split at h
    · cases h
    rename_i key rest hread
    split at h
    · cases h
    rename_i out n hwrite
    cases h
    obtain ⟨path, hrequest⟩ := readRequest_iff.mp ⟨rest, hread⟩
    exact ⟨path, key, n, hrequest, hwrite⟩
  · rintro ⟨path, key, n, hrequest, hwrite⟩
    obtain ⟨rest, hread⟩ := readRequest_iff.mpr ⟨path, hrequest⟩
    rw [hread]
    dsimp only
    rw [hwrite]
    exact ⟨_, rfl, rfl⟩

/-! ### The client -/

theorem newClientConn_ok_iff (client : WS) (clientKey : GoString) (rc : Conn) {out : Sink} :
    (∃ c, NewClientConn sha1 client clientKey rc = .ok c ∧ c.out = out) ↔
      (∃ n, rc.out.write (handshakeRequest client.host client.path client.origin clientKey) =
        (out, n, none)) ∧
      ∃ rest, readResponse (computeServerKey sha1) clientKey ⟨rc.unread, rc.fail⟩ = .ok rest := by
  unfold NewClientConn ClientConn.Handshake
  constructor
  · rintro ⟨c, h, rfl⟩
    split at h
    · cases h
    rename_i out n hwrite
    split at h
    · cases h
    rename_i rest hread
    cases h
    exact ⟨⟨n, hwrite⟩, rest, hread⟩
  · rintro ⟨⟨n, hwrite⟩, rest, hread⟩
    rw [hwrite]
    dsimp only
    rw [hread]
    exact ⟨_, rfl, rfl⟩

/-- The fields of the response. -/
def responseFields (serverKey : GoString) : MIMEHeader :=
  [(ascii "Upgrade", ascii "websocket"), (ascii "Connection", ascii "Upgrade"),
    (ascii "Sec-WebSocket-Accept", serverKey)]

/-- The fields of the request. -/
def requestFields (client : WS) (clientKey : GoString) : MIMEHeader :=
  (ascii "Host", client.host) :: (ascii "Upgrade", ascii "websocket") ::
    (ascii "Connection", ascii "Upgrade") ::
    ((if client.origin = [] then [] else [(ascii "Origin", ascii "http://" ++ client.origin)]) ++
      [(ascii "Sec-WebSocket-Key", clientKey), (ascii "Sec-WebSocket-Version", ascii "13")])

theorem ascii_crlf : ascii "\r\n" = crlf := by decide +kernel

theorem ascii_upgrade :
    ascii "Upgrade: websocket\r\n" = writeField (ascii "Upgrade", ascii "websocket") := by
  repeat rw [ascii_ofList]
  rfl

theorem ascii_connection :
    ascii "Connection: Upgrade\r\n" = writeField (ascii "Connection", ascii "Upgrade") := by
  repeat rw [ascii_ofList]
  rfl

theorem ascii_version :
    ascii "Sec-WebSocket-Version: 13\r\n" =
      writeField (ascii "Sec-WebSocket-Version", ascii "13") := by
  repeat rw [ascii_ofList]
  rfl

/-- A field whose value is put together with its key. -/
theorem writeField_append {text key lead : GoString}
    (htext : text = key ++ colon :: space :: lead) (value tail : GoString) :
    text ++ (value ++ (crlf ++ tail)) = writeField (key, lead ++ value) ++ tail := by
  simp only [htext, writeField, List.append_assoc, List.cons_append]

theorem handshakeResponse_eq (serverKey : GoString) :
    handshakeResponse serverKey =
      ascii "HTTP/1.1 101 Switching Protocols" ++ crlf ++
        writeHeaders (responseFields serverKey) := by
  have hline : ascii "HTTP/1.1 101 Switching Protocols\r\n" =
      ascii "HTTP/1.1 101 Switching Protocols" ++ crlf := by
    repeat rw [ascii_ofList]
    rfl
  have hkey : ascii "Sec-WebSocket-Accept: " =
      ascii "Sec-WebSocket-Accept" ++ colon :: space :: [] := by
    repeat rw [ascii_ofList]
    rfl
  have haccept := writeField_append hkey serverKey crlf
  rw [List.nil_append] at haccept
  simp only [handshakeResponse, writeHeaders, responseFields, List.flatMap_cons, List.flatMap_nil,
    List.append_nil, List.append_assoc, hline, ascii_upgrade, ascii_connection, ascii_crlf, haccept]

theorem handshakeRequest_eq (client : WS) (clientKey : GoString) :
    handshakeRequest client.host client.path client.origin clientKey =
      (ascii "GET " ++ client.path ++ ascii " HTTP/1.1") ++ crlf ++
        writeHeaders (requestFields client clientKey) := by
  have hline : ascii " HTTP/1.1\r\n" = ascii " HTTP/1.1" ++ crlf := by decide +kernel
  have hhost :=
    @writeField_append (ascii "Host: ") (ascii "Host") [] (by decide +kernel) client.host
  have horigin := @writeField_append (ascii "Origin: http://") (ascii "Origin") (ascii "http://")
    (by decide +kernel) client.origin
  have hkey := @writeField_append (ascii "Sec-WebSocket-Key: ") (ascii "Sec-WebSocket-Key") []
    (by decide +kernel) clientKey
  simp only [List.nil_append] at hhost hkey
  unfold handshakeRequest requestFields writeHeaders
  split
  all_goals
    simp only [List.flatMap_cons, List.flatMap_nil, List.append_nil, List.nil_append,
      List.singleton_append, List.append_assoc, hline, hhost, horigin, hkey, ascii_upgrade,
      ascii_connection, ascii_version, ascii_crlf]

/-! ### What is read back -/

/-- The value of the first field with a key. -/
theorem get_map_readBack {pre post : MIMEHeader} {key : GoString} (value : GoString)
    (hpre : ∀ field ∈ pre, canonicalKey field.1 ≠ canonicalKey key) :
    MIMEHeader.get ((pre ++ (key, value) :: post).map readBack) key = trim value := by
  have hnone : (pre.map readBack).filter (fun field => field.1 = canonicalKey key) = [] := by
    rw [List.filter_eq_nil_iff]
    intro field hmem
    obtain ⟨field', hmem', rfl⟩ := List.mem_map.mp hmem
    rw [decide_eq_true_eq]
    exact hpre field' hmem'
  unfold MIMEHeader.get MIMEHeader.values
  rw [List.map_append, List.filter_append, hnone, List.nil_append, List.map_cons,
    List.filter_cons_of_pos (by simp [readBack])]
  rfl

/-- The keys of the fields that are written. -/
def fieldNames : List GoString :=
  [ascii "Host", ascii "Upgrade", ascii "Connection", ascii "Origin", ascii "Sec-WebSocket-Key",
    ascii "Sec-WebSocket-Version", ascii "Sec-WebSocket-Accept"]

theorem oneLine_of_name {key value : GoString} (hkey : key ∈ fieldNames)
    (hvalue : newline ∉ value) : OneLine (key, value) := by
  have hnames : ∀ key ∈ fieldNames, canonicalMIMEHeaderKey key = some (canonicalKey key) ∧
      ∀ b ∈ key.head?, isBlank b = false := by
    unfold fieldNames
    repeat rw [ascii_ofList]
    decide +kernel
  exact ⟨(hnames key hkey).1, (hnames key hkey).2, hvalue⟩

theorem oneLine_responseFields {serverKey : GoString} (hkey : newline ∉ serverKey) :
    ∀ field ∈ responseFields serverKey, OneLine field := by
  intro field hmem
  simp only [responseFields, List.mem_cons, List.not_mem_nil, or_false] at hmem
  rcases hmem with rfl | rfl | rfl
  · exact oneLine_of_name (by simp [fieldNames]) (by decide +kernel)
  · exact oneLine_of_name (by simp [fieldNames]) (by decide +kernel)
  · exact oneLine_of_name (by simp [fieldNames]) hkey

/-- The client accepts the response to a key exactly if it is its own, up to `computeServerKey`. -/
theorem readResponse_iff {f : GoString → GoString} {serverKey clientKey : GoString} {fail : IoErr}
    (hkey : serverKey.all isGraphic = true) :
    (∃ rest, readResponse f clientKey ⟨handshakeResponse serverKey, fail⟩ = .ok rest) ↔
      serverKey = f clientKey := by
  have hvalid := valid_of_all hkey
  have hread : readLine ⟨handshakeResponse serverKey, fail⟩ =
      .ok (ascii "HTTP/1.1 101 Switching Protocols",
        ⟨writeHeaders (responseFields serverKey) ++ [], fail⟩) := by
    rw [handshakeResponse_eq, readLine_crlf (by decide +kernel), List.append_nil]
  have hparts : parseFirstLine (ascii "HTTP/1.1 101 Switching Protocols") =
      some (ascii "HTTP/1.1", ascii "101", ascii "Switching Protocols") := by decide +kernel
  have hheader : readMIMEHeader ⟨writeHeaders (responseFields serverKey) ++ [], fail⟩ =
      .ok ((responseFields serverKey).map readBack, ⟨[], fail⟩) := by
    apply (readMIMEHeader_lines (oneLine_responseFields (newline_notMem_of_valid hvalid)) [] fail).1
    intro field hmem
    simp only [responseFields, List.mem_cons, List.not_mem_nil, or_false] at hmem
    rcases hmem with rfl | rfl | rfl
    · decide +kernel
    · decide +kernel
    · exact hvalid
  have hget : MIMEHeader.get ((responseFields serverKey).map readBack)
      (ascii "Sec-WebSocket-Accept") = serverKey := by
    have hpre : ∀ field ∈
          [(ascii "Upgrade", ascii "websocket"), (ascii "Connection", ascii "Upgrade")],
        canonicalKey field.1 ≠ canonicalKey (ascii "Sec-WebSocket-Accept") := by decide +kernel
    exact (get_map_readBack serverKey hpre).trans (trim_of_all hkey)
  unfold readResponse
  rw [hread]
  dsimp only
  rw [hparts]
  dsimp only
  rw [if_neg (not_not_intro rfl), hheader]
  dsimp only
  rw [hget]
  constructor
  · rintro ⟨rest, h⟩
    by_contra hne
    rw [if_pos hne] at h
    cases h
  · intro heq
    rw [if_neg (not_not_intro heq)]
    exact ⟨_, rfl⟩

/-! ### Both sides -/

/-- A server understands the request of a client: it reads a request in it, with a key whose
answer is the one for the client's own. -/
def Understood (fail : IoErr) (client : WS) (clientKey : GoString) : Prop :=
  ∃ path key,
    Requests ⟨handshakeRequest client.host client.path client.origin clientKey, fail⟩ path key ∧
      computeServerKey sha1 key = computeServerKey sha1 clientKey

theorem write_fresh (p : List UInt8) : ({} : Sink).write p = (⟨p, []⟩, p.length, none) :=
  Sink.write_of_works rfl p

/-- **Both handshakes succeed** exactly if the request is understood. -/
theorem completes_iff {toClient toServer : Segmentation} {fail fail' : IoErr} {client server : WS}
    {clientKey : GoString} :
    Completes sha1 toClient toServer fail fail' client server clientKey ↔
      Understood sha1 fail' client clientKey := by
  have hunread : ∀ (seg : Segmentation) data err out,
      Conn.unread ⟨seg.segments data, err, out⟩ = data := fun seg data _ _ =>
    seg.flatten_segments data
  constructor
  · rintro ⟨c, s, hclient, hserver⟩
    obtain ⟨⟨n, hrequest⟩, hresponse⟩ := (newClientConn_ok_iff sha1 _ _ _).mp ⟨c, hclient, rfl⟩
    obtain ⟨path, key, n', hread, hwrite⟩ := (newServerConn_ok_iff sha1 _ _).mp ⟨s, hserver, rfl⟩
    rw [write_fresh] at hrequest hwrite
    rw [hunread, ← congrArg (fun w => w.1.data) hwrite] at hresponse
    rw [hunread, ← congrArg (fun w => w.1.data) hrequest] at hread
    exact ⟨path, key, hread, (readResponse_iff (all_encodeToString _)).mp hresponse⟩
  · rintro ⟨path, key, hread, hkey⟩
    have hresponse := (@readResponse_iff (computeServerKey sha1) _ clientKey fail
      (all_encodeToString _)).mpr hkey
    obtain ⟨c, hclient, hcout⟩ := (newClientConn_ok_iff sha1 client clientKey
      ⟨toClient.segments (handshakeResponse (computeServerKey sha1 key)), fail, {}⟩).mpr
      ⟨⟨_, write_fresh _⟩, by rw [hunread]; exact hresponse⟩
    obtain ⟨s, hserver, hsout⟩ := (newServerConn_ok_iff sha1 server
      ⟨toServer.segments (handshakeRequest client.host client.path client.origin clientKey),
        fail', {}⟩).mpr ⟨path, key, _, by rw [hunread]; exact hread, write_fresh _⟩
    refine ⟨c, s, ?_, ?_⟩
    · rw [hsout]
      exact hclient
    · rw [hcout]
      exact hserver

/-- The configuration of a client with nothing in it that ends a line. -/
structure WS.OnLines (client : WS) : Prop where
  host : newline ∉ client.host
  path : newline ∉ client.path
  origin : newline ∉ client.origin

theorem oneLine_requestFields {client : WS} {clientKey : GoString} (lines : client.OnLines)
    (hkey : newline ∉ clientKey) : ∀ field ∈ requestFields client clientKey, OneLine field := by
  intro field hmem
  have horigin : newline ∉ ascii "http://" ++ client.origin := by
    rw [List.mem_append, not_or]
    exact ⟨by decide, lines.origin⟩
  simp only [requestFields, List.mem_cons, List.mem_append, List.not_mem_nil, or_false] at hmem
  rcases hmem with rfl | rfl | rfl | hmem | rfl | rfl
  · exact oneLine_of_name (by decide) lines.host
  · exact oneLine_of_name (by decide) (by decide)
  · exact oneLine_of_name (by decide) (by decide)
  · split at hmem
    · cases hmem
    · rw [List.mem_singleton.mp hmem]
      exact oneLine_of_name (by decide) horigin
  · exact oneLine_of_name (by decide) hkey
  · exact oneLine_of_name (by decide) (by decide)

theorem valid_requestFields {client : WS} {clientKey : GoString}
    (hkey : clientKey.all validHeaderValueByte = true) :
    (∀ field ∈ requestFields client clientKey, field.2.all validHeaderValueByte = true) ↔
      client.host.all validHeaderValueByte = true ∧
        client.origin.all validHeaderValueByte = true := by
  have hscheme : (ascii "http://").all validHeaderValueByte = true := by decide
  have hfixed : (ascii "websocket").all validHeaderValueByte = true ∧
      (ascii "Upgrade").all validHeaderValueByte = true ∧
      (ascii "13").all validHeaderValueByte = true := by decide
  unfold requestFields
  split
  · rename_i hnone
    simp only [List.forall_mem_cons, List.nil_append, List.not_mem_nil, false_implies,
      implies_true, hkey, hfixed, hnone, List.all_nil, and_true]
  · simp only [List.forall_mem_cons, List.singleton_append, List.not_mem_nil, false_implies,
      implies_true, hkey, hfixed, List.all_append, hscheme, Bool.true_and, and_true, true_and]

/-- The first line of a request has three fields, whatever the path. -/
theorem parseFirstLine_request (path : GoString) :
    ∃ second third, parseFirstLine (ascii "GET " ++ path ++ ascii " HTTP/1.1") =
      some (ascii "GET", second, third) := by
  have hline : ascii "GET " ++ path ++ ascii " HTTP/1.1" =
      ascii "GET" ++ space :: (path ++ ascii " HTTP/1.1") := by
    rw [List.append_assoc]
    rfl
  obtain ⟨second, third, hpath, hsecond, -⟩ | ⟨hnot, -⟩ :=
    cut_cases (path ++ ascii " HTTP/1.1") space
  · refine ⟨second, third, ?_⟩
    rw [hline, hpath]
    exact cutTwice_eq_some_iff.mpr ⟨rfl, by decide, hsecond⟩
  · exact absurd (List.mem_append_right path (by decide)) hnot

/-- The first line of a request, and what follows it. -/
theorem readLine_request {client : WS} (lines : client.OnLines) (clientKey : GoString)
    (fail : IoErr) :
    readLine ⟨handshakeRequest client.host client.path client.origin clientKey, fail⟩ =
      .ok (ascii "GET " ++ client.path ++ ascii " HTTP/1.1",
        ⟨writeHeaders (requestFields client clientKey) ++ [], fail⟩) := by
  have hnewline : newline ∉ ascii "GET " ++ client.path ++ ascii " HTTP/1.1" := by
    rw [List.mem_append, List.mem_append, not_or, not_or]
    exact ⟨⟨by decide, lines.path⟩, by decide⟩
  rw [handshakeRequest_eq, readLine_crlf hnewline, List.append_nil]

/-- The key is found in the fields of a request. -/
theorem get_requestFields (client : WS) (clientKey : GoString) :
    MIMEHeader.get ((requestFields client clientKey).map readBack) (ascii "Sec-WebSocket-Key") =
      trim clientKey := by
  have hfields : requestFields client clientKey =
      ([(ascii "Host", client.host), (ascii "Upgrade", ascii "websocket"),
        (ascii "Connection", ascii "Upgrade")] ++
        if client.origin = [] then []
        else [(ascii "Origin", ascii "http://" ++ client.origin)]) ++
      (ascii "Sec-WebSocket-Key", clientKey) :: [(ascii "Sec-WebSocket-Version", ascii "13")] := by
    rw [requestFields, List.append_assoc]
    rfl
  have hnames : ∀ name ∈ [ascii "Host", ascii "Upgrade", ascii "Connection", ascii "Origin"],
      canonicalKey name ≠ canonicalKey (ascii "Sec-WebSocket-Key") := by decide +kernel
  rw [hfields]
  apply get_map_readBack
  intro field hmem
  apply hnames
  simp only [List.mem_append, List.mem_cons, List.not_mem_nil, or_false] at hmem ⊢
  rcases hmem with (rfl | rfl | rfl) | hmem
  · exact Or.inl rfl
  · exact Or.inr (Or.inl rfl)
  · exact Or.inr (Or.inr (Or.inl rfl))
  · split at hmem
    · cases hmem
    · rw [List.mem_singleton.mp hmem]
      exact Or.inr (Or.inr (Or.inr rfl))

/-- **A configuration on lines is understood** exactly if the host and the origin can be values of
header fields. -/
theorem understood_iff {fail : IoErr} {client : WS} (lines : client.OnLines) (p : List UInt8) :
    Understood sha1 fail client (generateClientKey p) ↔
      client.host.all validHeaderValueByte = true ∧
        client.origin.all validHeaderValueByte = true := by
  have hgraphic : (generateClientKey p).all isGraphic = true := all_encodeToString p
  have hkey := valid_of_all hgraphic
  have hread := readLine_request lines (generateClientKey p) fail
  obtain ⟨hok, herror⟩ := readMIMEHeader_lines
    (oneLine_requestFields lines (newline_notMem_of_valid hkey)) [] fail
  rw [← valid_requestFields hkey]
  constructor
  · rintro ⟨path, key, ⟨line, mid, first, third, header, rest, hline, -, hheader, -⟩, -⟩
    cases hread.symm.trans hline
    by_contra hnot
    simp only [not_forall] at hnot
    obtain ⟨field, hmem, hinvalid⟩ := hnot
    obtain ⟨e, hfails⟩ := herror ⟨field, hmem, Bool.eq_false_iff.mpr hinvalid⟩
    cases hfails.symm.trans hheader
  · intro hvalid
    obtain ⟨second, third, hparts⟩ := parseFirstLine_request client.path
    have hget := (get_requestFields client (generateClientKey p)).trans (trim_of_all hgraphic)
    exact ⟨second, generateClientKey p,
      ⟨_, _, _, third, _, _, hread, hparts, hok hvalid, hget⟩, rfl⟩

/-- **When a server accepts exactly its own path.** For any client and any server the handshake
completes exactly if the paths are equal just when it is so that the request is understood exactly
if they are; without newlines in its configuration a client is understood exactly if its host and
its origin can be values of fields, so that the paths have to be equal. For any stream the server
returns without an error only for its own path exactly if the stream has no request for another
one, or the response cannot be written. -/
theorem path_iff (toClient toServer : Segmentation) (fail fail' : IoErr) (client server : WS)
    (p : List UInt8) (rc : Conn) :
    ((Completes sha1 toClient toServer fail fail' client server (generateClientKey p) ↔
        client.path = server.path) ↔
      (Understood sha1 fail' client (generateClientKey p) ↔ client.path = server.path)) ∧
    (client.OnLines →
      (Understood sha1 fail' client (generateClientKey p) ↔
        client.host.all validHeaderValueByte = true ∧
          client.origin.all validHeaderValueByte = true)) ∧
    ((∀ s line mid first second third, NewServerConn sha1 server rc = .ok s →
        readLine ⟨rc.unread, rc.fail⟩ = .ok (line, mid) →
        parseFirstLine line = some (first, second, third) → second = server.path) ↔
      ∀ path key, Requests ⟨rc.unread, rc.fail⟩ path key →
        (rc.out.write (handshakeResponse (computeServerKey sha1 key))).2.2 = none →
        path = server.path) := by
  refine ⟨by rw [completes_iff], fun lines => understood_iff sha1 lines p, ?_⟩
  constructor
  · intro h path key hrequest hwrite
    obtain ⟨s, hok, -⟩ := (newServerConn_ok_iff sha1 server rc).mpr
      ⟨path, key, _, hrequest, Prod.ext rfl (Prod.ext rfl hwrite)⟩
    obtain ⟨line, mid, first, third, -, -, hline, hparts, -⟩ := hrequest
    exact h s line mid first path third hok hline hparts
  · intro h s line mid first second third hok hline hparts
    obtain ⟨path, key, n, hrequest, hwrite⟩ :=
      (newServerConn_ok_iff sha1 server rc).mp ⟨s, hok, rfl⟩
    obtain ⟨line', mid', first', third', header, rest, hline', hparts', hheader, hkey⟩ := hrequest
    cases hline.symm.trans hline'
    cases hparts.symm.trans hparts'
    exact h second key ⟨line, mid, first, third, header, rest, hline, hparts, hheader, hkey⟩
      (congrArg (fun w => w.2.2) hwrite)

end

/-- A stream that arrives in one piece. -/
def inOnePiece : Segmentation := ⟨fun data => [data], fun _ => List.flatten_singleton⟩

/-- A client of the host `h`. -/
def clientFor (path : GoString) : WS := ⟨ascii "h", path, []⟩

theorem clientFor_onLines {path : GoString} (h : newline ∉ path) : (clientFor path).OnLines where
  host := show newline ∉ ascii "h" by decide
  path := h
  origin := List.not_mem_nil

/-- The handshake for the path of the server completes. -/
theorem path_iff_same :
    (clientFor (ascii "/a")).OnLines ∧
    Completes id inOnePiece inOnePiece .eof .eof (clientFor (ascii "/a")) (clientFor (ascii "/a"))
      (generateClientKey [1, 2, 3]) := by
  have lines : (clientFor (ascii "/a")).OnLines := clientFor_onLines (by decide)
  obtain ⟨hcompletes, hunderstood, -⟩ := path_iff id inOnePiece inOnePiece .eof .eof
    (clientFor (ascii "/a")) (clientFor (ascii "/a")) [1, 2, 3] ⟨[], .eof, {}⟩
  have hvalid := (hunderstood lines).mpr ⟨by decide, by decide⟩
  exact ⟨lines, (hcompletes.mpr ⟨fun _ => rfl, fun _ => hvalid⟩).mpr rfl⟩

/-- A client for `/a` completes the handshake with a server for `/b`, and the server returns no
error for a request line with the path `/`. -/
theorem other_path_accepted :
    Completes id inOnePiece inOnePiece .eof .eof (clientFor (ascii "/a")) (clientFor (ascii "/b"))
      (generateClientKey [1, 2, 3]) ∧
    (clientFor (ascii "/a")).path ≠ (clientFor (ascii "/b")).path ∧
    (NewServerConn id (clientFor (ascii "/b")) ⟨[request], .eof, {}⟩).isOk = true ∧
    parseFirstLine (ascii "GET / HTTP/1.1") = some (ascii "GET", ascii "/", ascii "HTTP/1.1") := by
  have lines : (clientFor (ascii "/a")).OnLines := clientFor_onLines (by decide)
  have hvalid := (@understood_iff id .eof _ lines [1, 2, 3]).mpr ⟨by decide, by decide⟩
  exact ⟨(completes_iff id).mpr hvalid, by decide, by decide +kernel, by decide⟩

end Glider.Ws
