/-
HTTP/1.1 message framing, and what it makes of the requests that the proxy passes on.

`readMessage` is the recipient's view of a request: where its body ends is said by the field
`Transfer-Encoding` or `Content-Length`. The proxy deletes the first of them and copies the body as
it is.

* `readMessage_upstream` — the message that the remote server gets.
* `forwarded_iff` — it is that of the client if the body has a length, or is empty, and the target
  has a path and no user.
-/

import Glider.Http.Request

namespace Glider.Http

open Glider.Go

/-! ### Framing -/

/-- How the body of a request is delimited. -/
inductive Framing where
  | empty
  | length (n : Nat)
  | chunked
deriving DecidableEq, Repr

def transferEncoding : GoString := ascii "Transfer-Encoding"

def contentLength : GoString := ascii "Content-Length"

/-- The length that all values give. -/
def lengthOf : List GoString → Option Nat
  | [] => none
  | v :: vs => if ∀ w ∈ vs, trim w = trim v then decimal (trim v) else none

/-- The framing of a request, by its header. Both fields at once, or another transfer encoding, are
not taken. -/
def framing (h : MIMEHeader) : Option Framing :=
  match h.values transferEncoding, h.values contentLength with
  | [], [] => some .empty
  | [], vs => (lengthOf vs).map .length
  | [v], [] => if lowerASCII (trim v) = ascii "chunked" then some .chunked else none
  | _, _ => none

/-- A number in hexadecimal digits. -/
def hexNumber (s : GoString) : Option Nat :=
  if s = [] then none
  else s.foldl (fun n b => n.bind fun n => (hexValue b).map (n * 16 + ·)) (some 0)

/-- The content of a chunked body, up to the last chunk and the trailer after it. -/
def decodeChunked (bytes : List UInt8) : Option (List UInt8) :=
  match _hcut : cut bytes newline with
  | (_, _, false) => none
  | (line, rest, true) =>
    match hexNumber (trim (cut (dropCR line) 59).1) with
    | none => none
    | some 0 =>
      match readMIMEHeader ⟨rest, .eof⟩ with
      | .error _ => none
      | .ok _ => some []
    | some (n + 1) =>
      if (rest.drop (n + 1)).take 2 = crlf then
        (decodeChunked (rest.drop (n + 3))).map (rest.take (n + 1) ++ ·)
      else none
termination_by bytes.length
decreasing_by
  obtain ⟨pre, post, rfl, -, hcut⟩ | ⟨-, hcut⟩ := cut_cases bytes newline
  · cases hcut.symm.trans _hcut
    simp only [List.length_drop, List.length_append, List.length_cons]
    omega
  · cases hcut.symm.trans _hcut

/-- The body, if all of it is there. -/
def readBody : Framing → List UInt8 → Option (List UInt8)
  | .empty, _ => some []
  | .length n, bytes => if n ≤ bytes.length then some (bytes.take n) else none
  | .chunked, bytes => decodeChunked bytes

/-- A request as it is received. -/
structure Message where
  method : GoString
  target : GoString
  framing : Framing
  body : List UInt8
deriving DecidableEq, Repr

/-- The first request of a stream. -/
def readMessage (r : Source) : Option Message :=
  match readLine r with
  | .error _ => none
  | .ok (line, r) =>
    match cutTwice line with
    | none => none
    | some (method, target, _) =>
      match readMIMEHeader r with
      | .error _ => none
      | .ok (h, r) =>
        match framing h with
        | none => none
        | some f => (readBody f r.data).map fun body => ⟨method, target, f, body⟩

/-- The target of a request in origin form. -/
def originForm (parseHost : GoString → Except String GoString) (uri : GoString) : GoString :=
  match parseRequestURI parseHost uri with
  | .ok u => u.requestURI
  | .error _ => uri

/-- A target with a path and without a user. -/
def PlainTarget (parseHost : GoString → Except String GoString) (uri : GoString) : Prop :=
  ∃ u, parseRequestURI parseHost uri = .ok u ∧ (u.opaq ≠ [] ∨ u.user = none ∧ u.path ≠ [])

/-! ### The header of the forwarded request -/

theorem trim_rdropWhile {s : GoString} (h : ∀ b ∈ s.head?, isBlank b = false) :
    trim (s.rdropWhile isBlank) = trim s := by
  have hpre : s.rdropWhile isBlank <+: s := List.rdropWhile_prefix isBlank s
  have hhead : ∀ b ∈ (s.rdropWhile isBlank).head?, isBlank b = false := by
    intro b hb
    have hne : s.rdropWhile isBlank ≠ [] := by
      intro hnil
      rw [hnil] at hb
      cases hb
    exact h b (head_of_prefix_ne_nil hpre hne ▸ hb)
  unfold trim
  rw [trimLeft_of_head hhead, trimLeft_of_head h, List.rdropWhile_idempotent]

theorem lengthOf_map_rdropWhile {vs : List GoString}
    (h : ∀ v ∈ vs, ∀ b ∈ v.head?, isBlank b = false) :
    lengthOf (vs.map (List.rdropWhile isBlank)) = lengthOf vs := by
  cases vs with
  | nil => rfl
  | cons v vs =>
    have hv := trim_rdropWhile (h v List.mem_cons_self)
    have hall : (∀ w ∈ vs.map (List.rdropWhile isBlank), trim w = trim v) ↔
        ∀ w ∈ vs, trim w = trim v := by
      rw [List.forall_mem_map]
      refine forall₂_congr fun w hw => ?_
      rw [trim_rdropWhile (h w (List.mem_cons_of_mem v hw))]
    rw [List.map_cons, lengthOf, lengthOf, hv]
    exact if_congr hall rfl rfl

section

variable {fields listing : MIMEHeader} (hlisting : ∀ key, listing.values key =
  ((cleanHeaders fields).set (ascii "Connection") (ascii "close")).values key)
include hlisting

/-- Of the two fields, the length is left. -/
theorem values_forwarded :
    MIMEHeader.values (listing.map trimValue) transferEncoding = [] ∧
      MIMEHeader.values (listing.map trimValue) contentLength =
        (fields.values contentLength).map (List.rdropWhile isBlank) := by
  have hte : transferEncoding ∈ hopByHop.map canonicalKey ∧
      transferEncoding ≠ canonicalKey (ascii "Connection") := by decide
  have hcl : contentLength ∉ hopByHop.map canonicalKey ∧
      contentLength ≠ canonicalKey (ascii "Connection") := by decide
  constructor
  · rw [values_map_trimValue, hlisting, values_set, if_neg hte.2, values_cleanHeaders, if_pos hte.1]
    rfl
  · rw [values_map_trimValue, hlisting, values_set, if_neg hcl.2, values_cleanHeaders, if_neg hcl.1]

/-- A length stays, and a chunked body loses its mark. -/
theorem framing_forwarded (hfields : ∀ field ∈ fields, IsField field) {f : Framing}
    (h : framing fields = some f) (hne : f ≠ .empty) :
    framing (listing.map trimValue) = some (if f = .chunked then .empty else f) := by
  obtain ⟨hte, hcl⟩ := values_forwarded hlisting
  have hheads : ∀ v ∈ fields.values contentLength, ∀ b ∈ v.head?, isBlank b = false := by
    intro v hv
    obtain ⟨field, hfield, rfl⟩ := List.mem_map.mp hv
    exact (hfields field (List.mem_filter.mp hfield).1).value_head
  unfold framing at h ⊢
  rw [hte, hcl]
  cases hvalues : fields.values contentLength with
  | nil =>
    rw [hvalues] at h
    split at h
    · cases h
      exact absurd rfl hne
    · rename_i hvs
      exact absurd rfl hvs
    · split at h <;> cases h
      rfl
    · cases h
  | cons v vs =>
    rw [hvalues] at h
    have hlength := lengthOf_map_rdropWhile hheads
    rw [hvalues] at hlength
    split at h
    · rename_i hnil
      cases hnil
    · obtain ⟨n, hn, rfl⟩ := Option.map_eq_some_iff.mp h
      rw [List.map_cons] at hlength ⊢
      dsimp only
      rw [hlength, hn]
      rfl
    · rename_i hnil
      cases hnil
    · cases h

end

/-! ### The forwarded request -/

/-- What is read of a request. -/
theorem readMessage_eq_some {r mid r' : Source} {line method target proto : GoString}
    {fields : MIMEHeader} {m : Message} (hline : readLine r = .ok (line, mid))
    (hstart : cutTwice line = some (method, target, proto))
    (hfields : readMIMEHeader mid = .ok (fields, r')) :
    readMessage r = some m ↔ m.method = method ∧ m.target = target ∧
      framing fields = some m.framing ∧ readBody m.framing r'.data = some m.body := by
  unfold readMessage
  rw [hline]
  dsimp only
  rw [hstart]
  dsimp only
  rw [hfields]
  dsimp only
  cases framing fields with
  | none => simp
  | some f =>
    rw [Option.map_eq_some_iff]
    constructor
    · rintro ⟨body, hbody, rfl⟩
      exact ⟨rfl, rfl, rfl, hbody⟩
    · rintro ⟨rfl, rfl, hf, hbody⟩
      cases hf
      exact ⟨m.body, hbody, rfl⟩

/-- The message that the remote server gets. -/
theorem readMessage_upstream {parseHost : GoString → Except String GoString} {r r' : Source}
    {req : Request} (h : parseRequest parseHost r = .ok (req, r'))
    (hmethod : req.method ≠ ascii "CONNECT") {listing : MIMEHeader}
    (hlisting : ∀ key, listing.values key = req.header.values key) {m : Message}
    (hm : readMessage r = some m) (hbody : m.framing ≠ .empty) :
    m.target = req.uri ∧ readMessage ⟨req.upstream listing r'.data, r'.fail⟩ =
      some (if m.framing = .chunked then ⟨m.method, req.ruri, .empty, []⟩
        else { m with target := req.ruri }) := by
  obtain ⟨line, mid, fields, u, hline, hstart, hfields, hheader, hparse, -, hruri⟩ :=
    parseRequest_ok h hmethod
  obtain ⟨hmethodEq, htarget, hframing, hcontent⟩ :=
    (readMessage_eq_some hline hstart hfields).mp hm
  have hisField := readMIMEHeader_isField hfields
  rw [hheader] at hlisting
  have hclose : IsField (canonicalKey (ascii "Connection"), ascii "close") := by
    refine ⟨?_, ?_, ?_, ?_⟩ <;> decide +kernel
  have hwritten := isField_of_listing hisField hclose hlisting
  -- the start line is read back
  obtain ⟨hparts, hspace, hspace'⟩ := cutTwice_eq_some_iff.mp hstart
  have hnewline := newline_notMem_of_readLine hline
  obtain ⟨hrequest, hctl⟩ := parseRequestURI_spec hparse
  have hprintable : Printable req.uri := by
    intro b hb
    obtain ⟨hle, hne⟩ := hctl b hb
    refine ⟨UInt8.lt_of_le_of_ne hle ?_, hne⟩
    rintro rfl
    exact hspace' hb
  have hruriBytes := URL.printable_relative hrequest hprintable
  rw [← hruri] at hruriBytes
  have hstart' : cutTwice (req.method ++ space :: (req.ruri ++ space :: req.proto)) =
      some (req.method, req.ruri, req.proto) :=
    cutTwice_eq_some_iff.mpr ⟨rfl, hspace, fun hmem => absurd (hruriBytes _ hmem).1 (by decide)⟩
  have hnewline' : newline ∉ req.method ++ space :: (req.ruri ++ space :: req.proto) := by
    rw [hparts] at hnewline
    simp only [List.mem_append, List.mem_cons, not_or] at hnewline ⊢
    obtain ⟨h1, h2, -, h3, h4⟩ := hnewline
    exact ⟨h1, h2, fun hmem => absurd (hruriBytes _ hmem).1 (by decide), h3, h4⟩
  have hline' : readLine ⟨req.upstream listing r'.data, r'.fail⟩ =
      .ok (req.method ++ space :: (req.ruri ++ space :: req.proto),
        ⟨writeHeaders listing ++ r'.data, r'.fail⟩) := by
    rw [← readLine_crlf hnewline']
    simp [Request.upstream, Request.WriteBuf, writeStartLine]
  refine ⟨htarget, ?_⟩
  rw [readMessage_eq_some hline' hstart' (readMIMEHeader_writeHeaders hwritten _ _),
    framing_forwarded hlisting hisField hframing hbody]
  split
  · exact ⟨hmethodEq, rfl, rfl, rfl⟩
  · exact ⟨hmethodEq, rfl, rfl, hcontent⟩

/-- **Requests that are passed on.** For a request whose body is delimited by its length or by
chunks, the remote server gets the method, the target in origin form and the body of the client
exactly if the body is not chunked, or empty, and the target has a path and no user. This is about
the one message: the last chunk of an empty chunked body is sent too, and is left over for what
comes after it. -/
theorem forwarded_iff (parseHost : GoString → Except String GoString) (r r' : Source)
    (req : Request) (h : parseRequest parseHost r = .ok (req, r'))
    (hmethod : req.method ≠ ascii "CONNECT")
    (listing : MIMEHeader) (hlisting : ∀ key, listing.values key = req.header.values key)
    (m : Message) (hm : readMessage r = some m) (hbody : m.framing ≠ .empty) :
    (∃ m', readMessage ⟨req.upstream listing r'.data, r'.fail⟩ = some m' ∧ m'.method = m.method ∧
        m'.target = originForm parseHost m.target ∧ m'.body = m.body) ↔
      (m.framing ≠ .chunked ∨ m.body = []) ∧ PlainTarget parseHost m.target := by
  obtain ⟨htarget, hread⟩ := readMessage_upstream h hmethod hlisting hm hbody
  obtain ⟨-, -, -, u, -, -, -, -, hparse, -, hruri⟩ := parseRequest_ok h hmethod
  have hform : req.ruri = originForm parseHost m.target ↔ PlainTarget parseHost m.target := by
    have hiff := URL.relative_eq_requestURI_iff (parseRequestURI_spec hparse).1
    unfold originForm
    rw [htarget, hparse, hruri]
    refine ⟨fun heq => ⟨u, hparse, hiff.mp heq⟩, ?_⟩
    rintro ⟨u', hparse', hplain⟩
    cases hparse.symm.trans hparse'
    exact hiff.mpr hplain
  rw [hread, ← hform]
  by_cases hchunked : m.framing = .chunked
  · rw [if_pos hchunked]
    simp [hchunked, eq_comm, and_comm]
  · rw [if_neg hchunked]
    simp [hchunked]

/-- A request with the given field and body. -/
def post (field body : String) : Source :=
  ⟨ascii "POST http://host/upload HTTP/1.1\r\n" ++ ascii field ++ ascii "\r\n\r\n" ++ ascii body,
    .eof⟩

/-- What `parseRequest` makes of it. -/
def posted (header : MIMEHeader) : Request :=
  ⟨ascii "POST", ascii "http://host/upload", ascii "HTTP/1.1", [],
    header ++ [(ascii "Connection", ascii "close")], ascii "host:80", ascii "/upload"⟩

/-- The chunks of a body are sent without the field that announces them: the remote server sees an
empty body. -/
theorem chunked_body_lost :
    parseRequest .ok (post "Transfer-Encoding: chunked" "3\r\nabc\r\n0\r\n\r\n") =
        .ok (posted [], ⟨ascii "3\r\nabc\r\n0\r\n\r\n", .eof⟩) ∧
      readMessage (post "Transfer-Encoding: chunked" "3\r\nabc\r\n0\r\n\r\n") =
        some ⟨ascii "POST", ascii "http://host/upload", .chunked, ascii "abc"⟩ ∧
      readMessage ⟨(posted []).upstream (posted []).header (ascii "3\r\nabc\r\n0\r\n\r\n"), .eof⟩ =
        some ⟨ascii "POST", ascii "/upload", .empty, []⟩ := by
  refine ⟨?_, ?_, ?_⟩
  all_goals decide +kernel

theorem forwarded_three_bytes :
    ∃ m', readMessage ⟨(posted [(contentLength, ascii "3")]).upstream
          [(ascii "Connection", ascii "close"), (contentLength, ascii "3")] (ascii "abc"), .eof⟩ =
        some m' ∧
      m'.method = ascii "POST" ∧ m'.target = originForm .ok (ascii "http://host/upload") ∧
      m'.body = ascii "abc" := by
  refine (forwarded_iff .ok (post "content-length: 3" "abc") ⟨ascii "abc", .eof⟩
    (posted [(contentLength, ascii "3")]) (by decide +kernel) (by decide) _ (fun key => ?_)
    ⟨ascii "POST", ascii "http://host/upload", .length 3, ascii "abc"⟩ (by decide +kernel)
    (by decide)).mpr ⟨.inl (by decide),
      ⟨{ scheme := ascii "http", host := ascii "host", path := ascii "/upload" },
      by decide +kernel, .inr ⟨rfl, by decide⟩⟩⟩
  by_cases hclose : key = ascii "Connection"
  · rw [hclose]
    decide +kernel
  · by_cases hlength : key = contentLength
    · rw [hlength]
      decide +kernel
    · simp [MIMEHeader.values, posted, Ne.symm hclose, Ne.symm hlength]

end Glider.Http
