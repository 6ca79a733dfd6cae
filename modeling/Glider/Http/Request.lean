/-
Requests to the HTTP proxy (`proxy/http/request.go`): how they are parsed, and what `servHTTP` sends
to the remote server.

The absolute form of the target, which nothing sends, is left out.
-/

import Glider.Go.UrlParse
import Glider.Http.Header

namespace Glider.Http

open Glider.Go

/-- `request`. -/
structure Request where
  method : GoString
  uri : GoString
  proto : GoString
  auth : GoString
  header : MIMEHeader
  target : GoString
  ruri : GoString
deriving DecidableEq, Repr

inductive RequestErr where
  | io (e : IoErr)
  | startLine (line : GoString)
  | header (e : ReadErr)
  | url (e : UrlError)
deriving DecidableEq, Repr

section

variable (parseHost : GoString → Except String GoString)

/-- The URL of a request, and the URI relative to its host. -/
def parseTarget (method uri : GoString) (header : MIMEHeader) : Except UrlError (URL × GoString) :=
  -- the target of CONNECT is an authority
  let justAuthority : Bool := method = ascii "CONNECT" ∧ uri.head? ≠ some 47
  match parseRequestURI parseHost (if justAuthority then ascii "http://" ++ uri else uri) with
  | .error e => .error e
  | .ok u =>
    let u := if justAuthority then { u with scheme := [] } else u
    if u.scheme ≠ [] then .ok (u, { u with scheme := [], host := [] }.string)
    else
      match parseURLReference parseHost (ascii "http://" ++ header.get (ascii "Host")) with
      | .error e => .error e
      | .ok _ => .ok (u, u.string)

/-- `parseRequest`. -/
def parseRequest (r : Source) : Except RequestErr (Request × Source) :=
  match readLine r with
  | .error e => .error (.io e)
  | .ok (line, r) =>
    match parseStartLine line with
    | none => .error (.startLine line)
    | some (method, uri, proto) =>
      match readMIMEHeader r with
      | .error e => .error (.header e)
      | .ok (h, r) =>
        let auth := h.get (ascii "Proxy-Authorization")
        let header := (cleanHeaders h).set (ascii "Connection") (ascii "close")
        match parseTarget parseHost method uri header with
        | .error e => .error (.url e)
        | .ok (u, ruri) =>
          let target := if colon ∈ u.host then u.host else u.host ++ ascii ":80"
          .ok (⟨method, uri, proto, auth, header, target, ruri⟩, r)

end

/-- `WriteBuf`, with the fields of the header in the order in which the map is listed. -/
def Request.WriteBuf (req : Request) (listing : MIMEHeader) : GoString :=
  writeStartLine req.method req.ruri req.proto ++ writeHeaders listing

/-- What `servHTTP` sends: the request, and the bytes that the client sends after its header. -/
def Request.upstream (req : Request) (listing : MIMEHeader) (rest : List UInt8) : List UInt8 :=
  req.WriteBuf listing ++ rest

/-! ### Requests that are accepted -/

/-- What has been read of a request that is not CONNECT. -/
theorem parseRequest_ok {parseHost : GoString → Except String GoString} {r r' : Source}
    {req : Request} (h : parseRequest parseHost r = .ok (req, r'))
    (hmethod : req.method ≠ ascii "CONNECT") :
    ∃ line mid fields u, readLine r = .ok (line, mid) ∧
      cutTwice line = some (req.method, req.uri, req.proto) ∧
      readMIMEHeader mid = .ok (fields, r') ∧
      req.header = (cleanHeaders fields).set (ascii "Connection") (ascii "close") ∧
      parseRequestURI parseHost req.uri = .ok u ∧
      req.target = (if colon ∈ u.host then u.host else u.host ++ ascii ":80") ∧
      req.ruri = { u with scheme := [], host := [] }.string := by
  unfold parseRequest at h
  split at h
  · cases h
  rename_i line mid hline
  split at h
  · cases h
  rename_i method uri proto hstart
  split at h
  · cases h
  rename_i fields after hfields
  dsimp only at h
  split at h
  · cases h
  rename_i u ruri htarget
  cases h
  refine ⟨line, mid, fields, u, hline, hstart, hfields, rfl, ?_⟩
  dsimp only at hmethod ⊢
  unfold parseTarget at htarget
  simp only [hmethod, false_and, decide_false, Bool.false_eq_true, if_false] at htarget
  split at htarget
  · cases htarget
  rename_i u' hparse
  obtain ⟨hrequest, -⟩ := parseRequestURI_spec hparse
  split at htarget
  · cases htarget
    exact ⟨hparse, rfl, rfl⟩
  · rename_i hrelative
    have hscheme : u'.scheme = [] := Classical.not_not.mp hrelative
    have hsame : { u' with scheme := [], host := [] } = u' := by
      have hhost := (hrequest.relative hscheme).1
      cases u'
      dsimp only at hscheme hhost
      rw [hscheme, hhost]
    split at htarget <;> cases htarget
    exact ⟨hparse, rfl, by rw [hsame]⟩

/-- The fields of a request that is accepted are written so that they can be read. -/
theorem isField_of_listing {fields listing : MIMEHeader} {key value : GoString}
    (hfields : ∀ field ∈ fields, IsField field) (hclose : IsField (canonicalKey key, value))
    (hlisting : ∀ k, listing.values k = ((cleanHeaders fields).set key value).values k) :
    ∀ field ∈ listing, IsField field := by
  intro field hfield
  have hvalue : field.2 ∈ listing.values field.1 :=
    List.mem_map.mpr ⟨field, List.mem_filter.mpr ⟨hfield, by simp⟩, rfl⟩
  rw [hlisting] at hvalue
  obtain ⟨field', hfield', hsnd⟩ := List.mem_map.mp hvalue
  obtain ⟨hmem, hfst⟩ := List.mem_filter.mp hfield'
  have heq : field' = field := Prod.ext (of_decide_eq_true hfst) hsnd
  rw [← heq]
  obtain hdel | hset := List.mem_append.mp hmem
  · exact hfields field' (mem_of_mem_cleanHeaders (mem_of_mem_del hdel))
  · rw [List.mem_singleton.mp hset]
    exact hclose

end Glider.Http
