/-
The websocket handshake (`proxy/ws/client.go`, `proxy/ws/server.go`).

Both sides read the other's header through a `bufio.Reader` from a pool, and drop it when they are
done; `Read` then goes to the connection itself. What the buffer has taken beyond the empty line
at the end of the header is lost. The buffer takes the bytes of the connection a segment at a
time, each what one read of the connection returned.

* `handshake_keeps_iff` — nothing is lost exactly if a segment ends with the header.
* `handshake_loses` — a response and a request with a frame in the same segment.
-/

import Glider.Go.Textproto
import Glider.Go.Transport
import Glider.Lib.Chunks

namespace Glider.Ws

open Glider.Go Glider.Lib

/-- A connection: the segments to be read from it, the error after them, and what is written. -/
structure Conn where
  segments : List (List UInt8)
  fail : IoErr
  out : Sink

/-- What is still to be read. -/
def Conn.unread (c : Conn) : List UInt8 := c.segments.flatten

/-- `parseFirstLine`. -/
def parseFirstLine (line : GoString) : Option (GoString × GoString × GoString) := cutTwice line

/-! ### Client -/

/-- The request of `ClientConn.Handshake`. -/
def handshakeRequest (host path origin clientKey : GoString) : GoString :=
  ascii "GET " ++ path ++ ascii " HTTP/1.1\r\n" ++
  ascii "Host: " ++ host ++ ascii "\r\n" ++
  ascii "Upgrade: websocket\r\n" ++
  ascii "Connection: Upgrade\r\n" ++
  (if origin = [] then [] else ascii "Origin: http://" ++ origin ++ ascii "\r\n") ++
  ascii "Sec-WebSocket-Key: " ++ clientKey ++ ascii "\r\n" ++
  ascii "Sec-WebSocket-Version: 13\r\n" ++
  ascii "\r\n"

section

variable (computeServerKey : GoString → GoString)

/-- The response as `ClientConn.Handshake` reads it: what is left after it. -/
def readResponse (clientKey : GoString) (r : Source) : Except ReadErr Source :=
  match readLine r with
  | .error e => .error (.io e)
  | .ok (line, r) =>
    match parseFirstLine line with
    | some (_, code, _) =>
      if code ≠ ascii "101" then
        .error (.io (.text (ascii "[ws] error in ws handshake, got wrong response: " ++ line)))
      else
        match readMIMEHeader r with
        | .error e => .error e
        | .ok (respHeader, r) =>
          if respHeader.get (ascii "Sec-WebSocket-Accept") ≠ computeServerKey clientKey then
            .error (.io (.text (ascii "[ws] error in ws handshake, got wrong Sec-Websocket-Key")))
          else .ok r
    | none =>
      .error (.io (.text (ascii "[ws] error in ws handshake, got wrong response: " ++ line)))

/-- `ClientConn.Handshake`, with the key it has generated. Only the segments the buffer did not get
to are left. -/
def ClientConn.Handshake (host path origin clientKey : GoString) (c : Conn) : Except ReadErr Conn :=
  match c.out.write (handshakeRequest host path origin clientKey) with
  | (_, _, some err) => .error (.io err)
  | (out, _, none) =>
    match readResponse computeServerKey clientKey ⟨c.unread, c.fail⟩ with
    | .error e => .error e
    | .ok r => .ok ⟨fetch (c.unread.length - r.data.length) c.segments, c.fail, out⟩

/-! ### Server -/

/-- The response of `ServerConn.Handshake`. -/
def handshakeResponse (serverKey : GoString) : GoString :=
  ascii "HTTP/1.1 101 Switching Protocols\r\n" ++
  ascii "Upgrade: websocket\r\n" ++
  ascii "Connection: Upgrade\r\n" ++
  ascii "Sec-WebSocket-Accept: " ++ serverKey ++ ascii "\r\n" ++
  ascii "\r\n"

/-- The request as `ServerConn.Handshake` reads it: the client's key, and what is left after it. The
path is compared with itself. -/
def readRequest (r : Source) : Except ReadErr (GoString × Source) :=
  match readLine r with
  | .error e => .error (.io e)
  | .ok (line, r) =>
    match parseFirstLine line with
    | none => .error (.io (.text (ascii "[ws] error in ws handshake parseFirstLine: " ++ line)))
    | some (_, path, _) =>
      if path ≠ path then
        .error (.io (.text (ascii "[ws] error in ws handshake parseFirstLine: " ++ line)))
      else
        match readMIMEHeader r with
        | .error e => .error e
        | .ok (reqHeader, r) => .ok (reqHeader.get (ascii "Sec-WebSocket-Key"), r)

/-- `ServerConn.Handshake`. -/
def ServerConn.Handshake (c : Conn) : Except ReadErr Conn :=
  match readRequest ⟨c.unread, c.fail⟩ with
  | .error e => .error e
  | .ok (clientKey, r) =>
    match c.out.write (handshakeResponse (computeServerKey clientKey)) with
    | (_, _, some err) => .error (.io err)
    | (out, _, none) => .ok ⟨fetch (c.unread.length - r.data.length) c.segments, c.fail, out⟩

/-! ### What is left -/

theorem readResponse_ok {clientKey : GoString} {r r' : Source}
    (h : readResponse computeServerKey clientKey r = .ok r') :
    ∃ head, r.data = head ++ r'.data ∧ IsHead head := by
  unfold readResponse at h
  split at h
  · cases h
  rename_i line mid hline
  split at h
  · rename_i first code third hparts
    split at h
    · cases h
    split at h
    · cases h
    · rename_i respHeader rest hheader
      split at h <;> cases h
      exact isHead_of_read hline (ne_nil_of_cutTwice hparts) hheader
  · cases h

theorem readRequest_ok {clientKey : GoString} {r r' : Source}
    (h : readRequest r = .ok (clientKey, r')) : ∃ head, r.data = head ++ r'.data ∧ IsHead head := by
  unfold readRequest at h
  split at h
  · cases h
  rename_i line mid hline
  split at h
  · cases h
  rename_i first path third hparts
  split at h
  · cases h
  · split at h <;> cases h
    rename_i reqHeader rest hheader
    exact isHead_of_read hline (ne_nil_of_cutTwice hparts) hheader

/-- What the buffer leaves of the segments. The head is the one that was read. -/
theorem unread_fetch_iff {c : Conn} {out : Sink} {r : Source} {head head' rest : GoString}
    (hread : c.unread = head' ++ r.data) (hhead' : IsHead head') (hhead : IsHead head)
    (hunread : c.unread = head ++ rest) :
    Conn.unread ⟨fetch (c.unread.length - r.data.length) c.segments, c.fail, out⟩ = rest ↔
      ∃ k, (c.segments.take k).flatten = head := by
  obtain ⟨rfl, hrest⟩ := hhead'.unique hhead (hread.symm.trans hunread)
  have hlen : c.unread.length - r.data.length = head'.length := by
    rw [hread, List.length_append, Nat.add_sub_cancel]
  rw [Conn.unread, hlen]
  exact flatten_fetch_iff hunread

/-- **The handshake keeps what follows exactly if a segment ends with the header.** On both sides,
for every stream on which the handshake succeeds, however it is cut into segments. -/
theorem handshake_keeps_iff :
    (∀ host path origin clientKey c c' head rest, IsHead head → c.unread = head ++ rest →
      ClientConn.Handshake computeServerKey host path origin clientKey c = .ok c' →
      (c'.unread = rest ↔ ∃ k, (c.segments.take k).flatten = head)) ∧
    ∀ c c' head rest, IsHead head → c.unread = head ++ rest →
      ServerConn.Handshake computeServerKey c = .ok c' →
      (c'.unread = rest ↔ ∃ k, (c.segments.take k).flatten = head) := by
  constructor
  · intro host path origin clientKey c c' head rest hhead hunread h
    unfold ClientConn.Handshake at h
    split at h
    · cases h
    · split at h <;> cases h
      rename_i r hread
      obtain ⟨head', hdata, hhead'⟩ := readResponse_ok computeServerKey hread
      exact unread_fetch_iff hdata hhead' hhead hunread
  · intro c c' head rest hhead hunread h
    unfold ServerConn.Handshake at h
    split at h
    · cases h
    · rename_i clientKey r hread
      split at h <;> cases h
      obtain ⟨head', hdata, hhead'⟩ := readRequest_ok hread
      exact unread_fetch_iff hdata hhead' hhead hunread

end

/-- A response to the key `k`, for a function of the key that leaves it as it is. -/
def response : GoString :=
  ascii "HTTP/1.1 101 Switching Protocols\r\nSec-WebSocket-Accept: k\r\n\r\n"

def request : GoString := ascii "GET / HTTP/1.1\r\nSec-WebSocket-Key: k\r\n\r\n"

/-- A frame with the payload `hi`. -/
def frameHi : List UInt8 := [0x82, 2, 104, 105]

theorem isHead_response : IsHead response := by
  refine ⟨[ascii "HTTP/1.1 101 Switching Protocols\r", ascii "Sec-WebSocket-Accept: k\r"],
    [carriageReturn], ?_, .inr rfl, by decide⟩
  rw [List.forall_mem_cons, List.forall_mem_singleton]
  exact ⟨⟨by decide, by decide, by decide⟩, ⟨by decide, by decide, by decide⟩⟩

theorem isHead_request : IsHead request := by
  refine ⟨[ascii "GET / HTTP/1.1\r", ascii "Sec-WebSocket-Key: k\r"],
    [carriageReturn], ?_, .inr rfl, by decide⟩
  rw [List.forall_mem_cons, List.forall_mem_singleton]
  exact ⟨⟨by decide, by decide, by decide⟩, ⟨by decide, by decide, by decide⟩⟩

/-- With a frame in the segment of the header both handshakes succeed, and the frame is gone. -/
theorem handshake_loses :
    IsHead response ∧ IsHead request ∧
    (ClientConn.Handshake id (ascii "h") (ascii "/") [] (ascii "k")
      ⟨[response ++ frameHi], .eof, {}⟩).map Conn.unread = .ok [] ∧
    (ServerConn.Handshake id ⟨[request ++ frameHi], .eof, {}⟩).map Conn.unread = .ok [] :=
  ⟨isHead_response, isHead_request, by decide +kernel, by decide +kernel⟩

/-- With the frame in a segment of its own it is still there. -/
theorem handshake_keeps_next_segment :
    ∃ c', ClientConn.Handshake id (ascii "h") (ascii "/") [] (ascii "k")
        ⟨[response, frameHi], .eof, {}⟩ = .ok c' ∧ c'.unread = frameHi := by
  cases h : ClientConn.Handshake id (ascii "h") (ascii "/") [] (ascii "k")
      ⟨[response, frameHi], .eof, {}⟩ with
  | error e =>
    have hok : (ClientConn.Handshake id (ascii "h") (ascii "/") [] (ascii "k")
      ⟨[response, frameHi], .eof, {}⟩).isOk = true := by decide +kernel
    rw [h] at hok
    cases hok
  | ok c' =>
    refine ⟨c', rfl, ?_⟩
    exact ((handshake_keeps_iff id).1 _ _ _ _ _ c' response frameHi isHead_response rfl h).mpr
      ⟨1, by decide⟩

end Glider.Ws
