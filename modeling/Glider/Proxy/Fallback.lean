/-
The fallback of the Trojan and the VLESS server (`proxy/trojan/server.go`,
`proxy/vless/server.go`).

A server that cannot make sense of a header hands the connection to its fallback target. What
`readHeader` has taken from the connection is in the buffer of a tee; the rest is copied.

* `served_transparent` — any reader of headers that only reads through the tee.
* `fallback_transparent` — the target of both servers gets the bytes of the client.
-/

import Glider.Trojan.Server
import Glider.Vless.Server

namespace Glider.Proxy

open Glider.Go Glider.Lib

/-- `serveFallback`, in both servers: what the target has got in the end, if it can be dialled. Of
`Relay` the copy from the client is modelled. -/
def serveFallback (dial : GoString → Except IoErr Sink) (c : Transport) (tgt : GoString)
    (headBuf : List UInt8) : Option Sink :=
  match dial tgt with
  | .error _ => none
  | .ok rc =>
    match rc.write headBuf with
    | (rc, _, some _) => some rc
    | (rc, _, none) => some (CopyBuffer Transport.reader Sink.write rc c).dst

/-- `Serve` of both servers, up to the requests that are served. -/
def serve {α : Type} (readHeader : Reads Tee IoErr α) (fallback : GoString)
    (dial : GoString → Except IoErr Sink) (c : Transport) : Option Sink :=
  match readHeader ⟨c, []⟩ with
  | (.ok _, _) => none
  | (.error _, s) => if fallback ≠ [] then serveFallback dial s.conn fallback s.head else none

/-- What the target gets, whatever has been read before. -/
theorem serveFallback_stream {dial : GoString → Except IoErr Sink} {tgt : GoString} {rc : Sink}
    {stream : List UInt8} {s : Tee} (hdial : dial tgt = .ok rc) (fresh : rc.data = [])
    (hs : Tee.Of stream s) :
    ∃ rc', serveFallback dial s.conn tgt s.head = some rc' ∧ rc'.data <+: stream ∧
      (rc.answers = [] → rc'.data = stream) := by
  have hstream : s.head ++ s.conn.bytes = stream := hs.stream_eq
  unfold serveFallback
  rw [hdial]
  dsimp only
  cases hwrite : rc.write s.head with
  | mk rc₁ res =>
    obtain ⟨n, err⟩ := res
    obtain ⟨sent, hdata, hsent, hall⟩ := Sink.write_prefix hwrite
    rw [fresh, List.nil_append] at hdata
    cases err with
    | some e =>
      refine ⟨rc₁, rfl, ?_, fun works => ?_⟩
      · rw [hdata, ← hstream]
        exact hsent.trans (List.prefix_append _ _)
      · rw [Sink.write_of_works works] at hwrite
        cases hwrite
    | none =>
      refine ⟨_, rfl, ?_, fun works => ?_⟩
      · obtain ⟨copied, hcopy, hpre⟩ := copyLoop_prefix (w := rc₁) (t := s.conn)
        rw [CopyBuffer, hcopy, hdata, hall rfl, ← hstream]
        exact (List.prefix_append_right_inj s.head).mpr hpre
      · rw [Sink.write_of_works works] at hwrite
        cases hwrite
        rw [CopyBuffer_final rfl hs.final, fresh, List.nil_append, hstream]

/-- A reader of headers that only reads through the tee. -/
theorem served_transparent {α : Type} {readHeader : Reads Tee IoErr α}
    (keeps : ∀ stream, readHeader.Keeps (Tee.Of stream)) {fallback : GoString} {s : Tee} {e : IoErr}
    {dial : GoString → Except IoErr Sink} {rc : Sink} {c : Transport} (configured : fallback ≠ [])
    (hdial : dial fallback = .ok rc) (fresh : rc.data = []) (final : c.Final)
    (hread : readHeader ⟨c, []⟩ = (.error e, s)) :
    ∃ rc', serve readHeader fallback dial c = some rc' ∧ rc'.data <+: c.bytes ∧
      (rc.answers = [] → rc'.data = c.bytes) := by
  have hs : Tee.Of c.bytes s := by
    have h := keeps c.bytes ⟨c, []⟩ ⟨rfl, final⟩
    rw [hread] at h
    exact h
  unfold serve
  rw [hread]
  dsimp only
  rw [if_pos configured]
  exact serveFallback_stream hdial fresh hs

end Glider.Proxy

namespace Glider.Trojan

/-- `Serve`, from the header on. -/
def Serve (pass : Pass) := Proxy.serve (readHeader pass)

end Glider.Trojan

namespace Glider.Vless

/-- `Serve`. -/
def Serve (uuid : Uuid) := Proxy.serve (readHeader uuid)

end Glider.Vless

namespace Glider.Proxy

open Glider.Go

/-- **The fallback is transparent.** Whatever the client has sent, and however it arrives: if the
header is refused, the fallback target gets the bytes of the client from the first one on; if a
write to the target fails, a part of them up to there. -/
theorem fallback_transparent (c : Transport) (final : c.Final) (fallback : GoString)
    (configured : fallback ≠ []) (dial : GoString → Except IoErr Sink) (rc : Sink)
    (hdial : dial fallback = .ok rc) (fresh : rc.data = []) :
    (∀ (pass : Trojan.Pass) e s, Trojan.readHeader pass ⟨c, []⟩ = (.error e, s) →
      ∃ rc', Trojan.Serve pass fallback dial c = some rc' ∧ rc'.data <+: c.bytes ∧
        (rc.answers = [] → rc'.data = c.bytes)) ∧
    (∀ (uuid : Vless.Uuid) e s, Vless.readHeader uuid ⟨c, []⟩ = (.error e, s) →
      ∃ rc', Vless.Serve uuid fallback dial c = some rc' ∧ rc'.data <+: c.bytes ∧
        (rc.answers = [] → rc'.data = c.bytes)) := by
  constructor
  · intro pass e s hread
    exact served_transparent (Trojan.readHeader_keeps pass) configured hdial fresh final hread
  · intro uuid e s hread
    exact served_transparent (Vless.readHeader_keeps uuid) configured hdial fresh final hread

/-- A browser that speaks to the servers, in two pieces. -/
def browser : Transport :=
  ⟨[⟨ascii "GET / HTTP/1.1\r\n", none⟩, ⟨ascii "Host: localhost\r\n\r\n", some .eof⟩], .eof⟩

theorem fallback_transparent_browser :
    ∃ rc rc',
      Trojan.Serve ⟨List.replicate 56 48, rfl⟩ (ascii "localhost:80") (fun _ => .ok {}) browser =
        some rc ∧
      Vless.Serve ⟨List.replicate 16 7, rfl⟩ (ascii "localhost:80") (fun _ => .ok {}) browser =
        some rc' ∧
      rc.data = browser.bytes ∧ rc'.data = browser.bytes := by
  obtain ⟨htrojan, hvless⟩ := fallback_transparent browser (by decide) (ascii "localhost:80")
    (by decide) (fun _ => .ok {}) {} rfl rfl
  obtain ⟨rc, hrc, -, hdata⟩ := htrojan ⟨List.replicate 56 48, rfl⟩ .unexpectedEOF _ rfl
  obtain ⟨rc', hrc', -, hdata'⟩ := hvless ⟨List.replicate 16 7, rfl⟩ (Vless.errVersion 71) _ rfl
  exact ⟨rc, rc', hrc, hrc', hdata rfl, hdata' rfl⟩

end Glider.Proxy
