/-
The end of a stream, in the decoders that read a payload with one call of the lower reader:
`shadowstream`, the VMess chunks and the TLS obfuscation.

An `io.Reader` may return its last bytes together with an error. All three return 0 and the
error in that case, and the bytes are lost.

* `tail_kept_iff` — nothing is lost exactly if no payload byte comes together with an error.
* `tail_lost` — three streams whose last bytes are lost.
-/

import Glider.Obfs.Tls
import Glider.Ss.Shadowstream
import Glider.Vmess.Tail

namespace Glider.Proxy

open Glider.Go Glider.Lib

/-- **The tail of a stream.** For each of the three decoders, over any transport and for any
buffers: the caller comes to an error, and it has all the payload by then exactly if no read
of the payload returned bytes with an error. The obfuscation needs that no ignored error of
`Discard` shifts its records. -/
theorem tail_kept_iff (r : Ss.Shadowstream.Reader) (v : Vmess.ChunkedReader)
    (c : Obfs.TLSObfsConn) (lens : List Nat) :
    (Ss.Shadowstream.decoder.Ends (0 < ·) r ∧
      (Ss.Shadowstream.decoder.KeptAlong r lens ↔
        Ss.Shadowstream.decoder.Under Ss.Shadowstream.Alone r lens)) ∧
    (Vmess.decoder.Ends (0 < ·) v ∧
      (Vmess.decoder.KeptAlong v lens ↔ Vmess.decoder.Under Vmess.ChunkedReader.Alone v lens)) ∧
    (Obfs.decoder.Ends (0 < ·) c ∧
      (Obfs.decoder.Under Obfs.TLSObfsConn.Aligned c lens →
        (Obfs.decoder.KeptAlong c lens ↔ Obfs.decoder.Under Obfs.TLSObfsConn.Alone c lens))) := by
  refine ⟨⟨?_, ?_⟩, ⟨?_, ?_⟩, ?_, fun aligned => ?_⟩
  · exact Feed.ends_of_lowers Ss.Shadowstream.decoder_lowers r
  · exact Decoder.kept_iff Ss.Shadowstream.decoder_tracks (Decoder.under_true r lens)
  · exact Feed.ends_of_lowers Vmess.decoder_lowers v
  · exact Decoder.kept_iff Vmess.decoder_tracks (Decoder.under_true v lens)
  · exact Feed.ends_of_lowers Obfs.decoder_lowers c
  · exact Decoder.kept_iff Obfs.decoder_tracks aligned

/-- Two bytes in the three encodings, and the end of the stream after them. -/
def twoBytesStream : Ss.Shadowstream.Reader :=
  ⟨⟨[⟨[7, 8], none⟩], .eof⟩, fun _ => 0, 0⟩

def twoBytesChunk : Vmess.ChunkedReader :=
  ⟨⟨[⟨[0, 2], none⟩, ⟨[7, 8], none⟩], .eof⟩, ⟨fun _ => 0, 0⟩, 0⟩

def twoBytes : Obfs.TLSObfsConn :=
  .unread ⟨[⟨List.replicate 106 0 ++ [2], none⟩, ⟨[7, 8], none⟩], .eof⟩

/-- The two bytes arrive, and the error after them. -/
theorem tail_kept_two_bytes :
    Obfs.decoder.Under Obfs.TLSObfsConn.Aligned twoBytes [4, 4] ∧
    Ss.Shadowstream.decoder.KeptAlong twoBytesStream [4, 4] ∧
    Vmess.decoder.KeptAlong twoBytesChunk [4, 4] ∧
    Obfs.decoder.KeptAlong twoBytes [4, 4] ∧
    (Obfs.decoder.run twoBytes [4, 4]).map (fun c => (c.delivered, c.final)) =
      some ([7, 8], some .eof) := by
  have aligned : Obfs.decoder.Under Obfs.TLSObfsConn.Aligned twoBytes [4, 4] := by decide +kernel
  obtain ⟨⟨-, hstream⟩, ⟨-, hchunk⟩, -, hobfs⟩ :=
    tail_kept_iff twoBytesStream twoBytesChunk twoBytes [4, 4]
  refine ⟨aligned, hstream.mpr ?_, hchunk.mpr ?_, (hobfs aligned).mpr ?_, ?_⟩ <;> decide +kernel

/-- A record of the obfuscation as long as the buffer of a `bufio.Reader`, with the end of the
stream in the same read as its payload. -/
def lastRecord : Obfs.TLSObfsConn :=
  .unread ⟨[⟨List.replicate 105 0 ++ [16, 0], none⟩, ⟨List.replicate 4096 7, some .eof⟩], .eof⟩

/-- Three bytes, a chunk of three bytes and a record, each with the end of the stream. -/
theorem tail_lost :
    ¬ Ss.Shadowstream.decoder.KeptAlong ⟨⟨[⟨[1, 2, 3], some .eof⟩], .eof⟩, fun _ => 0, 0⟩ [8] ∧
    ¬ Vmess.decoder.KeptAlong
      ⟨⟨[⟨[0, 3], none⟩, ⟨[7, 8, 9], some .eof⟩], .eof⟩, ⟨fun _ => 0, 0⟩, 0⟩ [8] ∧
    ¬ Obfs.decoder.KeptAlong lastRecord [4096] := by
  rw [Decoder.kept_iff Ss.Shadowstream.decoder_tracks (Decoder.under_true _ _),
    Decoder.kept_iff Vmess.decoder_tracks (Decoder.under_true _ _),
    Decoder.kept_iff Obfs.decoder_tracks (by decide +kernel)]
  decide +kernel

end Glider.Proxy
