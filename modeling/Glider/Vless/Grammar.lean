/-
What the VLESS address parser accepts (`proxy/vless/addr.go`, `ReadAddrString`).

The grammar is a port, a type of 1, 2 or 3, and an address of that type. The parser follows it
for those types; a type it does not know ends the switch without an error, after three bytes.

* `ReadAddr_ok_cases` — a parse that succeeds has read an address of the grammar, or three bytes
  with an unknown type.
* `grammar_iff` — so the parser accepts exactly the grammar on the streams without an unknown
  type, and on no others.
-/

import Glider.Vless.Addr

namespace Glider.Vless

open Glider.Go Glider.Lib

/-- The bytes start with the encoding of `t`, and `rest` follows. -/
def Starts (input : List UInt8) (t : Target) (rest : List UInt8) : Prop :=
  t.Valid ∧ input = t.encode ++ rest

/-- The third byte is no address type. -/
def UnknownType (input : List UInt8) : Prop :=
  ∃ p q atyp rest, input = p :: q :: atyp :: rest ∧
    atyp ≠ AtypIP4 ∧ atyp ≠ AtypDomain ∧ atyp ≠ AtypIP6

/-- On this stream the parser succeeds exactly if the grammar has a prefix of it; then it
consumes that encoding, and returns its address and port as text. -/
def FollowsGrammar (input : List UInt8) (s : Tee) : Prop :=
  ((∃ text s', ReadAddrString s = (.ok text, s')) ↔ ∃ t rest, Starts input t rest) ∧
    ∀ t rest, Starts input t rest → ∃ s', s'.Unread rest ∧
      ReadAddrString s =
        (.ok (joinHostPort (if t.atyp = AtypDomain then t.addr.drop 1 else ipString t.addr)
          (formatUint t.port.toNat)), s')

/-! ### What a parse has read -/

/-- The port of an encoding is the two bytes it was read from. -/
theorem encode_of_port {port : List UInt8} (hport : port.length = 2) (atyp : UInt8)
    (addr : List UInt8) :
    Target.encode ⟨atyp, addr, (bigEndian port).toUInt16⟩ = port ++ atyp :: addr := by
  have hlt : bigEndian port < 2 ^ 16 := by
    have hlt := bigEndian_lt port
    rw [hport] at hlt
    exact hlt
  have hbytes := bigEndianBytes_bigEndian port
  rw [hport] at hbytes
  rw [Target.encode, Nat.toUInt16, UInt16.toNat_ofNat', Nat.mod_eq_of_lt hlt, hbytes]

/-- **Inversion.** A parse that succeeds has read an address of the grammar, or stopped at an
unknown type. -/
theorem ReadAddr_ok_cases {input : List UInt8} {s s' : Tee} {r : Target} (hs : s.Unread input)
    (h : ReadAddr s = (.ok r, s')) :
    (∃ t rest, Starts input t rest ∧ r = t.read ∧ s'.Unread rest) ∨ UnknownType input := by
  obtain ⟨port, s₁, hread, h⟩ := Reads.bind_eq_ok h
  obtain ⟨hport, b₁, rfl, hs₁⟩ := Tee.readFull_ok hs hread
  obtain ⟨atyp, s₂, hread, h⟩ := Reads.bind_eq_ok h
  obtain ⟨hone, b₂, rfl, hs₂⟩ := Tee.readFull_ok hs₁ hread
  obtain ⟨atyp, rfl⟩ := List.length_eq_one_iff.mp hone
  split at h
  · rename_i hip4
    cases hip4
    obtain ⟨host, s₃, hread, h⟩ := Reads.bind_eq_ok h
    obtain ⟨hlen, rest, rfl, hs₃⟩ := Tee.readFull_ok hs₂ hread
    cases h
    left
    refine ⟨⟨AtypIP4, host, (bigEndian port).toUInt16⟩, rest, ⟨.ip4 hlen, ?_⟩, rfl, hs₃⟩
    rw [encode_of_port hport]
    simp
  split at h
  · rename_i hip6
    cases hip6
    obtain ⟨host, s₃, hread, h⟩ := Reads.bind_eq_ok h
    obtain ⟨hlen, rest, rfl, hs₃⟩ := Tee.readFull_ok hs₂ hread
    cases h
    left
    refine ⟨⟨AtypIP6, host, (bigEndian port).toUInt16⟩, rest, ⟨.ip6 hlen, ?_⟩, rfl, hs₃⟩
    rw [encode_of_port hport]
    simp
  split at h
  · rename_i hdomain
    cases hdomain
    obtain ⟨len, s₃, hread, h⟩ := Reads.bind_eq_ok h
    obtain ⟨hone, b₃, rfl, hs₃⟩ := Tee.readFull_ok hs₂ hread
    obtain ⟨len, rfl⟩ := List.length_eq_one_iff.mp hone
    obtain ⟨host, s₄, hread, h⟩ := Reads.bind_eq_ok h
    obtain ⟨hlen, rest, rfl, hs₄⟩ := Tee.readFull_ok hs₃ hread
    cases h
    have hname : host.length.toUInt8 = len := by
      rw [hlen]
      exact UInt8.ofNat_toNat
    have hmax : host.length ≤ MaxHostLen := by
      rw [hlen]
      exact Nat.le_of_lt_succ len.toNat_lt
    left
    refine ⟨⟨AtypDomain, host.length.toUInt8 :: host, (bigEndian port).toUInt16⟩, rest,
      ⟨.domain hmax, ?_⟩, rfl, hs₄⟩
    rw [encode_of_port hport, hname]
    simp
  · rename_i hip4 hip6 hdomain
    right
    obtain ⟨p, q, rfl⟩ := List.length_eq_two.mp hport
    exact ⟨p, q, atyp, b₂, rfl, by simpa using hip4, by simpa using hdomain, by simpa using hip6⟩

/-- An unknown type is accepted after three bytes, with an empty host. -/
theorem ReadAddrString_unknown {p q atyp : UInt8} (hip4 : atyp ≠ AtypIP4)
    (hdomain : atyp ≠ AtypDomain) (hip6 : atyp ≠ AtypIP6) :
    ReadAddrString.Takes Tee.Unread [p, q, atyp]
      (joinHostPort [] (formatUint (bigEndian [p, q]).toUInt16.toNat)) := by
  have hread : ReadAddr.Takes Tee.Unread ([p, q] ++ ([atyp] ++ []))
      ⟨atyp, [], (bigEndian [p, q]).toUInt16⟩ := by
    refine .bind (Tee.readFull_takes rfl) (.bind (Tee.readFull_takes rfl) ?_)
    exact .ite_neg (by simpa using hip4) (.ite_neg (by simpa using hip6)
      (.ite_neg (by simpa using hdomain) (.pure _)))
  apply hread.map
  rw [AddrString, if_neg (by simp [hip4, hip6]), if_neg hdomain]

/-- The text of an address of the grammar. -/
theorem AddrString_read {t : Target} (valid : t.Valid) :
    AddrString t.read = joinHostPort
      (if t.atyp = AtypDomain then t.addr.drop 1 else ipString t.addr)
      (formatUint t.port.toNat) := by
  cases valid with
  | ip4 _ => rfl
  | ip6 _ => rfl
  | domain _ => rfl

/-- The types of the grammar are known. -/
theorem Starts.not_unknown {input rest : List UInt8} {t : Target} (h : Starts input t rest) :
    ¬ UnknownType input := by
  obtain ⟨valid, rfl⟩ := h
  rintro ⟨p, q, atyp, rest', hinput, hip4, hdomain, hip6⟩
  obtain ⟨x, y, hport⟩ := List.length_eq_two.mp (length_bigEndianBytes 2 t.port.toNat)
  rw [Target.encode, hport] at hinput
  cases valid with
  | ip4 _ =>
    cases hinput
    exact hip4 rfl
  | ip6 _ =>
    cases hinput
    exact hip6 rfl
  | domain _ =>
    cases hinput
    exact hdomain rfl

/-! ### The grammar -/

/-- **The parser and the grammar.** On every stream of bytes, however it is cut, the parser
accepts exactly the grammar if and only if the stream has no unknown address type. -/
theorem grammar_iff (input : List UInt8) (s : Tee) (hs : s.Unread input) :
    FollowsGrammar input s ↔ ¬ UnknownType input := by
  constructor
  · rintro ⟨accepts, -⟩ hunknown
    obtain ⟨p, q, atyp, rest, rfl, hip4, hdomain, hip6⟩ := id hunknown
    obtain ⟨s', hread, -⟩ := ReadAddrString_unknown hip4 hdomain hip6 rest s hs
    obtain ⟨t, rest', starts⟩ := accepts.mp ⟨_, s', hread⟩
    exact starts.not_unknown hunknown
  · intro hknown
    have complete : ∀ t rest, Starts input t rest → ∃ s', s'.Unread rest ∧
        ReadAddrString s =
          (.ok (joinHostPort (if t.atyp = AtypDomain then t.addr.drop 1 else ipString t.addr)
            (formatUint t.port.toNat)), s') := by
      rintro t rest ⟨valid, rfl⟩
      have htakes : ReadAddrString.Takes Tee.Unread t.encode (AddrString t.read) :=
        (ReadAddr_takes valid).map rfl
      obtain ⟨s', hread, hrest⟩ := htakes rest s hs
      rw [AddrString_read valid] at hread
      exact ⟨s', hrest, hread⟩
    refine ⟨⟨?_, ?_⟩, complete⟩
    · rintro ⟨text, s', hread⟩
      obtain ⟨r, s₁, haddr, -⟩ := Reads.bind_eq_ok hread
      rcases ReadAddr_ok_cases hs haddr with ⟨t, rest, starts, -, -⟩ | hunknown
      · exact ⟨t, rest, starts⟩
      · exact absurd hunknown hknown
    · rintro ⟨t, rest, starts⟩
      obtain ⟨s', -, hread⟩ := complete t rest starts
      exact ⟨_, s', hread⟩

/-- A name that comes in two parts. -/
def namedStream : Tee := ⟨⟨[⟨[0, 80, 2, 2, 97], none⟩, ⟨[98, 7], some .eof⟩], .eof⟩, []⟩

theorem grammar_iff_named :
    FollowsGrammar [0, 80, 2, 2, 97, 98, 7] namedStream ∧
      ¬ UnknownType [0, 80, 2, 2, 97, 98, 7] := by
  have known : ¬ UnknownType [0, 80, 2, 2, 97, 98, 7] := by
    rintro ⟨p, q, atyp, rest, hinput, -, hdomain, -⟩
    cases hinput
    exact hdomain rfl
  have unread : namedStream.Unread [0, 80, 2, 2, 97, 98, 7] := ⟨rfl, by decide⟩
  exact ⟨(grammar_iff _ _ unread).mpr known, known⟩

/-- Three bytes with the type 9. -/
def unknownStream : Tee := ⟨⟨[⟨[0, 80, 9], none⟩], .eof⟩, []⟩

/-- The parser returns `:80` where no address follows the grammar. -/
theorem unknown_type_accepted :
    (∃ s', ReadAddrString unknownStream = (.ok (ascii ":80"), s')) ∧
      ¬ (∃ t rest, Starts [0, 80, 9] t rest) ∧ ¬ FollowsGrammar [0, 80, 9] unknownStream := by
  have unknown : UnknownType [0, 80, 9] := ⟨0, 80, 9, [], rfl, by decide, by decide, by decide⟩
  have outside : ¬ ∃ t rest, Starts [0, 80, 9] t rest := by
    rintro ⟨t, rest, starts⟩
    exact starts.not_unknown unknown
  have hread : ∃ s', ReadAddrString unknownStream = (.ok (ascii ":80"), s') := ⟨_, rfl⟩
  refine ⟨hread, outside, ?_⟩
  rintro ⟨accepts, -⟩
  obtain ⟨s', hread⟩ := hread
  exact outside (accepts.mp ⟨_, s', hread⟩)

end Glider.Vless
