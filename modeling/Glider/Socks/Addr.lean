/-
SOCKS addresses (`pkg/socks/socks.go`): a type, an IP address or a name after its length, and a
port.

`Layout` is what the bytes of an address look like; each of the functions that take an address from
bytes agrees with it.

* `layout_of_ReadAddr`, `layout_of_SplitAddr` — they take addresses of that layout, and
  `Layout.takes`, `Layout.SplitAddr_eq` — all of them.
* `addr_codecs_agree` — so a stream and a slice give the same address, and what `ParseAddr` makes
  is read back and denotes the same target.
-/

import Glider.Go.HostPort
import Glider.Go.Readers

namespace Glider.Socks

open Glider.Go Glider.Lib

def CmdConnect : UInt8 := 1

def CmdUDPAssociate : UInt8 := 3

def ATypIP4 : UInt8 := 1

def ATypDomain : UInt8 := 3

def ATypIP6 : UInt8 := 4

/-- `Errors[8]`. -/
def errAddressType : IoErr := .text (ascii "address type not supported")

/-- `Addr`: the bytes of an address. -/
abbrev Addr := List UInt8

/-- `ReadAddr`. -/
def ReadAddr : Reads Tee IoErr Addr := do
  let b ← Tee.readFull 1
  if b = [ATypDomain] then
    let len ← Tee.readFull 1
    let rest ← Tee.readFull ((len.headD 0).toNat + 2)
    pure (b ++ len ++ rest)
  else if b = [ATypIP4] then
    let rest ← Tee.readFull (4 + 2)
    pure (b ++ rest)
  else if b = [ATypIP6] then
    let rest ← Tee.readFull (16 + 2)
    pure (b ++ rest)
  else Reads.fail errAddressType

/-- The length of the address that bytes start with, by its type. -/
def addrLen : List UInt8 → Option Nat
  | [] => none
  | atyp :: b =>
    if atyp = ATypDomain then
      match b with
      | [] => none
      | len :: _ => some (1 + 1 + len.toNat + 2)
    else if atyp = ATypIP4 then some (1 + 4 + 2)
    else if atyp = ATypIP6 then some (1 + 16 + 2)
    else none

/-- `SplitAddr`, with `none` for `nil`. -/
def SplitAddr (b : List UInt8) : Option Addr :=
  match addrLen b with
  | none => none
  | some n => if b.length < n then none else some (b.take n)

/-- The type and the bytes of a host, if there is room for it. -/
def parseHost (host : GoString) : Option (List UInt8) :=
  match parseAddr host with
  | .ok ip => some ((if ip.is4 then ATypIP4 else ATypIP6) :: ip.asSlice)
  | .error _ =>
    if 255 < host.length then none else some (ATypDomain :: host.length.toUInt8 :: host)

/-- `ParseAddr`, with `none` for `nil`. -/
def ParseAddr (s : GoString) : Option Addr :=
  match splitHostPort s with
  | .error _ => none
  | .ok (host, port) =>
    match parseHost host with
    | none => none
    | some addr =>
      match parseUint16 port with
      | (_, some _) => none
      | (portnum, none) => some (addr ++ bigEndianBytes 2 portnum)

/-- The port after `i` bytes of an address. -/
def Addr.port (a : Addr) (i : Nat) : GoString := formatUint (bigEndian ((a.drop i).take 2))

/-- `Addr.String`, of an address that is long enough for its type. -/
def Addr.String (a : Addr) : GoString :=
  if a.headD 0 = ATypDomain then
    let len := (a.getD 1 0).toNat
    joinHostPort ((a.drop 2).take len) (a.port (2 + len))
  else if a.headD 0 = ATypIP4 then joinHostPort (ipString ((a.drop 1).take 4)) (a.port (1 + 4))
  else if a.headD 0 = ATypIP6 then joinHostPort (ipString ((a.drop 1).take 16)) (a.port (1 + 16))
  else joinHostPort [] []

theorem ReadAddr_keeps (stream : List UInt8) : ReadAddr.Keeps (Tee.Of stream) := by
  refine .bind (Tee.readFull_keeps stream 1) fun b => .ite ?_ (.ite ?_ (.ite ?_ (.fail _)))
  · refine .bind (Tee.readFull_keeps stream 1) fun len => ?_
    exact .bind (Tee.readFull_keeps stream _) fun rest => .pure _
  · exact .bind (Tee.readFull_keeps stream _) fun rest => .pure _
  · exact .bind (Tee.readFull_keeps stream _) fun rest => .pure _

/-! ### Layout -/

/-- The three layouts of an address. -/
inductive Layout : Addr → Prop where
  | domain {len : UInt8} {rest : List UInt8} (h : rest.length = len.toNat + 2) :
      Layout (ATypDomain :: len :: rest)
  | ip4 {rest : List UInt8} (h : rest.length = 4 + 2) : Layout (ATypIP4 :: rest)
  | ip6 {rest : List UInt8} (h : rest.length = 16 + 2) : Layout (ATypIP6 :: rest)

variable {a : Addr}

theorem Layout.addrLen_eq (h : Layout a) (rest : List UInt8) :
    addrLen (a ++ rest) = some a.length := by
  cases h with
  | domain h =>
    rw [List.cons_append, List.cons_append, addrLen, if_pos rfl, List.length_cons,
      List.length_cons, h]
    exact congrArg some (by omega)
  | ip4 h =>
    unfold addrLen
    rw [List.cons_append, List.length_cons, h]
    exact (if_neg (by decide)).trans (if_pos rfl)
  | ip6 h =>
    unfold addrLen
    rw [List.cons_append, List.length_cons, h]
    exact (if_neg (by decide)).trans ((if_neg (by decide)).trans (if_pos rfl))

theorem Layout.SplitAddr_eq (h : Layout a) (rest : List UInt8) :
    SplitAddr (a ++ rest) = some a := by
  rw [SplitAddr, h.addrLen_eq rest]
  dsimp only
  rw [if_neg (by simp), List.take_left]

theorem Layout.takes (h : Layout a) : ReadAddr.Takes Tee.Unread a a := by
  cases h with
  | @domain len rest h =>
    have htype : (Tee.readFull 1).Takes Tee.Unread [ATypDomain] [ATypDomain] :=
      Tee.readFull_takes rfl
    have hlen : (Tee.readFull 1).Takes Tee.Unread [len] [len] := Tee.readFull_takes rfl
    exact htype.bind (.ite_pos rfl (hlen.bind (.map (Tee.readFull_takes h) rfl)))
  | ip4 h =>
    have htype : (Tee.readFull 1).Takes Tee.Unread [ATypIP4] [ATypIP4] := Tee.readFull_takes rfl
    exact htype.bind (.ite_neg (by decide) (.ite_pos rfl (.map (Tee.readFull_takes h) rfl)))
  | ip6 h =>
    have htype : (Tee.readFull 1).Takes Tee.Unread [ATypIP6] [ATypIP6] := Tee.readFull_takes rfl
    exact htype.bind (.ite_neg (by decide) (.ite_neg (by decide)
      (.ite_pos rfl (.map (Tee.readFull_takes h) rfl))))

theorem layout_of_SplitAddr {b : List UInt8} (h : SplitAddr b = some a) :
    Layout a ∧ ∃ rest, b = a ++ rest := by
  unfold SplitAddr at h
  split at h
  · cases h
  rename_i n hlen
  split at h
  · cases h
  rename_i hle
  cases h
  refine ⟨?_, b.drop n, (List.take_append_drop n b).symm⟩
  rw [Nat.not_lt] at hle
  unfold addrLen at hlen
  split at hlen
  · cases hlen
  split at hlen
  · rename_i htype
    subst htype
    split at hlen <;> cases hlen
    rename_i len b
    rw [show 1 + 1 + len.toNat + 2 = len.toNat + 2 + 1 + 1 by omega]
    refine .domain (List.length_take_of_le ?_)
    simp only [List.length_cons] at hle
    omega
  split at hlen
  · rename_i htype
    subst htype
    cases hlen
    exact .ip4 (List.length_take_of_le (Nat.le_of_succ_le_succ hle))
  split at hlen
  · rename_i htype
    subst htype
    cases hlen
    exact .ip6 (List.length_take_of_le (Nat.le_of_succ_le_succ hle))
  · cases hlen

theorem layout_of_ReadAddr {b : List UInt8} {s s' : Tee} (hs : s.Unread b)
    (h : ReadAddr s = (.ok a, s')) : Layout a ∧ ∃ rest, b = a ++ rest ∧ s'.Unread rest := by
  obtain ⟨atyp, s₁, htype, h⟩ := Reads.bind_eq_ok h
  obtain ⟨-, b₁, rfl, hs₁⟩ := Tee.readFull_ok hs htype
  split at h
  · rename_i hdomain
    subst hdomain
    obtain ⟨len, s₂, hread, h⟩ := Reads.bind_eq_ok h
    obtain ⟨hone, b₂, rfl, hs₂⟩ := Tee.readFull_ok hs₁ hread
    obtain ⟨len, rfl⟩ := List.length_eq_one_iff.mp hone
    obtain ⟨rest, s₃, hread, h⟩ := Reads.bind_eq_ok h
    obtain ⟨hrest, b₃, rfl, hs₃⟩ := Tee.readFull_ok hs₂ hread
    cases h
    exact ⟨.domain hrest, b₃, by simp, hs₃⟩
  split at h
  · rename_i hip4
    subst hip4
    obtain ⟨rest, s₂, hread, h⟩ := Reads.bind_eq_ok h
    obtain ⟨hrest, b₂, rfl, hs₂⟩ := Tee.readFull_ok hs₁ hread
    cases h
    exact ⟨.ip4 hrest, b₂, by simp, hs₂⟩
  split at h
  · rename_i hip6
    subst hip6
    obtain ⟨rest, s₂, hread, h⟩ := Reads.bind_eq_ok h
    obtain ⟨hrest, b₂, rfl, hs₂⟩ := Tee.readFull_ok hs₁ hread
    cases h
    exact ⟨.ip6 hrest, b₂, by simp, hs₂⟩
  · cases h

/-! ### Text -/

section

variable {ip host port : List UInt8} (hport : port.length = 2)
include hport

theorem String_ip {atyp : UInt8}
    (h : atyp = ATypIP4 ∧ ip.length = 4 ∨ atyp = ATypIP6 ∧ ip.length = 16) :
    Addr.String (atyp :: ip ++ port) =
      joinHostPort (ipString ip) (formatUint (bigEndian port)) := by
  have hhead : (atyp :: ip ++ port).headD 0 = atyp := rfl
  have hhost : ((atyp :: ip ++ port).drop 1).take ip.length = ip := List.take_left
  have hrest : ((atyp :: ip ++ port).drop (1 + ip.length)).take 2 = port := by
    rw [List.drop_left' (by simp; omega), ← hport, List.take_length]
  unfold Addr.String
  rw [hhead]
  obtain ⟨rfl, hlen⟩ | ⟨rfl, hlen⟩ := h
  · rw [hlen] at hhost hrest
    rw [if_neg (by decide), if_pos rfl, Addr.port, hhost, hrest]
  · rw [hlen] at hhost hrest
    rw [if_neg (by decide), if_neg (by decide), if_pos rfl, Addr.port, hhost, hrest]

theorem String_domain {len : UInt8} (h : host.length = len.toNat) :
    Addr.String (ATypDomain :: len :: host ++ port) =
      joinHostPort host (formatUint (bigEndian port)) := by
  have hhost : ((ATypDomain :: len :: host ++ port).drop 2).take host.length = host :=
    List.take_left
  have hrest : ((ATypDomain :: len :: host ++ port).drop (2 + host.length)).take 2 = port := by
    rw [List.drop_left' (by simp; omega), ← hport, List.take_length]
  unfold Addr.String
  rw [if_pos (show List.headD _ 0 = ATypDomain from rfl)]
  dsimp only
  rw [show (ATypDomain :: len :: host ++ port).getD 1 0 = len from rfl, ← h, Addr.port, hhost,
    hrest]

end

/-- What `ParseAddr` makes has the layout, and denotes the same target without its zone. -/
theorem layout_of_ParseAddr {target : GoString} (h : ParseAddr target = some a) :
    Layout a ∧ SameTarget target a.String ∧ targetZone a.String = [] := by
  unfold ParseAddr at h
  split at h
  · cases h
  rename_i host port hsplit
  split at h
  · cases h
  rename_i addr hhost
  split at h
  · cases h
  rename_i portnum hport
  cases h
  have hlen := length_bigEndianBytes 2 portnum
  have hportnum : bigEndian (bigEndianBytes 2 portnum) = portnum := by
    have hlt := parseUint16_lt port
    rw [hport] at hlt
    rw [bigEndian_bigEndianBytes]
    exact Nat.mod_eq_of_lt hlt
  unfold parseHost at hhost
  cases hparse : parseAddr host with
  | ok ip =>
    rw [hparse] at hhost
    cases hhost
    have hsame : ∀ text, text = joinHostPort (ipString ip.asSlice) (formatUint portnum) →
        SameTarget target text ∧ targetZone text = [] := by
      rintro text rfl
      have hbrackets := noBrackets_ipString (length_asSlice ip)
      exact ⟨sameTarget_join hsplit hport hbrackets (sameHost_ipString hparse),
        (targetZone_join hbrackets portnum).trans (hostZone_ipString ip)⟩
    cases ip with
    | v4 bits =>
      have hip := length_bigEndianBytes 4 bits.toNat
      have htext := String_ip hlen (.inl ⟨rfl, hip⟩)
      rw [hportnum] at htext
      exact ⟨.ip4 (List.length_append.trans (congrArg₂ _ hip hlen)), hsame _ htext⟩
    | v6 bits zone =>
      have hip := length_bigEndianBytes 16 bits.toNat
      have htext := String_ip hlen (.inr ⟨rfl, hip⟩)
      rw [hportnum] at htext
      exact ⟨.ip6 (List.length_append.trans (congrArg₂ _ hip hlen)), hsame _ htext⟩
  | error e =>
    rw [hparse] at hhost
    dsimp only at hhost
    split at hhost <;> cases hhost
    rename_i hlong
    have hname : host.length = host.length.toUInt8.toNat :=
      (Nat.mod_eq_of_lt (Nat.lt_succ_of_le (Nat.not_lt.mp hlong))).symm
    refine ⟨.domain (List.length_append.trans (congrArg₂ _ hname hlen)), ?_⟩
    rw [String_domain hlen hname, hportnum]
    have hbrackets := noBrackets_of_splitHostPort hsplit
    refine ⟨sameTarget_join hsplit hport hbrackets (sameHost_name hparse), ?_⟩
    rw [targetZone_join hbrackets portnum, hostZone, hparse]

/-- **The codecs agree.** On a stream of bytes, however it is cut, `ReadAddr` succeeds exactly if
`SplitAddr` does on the bytes, with the same address, and leaves what comes after it. What
`ParseAddr` makes is read back with anything behind it, and denotes the same target. -/
theorem addr_codecs_agree :
    (∀ (b : List UInt8) (s : Tee), s.Unread b →
      (∀ a, SplitAddr b = some a ↔ ∃ s', ReadAddr s = (.ok a, s')) ∧
      ∀ a s', ReadAddr s = (.ok a, s') → ∃ rest, b = a ++ rest ∧ s'.Unread rest) ∧
    ∀ (target : GoString) (a : Addr), ParseAddr target = some a →
      (∀ rest, SplitAddr (a ++ rest) = some a) ∧ SameTarget target a.String := by
  refine ⟨fun b s hs => ⟨fun a => ⟨fun h => ?_, ?_⟩, fun a s' h => ?_⟩, fun target a h => ?_⟩
  · obtain ⟨layout, rest, rfl⟩ := layout_of_SplitAddr h
    obtain ⟨s', hread, -⟩ := layout.takes rest s hs
    exact ⟨s', hread⟩
  · rintro ⟨s', h⟩
    obtain ⟨layout, rest, rfl, -⟩ := layout_of_ReadAddr hs h
    exact layout.SplitAddr_eq rest
  · exact (layout_of_ReadAddr hs h).2
  · obtain ⟨layout, hsame, -⟩ := layout_of_ParseAddr h
    exact ⟨layout.SplitAddr_eq, hsame⟩

/-- An address that comes in two parts, the second with one more byte and the end of the stream. -/
def cutStream : Tee := ⟨⟨[⟨[1, 10, 0, 0, 1], none⟩, ⟨[0, 80, 7], some .eof⟩], .eof⟩, []⟩

theorem addr_codecs_agree_cutStream :
    (∃ s', ReadAddr cutStream = (.ok [1, 10, 0, 0, 1, 0, 80], s')) ∧
      (∀ rest, SplitAddr ([3, 1, 97, 0, 80] ++ rest) = some [3, 1, 97, 0, 80]) ∧
      SameTarget (ascii "a:80") (Addr.String [3, 1, 97, 0, 80]) := by
  have unread : cutStream.Unread [1, 10, 0, 0, 1, 0, 80, 7] := ⟨rfl, by decide⟩
  exact ⟨((addr_codecs_agree.1 _ _ unread).1 _).mp rfl, addr_codecs_agree.2 _ _ (by decide)⟩

end Glider.Socks
