/-
The parts of packages `net` and `net/netip` that the routing code uses:
`SplitHostPort`, `ParseAddr`, `ParsePrefix` and `Prefix.Contains`.

The functions follow the library's own loops, with its error messages. An address
is its bits, tagged by its family; an IPv4-mapped IPv6 address is an IPv6 address, as
in the library.
-/

import Glider.Go.Strings

namespace Glider.Go

/-! ### `net.SplitHostPort` -/

def colon : UInt8 := 58

def openBracket : UInt8 := 91

def closeBracket : UInt8 := 93

/-- `net.AddrError`. -/
structure AddrError where
  err : String
  addr : GoString
deriving DecidableEq, Repr

def missingPort : String := "missing port in address"

def tooManyColons : String := "too many colons in address"

/-- The host and the positions before which no bracket may occur; `i` is the last
colon. -/
def splitHost (hostport : GoString) (i : Nat) : Except AddrError (GoString × Nat × Nat) :=
  if hostport[0]? = some openBracket then
    match indexByte hostport closeBracket with
    | none => .error ⟨"missing ']' in address", hostport⟩
    | some e =>
      if e + 1 = hostport.length then .error ⟨missingPort, hostport⟩
      else if e + 1 = i then .ok ((hostport.take e).drop 1, 1, e + 1)
      else if hostport[e + 1]? = some colon then .error ⟨tooManyColons, hostport⟩
      else .error ⟨missingPort, hostport⟩
  else if colon ∈ hostport.take i then .error ⟨tooManyColons, hostport⟩
  else .ok (hostport.take i, 0, 0)

/-- `net.SplitHostPort`: host and port. -/
def splitHostPort (hostport : GoString) : Except AddrError (GoString × GoString) :=
  match lastIndexByte hostport colon with
  | none => .error ⟨missingPort, hostport⟩
  | some i =>
    match splitHost hostport i with
    | .error e => .error e
    | .ok (host, j, k) =>
      if openBracket ∈ hostport.drop j then .error ⟨"unexpected '[' in address", hostport⟩
      else if closeBracket ∈ hostport.drop k then .error ⟨"unexpected ']' in address", hostport⟩
      else .ok (host, hostport.drop (i + 1))

/-! ### `netip.ParseAddr` -/

/-- `netip.Addr`; the zone of an IPv6 address is part of it. -/
inductive Addr where
  | v4 (bits : BitVec 32)
  | v6 (bits : BitVec 128) (zone : GoString)
deriving DecidableEq, Repr

/-- The number whose big-endian bytes these are. -/
def bigEndian (bytes : List UInt8) : Nat := bytes.foldl (fun n b => n * 256 + b.toNat) 0

/-- The last `k` big-endian bytes of a number. -/
def bigEndianBytes (k n : Nat) : List UInt8 :=
  (List.range k).map fun i => (n >>> (8 * (k - 1 - i))).toUInt8

/-- `Addr.AsSlice`; the zone is dropped. -/
def Addr.asSlice : Addr → List UInt8
  | .v4 bits => bigEndianBytes 4 bits.toNat
  | .v6 bits _ => bigEndianBytes 16 bits.toNat

/-- `Addr.IsUnspecified`: `0.0.0.0` or `::`. -/
def Addr.isUnspecified : Addr → Bool
  | .v4 bits => bits = 0
  | .v6 bits zone => bits = 0 && zone = []

/-- The variables of `parseIPv4Fields`; `prev` is the byte before the current one. -/
structure IPv4Fields where
  val : Nat := 0
  digLen : Nat := 0
  fields : List UInt8 := []
  prev : Option UInt8 := none

def isDigit (b : UInt8) : Bool := 48 ≤ b && b ≤ 57

/-- `parseIPv4Fields`. -/
def parseIPv4Fields : GoString → IPv4Fields → Except String (List UInt8)
  | [], v =>
    if v.fields.length < 3 then .error "IPv4 address too short"
    else .ok (v.fields ++ [v.val.toUInt8])
  | b :: rest, v =>
    if isDigit b then
      if v.digLen = 1 ∧ v.val = 0 then .error "IPv4 field has octet with leading zero"
      else if 255 < v.val * 10 + (b.toNat - 48) then .error "IPv4 field has value >255"
      else
        parseIPv4Fields rest
          { val := v.val * 10 + (b.toNat - 48), digLen := v.digLen + 1, fields := v.fields,
            prev := some b }
    else if b = dot then
      if v.prev = none ∨ rest = [] ∨ v.prev = some dot then
        .error "IPv4 field must have at least one digit"
      else if v.fields.length = 3 then .error "IPv4 address too long"
      else parseIPv4Fields rest { fields := v.fields ++ [v.val.toUInt8], prev := some b }
    else .error "unexpected character"

def hexValue (b : UInt8) : Option Nat :=
  if isDigit b then some (b.toNat - 48)
  else if 97 ≤ b && b ≤ 102 then some (b.toNat - 97 + 10)
  else if 65 ≤ b && b ≤ 70 then some (b.toNat - 65 + 10)
  else none

/-- The inner loop of `parseIPv6`: the value of a group and what follows it. -/
def parseHexGroup : GoString → (off acc : Nat) → Except String (Nat × Nat × GoString)
  | [], off, acc => .ok (off, acc, [])
  | b :: rest, off, acc =>
    match hexValue b with
    | none => .ok (off, acc, b :: rest)
    | some d =>
      if 3 < off then .error "each group must have 4 or less digits"
      else if 65535 < acc * 16 + d then .error "IPv6 field has value >=2^16"
      else parseHexGroup rest (off + 1) (acc * 16 + d)

/-- The loop of `parseIPv6`, with `groups` groups still to fill: what is left of the
string, the bytes so far and the position of the ellipsis. -/
def parseIPv6Groups : (groups : Nat) → GoString → List UInt8 → Option Nat →
    Except String (GoString × List UInt8 × Option Nat)
  | 0, s, ip, ellipsis => .ok (s, ip, ellipsis)
  | groups + 1, s, ip, ellipsis =>
    match parseHexGroup s 0 0 with
    | .error e => .error e
    | .ok (0, _, _) => .error "each colon-separated field must have at least one digit"
    | .ok (_, acc, rest) =>
      if rest[0]? = some dot then
        if ellipsis = none ∧ ip.length ≠ 12 then
          .error "embedded IPv4 address must replace the final 2 fields of the address"
        else if 16 < ip.length + 4 then
          .error "too many hex fields to fit an embedded IPv4 at the end of the address"
        else
          match parseIPv4Fields s {} with
          | .error e => .error e
          | .ok fields => .ok ([], ip ++ fields, ellipsis)
      else
        let ip := ip ++ [(acc / 256).toUInt8, acc.toUInt8]
        match rest with
        | [] => .ok ([], ip, ellipsis)
        | b :: rest =>
          if b ≠ colon then .error "unexpected character, want colon"
          else
            match rest with
            | [] => .error "colon must be followed by more characters"
            | c :: rest' =>
              if c = colon then
                if ellipsis ≠ none then .error "multiple :: in address"
                else if rest' = [] then .ok ([], ip, some ip.length)
                else parseIPv6Groups groups rest' ip (some ip.length)
              else parseIPv6Groups groups (c :: rest') ip ellipsis

/-- The end of `parseIPv6`: all of the string is used, and an ellipsis stands for
the bytes that are missing. -/
def expandEllipsis : GoString × List UInt8 × Option Nat → Except String (List UInt8)
  | (s, ip, ellipsis) =>
    if s ≠ [] then .error "trailing garbage after address"
    else if ip.length < 16 then
      match ellipsis with
      | none => .error "address string too short"
      | some e => .ok (ip.take e ++ List.replicate (16 - ip.length) 0 ++ ip.drop e)
    else if ellipsis ≠ none then .error "the :: must expand to at least one field of zeros"
    else .ok ip

def parseIPv6 (s : GoString) : Except String Addr :=
  let (s, zone, found) := cut s 37
  if found ∧ zone = [] then .error "zone must be a non-empty string"
  else
    let leading := s.take 2 = [colon, colon]
    let s := if leading then s.drop 2 else s
    if leading ∧ s = [] then .ok (.v6 0 zone)
    else
      match parseIPv6Groups 8 s [] (if leading then some 0 else none) with
      | .error e => .error e
      | .ok parsed =>
        match expandEllipsis parsed with
        | .error e => .error e
        | .ok ip => .ok (.v6 (BitVec.ofNat 128 (bigEndian ip)) zone)

def parseIPv4 (s : GoString) : Except String Addr :=
  match parseIPv4Fields s {} with
  | .error e => .error e
  | .ok fields => .ok (.v4 (BitVec.ofNat 32 (bigEndian fields)))

/-- `netip.ParseAddr`: the first separator decides the family. -/
def parseAddr (s : GoString) : Except String Addr :=
  match s.find? fun b => b = dot || b = colon || b = 37 with
  | none => .error "unable to parse IP"
  | some b =>
    if b = dot then parseIPv4 s
    else if b = colon then parseIPv6 s
    else .error "missing IPv6 address"

/-! ### `netip.Prefix` -/

structure Prefix where
  ip : Addr
  bits : Nat
deriving DecidableEq, Repr

/-- The value of a string of decimal digits. -/
def decimal (s : GoString) : Option Nat :=
  if s ≠ [] ∧ s.all isDigit then some (s.foldl (fun n b => n * 10 + (b.toNat - 48)) 0) else none

/-- `netip.ParsePrefix`. -/
def parsePrefix (s : GoString) : Except String Prefix :=
  match lastIndexByte s 47 with
  | none => .error "no '/'"
  | some i =>
    match parseAddr (s.take i) with
    | .error e => .error e
    | .ok (.v6 _ (_ :: _)) => .error "IPv6 zones cannot be present in a prefix"
    | .ok ip =>
      let bitsStr := s.drop (i + 1)
      let maxBits := match ip with
        | .v4 _ => 32
        | .v6 _ _ => 128
      -- a leading sign or zero is accepted by Atoi but not here
      if 1 < bitsStr.length ∧ bitsStr[0]? = some 48 then .error "bad bits after slash"
      else
        match decimal bitsStr with
        | none => .error "bad bits after slash"
        | some n => if maxBits < n then .error "prefix length out of range" else .ok ⟨ip, n⟩

/-- `Prefix.Contains`: families agree, there is no zone, and the leading bits are
the same. -/
def Prefix.contains (p : Prefix) (ip : Addr) : Bool :=
  match p.ip, ip with
  | .v4 a, .v4 b => a >>> (32 - p.bits) == b >>> (32 - p.bits)
  | .v6 a _, .v6 b [] => a >>> (128 - p.bits) == b >>> (128 - p.bits)
  | _, _ => false

example : splitHostPort (ascii "[::1%a]:80") = .ok (ascii "::1%a", ascii "80") := by decide

example : parseAddr (ascii "::ffff:10.0.0.1") = .ok (.v6 0xffff0a000001 []) := by decide

example : parseAddr (ascii "10.0.0.01") = .error "IPv4 field has octet with leading zero" := by
  decide

example : (parsePrefix (ascii "10.1.0.0/16")).map (·.contains (.v4 0x0a01ffff)) = .ok true := by
  decide

end Glider.Go
