/-
The decoder of `dns/message.go`, as the source reads a message: every index and slice
expression is one operation on a `Slice`, in the source's order. `m` is the whole
message (`m.unMarshaled`), `b` and `p` are slices of it.

Names follow compression pointers to any offset of the message, so the recursion takes
fuel: one unit for each round of the loop in `UnmarshalDomainTo`, in the name itself or
in one it points to.
-/

import Glider.Go.Net
import Glider.Go.Slice

namespace Glider.Dns

open Glider.Go

/-- `HeaderLen`. -/
def headerLen : Nat := 12

/-- `QTypeA`. -/
def qTypeA : UInt16 := 1

/-- `QTypeAAAA`. -/
def qTypeAAAA : UInt16 := 28

structure Header where
  id : UInt16
  bits : UInt16
  qdcount : UInt16
  ancount : UInt16
  nscount : UInt16
  arcount : UInt16
deriving DecidableEq, Repr

structure Question where
  qname : GoString
  qtype : UInt16
  qclass : UInt16
deriving DecidableEq, Repr

/-- A resource record; `ip` is the zero `netip.Addr` for types without an address. -/
structure RR where
  name : GoString
  rtype : UInt16
  rclass : UInt16
  ttl : UInt32
  rdlength : UInt16
  rdata : List UInt8
  ip : Option Addr
deriving DecidableEq, Repr

structure Message where
  header : Header
  question : Question
  answers : List RR
deriving DecidableEq, Repr

/-! ### Names -/

/-- One label more in the string builder. -/
def addLabel (sb label : GoString) : GoString :=
  if 0 < sb.length then sb ++ dot :: label else label

/-- `UnmarshalDomainPointTo`, given the decoder for the name at the offset. -/
def unmarshalDomainPointTo (m : Slice) (unmarshalDomainTo : Slice → Read (Nat × GoString))
    (offset : Nat) : Read GoString :=
  if m.len < offset then Read.fail "UnmarshalDomainPointTo: offset larger than msg length"
  else do
    let b ← m.sliceFrom offset
    let decoded ← unmarshalDomainTo b
    pure decoded.2

/-- The loop of `UnmarshalDomainTo` from position `idx` of `b`, with the builder's
content so far. -/
def domainLoop (m : Slice) : (fuel : Nat) → (b : Slice) → (idx : Nat) → (sb : GoString) →
    Read (Nat × GoString)
  | 0, _, _, _ => Read.outOfFuel
  | fuel + 1, b, idx, sb => do
    let rest ← b.sliceFrom idx
    if rest.len = 0 then pure (idx, sb)
    else do
      let c ← b.index idx
      if c &&& 0xC0 = 0xC0 then do
        let rest ← b.sliceFrom idx
        if rest.len < 2 then
          Read.fail "UnmarshalDomainTo: not enough size for compressed domain"
        else do
          let pointer ← b.slice idx (idx + 2)
          let offset ← pointer.uint16
          let sb ← unmarshalDomainPointTo m (fun b => domainLoop m fuel b 0 sb)
            (offset &&& 0x3FFF).toNat
          pure (idx + 2, sb)
      else do
        let c ← b.index idx
        let size := c.toNat
        -- the root domain name
        if size = 0 then pure (idx + 1, sb)
        else if 63 < size then Read.fail "UnmarshalDomainTo: label size larger than 63"
        else if b.len < idx + 1 + size then
          Read.fail "UnmarshalDomainTo: label size larger than msg length"
        else do
          let label ← b.slice (idx + 1) (idx + 1 + size)
          domainLoop m fuel b (idx + 1 + size) (addLabel sb label.bytes)

/-- `UnmarshalDomainTo` into an empty builder. -/
def unmarshalDomainTo (fuel : Nat) (m b : Slice) : Read (Nat × GoString) :=
  domainLoop m fuel b 0 []

/-! ### Sections -/

def unmarshalHeader (b : Slice) : Read Header :=
  if b.len ≠ headerLen then Read.fail "unmarshal header bytes has an unexpected size"
  else do
    let p ← b.slice 0 2
    let id ← p.uint16
    let p ← b.slice 2 4
    let bits ← p.uint16
    let p ← b.slice 4 6
    let qdcount ← p.uint16
    let p ← b.slice 6 8
    let ancount ← p.uint16
    let p ← b.slice 8 10
    let nscount ← p.uint16
    let p ← b.sliceFrom 10
    let arcount ← p.uint16
    pure ⟨id, bits, qdcount, ancount, nscount, arcount⟩

/-- The end of `UnmarshalQuestion`, after the name. -/
def questionFields (b : Slice) (name : Nat × GoString) : Read (Question × Nat) := do
  let idx := name.1
  let p ← b.slice idx (idx + 2)
  let qtype ← p.uint16
  let p ← b.slice (idx + 2) (idx + 4)
  let qclass ← p.uint16
  pure (⟨name.2, qtype, qclass⟩, idx + 3 + 1)

/-- `UnmarshalQuestion`: the question and its length. -/
def unmarshalQuestion (fuel : Nat) (m b : Slice) : Read (Question × Nat) :=
  if b.len ≤ 5 then Read.fail "UnmarshalQuestion: not enough data"
  else do
    let name ← unmarshalDomainTo fuel m b
    questionFields b name

/-- The address in the data of an A or AAAA record. -/
def unmarshalIP (rtype : UInt16) (rdata : Slice) : Read (Option Addr) :=
  if rtype = qTypeA then do
    let ip ← rdata.slice 0 4
    pure (some (.v4 (BitVec.ofNat 32 (bigEndian ip.bytes))))
  else if rtype = qTypeAAAA then do
    let ip ← rdata.slice 0 16
    pure (some (.v6 (BitVec.ofNat 128 (bigEndian ip.bytes)) []))
  else pure none

/-- The end of `UnmarshalRR`, after the name. -/
def recordFields (p : Slice) (name : Nat × GoString) : Read (RR × Nat) :=
  let n := name.1
  if p.len ≤ n + 10 then Read.fail "UnmarshalRR: not enough data"
  else do
    let q ← p.sliceFrom n
    let rtype ← q.uint16
    let q ← p.sliceFrom (n + 2)
    let rclass ← q.uint16
    let q ← p.sliceFrom (n + 4)
    let ttl ← q.uint32
    let q ← p.sliceFrom (n + 8)
    let rdlength ← q.uint16
    if p.len < n + 10 + rdlength.toNat then
      Read.fail "UnmarshalRR: not enough data for RDATA"
    else do
      let rdata ← p.slice (n + 10) (n + 10 + rdlength.toNat)
      let ip ← unmarshalIP rtype rdata
      pure (⟨name.2, rtype, rclass, ttl, rdlength, rdata.bytes, ip⟩, n + 10 + rdlength.toNat)

/-- `UnmarshalRR`: the record at `start` and its length. -/
def unmarshalRR (fuel : Nat) (m : Slice) (start : Nat) : Read (RR × Nat) := do
  let p ← m.sliceFrom start
  let name ← unmarshalDomainTo fuel m p
  recordFields p name

/-- The loop of `UnmarshalMessage` over the answers, `count` of them from `rrIdx` on. -/
def unmarshalAnswers (fuel : Nat) (m : Slice) : (count : Nat) → (rrIdx : Nat) →
    (answers : List RR) → Read (List RR)
  | 0, _, answers => pure answers
  | count + 1, rrIdx, answers => do
    let rr ← unmarshalRR fuel m rrIdx
    unmarshalAnswers fuel m count (rrIdx + rr.2) (answers ++ [rr.1])

/-- `UnmarshalMessage`. -/
def unmarshalMessage (fuel : Nat) (m : Slice) : Read Message :=
  if m.len < headerLen then Read.fail "UnmarshalMessage: not enough data"
  else do
    let b ← m.slice 0 headerLen
    let header ← unmarshalHeader b
    let b ← m.sliceFrom headerLen
    let question ← unmarshalQuestion fuel m b
    let answers ← unmarshalAnswers fuel m header.ancount.toNat (headerLen + question.2) []
    pure
      { header := { header with qdcount := 1, ancount := UInt16.ofNat answers.length }
        question := question.1
        answers := answers }

/-! ### Encoding

The writers never fail: a `bytes.Buffer` takes every write. -/

def putUint16 (n : UInt16) : List UInt8 := [(n >>> 8).toUInt8, n.toUInt8]

def putUint32 (n : UInt32) : List UInt8 :=
  [(n >>> 24).toUInt8, (n >>> 16).toUInt8, (n >>> 8).toUInt8, n.toUInt8]

/-- `MarshalDomainTo`. -/
def marshalDomain (domain : GoString) : List UInt8 :=
  ((split domain dot).flatMap fun seg => seg.length.toUInt8 :: seg) ++ [0]

def Header.marshal (h : Header) : List UInt8 :=
  putUint16 h.id ++ putUint16 h.bits ++ putUint16 h.qdcount ++ putUint16 h.ancount ++
    putUint16 h.nscount ++ putUint16 h.arcount

def Question.marshal (q : Question) : List UInt8 :=
  marshalDomain q.qname ++ putUint16 q.qtype ++ putUint16 q.qclass

def RR.marshal (rr : RR) : List UInt8 :=
  marshalDomain rr.name ++ putUint16 rr.rtype ++ putUint16 rr.rclass ++ putUint32 rr.ttl ++
    putUint16 rr.rdlength ++ rr.rdata

/-- `MarshalTo`; the counts are set first. -/
def Message.marshal (m : Message) : List UInt8 :=
  { m.header with qdcount := 1, ancount := UInt16.ofNat m.answers.length }.marshal ++
    m.question.marshal ++ m.answers.flatMap RR.marshal

end Glider.Dns
