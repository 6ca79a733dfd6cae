/-
The messages of RFC 1035 that the decoder of `dns/message.go` accepts.

The grammar is that of the RFC, over the bytes of a message: names are labels of 1 to 63 bytes up to
the root or a pointer to an earlier name, records carry data of any length, and anything may
follow the answers. `WireMessage` says which message the bytes denote.

The decoder wants six bytes for a question, where the root name with its type and class takes
five, and a byte after the fixed fields of a record, where the data may be empty.

* `WireName.agrees` — names are decoded, pointers expanded.
* `WireRecords.agrees` — so are the answers, unless the last one has no data and nothing follows it.
* `accepts_iff` — the well-formed messages that are accepted.
* `root_query_rejected` — two that are not.
-/

import Glider.Dns.Encode

namespace Glider.Dns

open Glider.Go Glider.Lib

variable {m : Slice}

/-! ### Names -/

/-- A compression pointer: two set bits and an offset of 14 bits. -/
def pointerTo (target : Nat) : List UInt8 := putUint16 (UInt16.ofNat (0xC000 + target))

/-- The bytes from `pos` on are the rest of a name that starts at `start`, up to `stop`. A pointer
leads to a name that starts before this one. -/
inductive WireName (m : Slice) : (start pos : Nat) → (labels : List GoString) → (stop : Nat) → Prop
    where
  | root {start pos : Nat} (bytes : m.Has pos [0]) : WireName m start pos [] (pos + 1)
  | label {start pos stop : Nat} {label : GoString} {labels : List GoString}
      (valid : ValidLabel label) (bytes : m.Has pos (label.length.toUInt8 :: label))
      (rest : WireName m start (pos + 1 + label.length) labels stop) :
      WireName m start pos (label :: labels) stop
  | pointer {start pos target stop : Nat} {labels : List GoString} (offset : target < 2 ^ 14)
      (earlier : target < start) (bytes : m.Has pos (pointerTo target))
      (name : WireName m target target labels stop) : WireName m start pos labels (pos + 2)

/-- A name as it is written: its labels with dots between them. -/
def dotted (labels : List GoString) : GoString := [dot].intercalate labels

theorem dotted_cons (label : GoString) (labels : List GoString) :
    dotted (label :: labels) = label ++ labels.flatMap (dot :: ·) := by
  induction labels generalizing label with
  | nil => simp [dotted]
  | cons next labels ih =>
    rw [List.flatMap_cons, List.cons_append, ← ih next]
    simp [dotted, List.intercalate]

theorem nameToken_of_pointer {pos target : Nat} (h : m.Has pos (pointerTo target))
    (offset : target < 2 ^ 14) (htarget : target ≤ m.len) :
    nameToken m pos = .pointer target := by
  have hlen : pos + 2 ≤ m.len := h.len
  have hword : m.wordAt pos = UInt16.ofNat (0xC000 + target) := wordAt_of_has h
  have hmask : (UInt16.ofNat (0xC000 + target) &&& 0x3FFF).toNat = target := by
    rw [UInt16.toNat_and, UInt16.toNat_ofNat', Nat.mod_eq_of_lt (by omega)]
    rw [show UInt16.toNat 0x3FFF = 2 ^ 14 - 1 from rfl, Nat.and_two_pow_sub_one_eq_mod]
    omega
  have hbyte : m.byteAt pos &&& 0xC0 = 0xC0 := by
    have hbits : ∀ x < 64, UInt8.ofNat (192 + x) &&& 0xC0 = 0xC0 := by decide
    have hfirst : (UInt16.ofNat (0xC000 + target) >>> 8).toUInt8 =
        UInt8.ofNat (192 + target / 256) := by
      rw [← UInt8.toNat_inj]
      simp only [UInt16.toNat_toUInt8, UInt16.toNat_shiftRight, UInt16.toNat_ofNat',
        UInt8.toNat_ofNat', show UInt16.toNat 8 % 16 = 8 from rfl, Nat.shiftRight_eq_div_pow]
      omega
    rw [h.byteAt_eq, hfirst]
    exact hbits _ (by omega)
  unfold nameToken
  rw [if_neg (by omega), if_pos hbyte, if_neg (by omega), hword, hmask, if_neg (by omega)]

variable {labels : List GoString}

/-- A name starts with a byte of the message. -/
theorem WireName.lt {start pos stop : Nat} (name : WireName m start pos labels stop) :
    pos < m.len := by
  cases name with
  | root bytes => exact bytes.len
  | label valid bytes rest =>
    have hlen := bytes.len
    rw [List.length_cons] at hlen
    omega
  | pointer offset earlier bytes name =>
    have hlen : pos + 2 ≤ m.len := bytes.len
    omega

theorem WireName.nameAt {start pos stop : Nat} (name : WireName m start pos labels stop) :
    NameAt m pos labels stop ∧ ∀ label ∈ labels, ValidLabel label := by
  induction name with
  | root bytes => exact ⟨.root (nameToken_of_root bytes), fun _ h => by cases h⟩
  | label valid bytes rest ih =>
    obtain ⟨hrest, hvalid⟩ := ih
    constructor
    · have hname := NameAt.label (nameToken_of_label valid bytes) hrest
      rwa [labelAt_of_has bytes] at hname
    · exact List.forall_mem_cons.mpr ⟨valid, hvalid⟩
  | pointer offset earlier bytes name ih =>
    exact ⟨.pointer (nameToken_of_pointer bytes offset (Nat.le_of_lt name.lt)) ih.1, ih.2⟩

theorem foldl_addLabel_eq_dotted (valid : ∀ label ∈ labels, ValidLabel label) :
    labels.foldl addLabel [] = dotted labels := by
  cases labels with
  | nil => rfl
  | cons label labels =>
    have hne : label ≠ [] := List.ne_nil_of_length_pos (valid label List.mem_cons_self).1
    rw [List.foldl_cons, show addLabel [] label = label from rfl, foldl_addLabel hne, dotted_cons]

/-- A name has an end. -/
theorem NameAt.ends {pos stop : Nat} (name : NameAt m pos labels stop) :
    ∃ n, orbit (nameStep m) n pos = none := by
  induction name with
  | endOfData token | root token => exact ⟨1, by simp [orbit, nameStep, token]⟩
  | label token _ ih | pointer token _ ih =>
    obtain ⟨n, hn⟩ := ih
    exact ⟨n + 1, by simp [orbit, nameStep, token, hn]⟩

/-- **A name is decoded**, with its pointers expanded. -/
theorem WireName.agrees {pos stop fuel : Nat} (name : WireName m pos pos labels stop)
    (hfuel : m.len + 2 ≤ fuel) :
    (unmarshalDomainTo fuel m (m.tail pos)).Agrees (pure (stop - pos, dotted labels)) := by
  obtain ⟨nameAt, valid⟩ := name.nameAt
  have hpos : pos + 0 ≤ m.len := Nat.le_of_lt name.lt
  have hrevisits : ¬ Revisits (nameStep m) pos := by
    intro hrevisits
    obtain ⟨n, hn⟩ := nameAt.ends
    have hsome := orbit_isSome_of_revisits hrevisits n
    rw [hn] at hsome
    cases hsome
  have hloop : (domainLoop m fuel (m.tail pos) 0 []).outcome ≠ .loop := by
    intro hloop
    have hsome := (domainLoop_loop_iff hpos).mp hloop
    rw [Nat.add_zero, (orbit_eq_none_iff (nameStep_lt m) (by omega)).mpr hrevisits] at hsome
    cases hsome
  have heq := nameAt.domainLoop_eq fuel pos 0 [] hpos rfl hloop
  rw [foldl_addLabel_eq_dotted valid] at heq
  exact Read.agrees_of_safe heq (domainLoop_safe fuel [] hpos)

/-! ### Records -/

/-- The address that the data of a record denotes. -/
def addressIn (rtype : UInt16) (rdata : List UInt8) : Option Addr :=
  if rtype = qTypeA then some (.v4 (BitVec.ofNat 32 (bigEndian rdata)))
  else if rtype = qTypeAAAA then some (.v6 (BitVec.ofNat 128 (bigEndian rdata)) [])
  else none

/-- The bytes from `start` to `next` are a record. -/
structure WireRecord (m : Slice) (start : Nat) (rr : RR) (next : Nat) : Prop where
  bytes : ∃ labels stop, WireName m start start labels stop ∧ rr.name = dotted labels ∧
    m.Has stop rr.wireFields ∧ next = stop + rr.wireFields.length
  rdlength : rr.rdlength.toNat = rr.rdata.length
  ipv4 : rr.rtype = qTypeA → rr.rdata.length = 4
  ipv6 : rr.rtype = qTypeAAAA → rr.rdata.length = 16
  ip : rr.ip = addressIn rr.rtype rr.rdata

/-- Records one after the other. -/
inductive WireRecords (m : Slice) : (first : Nat) → (answers : List RR) → (next : Nat) → Prop where
  | nil (first : Nat) : WireRecords m first [] first
  | cons {first mid next : Nat} {rr : RR} {answers : List RR} (record : WireRecord m first rr mid)
      (rest : WireRecords m mid answers next) : WireRecords m first (rr :: answers) next

/-- The message ends with its answers, and the last of them has no data. -/
def EndsEmpty (m : Slice) (answers : List RR) (next : Nat) : Prop :=
  next = m.len ∧ ∃ rr ∈ answers.getLast?, rr.rdata = []

instance (m : Slice) (answers : List RR) (next : Nat) : Decidable (EndsEmpty m answers next) :=
  inferInstanceAs (Decidable (_ ∧ _))

theorem WireRecord.address {start next : Nat} {rr : RR} (record : WireRecord m start rr next) :
    addressLen rr.rtype ≤ rr.rdata.length ∧ rr.decoded = rr := by
  have hip := record.ip
  unfold addressIn at hip
  unfold addressLen RR.decoded addressOf
  split
  · rename_i htype
    have hlength := record.ipv4 htype
    rw [if_pos htype] at hip
    refine ⟨Nat.le_of_eq hlength.symm, ?_⟩
    rw [List.take_of_length_le (Nat.le_of_eq hlength), ← hip]
  rename_i htype
  rw [if_neg htype] at hip
  split
  · rename_i htype'
    have hlength := record.ipv6 htype'
    rw [if_pos htype'] at hip
    refine ⟨Nat.le_of_eq hlength.symm, ?_⟩
    rw [List.take_of_length_le (Nat.le_of_eq hlength), ← hip]
  · rename_i htype'
    rw [if_neg htype'] at hip
    rw [← hip]
    exact ⟨Nat.zero_le _, rfl⟩

/-- A record is decoded, unless it has no data and ends the message. -/
theorem WireRecord.agrees {start next fuel : Nat} {rr : RR} (record : WireRecord m start rr next)
    (hfuel : m.len + 2 ≤ fuel) :
    start < m.len ∧ start < next ∧ next ≤ m.len ∧
    (unmarshalRR fuel m start).Agrees
      (if next = m.len ∧ rr.rdata = [] then Read.fail "UnmarshalRR: not enough data"
      else pure (rr, next - start)) := by
  obtain ⟨labels, stop, name, hname, hfields, rfl⟩ := record.bytes
  obtain ⟨haddress, hdecoded⟩ := record.address
  have hbounds := (name.nameAt.1.bounds (Nat.le_of_lt name.lt)).1
  have hlen := hfields.len
  have hagrees := name.agrees hfuel
  rw [← hname] at hagrees
  have hrecord := unmarshalRR_fields hbounds hagrees hfields record.rdlength haddress
  rw [hdecoded] at hrecord
  rw [RR.length_wireFields] at hlen ⊢
  have hiff : (stop + (10 + rr.rdata.length) = m.len ∧ rr.rdata = []) ↔ m.len ≤ stop + 10 := by
    rw [← List.length_eq_zero_iff]
    omega
  refine ⟨name.lt, by omega, hlen, ?_⟩
  rw [if_congr hiff rfl rfl, ← Nat.add_assoc]
  exact hrecord

/-- **The answers are decoded**, unless the last one has no data and ends the message. -/
theorem WireRecords.agrees {first next fuel : Nat} {answers : List RR}
    (records : WireRecords m first answers next) (hfuel : m.len + 2 ≤ fuel) (done : List RR) :
    (unmarshalAnswers fuel m answers.length first done).Agrees
      (if EndsEmpty m answers next then Read.fail "UnmarshalRR: not enough data"
      else pure (done ++ answers)) := by
  induction records generalizing done with
  | nil first =>
    rw [if_neg (by rintro ⟨-, rr, hrr, -⟩; cases hrr), List.append_nil]
    exact .refl _
  | @cons first mid next rr answers record rest ih =>
    obtain ⟨-, hlt, hmid, hrecord⟩ := record.agrees hfuel
    have hnext : first + (mid - first) = mid := by omega
    rw [List.length_cons, unmarshalAnswers]
    cases rest with
    | nil =>
      have hiff : EndsEmpty m [rr] mid ↔ mid = m.len ∧ rr.rdata = [] := by
        simp [EndsEmpty]
      rw [if_congr hiff rfl rfl]
      split
      · rename_i hempty
        rw [if_pos hempty] at hrecord
        exact hrecord.bind_fail
      · rename_i hempty
        rw [if_neg hempty] at hrecord
        exact hrecord.bind
    | @cons _ mid' _ rr' answers' record' rest' =>
      -- there is a record to come, so this one does not end the message
      have hmore : mid < m.len := (record'.agrees hfuel).1
      have hiff :
          EndsEmpty m (rr :: rr' :: answers') next ↔ EndsEmpty m (rr' :: answers') next := by
        unfold EndsEmpty
        rw [List.getLast?_cons_cons]
      rw [if_neg (fun h => absurd h.1 (Nat.ne_of_lt hmore))] at hrecord
      refine hrecord.bind.trans ?_
      dsimp only
      have hrest := ih (done ++ [rr])
      rw [List.append_assoc] at hrest
      rw [hnext, if_congr hiff rfl rfl]
      exact hrest

/-! ### Messages -/

/-- The bytes are a message with one question, whose answers end at `next`. What follows them is
not looked at. -/
structure WireMessage (m : Slice) (msg : Message) (next : Nat) : Prop where
  header : m.Has 0 msg.header.marshal
  qdcount : msg.header.qdcount = 1
  ancount : msg.header.ancount.toNat = msg.answers.length
  body : ∃ labels stop, WireName m headerLen headerLen labels stop ∧
    msg.question.qname = dotted labels ∧
    m.Has stop (putUint16 msg.question.qtype ++ putUint16 msg.question.qclass) ∧
    WireRecords m (stop + 4) msg.answers next

theorem WireMessage.agrees {msg : Message} {next fuel : Nat} (wire : WireMessage m msg next)
    (hfuel : m.len + 2 ≤ fuel) :
    (unmarshalMessage fuel m).Agrees
      (if m.len < 18 then Read.fail "UnmarshalQuestion: not enough data"
      else if EndsEmpty m msg.answers next then Read.fail "UnmarshalRR: not enough data"
      else pure msg) := by
  obtain ⟨labels, stop, name, hname, hfields, records⟩ := wire.body
  have hbounds := (name.nameAt.1.bounds (Nat.le_of_lt name.lt)).1
  have hagrees := name.agrees hfuel
  rw [← hname] at hagrees
  have hquestion : (unmarshalQuestion fuel m (m.tail 12)).Agrees
      (if m.len < 18 then Read.fail "UnmarshalQuestion: not enough data"
      else pure (msg.question, stop + 4 - headerLen)) :=
    unmarshalQuestion_fields hbounds hagrees hfields
  have hstart : headerLen + (stop + 4 - headerLen) = stop + 4 := by omega
  have hcount : UInt16.ofNat msg.answers.length = msg.header.ancount := by
    rw [← wire.ancount, UInt16.ofNat_toNat]
  have hmsg : (⟨{ msg.header with qdcount := 1, ancount := UInt16.ofNat msg.answers.length },
      msg.question, msg.answers⟩ : Message) = msg := by
    rw [hcount, ← wire.qdcount]
  refine (unmarshalMessage_parts fuel wire.header).trans ?_
  by_cases hshort : m.len < 18
  · rw [if_pos hshort] at hquestion ⊢
    exact hquestion.bind_fail
  · rw [if_neg hshort] at hquestion ⊢
    refine hquestion.bind.trans ?_
    dsimp only
    rw [hstart, wire.ancount]
    have hanswers := records.agrees hfuel []
    split
    · rename_i hempty
      rw [if_pos hempty] at hanswers
      exact hanswers.bind_fail
    · rename_i hempty
      rw [if_neg hempty] at hanswers
      refine hanswers.bind.trans ?_
      rw [List.nil_append, hmsg]
      exact .refl _

/-- **Well-formed messages.** The decoder accepts a message with one question and any answers, and
returns what it denotes, exactly if the message has at least 18 bytes and does not end with an
answer without data. -/
theorem accepts_iff (m : Slice) (msg : Message) (next : Nat) (wire : WireMessage m msg next)
    (fuel : Nat) (hfuel : m.len + 2 ≤ fuel) :
    (unmarshalMessage fuel m).outcome = .ok msg ↔ 18 ≤ m.len ∧ ¬ EndsEmpty m msg.answers next := by
  rw [(wire.agrees hfuel).outcome]
  split
  · rename_i hshort
    exact iff_of_false (fun h => by cases h) fun h => absurd h.1 (Nat.not_le_of_lt hshort)
  · rename_i hlong
    split
    · rename_i hempty
      exact iff_of_false (fun h => by cases h) fun h => h.2 hempty
    · rename_i hempty
      exact iff_of_true rfl ⟨Nat.le_of_not_lt hlong, hempty⟩

/-- A response about `a`, whose only answer has its name as a pointer to the question's. -/
def pointerAnswer (rtype : UInt8) (rdata : List UInt8) : Slice :=
  .ofBytes ([0x12, 0x34, 0x81, 0, 0, 1, 0, 1, 0, 0, 0, 0, 1, 97, 0, 0, rtype, 0, 1, 0xC0, 12, 0,
    rtype, 0, 1, 0, 0, 0, 60, 0, rdata.length.toUInt8] ++ rdata) []

/-- What it denotes. -/
def pointerMessage (rtype : UInt16) (rdata : List UInt8) : Message where
  header := ⟨0x1234, 0x8100, 1, 1, 0, 0⟩
  question := ⟨ascii "a", rtype, 1⟩
  answers := [⟨ascii "a", rtype, 1, 60, rdata.length.toUInt16, rdata, addressIn rtype rdata⟩]

theorem wireMessage_address :
    WireMessage (pointerAnswer 1 [192, 0, 2, 1]) (pointerMessage 1 [192, 0, 2, 1]) 35 where
  header := ⟨by decide, by decide⟩
  qdcount := rfl
  ancount := rfl
  body := by
    have name : WireName (pointerAnswer 1 [192, 0, 2, 1]) 12 12 [ascii "a"] 15 :=
      .label (by decide) ⟨by decide, by decide⟩ (.root ⟨by decide, by decide⟩)
    have pointer : WireName (pointerAnswer 1 [192, 0, 2, 1]) 19 19 [ascii "a"] 21 :=
      .pointer (by decide) (by decide) ⟨by decide, by decide⟩ name
    refine ⟨_, _, name, rfl, ⟨by decide, by decide⟩, .cons ?_ (.nil 35)⟩
    exact ⟨⟨_, _, pointer, rfl, ⟨by decide, by decide⟩, rfl⟩, rfl, fun _ => rfl,
      fun h => absurd h (by decide), rfl⟩

/-- A response with a pointer and an address is decoded. -/
theorem accepts_iff_address :
    WireMessage (pointerAnswer 1 [192, 0, 2, 1]) (pointerMessage 1 [192, 0, 2, 1]) 35 ∧
      (unmarshalMessage 37 (pointerAnswer 1 [192, 0, 2, 1])).outcome =
        .ok (pointerMessage 1 [192, 0, 2, 1]) := by
  refine ⟨wireMessage_address, ?_⟩
  exact (accepts_iff _ _ 35 wireMessage_address 37 (by decide)).mpr ⟨by decide, by decide⟩

theorem wireMessage_noData : WireMessage (pointerAnswer 16 []) (pointerMessage 16 []) 31 where
  header := ⟨by decide, by decide⟩
  qdcount := rfl
  ancount := rfl
  body := by
    have name : WireName (pointerAnswer 16 []) 12 12 [ascii "a"] 15 :=
      .label (by decide) ⟨by decide, by decide⟩ (.root ⟨by decide, by decide⟩)
    have pointer : WireName (pointerAnswer 16 []) 19 19 [ascii "a"] 21 :=
      .pointer (by decide) (by decide) ⟨by decide, by decide⟩ name
    refine ⟨_, _, name, rfl, ⟨by decide, by decide⟩, .cons ?_ (.nil 31)⟩
    exact ⟨⟨_, _, pointer, rfl, ⟨by decide, by decide⟩, rfl⟩, rfl,
      fun h => absurd h (by decide), fun h => absurd h (by decide), rfl⟩

/-- A query for the name servers of the root. -/
def rootQuery : Slice :=
  .ofBytes [0x12, 0x34, 1, 0, 0, 1, 0, 0, 0, 0, 0, 0, 0, 0, 2, 0, 1] []

theorem wireMessage_rootQuery :
    WireMessage rootQuery ⟨⟨0x1234, 0x100, 1, 0, 0, 0⟩, ⟨[], 2, 1⟩, []⟩ 17 where
  header := ⟨by decide, by decide⟩
  qdcount := rfl
  ancount := rfl
  body := ⟨[], 13, .root ⟨by decide, by decide⟩, rfl, ⟨by decide, by decide⟩, .nil 17⟩

/-- The query for the root is rejected, and so is the response with an answer of type TXT whose
data is empty. -/
theorem root_query_rejected :
    WireMessage rootQuery ⟨⟨0x1234, 0x100, 1, 0, 0, 0⟩, ⟨[], 2, 1⟩, []⟩ 17 ∧
    (unmarshalMessage 19 rootQuery).outcome = .err "UnmarshalQuestion: not enough data" ∧
    WireMessage (pointerAnswer 16 []) (pointerMessage 16 []) 31 ∧
    (unmarshalMessage 33 (pointerAnswer 16 [])).outcome = .err "UnmarshalRR: not enough data" :=
  ⟨wireMessage_rootQuery, by decide, wireMessage_noData, by decide⟩

end Glider.Dns
