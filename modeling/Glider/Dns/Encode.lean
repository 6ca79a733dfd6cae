/-
What the encoder of `dns/message.go` writes, the decoder reads back.

A message is valid here if its names are lists of labels of 1 to 63 bytes and the data of its
records has the announced length, with room for an address where there should be one. Nothing in
the encoder checks this.

* `domainLoop_encodeLabels` — labels are read back up to the root.
* `unmarshalRR_fields`, `unmarshalQuestion_fields` — when records and questions are read, by what
  follows their names.
* `unmarshalRR_marshal`, `unmarshalQuestion_marshal` — those that were encoded are read back,
  wherever they stand in a message.
* `unmarshal_marshal` — and whole messages.
-/

import Glider.Dns.Decode

namespace Glider.Dns

open Glider.Go

variable {m : Slice} {pos : Nat}

/-! ### Numbers -/

theorem wordAt_of_has {n : UInt16} (h : m.Has pos (putUint16 n)) : m.wordAt pos = n := by
  rw [Slice.wordAt, h.byteAt_eq, h.next.byteAt_eq, ← UInt16.toNat_inj]
  have hlt := n.toNat_lt
  simp only [UInt16.toNat_ofNat', UInt16.toNat_toUInt8, UInt16.toNat_shiftRight,
    show UInt16.toNat 8 % 16 = 8 from rfl, Nat.shiftRight_eq_div_pow]
  omega

theorem dwordAt_of_has {n : UInt32} (h : m.Has pos (putUint32 n)) : m.dwordAt pos = n := by
  rw [Slice.dwordAt, h.byteAt_eq, h.next.byteAt_eq, h.next.next.byteAt_eq,
    h.next.next.next.byteAt_eq, ← UInt32.toNat_inj]
  have hlt := n.toNat_lt
  simp only [UInt32.toNat_ofNat', UInt32.toNat_toUInt8, UInt32.toNat_shiftRight,
    show UInt32.toNat 24 % 32 = 24 from rfl, show UInt32.toNat 16 % 32 = 16 from rfl,
    show UInt32.toNat 8 % 32 = 8 from rfl, Nat.shiftRight_eq_div_pow]
  omega

/-! ### Names -/

/-- A label the wire format can hold. -/
def ValidLabel (label : GoString) : Prop := 1 ≤ label.length ∧ label.length ≤ 63

/-- A name of such labels. -/
def ValidName (name : GoString) : Prop := ∀ label ∈ split name dot, ValidLabel label

instance (label : GoString) : Decidable (ValidLabel label) := inferInstanceAs (Decidable (_ ∧ _))

instance (name : GoString) : Decidable (ValidName name) :=
  inferInstanceAs (Decidable (∀ label ∈ split name dot, ValidLabel label))

/-- The bytes of labels and the root. -/
def encodeLabels (labels : List GoString) : List UInt8 :=
  (labels.flatMap fun label => label.length.toUInt8 :: label) ++ [0]

theorem encodeLabels_cons (label : GoString) (labels : List GoString) :
    encodeLabels (label :: labels) = label.length.toUInt8 :: (label ++ encodeLabels labels) := by
  simp [encodeLabels]

theorem length_lt_encodeLabels (labels : List GoString) :
    labels.length < (encodeLabels labels).length := by
  induction labels with
  | nil => exact Nat.one_pos
  | cons label labels ih =>
    rw [encodeLabels_cons, List.length_cons, List.length_cons, List.length_append]
    omega

theorem nameToken_of_root (h : m.Has pos [0]) : nameToken m pos = .root := by
  have hlen := h.len
  rw [List.length_singleton] at hlen
  rw [nameToken, if_neg (by omega), h.byteAt_eq, if_neg (by decide), if_pos (by decide)]

theorem nameToken_of_label {label : GoString} (valid : ValidLabel label)
    (h : m.Has pos (label.length.toUInt8 :: label)) : nameToken m pos = .label label.length := by
  obtain ⟨hpos, hle⟩ := valid
  have hlen := h.len
  rw [List.length_cons] at hlen
  have hbyte : label.length.toUInt8.toNat = label.length := Nat.mod_eq_of_lt (by omega)
  have hptr : ¬ label.length.toUInt8 &&& 0xC0 = 0xC0 := by
    intro heq
    have hand : (label.length.toUInt8 &&& 0xC0).toNat ≤ label.length.toUInt8.toNat := by
      rw [UInt8.toNat_and]
      exact Nat.and_le_left
    rw [heq, hbyte] at hand
    exact absurd (Nat.le_trans hand hle) (by decide)
  rw [nameToken, if_neg (by omega), h.byteAt_eq, if_neg hptr, hbyte, if_neg (by omega),
    if_neg (by omega), if_neg (by omega)]

theorem labelAt_of_has {label : GoString} {b : UInt8} (h : m.Has pos (b :: label)) :
    labelAt m pos label.length = label := h.next.take_eq

/-- Labels are read back up to the root. -/
theorem domainLoop_encodeLabels {labels : List GoString}
    (valid : ∀ label ∈ labels, ValidLabel label) {fuel off idx : Nat}
    (hfuel : labels.length < fuel) (sb : GoString) (h : m.Has (off + idx) (encodeLabels labels)) :
    (domainLoop m fuel (m.tail off) idx sb).Agrees
      (pure (idx + (encodeLabels labels).length, labels.foldl addLabel sb)) := by
  induction labels generalizing fuel idx sb with
  | nil =>
    cases fuel with
    | zero => exact absurd hfuel (Nat.not_lt_zero _)
    | succ fuel =>
      have hlen := h.len
      have step : (domainLoop m (fuel + 1) (m.tail off) idx sb).Agrees _ :=
        domainLoop_succ fuel (by omega)
      rw [nameToken_of_root h] at step
      exact step
  | cons label labels ih =>
    cases fuel with
    | zero => exact absurd hfuel (Nat.not_lt_zero _)
    | succ fuel =>
      rw [encodeLabels_cons, ← List.cons_append] at h
      have hlen := h.len
      have step : (domainLoop m (fuel + 1) (m.tail off) idx sb).Agrees _ :=
        domainLoop_succ fuel (by omega)
      rw [nameToken_of_label (valid label List.mem_cons_self) h.left] at step
      dsimp only at step
      rw [labelAt_of_has h.left] at step
      have hrest : m.Has (off + (idx + 1 + label.length)) (encodeLabels labels) := by
        have hright := h.right
        rw [List.length_cons] at hright
        rw [show off + (idx + 1 + label.length) = off + idx + (label.length + 1) by omega]
        exact hright
      have rest := ih (fun l hl => valid l (List.mem_cons_of_mem label hl))
        (Nat.lt_of_succ_lt_succ hfuel) (addLabel sb label) hrest
      refine step.trans (rest.trans ?_)
      rw [encodeLabels_cons, List.length_cons, List.length_append, List.foldl_cons,
        show idx + (label.length + (encodeLabels labels).length + 1) =
          idx + 1 + label.length + (encodeLabels labels).length by omega]
      exact .refl _

theorem foldl_addLabel {sb : GoString} (hsb : sb ≠ []) (labels : List GoString) :
    labels.foldl addLabel sb = sb ++ labels.flatMap (dot :: ·) := by
  induction labels generalizing sb with
  | nil => simp
  | cons label labels ih =>
    have hadd : addLabel sb label = sb ++ dot :: label :=
      if_pos (List.length_pos_of_ne_nil hsb)
    rw [List.foldl_cons, hadd, ih (by simp), List.flatMap_cons, List.append_assoc]

variable {name : GoString}

/-- A name is put together again from its labels. -/
theorem foldl_split (valid : ValidName name) : (split name dot).foldl addLabel [] = name := by
  obtain ⟨label, labels, hsplit, hname⟩ := split_eq name dot
  have hlabel : label ≠ [] :=
    List.ne_nil_of_length_pos (valid label (by rw [hsplit]; exact List.mem_cons_self)).1
  rw [hsplit, List.foldl_cons, show addLabel [] label = label from rfl, foldl_addLabel hlabel]
  exact hname.symm

theorem length_marshalDomain (valid : ValidName name) : 2 < (marshalDomain name).length := by
  obtain ⟨label, labels, hsplit, -⟩ := split_eq name dot
  have hlabel := (valid label (by rw [hsplit]; exact List.mem_cons_self)).1
  have hrest := length_lt_encodeLabels labels
  rw [show marshalDomain name = encodeLabels (split name dot) from rfl, hsplit, encodeLabels_cons,
    List.length_cons, List.length_append]
  omega

variable {fuel : Nat}

/-- **Names** are read back, with as many rounds as labels and one for the root. -/
theorem unmarshalDomainTo_marshalDomain (valid : ValidName name)
    (hfuel : (marshalDomain name).length < fuel) (h : m.Has pos (marshalDomain name)) :
    (unmarshalDomainTo fuel m (m.tail pos)).Agrees (pure ((marshalDomain name).length, name)) := by
  have hlabels : (split name dot).length < (marshalDomain name).length :=
    length_lt_encodeLabels (split name dot)
  have loop : (domainLoop m fuel (m.tail pos) 0 []).Agrees _ :=
    domainLoop_encodeLabels valid (Nat.lt_trans hlabels hfuel) [] h
  rw [foldl_split valid, Nat.zero_add] at loop
  exact loop

/-! ### Records -/

/-- The address the decoder finds in a record. -/
def addressOf (rtype : UInt16) (rdata : List UInt8) : Option Addr :=
  if rtype = qTypeA then some (.v4 (BitVec.ofNat 32 (bigEndian (rdata.take 4))))
  else if rtype = qTypeAAAA then some (.v6 (BitVec.ofNat 128 (bigEndian (rdata.take 16))) [])
  else none

/-- What the decoder makes of a record. -/
def RR.decoded (rr : RR) : RR := { rr with ip := addressOf rr.rtype rr.rdata }

/-- A record that can be read back. -/
structure RR.Valid (rr : RR) : Prop where
  name : ValidName rr.name
  rdlength : rr.rdlength.toNat = rr.rdata.length
  rdata : 1 ≤ rr.rdata.length
  address : addressLen rr.rtype ≤ rr.rdata.length

instance (rr : RR) : Decidable rr.Valid :=
  decidable_of_iff
    (ValidName rr.name ∧ rr.rdlength.toNat = rr.rdata.length ∧ 1 ≤ rr.rdata.length ∧
      addressLen rr.rtype ≤ rr.rdata.length)
    ⟨fun ⟨h₁, h₂, h₃, h₄⟩ => ⟨h₁, h₂, h₃, h₄⟩, fun ⟨h₁, h₂, h₃, h₄⟩ => ⟨h₁, h₂, h₃, h₄⟩⟩

theorem unmarshalIP_agrees {rtype : UInt16} {rdata : Slice} (h : addressLen rtype ≤ rdata.len) :
    (unmarshalIP rtype rdata).Agrees (pure (addressOf rtype rdata.bytes)) := by
  have hpart : ∀ n ≤ rdata.len, (rdata.part 0 n).bytes = rdata.bytes.take n := by
    intro n hn
    rw [Slice.part_bytes (Nat.le_trans hn rdata.len_le), Slice.bytes, List.take_take,
      Nat.min_eq_left hn]
    rfl
  unfold unmarshalIP addressOf
  unfold addressLen at h
  split
  · rename_i htype
    rw [if_pos htype] at h
    refine (Slice.slice_agrees (Nat.zero_le _) h).bind.trans ?_
    rw [hpart 4 h]
    exact .refl _
  rename_i htype
  rw [if_neg htype] at h
  split
  · rename_i htype'
    rw [if_pos htype'] at h
    refine (Slice.slice_agrees (Nat.zero_le _) h).bind.trans ?_
    rw [hpart 16 h]
    exact .refl _
  · exact .refl _

/-- A record without its name. -/
def RR.wireFields (rr : RR) : List UInt8 :=
  putUint16 rr.rtype ++ putUint16 rr.rclass ++ putUint32 rr.ttl ++ putUint16 rr.rdlength ++ rr.rdata

theorem RR.marshal_eq (rr : RR) : rr.marshal = marshalDomain rr.name ++ rr.wireFields := by
  simp only [RR.marshal, RR.wireFields, List.append_assoc]

theorem RR.length_wireFields (rr : RR) : rr.wireFields.length = 10 + rr.rdata.length := by
  simp only [RR.wireFields, List.length_append]
  rfl

variable {rr : RR}

/-- Where the fields of a record are. -/
theorem RR.fields_of_has {stop : Nat} (h : m.Has stop rr.wireFields) :
    m.wordAt stop = rr.rtype ∧ m.wordAt (stop + 2) = rr.rclass ∧ m.dwordAt (stop + 4) = rr.ttl ∧
      m.wordAt (stop + 8) = rr.rdlength ∧ m.Has (stop + 10) rr.rdata :=
  ⟨wordAt_of_has h.left.left.left.left, wordAt_of_has h.left.left.left.right,
    dwordAt_of_has h.left.left.right, wordAt_of_has h.left.right, h.right⟩

/-- **A record** is read if there is a byte after its fixed fields, however its name is written. -/
theorem unmarshalRR_fields {fuel stop : Nat} (hpos : pos ≤ stop)
    (name : (unmarshalDomainTo fuel m (m.tail pos)).Agrees (pure (stop - pos, rr.name)))
    (h : m.Has stop rr.wireFields) (hlength : rr.rdlength.toNat = rr.rdata.length)
    (haddress : addressLen rr.rtype ≤ rr.rdata.length) :
    (unmarshalRR fuel m pos).Agrees
      (if m.len ≤ stop + 10 then Read.fail "UnmarshalRR: not enough data"
      else pure (rr.decoded, stop + 10 + rr.rdata.length - pos)) := by
  have hend := h.len
  rw [RR.length_wireFields] at hend
  obtain ⟨htype, hclass, httl, hrdlength, hdata⟩ := RR.fields_of_has h
  have hbytes : (rdataAt m stop).bytes = rr.rdata := by
    rw [rdataAt, hrdlength, hlength, Slice.part_bytes (Nat.le_trans (by omega) m.len_le),
      Nat.add_sub_cancel_left, hdata.take_eq]
  have hlong : addressLen rr.rtype ≤ (rdataAt m stop).len := by
    rw [rdataAt, hrdlength, hlength, Slice.part_len (Nat.le_trans (by omega) m.len_le),
      Nat.add_sub_cancel_left]
    exact haddress
  have record : ∀ ip, recordOf m stop rr.name ip = { rr with ip := ip } := by
    intro ip
    rw [recordOf, htype, hclass, httl, hrdlength, hbytes]
  have fields := recordFields_agrees (m := m) rr.name hpos (by omega)
  rw [hrdlength, hlength, htype] at fields
  refine (Slice.sliceFrom_agrees (by omega)).bind.trans (name.bind.trans (fields.trans ?_))
  split
  · exact .refl _
  · rw [if_neg (by omega)]
    refine (unmarshalIP_agrees hlong).bind.trans ?_
    rw [hbytes, record]
    exact .refl _

theorem unmarshalRR_marshal (valid : rr.Valid) (hfuel : rr.marshal.length < fuel)
    (h : m.Has pos rr.marshal) :
    (unmarshalRR fuel m pos).Agrees (pure (rr.decoded, rr.marshal.length)) := by
  rw [RR.marshal_eq] at h hfuel ⊢
  rw [List.length_append, RR.length_wireFields] at hfuel ⊢
  have hend := h.right.len
  rw [RR.length_wireFields] at hend
  have hrdata := valid.rdata
  have name := unmarshalDomainTo_marshalDomain valid.name (Nat.lt_of_le_of_lt (by omega) hfuel)
    h.left
  rw [← Nat.add_sub_cancel_left (n := pos) (m := (marshalDomain rr.name).length)] at name
  have fields := unmarshalRR_fields (Nat.le_add_right _ _) name h.right valid.rdlength valid.address
  rw [if_neg (by omega)] at fields
  rw [show (marshalDomain rr.name).length + (10 + rr.rdata.length) =
    pos + (marshalDomain rr.name).length + 10 + rr.rdata.length - pos by omega]
  exact fields

theorem unmarshalAnswers_marshal {answers : List RR} (valid : ∀ rr ∈ answers, rr.Valid)
    (hfuel : (answers.flatMap RR.marshal).length < fuel) (done : List RR)
    (h : m.Has pos (answers.flatMap RR.marshal)) :
    (unmarshalAnswers fuel m answers.length pos done).Agrees
      (pure (done ++ answers.map RR.decoded)) := by
  induction answers generalizing pos done with
  | nil =>
    rw [List.map_nil, List.append_nil]
    exact .refl _
  | cons rr answers ih =>
    rw [List.flatMap_cons] at h hfuel
    rw [List.length_append] at hfuel
    have hrr : rr.marshal.length < fuel := by omega
    have first := unmarshalRR_marshal (valid rr List.mem_cons_self) hrr h.left
    have rest := ih (fun rr hrr => valid rr (List.mem_cons_of_mem _ hrr)) (by omega)
      (done ++ [rr.decoded]) h.right
    rw [List.append_assoc] at rest
    exact first.bind.trans rest

/-! ### Messages -/

/-- **A question** is read if at least six bytes start with it, however its name is written. -/
theorem unmarshalQuestion_fields {q : Question} {fuel stop : Nat} (hpos : pos ≤ stop)
    (name : (unmarshalDomainTo fuel m (m.tail pos)).Agrees (pure (stop - pos, q.qname)))
    (h : m.Has stop (putUint16 q.qtype ++ putUint16 q.qclass)) :
    (unmarshalQuestion fuel m (m.tail pos)).Agrees
      (if m.len < pos + 6 then Read.fail "UnmarshalQuestion: not enough data"
      else pure (q, stop + 4 - pos)) := by
  have hend : stop + 4 ≤ m.len := h.len
  have htype := wordAt_of_has h.left
  have hclass : m.wordAt (stop + 2) = q.qclass := wordAt_of_has h.right
  unfold unmarshalQuestion
  rw [Slice.tail_len]
  by_cases hshort : m.len < pos + 6
  · rw [if_pos (by omega), if_pos hshort]
    exact .refl _
  · rw [if_neg (by omega), if_neg hshort]
    refine name.bind.trans ?_
    refine (Slice.slice_uint16_agrees rfl (by rw [Slice.tail_len]; omega)).trans ?_
    refine (Slice.slice_uint16_agrees rfl (by rw [Slice.tail_len]; omega)).trans ?_
    rw [Slice.tail_wordAt, Slice.tail_wordAt, Nat.add_sub_cancel' hpos, ← Nat.add_assoc,
      Nat.add_sub_cancel' hpos, htype, hclass, show stop + 4 - pos = stop - pos + 3 + 1 by omega]
    exact .refl _

theorem unmarshalQuestion_marshal {q : Question} (valid : ValidName q.qname)
    (hfuel : q.marshal.length < fuel) (h : m.Has pos q.marshal) :
    (unmarshalQuestion fuel m (m.tail pos)).Agrees (pure (q, q.marshal.length)) := by
  have hlen : q.marshal.length = (marshalDomain q.qname).length + 4 := by
    simp only [Question.marshal, List.length_append]
    rfl
  have hend := h.len
  have hlong := length_marshalDomain valid
  rw [hlen] at hend hfuel ⊢
  have name := unmarshalDomainTo_marshalDomain valid (Nat.lt_of_le_of_lt (by omega) hfuel)
    h.left.left
  rw [← Nat.add_sub_cancel_left (n := pos) (m := (marshalDomain q.qname).length)] at name
  rw [Question.marshal, List.append_assoc] at h
  have fields := unmarshalQuestion_fields (Nat.le_add_right _ _) name h.right
  rw [if_neg (by omega), show pos + (marshalDomain q.qname).length + 4 - pos =
    (marshalDomain q.qname).length + 4 by omega] at fields
  exact fields

/-- The parts of a message, after its header. -/
theorem unmarshalMessage_parts {header : Header} (fuel : Nat) (h : m.Has 0 header.marshal) :
    (unmarshalMessage fuel m).Agrees
      (unmarshalQuestion fuel m (m.tail 12) >>= fun question =>
        unmarshalAnswers fuel m header.ancount.toNat (headerLen + question.2) [] >>= fun answers =>
          pure ⟨{ header with qdcount := 1, ancount := UInt16.ofNat answers.length }, question.1,
            answers⟩) := by
  have hid : m.wordAt 0 = header.id := wordAt_of_has h.left.left.left.left.left
  have hbits : m.wordAt 2 = header.bits := wordAt_of_has h.left.left.left.left.right
  have hcount : m.wordAt 6 = header.ancount := wordAt_of_has h.left.left.right
  have hns : m.wordAt 8 = header.nscount := wordAt_of_has h.left.right
  have har : m.wordAt 10 = header.arcount := wordAt_of_has h.right
  refine (unmarshalMessage_agrees fuel h.len).trans ?_
  unfold messageAnswers
  rw [hid, hbits, hcount, hns, har]
  exact .refl _

/-- A message that can be read back. -/
structure Message.Valid (msg : Message) : Prop where
  question : ValidName msg.question.qname
  answers : ∀ rr ∈ msg.answers, rr.Valid
  count : msg.answers.length < 65536

/-- The header `MarshalTo` writes. -/
def Message.sentHeader (msg : Message) : Header :=
  { msg.header with qdcount := 1, ancount := UInt16.ofNat msg.answers.length }

theorem headerLen_le_marshal (m : Message) : headerLen ≤ m.marshal.length := by
  rw [Message.marshal, List.length_append, List.length_append]
  show 12 ≤ 12 + _ + _
  omega

/-- Decoding the bytes of a message reads nothing out of bounds and gives the message back. -/
theorem unmarshalMessage_marshal {msg : Message} (valid : msg.Valid) (spare : List UInt8)
    (hfuel : msg.marshal.length < fuel) :
    (unmarshalMessage fuel (.ofBytes msg.marshal spare)).Agrees
      (pure ⟨msg.sentHeader, msg.question, msg.answers.map RR.decoded⟩) := by
  have h := Slice.ofBytes_has msg.marshal spare
  generalize Slice.ofBytes msg.marshal spare = m at h ⊢
  rw [Message.marshal, List.length_append, List.length_append] at hfuel
  have hanswers : msg.sentHeader.ancount.toNat = msg.answers.length :=
    Nat.mod_eq_of_lt valid.count
  have question : (unmarshalQuestion fuel m (m.tail 12)).Agrees
      (pure (msg.question, msg.question.marshal.length)) :=
    unmarshalQuestion_marshal valid.question (by omega) h.left.right
  have answers : (unmarshalAnswers fuel m msg.answers.length
      (headerLen + msg.question.marshal.length) []).Agrees (pure (msg.answers.map RR.decoded)) := by
    have hstart := h.right
    rw [List.length_append, ← Nat.add_assoc] at hstart
    exact unmarshalAnswers_marshal valid.answers (by omega) [] hstart
  have parts := @unmarshalMessage_parts m msg.sentHeader fuel h.left.left
  rw [hanswers] at parts
  refine parts.trans (question.bind.trans (answers.bind.trans ?_))
  rw [List.length_map]
  exact .refl _

/-- **Round trip.** Enough fuel gives the message back, with the counts that `MarshalTo` sets and
the addresses of its address records. -/
theorem unmarshal_marshal (msg : Message) (valid : msg.Valid) (spare : List UInt8) (fuel : Nat)
    (hfuel : msg.marshal.length < fuel) :
    (unmarshalMessage fuel (.ofBytes msg.marshal spare)).outcome =
      .ok ⟨msg.sentHeader, msg.question, msg.answers.map RR.decoded⟩ :=
  (unmarshalMessage_marshal valid spare hfuel).outcome

/-- A response with one address, and one record of another type. -/
def sampleResponse : Message where
  header := ⟨7, 0x8180, 0, 0, 0, 0⟩
  question := ⟨ascii "a.bc", qTypeA, 1⟩
  answers :=
    [⟨ascii "a.bc", qTypeA, 1, 60, 4, [192, 0, 2, 1], none⟩,
      ⟨ascii "bc", 16, 1, 70000, 1, [0], none⟩]

theorem unmarshal_marshal_sampleResponse :
    sampleResponse.Valid ∧
      (unmarshalMessage 60 (.ofBytes sampleResponse.marshal [])).outcome =
        .ok ⟨⟨7, 0x8180, 1, 2, 0, 0⟩, sampleResponse.question,
          sampleResponse.answers.map RR.decoded⟩ := by
  have valid : sampleResponse.Valid := ⟨by decide, by decide, by decide⟩
  exact ⟨valid, unmarshal_marshal sampleResponse valid [] 60 (by decide)⟩

end Glider.Dns
