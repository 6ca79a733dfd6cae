/-
Custom records of the DNS client: `AddRecord` makes a response, encodes it and puts it into the
cache for ever, under the name as it is spelled in the record.

DNS compares names without regard to letter case, and takes no notice of a trailing dot. The key of
the cache does not, the response is of class IN whatever the query asks for, and the encoder
writes a name with an empty label as it is.

* `traffic_store` — nothing that happens later touches the permanent values.
* `serves_of_installed` — so a query for the name as it is spelled gets the response.
* `no_empty_label` — for a name with an empty label, the response is about another name.
* `record_served_iff` — a record is served exactly to the queries spelled like it, of class IN, if
  its name has no empty label.
* `record_case_sensitive` — a query in lower case misses a record in upper case.
-/

import Glider.Dns.Client
import Glider.Dns.Encode
import Glider.Go.Binary

namespace Glider.Dns

open Glider.Go Glider.Lib

/-! ### Names up to case and a trailing dot -/

/-- A letter in lower case, any other byte as it is. -/
def lowerByte (b : UInt8) : UInt8 := if 65 ≤ b ∧ b ≤ 90 then b + 32 else b

/-- The same name, for DNS: letter case and a trailing dot make no difference. -/
def SameName (name name' : GoString) : Prop :=
  (trimSuffix name [dot]).map lowerByte = (trimSuffix name' [dot]).map lowerByte

instance (name name' : GoString) : Decidable (SameName name name') :=
  inferInstanceAs (Decidable (_ = _))

/-! ### What a record is -/

/-- The type of the query an address answers. -/
def typeOf : Addr → UInt16
  | .v4 _ => qTypeA
  | .v6 _ _ => qTypeAAAA

/-- The address without its zone, which has no place in a message. -/
def unzoned : Addr → Addr
  | .v4 bits => .v4 bits
  | .v6 bits _ => .v6 bits []

/-- The response made for a record. -/
def recordMessage (cfg : Config) (domain : GoString) (addr : Addr) (id : UInt16) : Message where
  header := ⟨id, 0x8000, 1, 0, 0, 0⟩
  question := ⟨domain, typeOf addr, 1⟩
  answers :=
    [⟨domain, typeOf addr, 1, UInt32.ofNat (cfg.maxTTL % 4294967296).toNat,
      UInt16.ofNat addr.asSlice.length, addr.asSlice, none⟩]

variable {cfg : Config} {record domain ip : GoString} {addr : Addr} {id : UInt16}

theorem makeRecord_eq (hcut : cut record slash = (domain, ip, true))
    (haddr : parseAddr ip = .ok addr) :
    makeRecord cfg record id =
      .ok (recordMessage cfg domain addr id, (recordMessage cfg domain addr id).marshal) := by
  rw [makeRecord, hcut]
  dsimp only
  rw [makeResponse, haddr]
  cases addr with
  | v4 bits => rfl
  | v6 bits zone => rfl

theorem withID_marshal (m : Message) (id : UInt16) :
    withID id m.marshal = { m with header := { m.header with id := id } }.marshal := rfl

/-- The data of a record is as long as its type says. -/
theorem length_asSlice_eq (addr : Addr) : addr.asSlice.length = addressLen (typeOf addr) := by
  cases addr with
  | v4 bits => exact length_bigEndianBytes 4 bits.toNat
  | v6 bits zone => exact length_bigEndianBytes 16 bits.toNat

theorem addressLen_typeOf (addr : Addr) :
    0 < addressLen (typeOf addr) ∧ addressLen (typeOf addr) < 65536 := by
  cases addr with
  | v4 bits => exact ⟨by show 0 < 4; decide, by show 4 < 65536; decide⟩
  | v6 bits zone => exact ⟨by show 0 < 16; decide, by show 16 < 65536; decide⟩

theorem recordMessage_valid (valid : ValidName domain) :
    (recordMessage cfg domain addr id).Valid := by
  obtain ⟨hpos, hlt⟩ := addressLen_typeOf addr
  have hlen := length_asSlice_eq addr
  refine ⟨valid, fun rr hrr => ?_, Nat.lt_of_le_of_lt (Nat.le_refl 1) (by decide)⟩
  cases List.mem_singleton.mp hrr
  refine ⟨valid, ?_, ?_, ?_⟩
  · exact Nat.mod_eq_of_lt (hlen ▸ hlt)
  · dsimp only
    omega
  · exact Nat.le_of_eq hlen.symm

/-- The decoder finds the address of the record. -/
theorem addressOf_asSlice (addr : Addr) :
    addressOf (typeOf addr) addr.asSlice = some (unzoned addr) := by
  cases addr with
  | v4 bits =>
    have hbits : BitVec.ofNat 32 (bigEndian ((bigEndianBytes 4 bits.toNat).take 4)) = bits := by
      rw [List.take_of_length_le (Nat.le_of_eq (length_bigEndianBytes 4 _)),
        bigEndian_bigEndianBytes, Nat.mod_eq_of_lt (show bits.toNat < 256 ^ 4 from bits.isLt),
        BitVec.ofNat_toNat, BitVec.setWidth_eq]
    exact congrArg (fun bits => some (Addr.v4 bits)) hbits
  | v6 bits zone =>
    have hbits : BitVec.ofNat 128 (bigEndian ((bigEndianBytes 16 bits.toNat).take 16)) = bits := by
      rw [List.take_of_length_le (Nat.le_of_eq (length_bigEndianBytes 16 _)),
        bigEndian_bigEndianBytes, Nat.mod_eq_of_lt (show bits.toNat < 256 ^ 16 from bits.isLt),
        BitVec.ofNat_toNat, BitVec.setWidth_eq]
    exact congrArg (fun bits => some (Addr.v6 bits [])) hbits

/-! ### What is served -/

/-- `Exchange` returns a response from the cache, asking no upstream, and it decodes to the ID and
the question of the query and one answer with the address. -/
def Serves (cfg : Config) (s : Client) (query : Slice) (req : Message) (addr : Addr) (now : Int) :
    Prop :=
  ∃ response cache, beginExchange cfg s.cache query now = some (.hit req response false cache) ∧
    ∀ spare, ∃ resp answer, decode (.ofBytes response spare) = .ok resp ∧
      resp.header.id = req.header.id ∧ resp.question = req.question ∧ resp.answers = [answer] ∧
      answer.rdata = addr.asSlice ∧ answer.ip = some (unzoned addr)

/-- The permanent value of the record under its key. -/
def Installed (cfg : Config) (domain : GoString) (addr : Addr) (id : UInt16) (s : Client) : Prop :=
  s.cache.store.load (keyOf domain (typeOf addr)) = some (recordMessage cfg domain addr id).marshal

/-- Any action but the installation of another record. -/
def Traffic : Act → Prop
  | .addRecord _ _ _ => False
  | _ => True

instance : DecidablePred Traffic
  | .exchange _ _ => isTrue trivial
  | .reply _ _ _ => isTrue trivial
  | .giveUp _ => isTrue trivial
  | .addRecord _ _ _ => isFalse fun h => h

theorem addRecord_installed {s s' : Client} {now : Int}
    (hcut : cut record slash = (domain, ip, true)) (haddr : parseAddr ip = .ok addr)
    (h : s.addRecord cfg record id now = some s') : Installed cfg domain addr id s' := by
  rw [Client.addRecord, makeRecord_eq hcut haddr] at h
  obtain ⟨cache, hset, h⟩ := Option.bind_eq_some_iff.mp h
  cases h
  cases LruCache.set_permanent hset
  exact (SyncMap.load_store ..).trans (if_pos rfl)

/-- Traffic leaves the permanent values alone. -/
theorem traffic_store {s s' : Client} {a : Act} (ha : Traffic a)
    (h : (clientMachine cfg).step s a = some s') : s'.cache.store = s.cache.store := by
  cases a with
  | exchange reqBytes now =>
    simp only [clientMachine, Client.exchange] at h
    split at h
    · cases h
    · cases h
      rfl
    · cases h
      rfl
    · rename_i hbegin
      cases h
      obtain ⟨-, -, v, hget, -⟩ := beginExchange_hit hbegin
      exact (LruCache.get_spec hget).1.store
    · rename_i hbegin
      cases h
      exact (beginExchange_upstream hbegin).2.store
  | reply i respBytes now =>
    obtain ⟨p, -, h⟩ := Option.bind_eq_some_iff.mp h
    dsimp only at h
    split at h
    · obtain ⟨result, hhandle, h⟩ := Option.bind_eq_some_iff.mp h
      split at h
      · cases h
        rfl
      · cases h
        obtain ⟨resp, ttl, -, httl, hset⟩ := handleAnswer_ok hhandle
        exact LruCache.set_store httl hset
    · cases h
      rfl
  | giveUp i =>
    simp only [clientMachine] at h
    split at h <;> cases h
    rfl
  | addRecord record id now => cases ha

theorem run_installed {s s' : Client} {acts : List Act} (htraffic : ∀ a ∈ acts, Traffic a)
    (hrun : (clientMachine cfg).run s acts = some s') (h : Installed cfg domain addr id s) :
    Installed cfg domain addr id s' := by
  induction acts generalizing s with
  | nil =>
    cases hrun
    exact h
  | cons a acts ih =>
    obtain ⟨s₁, hstep, hrest⟩ := Machine.run_cons_eq_some _ hrun
    refine ih (fun a ha => htraffic a (List.mem_cons_of_mem _ ha)) hrest ?_
    rw [Installed, traffic_store (htraffic a List.mem_cons_self) hstep]
    exact h

/-- The response to a query, with a valid name. -/
theorem decode_record (valid : ValidName domain) (reqId : UInt16) (spare : List UInt8) :
    ∃ resp answer,
      decode (.ofBytes (withID reqId (recordMessage cfg domain addr id).marshal) spare) = .ok resp ∧
      resp.header.id = reqId ∧ resp.question = ⟨domain, typeOf addr, 1⟩ ∧
      resp.answers = [answer] ∧ answer.rdata = addr.asSlice ∧ answer.ip = some (unzoned addr) := by
  have hmsg : (recordMessage cfg domain addr reqId).Valid := recordMessage_valid valid
  have hdecode := unmarshalMessage_marshal hmsg spare (Nat.lt_add_of_pos_right Nat.two_pos)
  refine ⟨_, _, hdecode.outcome, rfl, rfl, rfl, rfl, ?_⟩
  exact addressOf_asSlice addr

/-- The record answers queries for its name, spelled as in the record, and of class IN. -/
theorem serves_of_installed {s : Client} {query : Slice} {req : Message} {now : Int}
    (hcfg : cfg.noAAAA = false) (hquery : decode query = .ok req)
    (h : Installed cfg domain addr id s) (hquestion : req.question = ⟨domain, typeOf addr, 1⟩)
    (valid : ValidName domain) : Serves cfg s query req addr now := by
  have haddress : IsAddress (typeOf addr) := by
    cases addr with
    | v4 bits => exact .inl rfl
    | v6 bits zone => exact .inr rfl
  have hget : s.cache.get (qKey req.question) now =
      some ((recordMessage cfg domain addr id).marshal, false, s.cache) := by
    have hkey : qKey ⟨domain, typeOf addr, 1⟩ = keyOf domain (typeOf addr) := rfl
    rw [LruCache.get, hquestion, hkey, h]
  refine ⟨withID req.header.id (recordMessage cfg domain addr id).marshal, s.cache, ?_,
    fun spare => ?_⟩
  · rw [beginExchange, hquery]
    dsimp only
    rw [if_neg (by rw [hcfg]; simp), if_pos (by rw [hquestion]; exact haddress), hget,
      Option.bind_eq_bind, Option.bind_some]
    exact if_pos (Nat.lt_of_lt_of_le (by decide) (headerLen_le_marshal _))
  · rw [hquestion]
    exact decode_record valid req.header.id spare

/-! ### What is not served -/

section Question

variable {m : Slice} {fuel : Nat} {resp : Message}

/-- The pieces of a decoded name are short, being pieces of its labels. -/
theorem split_length_le (h : (unmarshalMessage fuel m).outcome = .ok resp) :
    ∀ piece ∈ split resp.question.qname dot, piece.length ≤ 63 := by
  obtain ⟨hqname, hlabels⟩ := qname_of_unmarshal h
  rw [hqname]
  cases hwire : wireLabels m fuel 12 with
  | nil =>
    intro piece hpiece
    cases List.mem_singleton.mp hpiece
    exact Nat.zero_le _
  | cons label labels =>
    rw [hwire] at hlabels
    rw [List.foldl_cons, show addLabel [] label = label from rfl,
      split_foldl_addLabel (hlabels label List.mem_cons_self).1]
    intro piece hpiece
    obtain ⟨l, hl, hpiece⟩ := List.mem_flatMap.mp hpiece
    exact Nat.le_trans (length_le_of_mem_split hpiece) (hlabels l hl).2

/-- The decoder takes the first empty label of a name for its end. -/
theorem question_of_empty_label {labels rest : List GoString} {tail : List UInt8}
    (hsplit : split domain dot = labels ++ [] :: rest)
    (valid : ∀ label ∈ labels, ValidLabel label)
    (hhas : m.Has 12 (marshalDomain domain ++ tail)) (hfuel : m.len < fuel)
    (h : (unmarshalMessage fuel m).outcome = .ok resp) :
    resp.question.qname = labels.foldl addLabel [] ∧
      resp.question.qtype = m.wordAt (12 + (encodeLabels labels).length) := by
  have hbytes : marshalDomain domain = encodeLabels labels ++ encodeLabels rest := by
    rw [show marshalDomain domain = encodeLabels (split domain dot) from rfl, hsplit]
    simp [encodeLabels]
  rw [hbytes, List.append_assoc] at hhas
  have hend := hhas.left.len
  have hlabels := length_lt_encodeLabels labels
  have hloop : (domainLoop m fuel (m.tail 12) 0 []).Agrees _ :=
    domainLoop_encodeLabels valid (by omega) [] hhas.left
  obtain ⟨n, hname, htype, -⟩ := question_of_unmarshal h
  rw [unmarshalDomainTo, hloop.outcome, Read.pure_outcome, Outcome.ok.injEq, Prod.mk.injEq,
    Nat.zero_add] at hname
  exact ⟨hname.2.symm, hname.1 ▸ htype⟩

/-- The types are one byte long, and not zero. -/
theorem typeOf_byte (addr : Addr) : typeOf addr ≠ 0 ∧ (typeOf addr >>> 8).toUInt8 = 0 := by
  cases addr with
  | v4 bits => exact (by decide : qTypeA ≠ 0 ∧ (qTypeA >>> 8).toUInt8 = 0)
  | v6 bits zone => exact (by decide : qTypeAAAA ≠ 0 ∧ (qTypeAAAA >>> 8).toUInt8 = 0)

/-- So the response for a name with an empty label is not about that name. -/
theorem no_empty_label {reqId : UInt16}
    (h : decode (.ofBytes (withID reqId (recordMessage cfg domain addr id).marshal) []) = .ok resp)
    (hname : resp.question.qname = domain) (htype : resp.question.qtype = typeOf addr)
    (hshort : ∀ piece ∈ split domain dot, piece.length ≤ 63) : [] ∉ split domain dot := by
  intro hempty
  obtain ⟨labels, rest, hsplit, hlabels⟩ := List.eq_append_cons_of_mem hempty
  have valid : ∀ label ∈ labels, ValidLabel label := fun label hlabel =>
    ⟨List.length_pos_of_ne_nil fun heq => hlabels (heq ▸ hlabel),
      hshort label (by rw [hsplit]; exact List.mem_append_left _ hlabel)⟩
  rw [withID_marshal] at h
  have hhas : (Slice.ofBytes (recordMessage cfg domain addr reqId).marshal []).Has 12
      (marshalDomain domain ++ putUint16 (typeOf addr)) :=
    (Slice.ofBytes_has (recordMessage cfg domain addr reqId).marshal []).left.right.left
  obtain ⟨hqname, hqtype⟩ := question_of_empty_label hsplit valid hhas
    (Nat.lt_add_of_pos_right Nat.two_pos) h
  rw [hname] at hqname
  rw [htype] at hqtype
  obtain ⟨piece, pieces, hpieces, hdomain⟩ := split_eq domain dot
  rw [hsplit] at hpieces
  cases labels with
  | nil =>
    -- the name is empty, and the type is read one byte early
    generalize Slice.ofBytes (recordMessage cfg domain addr reqId).marshal [] = m at hhas hqtype
    rw [hqname] at hhas
    have hlow : m.byteAt 14 = (typeOf addr >>> 8).toUInt8 := hhas.next.next.byteAt_eq
    have hhigh : m.byteAt 13 = 0 := hhas.next.byteAt_eq
    obtain ⟨hne, hbyte⟩ := typeOf_byte addr
    refine hne (hqtype.trans ?_)
    show m.wordAt 13 = 0
    rw [Slice.wordAt, hlow, hhigh, hbyte]
    rfl
  | cons label labels =>
    -- the name is longer than what the decoder makes of it
    rw [List.cons_append] at hpieces
    obtain ⟨rfl, rfl⟩ := List.cons.inj hpieces
    have hlabel : label ≠ [] := fun heq => hlabels (heq ▸ List.mem_cons_self)
    rw [List.foldl_cons, show addLabel [] label = label from rfl, foldl_addLabel hlabel] at hqname
    have hlength := congrArg List.length (hqname.symm.trans hdomain)
    rw [List.flatMap_append, List.flatMap_cons] at hlength
    simp only [List.length_append, List.length_cons] at hlength
    omega

end Question

/-! ### Records are served as they are spelled -/

/-- A client on which only the record has been installed. -/
def onlyRecord (cfg : Config) (domain : GoString) (addr : Addr) : Client where
  cache :=
    { LruCache.new cfg.cacheSize with
      store :=
        SyncMap.store ∅ (keyOf domain (typeOf addr)) (recordMessage cfg domain addr 0).marshal }
  pending := []
  history := [.installed domain (typeOf addr) (recordMessage cfg domain addr 0).marshal]

/-- What such a client serves comes from the record. -/
theorem onlyRecord_serves {query : Slice} {req : Message} {now : Int}
    (h : Serves cfg (onlyRecord cfg domain addr) query req addr now) :
    req.question.qname = domain ∧
      ∃ resp, resp.question = req.question ∧
        decode (.ofBytes (withID req.header.id (recordMessage cfg domain addr 0).marshal) []) =
          .ok resp := by
  obtain ⟨response, cache, hbegin, hdecode⟩ := h
  obtain ⟨-, -, v, hget, hlen, rfl⟩ := beginExchange_hit hbegin
  obtain ⟨-, hstore | hentry | rfl⟩ := LruCache.get_spec hget
  · rw [onlyRecord, SyncMap.load_store] at hstore
    split at hstore <;> cases hstore
    rename_i hkey
    obtain ⟨resp, answer, hresp, -, hquestion, -⟩ := hdecode []
    exact ⟨(keyOf_injective hkey).1, resp, hquestion, hresp⟩
  · -- the placeholders of a new cache are empty
    have hnil : v = [] := @LruCache.new_entry _ _ cfg.cacheSize hentry
    rw [hnil] at hlen
    cases hlen
  · cases hlen

/-- **Custom records.** Whatever happened before and whatever traffic comes later, a query for the
name of a record is served from it exactly if it spells the name like the record, asks for class IN,
and no label of the name is empty. -/
theorem record_served_iff (cfg : Config) (hcfg : cfg.noAAAA = false)
    (record domain ip : GoString) (addr : Addr) (hcut : cut record slash = (domain, ip, true))
    (haddr : parseAddr ip = .ok addr) (query : Slice) (req : Message)
    (hquery : decode query = .ok req) (htype : req.question.qtype = typeOf addr)
    (hname : SameName req.question.qname domain) :
    (∀ (before after : List Act) (s₁ s₂ s₃ : Client) (id : UInt16) (now now' : Int),
      (clientMachine cfg).run (Client.new cfg) before = some s₁ →
      s₁.addRecord cfg record id now = some s₂ → (∀ a ∈ after, Traffic a) →
      (clientMachine cfg).run s₂ after = some s₃ → Serves cfg s₃ query req addr now') ↔
    req.question.qname = domain ∧ req.question.qclass = 1 ∧ [] ∉ split domain dot := by
  have hshort := split_length_le hquery
  have hvalid : [] ∉ split req.question.qname dot → ValidName req.question.qname :=
    fun hempty label hlabel =>
      ⟨List.length_pos_of_ne_nil fun heq => hempty (heq ▸ hlabel), hshort label hlabel⟩
  constructor
  · intro hserves
    have honly : (Client.new cfg).addRecord cfg record 0 0 = some (onlyRecord cfg domain addr) := by
      rw [Client.addRecord, makeRecord_eq hcut haddr]
      rfl
    obtain ⟨rfl, resp, hquestion, hresp⟩ := onlyRecord_serves
      (hserves [] [] _ _ _ 0 0 0 rfl honly (fun a ha => by cases ha) rfl)
    have hempty := no_empty_label hresp (congrArg Question.qname hquestion)
      ((congrArg Question.qtype hquestion).trans htype) hshort
    obtain ⟨resp', -, hresp', -, hquestion', -⟩ := decode_record (hvalid hempty) req.header.id []
    cases hresp.symm.trans hresp'
    refine ⟨rfl, ?_, hempty⟩
    rw [← hquestion, hquestion']
  · rintro ⟨rfl, hclass, hempty⟩ before after s₁ s₂ s₃ id now now' - hadd htraffic hafter
    have installed := run_installed htraffic hafter (addRecord_installed hcut haddr hadd)
    refine serves_of_installed hcfg hquery installed ?_ (hvalid hempty)
    rw [← htype, ← hclass]

/-- `192.0.2.1`. -/
def exampleAddr : Addr := .v4 0xC0000201#32

theorem record_served_ab :
    decode (queryFor 97 98 1) = .ok ⟨⟨7, 0x100, 1, 0, 0, 0⟩, ⟨ascii "a.b", qTypeA, 1⟩, []⟩ ∧
      Serves plainConfig (onlyRecord plainConfig (ascii "a.b") exampleAddr) (queryFor 97 98 1)
        ⟨⟨7, 0x100, 1, 0, 0, 0⟩, ⟨ascii "a.b", qTypeA, 1⟩, []⟩ exampleAddr 0 := by
  have hquery : decode (queryFor 97 98 1) =
      .ok ⟨⟨7, 0x100, 1, 0, 0, 0⟩, ⟨ascii "a.b", qTypeA, 1⟩, []⟩ := by decide
  refine ⟨hquery, ?_⟩
  exact (record_served_iff plainConfig rfl (ascii "a.b/192.0.2.1") (ascii "a.b") (ascii "192.0.2.1")
    exampleAddr (by decide) (by decide) (queryFor 97 98 1) _ hquery rfl (by decide)).mpr
    ⟨rfl, rfl, by decide⟩ [] [] _ _ _ 0 0 0 rfl rfl (fun a ha => by cases ha) rfl

/-- The record `A.b/192.0.2.1` is there, and the query for `a.b` goes to an upstream. -/
theorem record_case_sensitive :
    ∃ s req, (Client.new plainConfig).addRecord plainConfig (ascii "A.b/192.0.2.1") 0 0 = some s ∧
      decode (queryFor 97 98 1) = .ok req ∧ req.question.qtype = qTypeA ∧ req.question.qclass = 1 ∧
      SameName req.question.qname (ascii "A.b") ∧
      ¬ Serves plainConfig s (queryFor 97 98 1) req exampleAddr 0 := by
  refine ⟨onlyRecord plainConfig (ascii "A.b") exampleAddr,
    ⟨⟨7, 0x100, 1, 0, 0, 0⟩, ⟨ascii "a.b", qTypeA, 1⟩, []⟩, rfl, by decide, rfl, rfl, by decide, ?_⟩
  intro h
  exact absurd (onlyRecord_serves h).1 (by decide)

end Glider.Dns
