/-
The DNS client, `dns/client.go`, as a machine: calls of `Exchange` and the refreshes of
expired entries wait for their upstream in any number and any order, and what an
upstream returns is any bytes. The history records where each response came from.

The cache key is made of the question of the *response*, and leaves out the class. Its
name is written with dots between the labels, and a label may have dots of its own. So
two queries ask the same when their labels on the wire, types and classes are the same.

* `client_step_sound` — a step keeps every entry of the cache to its own question, if a
  reply repeats the name and type it was asked for, the class goes with them and no
  label has a dot.
* `served_from_own_question` — so in every run of such steps, what the cache serves was
  received for that question, or installed for it.
* `poisoned_by_reply` — one reply to another question is enough to break this, and so is
  one label with a dot.
-/

import Glider.Dns.Cache
import Glider.Dns.Decode
import Glider.Go.Strconv
import Glider.Lib.Machine

namespace Glider.Dns

open Glider.Go Glider.Lib

/-! ### The client -/

/-- The part of `Config` that decides about answers and the cache. -/
structure Config where
  maxTTL : Int
  minTTL : Int
  cacheSize : Int
  noAAAA : Bool

/-- `qKey`, of the two fields it reads. -/
def keyOf (qname : GoString) (qtype : UInt16) : GoString :=
  qname ++ slash :: formatUint qtype.toNat

def qKey (q : Question) : GoString := keyOf q.qname q.qtype

/-- Types that go through the cache. -/
def IsAddress (qtype : UInt16) : Prop := qtype = qTypeA ∨ qtype = qTypeAAAA

instance (qtype : UInt16) : Decidable (IsAddress qtype) := inferInstanceAs (Decidable (_ ∨ _))

/-- `UnmarshalMessage`, with fuel for every message without a cyclic name. -/
def decode (m : Slice) : Outcome Message := (unmarshalMessage (m.len + 2) m).outcome

/-- `binary.BigEndian.PutUint16(v[:2], id)`. -/
def withID (id : UInt16) (v : List UInt8) : List UInt8 := putUint16 id ++ v.drop 2

/-- What `Exchange` has come to before it needs an upstream. -/
inductive Begun where
  | failed (e : String)
  /-- No address for a query for AAAA. -/
  | refused (response : List UInt8)
  | hit (req : Message) (response : List UInt8) (expired : Bool) (cache : LruCache)
  | upstream (req : Message) (cache : LruCache)

/-- `Exchange` up to the call of `exchange`; `none` when the decoder or the cache
panics or the decoder does not end. -/
def beginExchange (cfg : Config) (cache : LruCache) (reqBytes : Slice) (now : Int) : Option Begun :=
  match decode reqBytes with
  | .err e => some (.failed e)
  | .panic => none
  | .loop => none
  | .ok req =>
    if cfg.noAAAA ∧ req.question.qtype = qTypeAAAA then
      some (.refused (reqBytes.bytes.modify 2 (· ||| 0x80)))
    else if IsAddress req.question.qtype then do
      let (v, expired, cache) ← cache.get (qKey req.question) now
      if 2 < v.length then some (.hit req (withID req.header.id v) expired cache)
      else some (.upstream req cache)
    else some (.upstream req cache)

/-- One answer of the loop in `extractAnswer`. -/
def extractOne (acc : List Addr × Int) (answer : RR) : List Addr × Int :=
  if IsAddress answer.rtype then
    (acc.1 ++ (answer.ip.filter fun ip => !ip.isUnspecified).toList,
      if answer.ttl = 0 then acc.2 else answer.ttl.toNat)
  else acc

/-- `extractAnswer`: the addresses for the handlers, and the TTL. -/
def extractAnswer (cfg : Config) (resp : Message) : List Addr × Int :=
  resp.answers.foldl extractOne ([], cfg.minTTL)

/-- The TTL `handleAnswer` gives to the cache. -/
def clampTTL (cfg : Config) (ttl : Int) : Int :=
  let ttl := if ttl > cfg.maxTTL then cfg.maxTTL else if ttl < cfg.minTTL then cfg.minTTL else ttl
  -- a null result
  if ttl ≤ 0 then 1800 else ttl

/-- `handleAnswer`: the cache afterwards, or the error; `none` as in `beginExchange`. -/
def handleAnswer (cfg : Config) (cache : LruCache) (respBytes : Slice) (now : Int) :
    Option (Except String LruCache) :=
  match decode respBytes with
  | .err e => some (.error e)
  | .panic => none
  | .loop => none
  | .ok resp => do
    let cache ← cache.set (qKey resp.question) respBytes.bytes
      (clampTTL cfg (extractAnswer cfg resp).2) now
    some (.ok cache)

/-- `MakeResponse`; `id` is the random one of `NewMessage`. -/
def makeResponse (domain ip : GoString) (ttl : UInt32) (id : UInt16) : Except String Message :=
  match parseAddr ip with
  | .error e => .error e
  | .ok addr =>
    let (qtype, rdlen) := match addr with
      | .v4 _ => (qTypeA, (4 : UInt16))
      | .v6 _ _ => (qTypeAAAA, 16)
    .ok
      { header := ⟨id, 0x8000, 1, 0, 0, 0⟩
        question := ⟨domain, qtype, 1⟩
        answers := [⟨domain, qtype, 1, ttl, rdlen, addr.asSlice, none⟩] }

/-- `AddRecord` up to its `Set`: the message and its bytes. -/
def makeRecord (cfg : Config) (record : GoString) (id : UInt16) :
    Except String (Message × List UInt8) :=
  match cut record slash with
  | (_, _, false) => .error "wrong record format, must contain '/'"
  | (domain, ip, true) =>
    match makeResponse domain ip (UInt32.ofNat (cfg.maxTTL % 4294967296).toNat) id with
    | .error e => .error e
    | .ok m => .ok (m, m.marshal)

/-! ### Runs -/

/-- A request that waits for its upstream. -/
structure Pending where
  reqBytes : Slice
  req : Message
deriving DecidableEq, Repr

/-- What has happened to a response. -/
inductive Event where
  /-- An upstream replied to a request. -/
  | received (reqBytes : Slice) (response : List UInt8)
  /-- `AddRecord` put it into the cache. -/
  | installed (qname : GoString) (qtype : UInt16) (response : List UInt8)
  /-- `Exchange` returned it from the cache. -/
  | served (reqBytes : Slice) (id : UInt16) (response : List UInt8)
deriving DecidableEq, Repr

/-- The client, its pending requests and the events so far, latest first. -/
structure Client where
  cache : LruCache
  pending : List Pending
  history : List Event

inductive Act where
  | exchange (reqBytes : Slice) (now : Int)
  | reply (i : Nat) (respBytes : Slice) (now : Int)
  /-- No upstream answers the request. -/
  | giveUp (i : Nat)
  | addRecord (record : GoString) (id : UInt16) (now : Int)

namespace Client

/-- `Exchange` until it returns or waits. -/
def exchange (cfg : Config) (s : Client) (reqBytes : Slice) (now : Int) : Option Client :=
  match beginExchange cfg s.cache reqBytes now with
  | none => none
  | some (.failed _) => some s
  | some (.refused _) => some s
  | some (.hit req response expired cache) =>
    some
      { cache := cache
        pending := if expired then s.pending ++ [⟨reqBytes, req⟩] else s.pending
        history := .served reqBytes req.header.id response :: s.history }
  | some (.upstream req cache) =>
    some { s with cache := cache, pending := s.pending ++ [⟨reqBytes, req⟩] }

/-- What a pending request does with its reply. A refresh is always for an address. -/
def reply (cfg : Config) (s : Client) (i : Nat) (respBytes : Slice) (now : Int) :
    Option Client := do
  let p ← s.pending[i]?
  let s' :=
    { s with
      pending := s.pending.eraseIdx i
      history := .received p.reqBytes respBytes.bytes :: s.history }
  if IsAddress p.req.question.qtype then
    match ← handleAnswer cfg s.cache respBytes now with
    | .error _ => some s'
    | .ok cache => some { s' with cache := cache }
  else some s'

def addRecord (cfg : Config) (s : Client) (record : GoString) (id : UInt16) (now : Int) :
    Option Client :=
  match makeRecord cfg record id with
  | .error _ => some s
  | .ok (m, bytes) => do
    let cache ← s.cache.set (qKey m.question) bytes 0 now
    some
      { s with
        cache := cache
        history := .installed m.question.qname m.question.qtype bytes :: s.history }

/-- A new client. The records of its configuration are the first actions of a run. -/
def new (cfg : Config) : Client := ⟨LruCache.new cfg.cacheSize, [], []⟩

end Client

def clientMachine (cfg : Config) : Machine Client Act where
  step s
    | .exchange reqBytes now => s.exchange cfg reqBytes now
    | .reply i respBytes now => s.reply cfg i respBytes now
    | .giveUp i =>
      if i < s.pending.length then some { s with pending := s.pending.eraseIdx i } else none
    | .addRecord record id now => s.addRecord cfg record id now

/-! ### Provenance -/

/-- The labels of the name a query asks for. -/
def wireName (m : Slice) : List GoString := wireLabels m (m.len + 2) 12

/-- The queries ask for one name, type and class. -/
structure SameQuestion (m m' : Slice) : Prop where
  name : wireName m = wireName m'
  fields : ∃ msg msg', decode m = .ok msg ∧ decode m' = .ok msg' ∧
    msg.question.qtype = msg'.question.qtype ∧ msg.question.qclass = msg'.question.qclass

/-- The response to a query was received for the same question, or installed for its
name and type. -/
def Provenance (past : List Event) (reqBytes : Slice) (response : List UInt8) : Prop :=
  (∃ earlier, .received earlier response ∈ past ∧ SameQuestion earlier reqBytes) ∨
    ∃ req, decode reqBytes = .ok req ∧
      .installed req.question.qname req.question.qtype response ∈ past

/-- Whatever the cache served had a provenance before. -/
def Backed : List Event → Prop
  | [] => True
  | .served reqBytes id response :: past =>
    (∃ v, response = withID id v ∧ Provenance past reqBytes v) ∧ Backed past
  | _ :: past => Backed past

/-- The reply repeats name and type of the request. -/
def Repeats (request response : Question) : Prop :=
  response.qname = request.qname ∧ response.qtype = request.qtype

instance (q q' : Question) : Decidable (Repeats q q') := inferInstanceAs (Decidable (_ ∧ _))

section Sound

/-! The class is a function of name and type in all queries for addresses. -/

variable (classOf : GoString → UInt16 → UInt16)

/-- A question for an address has the class its name and type go with, and no dots
inside the labels of its name. -/
def Plain (reqBytes : Slice) (q : Question) : Prop :=
  IsAddress q.qtype → q.qclass = classOf q.qname q.qtype ∧ ∀ label ∈ wireName reqBytes, dot ∉ label

instance (reqBytes : Slice) : DecidablePred (Plain classOf reqBytes) := fun _ =>
  inferInstanceAs (Decidable (_ → _))

/-- The step asks a plain question, or replies to the question asked. -/
def Faithful (s : Client) : Act → Prop
  | .exchange reqBytes _ => (decode reqBytes).Holds fun req => Plain classOf reqBytes req.question
  | .reply i respBytes _ => ∀ p ∈ s.pending[i]?, IsAddress p.req.question.qtype →
      (decode respBytes).Holds fun resp => Repeats p.req.question resp.question
  | .giveUp _ => True
  | .addRecord _ _ _ => True

instance decidableFaithful (s : Client) : (a : Act) → Decidable (Faithful classOf s a)
  | .exchange reqBytes _ => Outcome.decidableHolds _ (decode reqBytes)
  | .reply i respBytes _ =>
    inferInstanceAs (Decidable (∀ p ∈ s.pending[i]?, IsAddress p.req.question.qtype →
      (decode respBytes).Holds fun resp => Repeats p.req.question resp.question))
  | .giveUp _ => isTrue trivial
  | .addRecord _ _ _ => isTrue trivial

/-- The message is what a plain query decodes to. -/
structure Asks (reqBytes : Slice) (req : Message) : Prop where
  decoded : decode reqBytes = .ok req
  plain : Plain classOf reqBytes req.question

/-- Every entry of the cache belongs to its key. -/
structure Sound (s : Client) : Prop where
  keyed : s.cache.Keyed
  pending : ∀ p ∈ s.pending, Asks classOf p.reqBytes p.req
  /-- The placeholders of a new cache are empty. -/
  cached : ∀ k v, s.cache.entry k = some v →
    v = [] ∨ ∃ reqBytes req, k = qKey req.question ∧ IsAddress req.question.qtype ∧
      Asks classOf reqBytes req ∧ .received reqBytes v ∈ s.history
  permanent : ∀ k v, s.cache.store.load k = some v →
    ∃ qname qtype, k = keyOf qname qtype ∧ .installed qname qtype v ∈ s.history
  backed : Backed s.history

end Sound

/-! ### What the parts do -/

section Parts

variable {cfg : Config} {cache cache' : LruCache} {now : Int}

/-- A key has one name and one type: its last slash separates them. -/
theorem keyOf_injective {qname qname' : GoString} {qtype qtype' : UInt16}
    (h : keyOf qname qtype = keyOf qname' qtype') : qname = qname' ∧ qtype = qtype' := by
  obtain ⟨hname, hpost⟩ := append_sep_inj (slash_notMem_formatUint _)
    (slash_notMem_formatUint _) h
  exact ⟨hname, UInt16.toNat_inj.mp (formatUint_injective hpost)⟩

theorem beginExchange_hit {reqBytes : Slice} {req : Message} {response : List UInt8}
    {expired : Bool} (h : beginExchange cfg cache reqBytes now =
      some (.hit req response expired cache')) :
    decode reqBytes = .ok req ∧ IsAddress req.question.qtype ∧
      ∃ v, cache.get (qKey req.question) now = some (v, expired, cache') ∧ 2 < v.length ∧
        response = withID req.header.id v := by
  unfold beginExchange at h
  split at h
  · cases h
  · cases h
  · cases h
  · rename_i req' hdecode
    split at h
    · cases h
    split at h
    · rename_i haddress
      obtain ⟨⟨v, expired', cache''⟩, hget, h⟩ := Option.bind_eq_some_iff.mp h
      dsimp only at h
      split at h <;> cases h
      exact ⟨hdecode, haddress, v, hget, ‹_›, rfl⟩
    · cases h

theorem beginExchange_upstream {reqBytes : Slice} {req : Message}
    (h : beginExchange cfg cache reqBytes now = some (.upstream req cache')) :
    decode reqBytes = .ok req ∧ cache.Relinked cache' := by
  unfold beginExchange at h
  split at h
  · cases h
  · cases h
  · cases h
  · rename_i req' hdecode
    split at h
    · cases h
    split at h
    · obtain ⟨⟨v, expired', cache''⟩, hget, h⟩ := Option.bind_eq_some_iff.mp h
      dsimp only at h
      split at h <;> cases h
      exact ⟨hdecode, (LruCache.get_spec hget).1⟩
    · cases h
      exact ⟨hdecode, .refl _⟩

/-- An answer is never stored as a permanent entry. -/
theorem clampTTL_ne_zero (cfg : Config) (ttl : Int) : clampTTL cfg ttl ≠ 0 := by
  unfold clampTTL
  dsimp only
  split <;> omega

theorem handleAnswer_ok {respBytes : Slice}
    (h : handleAnswer cfg cache respBytes now = some (.ok cache')) :
    ∃ resp ttl, decode respBytes = .ok resp ∧ ttl ≠ 0 ∧
      cache.set (qKey resp.question) respBytes.bytes ttl now = some cache' := by
  unfold handleAnswer at h
  split at h
  · cases h
  · cases h
  · cases h
  · rename_i resp hdecode
    obtain ⟨cache'', hset, h⟩ := Option.bind_eq_some_iff.mp h
    cases h
    exact ⟨resp, _, hdecode, clampTTL_ne_zero cfg _, hset⟩

end Parts

/-! ### A step -/

section Step

variable {classOf : GoString → UInt16 → UInt16} {cfg : Config} {s s' : Client}

/-- The key of a plain question is that of no other. -/
theorem Asks.sameQuestion {reqBytes reqBytes' : Slice} {req req' : Message}
    (h : Asks classOf reqBytes req) (h' : Asks classOf reqBytes' req')
    (haddress : IsAddress req.question.qtype) (hkey : qKey req.question = qKey req'.question) :
    SameQuestion reqBytes reqBytes' := by
  obtain ⟨hname, htype⟩ := keyOf_injective hkey
  obtain ⟨hclass, hdot⟩ := h.plain haddress
  obtain ⟨hclass', hdot'⟩ := h'.plain (htype ▸ haddress)
  obtain ⟨hqname, hlabels⟩ := qname_of_unmarshal h.decoded
  obtain ⟨hqname', hlabels'⟩ := qname_of_unmarshal h'.decoded
  have hlabel := eq_split_of_notMem (fun l hl => (hlabels l hl).1) hdot
  have hlabel' := eq_split_of_notMem (fun l hl => (hlabels' l hl).1) hdot'
  rw [← hqname, hname] at hlabel
  rw [← hqname'] at hlabel'
  refine ⟨hlabel.trans hlabel'.symm, req, req', h.decoded, h'.decoded, htype, ?_⟩
  rw [hclass, hclass', hname, htype]

/-- New events that serve nothing, over a cache that has not changed. -/
theorem Sound.cons (h : Sound classOf s) {e : Event} {pending : List Pending}
    (hpending : ∀ p ∈ pending, Asks classOf p.reqBytes p.req) (hbacked : Backed (e :: s.history)) :
    Sound classOf { s with pending := pending, history := e :: s.history } where
  keyed := h.keyed
  pending := hpending
  cached k v hentry := by
    rcases h.cached k v hentry with hnil | ⟨reqBytes, req, hk, haddress, asks, hmem⟩
    · exact .inl hnil
    · exact .inr ⟨reqBytes, req, hk, haddress, asks, List.mem_cons_of_mem e hmem⟩
  permanent k v hload := by
    obtain ⟨qname, qtype, hk, hmem⟩ := h.permanent k v hload
    exact ⟨qname, qtype, hk, List.mem_cons_of_mem e hmem⟩
  backed := hbacked

/-- Moving entries about changes nothing. -/
theorem Sound.relinked (h : Sound classOf s) {cache : LruCache} (hc : s.cache.Relinked cache)
    {pending : List Pending} (hpending : ∀ p ∈ pending, Asks classOf p.reqBytes p.req) :
    Sound classOf { s with cache := cache, pending := pending } where
  keyed := hc.keyed h.keyed
  pending := hpending
  cached k v hentry := h.cached k v ((hc.entry_eq k).symm.trans hentry)
  permanent k v hload := h.permanent k v (by rw [← hc.store]; exact hload)
  backed := h.backed

variable {reqBytes : Slice} {now : Int}

/-- What `Get` finds under a question's key has its provenance there. -/
theorem Sound.provenance (h : Sound classOf s) {req : Message} {v : List UInt8} {expired : Bool}
    {cache : LruCache} (asks : Asks classOf reqBytes req)
    (hget : s.cache.get (qKey req.question) now = some (v, expired, cache)) (hlen : 2 < v.length) :
    Provenance s.history reqBytes v := by
  rcases (LruCache.get_spec hget).2 with hstore | hentry | hnil
  · obtain ⟨qname, qtype, hk, hmem⟩ := h.permanent _ _ hstore
    obtain ⟨rfl, rfl⟩ := keyOf_injective hk
    exact .inr ⟨req, asks.decoded, hmem⟩
  · rcases h.cached _ _ hentry with hnil | ⟨earlier, req', hk, haddress, asked, hmem⟩
    · rw [hnil] at hlen
      cases hlen
    · exact .inl ⟨earlier, hmem, asked.sameQuestion asks haddress hk.symm⟩
  · rw [hnil] at hlen
    cases hlen

theorem asks_of_faithful {req : Message} (ok : Faithful classOf s (.exchange reqBytes now))
    (hdecode : decode reqBytes = .ok req) : Asks classOf reqBytes req := by
  rw [Faithful, hdecode] at ok
  exact ⟨hdecode, ok⟩

theorem exchange_sound (h : Sound classOf s) (ok : Faithful classOf s (.exchange reqBytes now))
    (hstep : s.exchange cfg reqBytes now = some s') : Sound classOf s' := by
  unfold Client.exchange at hstep
  split at hstep
  · cases hstep
  · cases hstep
    exact h
  · cases hstep
    exact h
  · rename_i req response expired cache hbegin
    cases hstep
    obtain ⟨hdecode, -, v, hget, hlen, rfl⟩ := beginExchange_hit hbegin
    have asks := asks_of_faithful ok hdecode
    have hpending : ∀ p ∈ (if expired then s.pending ++ [⟨reqBytes, req⟩] else s.pending),
        Asks classOf p.reqBytes p.req := by
      intro p hp
      split at hp
      · rcases List.mem_append.mp hp with hp | hp
        · exact h.pending p hp
        · cases List.mem_singleton.mp hp
          exact asks
      · exact h.pending p hp
    have served := h.cons (e := .served reqBytes req.header.id (withID req.header.id v))
      h.pending ⟨⟨v, rfl, h.provenance asks hget hlen⟩, h.backed⟩
    exact served.relinked (LruCache.get_spec hget).1 hpending
  · rename_i req cache hbegin
    cases hstep
    obtain ⟨hdecode, hc⟩ := beginExchange_upstream hbegin
    refine h.relinked hc fun p hp => ?_
    rcases List.mem_append.mp hp with hp | hp
    · exact h.pending p hp
    · cases List.mem_singleton.mp hp
      exact asks_of_faithful ok hdecode

theorem reply_sound {i : Nat} {respBytes : Slice} (h : Sound classOf s)
    (ok : Faithful classOf s (.reply i respBytes now))
    (hstep : s.reply cfg i respBytes now = some s') : Sound classOf s' := by
  obtain ⟨p, hp, hstep⟩ := Option.bind_eq_some_iff.mp hstep
  have asks := h.pending p (List.mem_of_getElem? hp)
  have remaining : ∀ p' ∈ s.pending.eraseIdx i, Asks classOf p'.reqBytes p'.req := fun p' hp' =>
    h.pending p' (List.mem_of_mem_eraseIdx hp')
  have received := h.cons (e := .received p.reqBytes respBytes.bytes) remaining h.backed
  dsimp only at hstep
  split at hstep
  swap
  · cases hstep
    exact received
  rename_i haddress
  obtain ⟨result, hhandle, hstep⟩ := Option.bind_eq_some_iff.mp hstep
  split at hstep
  · cases hstep
    exact received
  · rename_i cache
    cases hstep
    obtain ⟨resp, ttl, hdecode, httl, hset⟩ := handleAnswer_ok hhandle
    have hrepeats : Repeats p.req.question resp.question := by
      have := ok p hp haddress
      rw [hdecode] at this
      exact this
    have hkey : qKey resp.question = qKey p.req.question := by
      rw [qKey, hrepeats.1, hrepeats.2, qKey]
    have grows := LruCache.set_grows h.keyed httl hset
    refine ⟨grows.keyed, received.pending, fun k v hentry => ?_, fun k v hload => ?_,
      received.backed⟩
    · rcases grows.entry k v hentry with hold | ⟨rfl, rfl⟩
      · exact received.cached k v hold
      · exact .inr ⟨p.reqBytes, p.req, hkey, haddress, asks, List.mem_cons_self⟩
    · exact received.permanent k v (by rw [← grows.store]; exact hload)

theorem addRecord_sound {record : GoString} {id : UInt16} (h : Sound classOf s)
    (hstep : s.addRecord cfg record id now = some s') : Sound classOf s' := by
  unfold Client.addRecord at hstep
  split at hstep
  · cases hstep
    exact h
  · rename_i m bytes _
    obtain ⟨cache, hset, hstep⟩ := Option.bind_eq_some_iff.mp hstep
    cases hstep
    have installed := h.cons (e := .installed m.question.qname m.question.qtype bytes) h.pending
      h.backed
    cases LruCache.set_permanent hset
    refine ⟨h.keyed, h.pending, installed.cached, fun k v hload => ?_, h.backed⟩
    rw [SyncMap.load_store] at hload
    split at hload
    · rename_i hk
      cases hload
      exact ⟨_, _, hk, List.mem_cons_self⟩
    · exact installed.permanent k v hload

/-- **One step** keeps every entry to its own question. -/
theorem client_step_sound (s : Client) (a : Act) (s' : Client) (h : Sound classOf s)
    (ok : Faithful classOf s a) (hstep : (clientMachine cfg).step s a = some s') :
    Sound classOf s' := by
  cases a with
  | exchange reqBytes now => exact exchange_sound h ok hstep
  | reply i respBytes now => exact reply_sound h ok hstep
  | giveUp i =>
    simp only [clientMachine] at hstep
    split at hstep <;> cases hstep
    exact h.relinked (.refl _) fun p hp => h.pending p (List.mem_of_mem_eraseIdx hp)
  | addRecord record id now => exact addRecord_sound h hstep

theorem new_sound (cfg : Config) : Sound classOf (Client.new cfg) where
  keyed := LruCache.new_keyed cfg.cacheSize
  pending _ hp := nomatch hp
  cached _ _ hentry := .inl (LruCache.new_entry hentry)
  permanent _ _ hload := nomatch hload
  backed := trivial

end Step

/-! ### Runs of the client -/

/-- **No cross-question answers.** In a run where every reply repeats the name and type
it was asked for, the class goes with name and type and no label has a dot, whatever the
cache serves was received for that question before, or installed for its name and type. -/
theorem served_from_own_question (cfg : Config) (classOf : GoString → UInt16 → UInt16)
    {acts : List Act} {s : Client}
    (hrun : (clientMachine cfg).run (Client.new cfg) acts = some s)
    (faithful : (clientMachine cfg).Guarded (Faithful classOf) (Client.new cfg) acts) :
    Backed s.history :=
  ((clientMachine cfg).guarded_invariant client_step_sound hrun faithful (new_sound cfg)).backed

/-- The configuration of the runs below. -/
def plainConfig : Config := { maxTTL := 1800, minTTL := 0, cacheSize := 4096, noAAAA := false }

/-- A query for the address of a one-letter name in a one-letter zone. -/
def queryFor (name zone : UInt8) (qclass : UInt8) : Slice :=
  .ofBytes [0, 7, 1, 0, 0, 1, 0, 0, 0, 0, 0, 0, 1, name, 1, zone, 0, 0, 1, 0, qclass] []

/-- A response to it with one address, valid for a minute. -/
def answerFor (name zone : UInt8) : Slice :=
  .ofBytes
    [0, 7, 0x81, 0x80, 0, 1, 0, 1, 0, 0, 0, 0, 1, name, 1, zone, 0, 0, 1, 0, 1,
      0xC0, 12, 0, 1, 0, 1, 0, 0, 0, 60, 0, 4, 192, 0, 2, 1] []

/-- A query, its answer, and the same query again. -/
def askTwice : List Act :=
  [.exchange (queryFor 97 98 1) 0, .reply 0 (answerFor 97 98) 1, .exchange (queryFor 97 98 1) 2]

theorem served_from_own_question_askTwice :
    ∃ s, (clientMachine plainConfig).run (Client.new plainConfig) askTwice = some s ∧
      s.history.length = 2 ∧ Backed s.history := by
  have hhistory : ((clientMachine plainConfig).run (Client.new plainConfig) askTwice).map
      (·.history.length) = some 2 := by decide
  obtain ⟨s, hrun, hlen⟩ := Option.map_eq_some_iff.mp hhistory
  exact ⟨s, hrun, hlen, served_from_own_question plainConfig (fun _ _ => 1) hrun (by decide)⟩

/-- What was received for one name and served for another has no provenance. -/
theorem not_backed_of_history {acts : List Act} (reqBytes earlier response : Slice)
    (hrun : ((clientMachine plainConfig).run (Client.new plainConfig) acts).map (·.history) =
      some [.served reqBytes 7 response.bytes, .received earlier response.bytes])
    (hne : wireName earlier ≠ wireName reqBytes) :
    ∃ s, (clientMachine plainConfig).run (Client.new plainConfig) acts = some s ∧
      ¬ Backed s.history := by
  obtain ⟨s, hrun, hlist⟩ := Option.map_eq_some_iff.mp hrun
  refine ⟨s, hrun, ?_⟩
  rw [hlist]
  rintro ⟨⟨_, -, ⟨request, hreceived, same⟩ | ⟨_, -, hinstalled⟩⟩, -⟩
  · cases List.mem_singleton.mp hreceived
    exact hne same.name
  · cases List.mem_singleton.mp hinstalled

/-- The upstream answers a query for `a.b` with a response about `c.d`, and a query for
`c.d` follows. -/
def poison : List Act :=
  [.exchange (queryFor 97 98 1) 0, .reply 0 (answerFor 99 100) 1, .exchange (queryFor 99 100 1) 2]

/-- A query for one label that is written as `a.b`. -/
def dottedQuery : Slice :=
  .ofBytes [0, 7, 1, 0, 0, 1, 0, 0, 0, 0, 0, 0, 3, 97, 46, 98, 0, 0, 1, 0, 1] []

/-- A response to it, with the name and type it was asked for. -/
def dottedAnswer : Slice :=
  .ofBytes
    [0, 7, 0x81, 0x80, 0, 1, 0, 1, 0, 0, 0, 0, 3, 97, 46, 98, 0, 0, 1, 0, 1,
      0xC0, 12, 0, 1, 0, 1, 0, 0, 0, 60, 0, 4, 192, 0, 2, 1] []

/-- The one label is asked for, and then the two labels `a` and `b`. -/
def confusion : List Act :=
  [.exchange dottedQuery 0, .reply 0 dottedAnswer 1, .exchange (queryFor 97 98 1) 2]

/-- The second query is served the response to the first. In the second run the reply
repeats its question. -/
theorem poisoned_by_reply :
    (∃ s, (clientMachine plainConfig).run (Client.new plainConfig) poison = some s ∧
      ¬ Backed s.history) ∧
    ∃ s, (clientMachine plainConfig).run (Client.new plainConfig) confusion = some s ∧
      ¬ Backed s.history := by
  constructor
  · exact not_backed_of_history (queryFor 99 100 1) (queryFor 97 98 1) (answerFor 99 100)
      (by decide) (by decide)
  · exact not_backed_of_history (queryFor 97 98 1) dottedQuery dottedAnswer (by decide) (by decide)

end Glider.Dns
