/-
The upstream servers of the DNS client (`dns/upstream.go`) and the loop over them in
`Client.exchange`, at the granularity of the atomic operations on the shared index.

`SwitchIf` loads the index to see whether it still names the server that has failed, and then adds
one to it. A call that is between the two when another one switches adds one to an index that names
the next server already, and skips that one.

* `step_asserts` — a call tries later and later places, and if it returns an error the index has
  gone once round the servers.
* `run_current` — it does not, if every switch is made while the index names the failed server.
* `run_alone` — so it does not, if calls do not overlap.
* `exists_error` — two calls are enough to get past the healthy server, unless it is the first.
* `exchange_answers_iff` — when every call gets a response.
-/

import Mathlib.Data.List.Nodup
import Glider.Lib.Concurrent
import Glider.Go.HostPort

namespace Glider.Dns

open Glider.Go Glider.Lib

/-! ### Upstreams -/

structure UPStream where
  index : UInt32
  servers : List GoString
deriving DecidableEq, Repr

/-- The default port for servers. -/
def withPort (server : GoString) : GoString :=
  match splitHostPort server with
  | .ok (_, port) => if port = [] then joinHostPort server (ascii "53") else server
  | .error _ => joinHostPort server (ascii "53")

def newUPStream (servers : List GoString) : UPStream := ⟨0, servers.map withPort⟩

/-- `Server`: one load of the index. `none` is the panic without servers. -/
def UPStream.server (u : UPStream) : Option GoString :=
  u.servers[(u.index % UInt32.ofNat u.servers.length).toNat]?

/-- The `AddUint32` of `Switch`. -/
def UPStream.add (u : UPStream) : UPStream := { u with index := u.index + 1 }

/-! ### `Client.exchange` -/

/-- What can go wrong in one attempt. -/
inductive AttemptError where
  | dial
  | exchange
deriving DecidableEq, Repr

/-- What comes of dialing a server and of exchanging a query with it. -/
abbrev Network := GoString → List UInt8 → Except AttemptError (List UInt8)

/-- A call of `exchange`, by what it does next. The loop has `left` attempts left, the current one
included. -/
inductive ExchangeCall where
  /-- The first load of the index. -/
  | start (query : List UInt8)
  | attempt (query : List UInt8) (server : GoString) (left : Nat)
  /-- `SwitchIf` after a failure: the load of the index that is compared. -/
  | compare (query : List UInt8) (server : GoString) (left : Nat) (err : AttemptError)
  /-- The index is the same: the increment of `Switch`. -/
  | switch (query : List UInt8) (server : GoString) (left : Nat) (err : AttemptError)
  /-- The index is another one: its second load. -/
  | reload (query : List UInt8) (server : GoString) (left : Nat) (err : AttemptError)
  | returned (server : GoString) (result : Except AttemptError (List UInt8))

namespace ExchangeCall

/-- The end of an iteration that has failed, with `left` attempts left before it. -/
def next (query : List UInt8) (newServer : GoString) (left : Nat) (err : AttemptError) :
    ExchangeCall :=
  if left - 1 = 0 then .returned newServer (.error err) else .attempt query newServer (left - 1)

def step (net : Network) (u : UPStream) : ExchangeCall → Option (UPStream × ExchangeCall)
  | start query => do
    let server ← u.server
    return (u, .attempt query server u.servers.length)
  | attempt query server left =>
    match net server query with
    | .ok response => some (u, .returned server (.ok response))
    | .error err => some (u, .compare query server left err)
  | compare query server left err => do
    let current ← u.server
    return (u, if current = server then .switch query server left err
      else .reload query server left err)
  | switch query _ left err => do
    let newServer ← u.add.server
    return (u.add, next query newServer left err)
  | reload query _ left err => do
    let newServer ← u.server
    return (u, next query newServer left err)
  | returned _ _ => none

def isStart : ExchangeCall → Bool
  | start _ => true
  | _ => false

def isReturned : ExchangeCall → Bool
  | returned _ _ => true
  | _ => false

def program (net : Network) : Concurrent.Program UPStream ExchangeCall where
  entry := isStart
  returned := isReturned
  step := step net

end ExchangeCall

open ExchangeCall (program)
open Concurrent (machine AtMost Steps Idle IsStep)

/-- The upstream, and the calls that use it. -/
abbrev Exchanges := Concurrent UPStream ExchangeCall

/-- No call has returned an error. -/
def NoError (s : Exchanges) : Prop :=
  ∀ server err, .returned server (.error err) ∉ s.calls

/-! ### One healthy server -/

/-- Distinct servers, of which exactly the healthy one answers. The others fail, in dialing or
later, and `exchange` takes both alike. -/
structure Scenario where
  configured : List GoString
  healthy : Nat
  net : Network
  two_le : 2 ≤ configured.length
  length_lt : configured.length < 4294967296
  nodup : (newUPStream configured).servers.Nodup
  healthy_lt : healthy < configured.length
  answers : ∀ (i : Nat) (server : GoString), (newUPStream configured).servers[i]? = some server →
    ∀ query, (∃ response, net server query = .ok response) ↔ i = healthy

namespace Scenario

variable (sc : Scenario)

def servers : List GoString := (newUPStream sc.configured).servers

def start : Exchanges := ⟨newUPStream sc.configured, []⟩

theorem length_servers : sc.servers.length = sc.configured.length := List.length_map ..

theorem servers_pos : 0 < sc.servers.length := by
  have := sc.two_le
  rw [length_servers]
  omega

/-- The server an index names. -/
def place (p : Nat) : GoString :=
  sc.servers.get ⟨p % sc.servers.length, Nat.mod_lt _ sc.servers_pos⟩

/-- The upstream, with any index. -/
def upstream (p : Nat) : UPStream := ⟨UInt32.ofNat p, sc.servers⟩

variable {sc}

theorem server_eq {u : UPStream} (h : u.servers = sc.servers) :
    u.server = some (sc.place u.index.toNat) := by
  have hlen := sc.length_lt
  rw [← length_servers] at hlen
  have hmod : (u.index % UInt32.ofNat sc.servers.length).toNat =
      u.index.toNat % sc.servers.length := by
    rw [UInt32.toNat_mod, UInt32.toNat_ofNat', Nat.mod_eq_of_lt hlen]
  rw [UPStream.server, h, hmod]
  exact List.getElem?_eq_getElem _

theorem place_inj {p p' : Nat} (h : sc.place p = sc.place p') :
    p % sc.servers.length = p' % sc.servers.length :=
  congrArg Fin.val ((List.Nodup.get_inj_iff sc.nodup).mp h)

/-- Exactly the healthy server answers. -/
theorem net_place (p : Nat) (query : List UInt8) :
    (∃ response, sc.net (sc.place p) query = .ok response) ↔ p % sc.servers.length = sc.healthy :=
  sc.answers (p % sc.servers.length) (sc.place p) (List.getElem?_eq_getElem _) query

/-! ### Where a call is -/

/-- A call that has failed `failed` times has gone as many places on, and one more if it has gone
past the healthy server. -/
def Behind (sc : Scenario) (p failed : Nat) : Prop :=
  failed ≤ p ∧ (sc.healthy < p → failed < p)

/-- A call is at a place that the index has been at. -/
def At (sc : Scenario) (i : Nat) (server : GoString) (left : Nat) : Prop :=
  ∃ p ≤ i, server = sc.place p ∧ 0 < left ∧ left ≤ sc.servers.length ∧
    sc.Behind p (sc.servers.length - left)

/-- A call has failed there. -/
def FailedAt (sc : Scenario) (i : Nat) (server : GoString) (left : Nat) : Prop :=
  ∃ p ≤ i, server = sc.place p ∧ p % sc.servers.length ≠ sc.healthy ∧ 0 < left ∧
    left ≤ sc.servers.length ∧ sc.Behind p (sc.servers.length - left)

def Asserts (sc : Scenario) (u : UPStream) : ExchangeCall → Prop
  | .start _ => True
  | .attempt _ server left => sc.At u.index.toNat server left
  | .compare _ server left _ | .switch _ server left _ => sc.FailedAt u.index.toNat server left
  -- the index is beyond
  | .reload _ server left _ => 0 < u.index.toNat ∧ sc.FailedAt (u.index.toNat - 1) server left
  | .returned _ (.ok _) => True
  -- the index has gone round
  | .returned _ (.error _) => sc.servers.length < u.index.toNat

/-- The index stays below `2 ^ 32`. -/
def NoWrap (u : UPStream) : ExchangeCall → Prop
  | .switch .. => u.index.toNat + 1 < 4294967296
  | _ => True

instance (u : UPStream) : DecidablePred (NoWrap u)
  | .switch .. => inferInstanceAs (Decidable (_ < _))
  | .start .. | .attempt .. | .compare .. | .reload .. | .returned .. => isTrue trivial

variable {server : GoString}

theorem FailedAt.mono {i i' left : Nat} (hle : i ≤ i') (h : sc.FailedAt i server left) :
    sc.FailedAt i' server left := by
  obtain ⟨p, hp, h⟩ := h
  exact ⟨p, Nat.le_trans hp hle, h⟩

variable {u u' : UPStream}

/-- An assertion about a call is stable: the index only grows. -/
theorem Asserts.mono (hle : u.index.toNat ≤ u'.index.toNat) {c : ExchangeCall}
    (h : sc.Asserts u c) : sc.Asserts u' c := by
  cases c with
  | start query => trivial
  | attempt query server left =>
    obtain ⟨p, hp, h⟩ := h
    exact ⟨p, Nat.le_trans hp hle, h⟩
  | compare query server left err | switch query server left err => exact FailedAt.mono hle h
  | reload query server left err =>
    exact ⟨Nat.lt_of_lt_of_le h.1 hle, FailedAt.mono (Nat.sub_le_sub_right hle 1) h.2⟩
  | returned server result =>
    cases result with
    | ok response => trivial
    | error err => exact Nat.lt_of_lt_of_le h hle

/-- A call that goes on from a place where it has failed, to a later one. -/
theorem FailedAt.next {i left : Nat} (h : sc.FailedAt i server left) (query : List UInt8)
    (err : AttemptError) {u : UPStream} (hlt : i < u.index.toNat) :
    sc.Asserts u (.next query (sc.place u.index.toNat) left err) := by
  obtain ⟨p, hp, -, hdead, hleft, hle, hbehind, hpast⟩ := h
  have hhealthy := sc.healthy_lt
  rw [← length_servers] at hhealthy
  have hne : p ≠ sc.healthy := by
    rintro rfl
    exact hdead (Nat.mod_eq_of_lt hhealthy)
  unfold ExchangeCall.next
  split
  · show sc.servers.length < u.index.toNat
    omega
  · refine ⟨u.index.toNat, Nat.le_refl _, rfl, by omega, by omega, by omega, fun h => ?_⟩
    omega

variable {c c' : ExchangeCall}

/-- **What a step does**: the servers stay, the index does not go back, and the assertion about the
call is kept. -/
theorem step_asserts (hservers : u.servers = sc.servers) (h : sc.Asserts u c) (hwrap : NoWrap u c)
    (hstep : c.step sc.net u = some (u', c')) :
    u'.servers = sc.servers ∧ u.index.toNat ≤ u'.index.toNat ∧ sc.Asserts u' c' := by
  have hserver := server_eq hservers
  cases c with
  | start query =>
    rw [ExchangeCall.step, hserver] at hstep
    cases hstep
    refine ⟨hservers, Nat.le_refl _, u.index.toNat, Nat.le_refl _, rfl, ?_⟩
    rw [hservers]
    have := sc.servers_pos
    refine ⟨this, Nat.le_refl _, ?_⟩
    rw [Nat.sub_self]
    exact ⟨Nat.zero_le _, fun h => Nat.lt_of_le_of_lt (Nat.zero_le _) h⟩
  | attempt query server left =>
    obtain ⟨p, hp, rfl, h⟩ := h
    rw [ExchangeCall.step] at hstep
    split at hstep
    · cases hstep
      exact ⟨hservers, Nat.le_refl _, trivial⟩
    · rename_i err herr
      cases hstep
      refine ⟨hservers, Nat.le_refl _, p, hp, rfl, fun hhealthy => ?_, h⟩
      obtain ⟨response, hresponse⟩ := (net_place p query).mpr hhealthy
      rw [herr] at hresponse
      cases hresponse
  | compare query server left err =>
    rw [ExchangeCall.step, hserver] at hstep
    cases hstep
    refine ⟨hservers, Nat.le_refl _, ?_⟩
    split
    · exact h
    · rename_i hne
      obtain ⟨p, hp, rfl, h⟩ := h
      have hlt : p < u.index.toNat := Nat.lt_of_le_of_ne hp fun heq => hne (heq ▸ rfl)
      exact ⟨Nat.zero_lt_of_lt hlt, p, Nat.le_sub_one_of_lt hlt, rfl, h⟩
  | switch query server left err =>
    have hadd : u.add.index.toNat = u.index.toNat + 1 :=
      (UInt32.toNat_add u.index 1).trans (Nat.mod_eq_of_lt hwrap)
    have hserver' := server_eq (show u.add.servers = sc.servers from hservers)
    rw [ExchangeCall.step, hserver'] at hstep
    cases hstep
    refine ⟨hservers, by omega, FailedAt.next h query err (by omega)⟩
  | reload query server left err =>
    rw [ExchangeCall.step, hserver] at hstep
    cases hstep
    exact ⟨hservers, Nat.le_refl _, FailedAt.next h.2 query err (Nat.sub_one_lt_of_lt h.1)⟩
  | returned server result => cases hstep

/-! ### Runs -/

variable {s : Exchanges} {acts : List (Concurrent.Act ExchangeCall)}

theorem healthy_lt_length : sc.healthy < sc.servers.length := by
  rw [length_servers]
  exact sc.healthy_lt

/-- A call that has returned an error has gone once round the servers. -/
theorem run_asserts (hrun : (machine (program sc.net)).run sc.start acts = some s)
    (hwrap : (machine (program sc.net)).Guarded (Steps NoWrap) sc.start acts) :
    Concurrent.Each (fun u => u.servers = sc.servers) sc.Asserts s := by
  refine Concurrent.run_local ?_ ?_ ?_ hrun hwrap ⟨rfl, fun c hc => by cases hc⟩
  · intro u c hentry hservers
    cases c with
    | start query => trivial
    | _ => cases hentry
  · intro u c u' c' hservers h hwrap hstep
    obtain ⟨hservers', -, h'⟩ := step_asserts hservers h hwrap hstep
    exact ⟨hservers', h'⟩
  · intro u c u' c' d hservers h hwrap hstep hd
    exact Asserts.mono (step_asserts hservers h hwrap hstep).2.1 hd

theorem noError_of_index_le (h : ∀ c ∈ s.calls, sc.Asserts s.shared c)
    (hle : s.shared.index.toNat ≤ sc.servers.length) : NoError s := by
  intro server err hmem
  exact Nat.not_lt_of_le hle (h _ hmem)

/-- The index names the server that has failed. -/
def Current (u : UPStream) : ExchangeCall → Prop
  | .switch _ server _ _ => u.server = some server
  | _ => True

/-- Only a switch changes the upstream. -/
theorem step_upstream {net : Network} (hstep : c.step net u = some (u', c')) :
    (u' = u ∧ NoWrap u c) ∨
      ∃ query server left err, c = .switch query server left err ∧ u' = u.add := by
  cases c with
  | attempt query server left =>
    rw [ExchangeCall.step] at hstep
    split at hstep <;> cases hstep <;> exact .inl ⟨rfl, trivial⟩
  | returned server result => cases hstep
  | switch query server left err =>
    obtain ⟨newServer, -, h⟩ := Option.bind_eq_some_iff.mp hstep
    cases h
    exact .inr ⟨query, server, left, err, rfl, rfl⟩
  | start query | compare query server left err | reload query server left err =>
    obtain ⟨server, -, h⟩ := Option.bind_eq_some_iff.mp hstep
    cases h
    exact .inl ⟨rfl, trivial⟩

theorem current_next (u : UPStream) (query : List UInt8) (server : GoString) (left : Nat)
    (err : AttemptError) : Current u (.next query server left err) := by
  unfold ExchangeCall.next
  split <;> trivial

/-- A call that has just loaded the index goes on with what the index names. -/
theorem step_current {net : Network} (hstep : c.step net u = some (u', c')) : Current u' c' := by
  cases c with
  | start query =>
    obtain ⟨server, -, h⟩ := Option.bind_eq_some_iff.mp hstep
    cases h
    trivial
  | attempt query server left =>
    rw [ExchangeCall.step] at hstep
    split at hstep <;> cases hstep <;> trivial
  | compare query server left err =>
    obtain ⟨current, hcurrent, h⟩ := Option.bind_eq_some_iff.mp hstep
    cases h
    split
    · rename_i heq
      exact heq ▸ hcurrent
    · trivial
  | switch query server left err | reload query server left err =>
    obtain ⟨newServer, -, h⟩ := Option.bind_eq_some_iff.mp hstep
    cases h
    exact current_next ..
  | returned server result => cases hstep

theorem run_servers (hrun : (machine (program sc.net)).run sc.start acts = some s) :
    s.shared.servers = sc.servers := by
  refine @Machine.run_invariant _ _ (machine (program sc.net))
    (fun s => s.shared.servers = sc.servers) _ _ _ (fun s a s' hservers hstep => ?_) hrun rfl
  obtain ⟨c, -, -, rfl⟩ | ⟨i, c, u, c', -, -, hcall, rfl⟩ := Concurrent.step_cases hstep
  · exact hservers
  · obtain ⟨rfl, -⟩ | ⟨-, -, -, -, -, rfl⟩ := step_upstream hcall
    · exact hservers
    · exact hservers

/-- A switch that is made while the index names the failed server does not go past the healthy
one, and there is none if the healthy server is the first. -/
theorem FailedAt.lt {i left : Nat} (h : sc.FailedAt i server left) (hle : i ≤ sc.healthy)
    (hcurrent : sc.healthy = 0 ∨ sc.place i = server) : i < sc.healthy := by
  obtain ⟨p, hp, rfl, hdead, -⟩ := h
  rcases hcurrent with hzero | hcurrent
  · have hp0 : p = 0 := by omega
    rw [hp0, Nat.zero_mod, hzero] at hdead
    exact absurd rfl hdead
  · refine Nat.lt_of_le_of_ne hle fun heq => hdead ?_
    rw [← place_inj hcurrent, heq]
    exact Nat.mod_eq_of_lt sc.healthy_lt_length

theorem step_low (hservers : u.servers = sc.servers) (hle : u.index.toNat ≤ sc.healthy)
    (h : sc.Asserts u c) (hcurrent : sc.healthy = 0 ∨ Current u c)
    (hstep : c.step sc.net u = some (u', c')) : NoWrap u c ∧ u'.index.toNat ≤ sc.healthy := by
  obtain ⟨rfl, hwrap⟩ | ⟨query, server, left, err, rfl, rfl⟩ := step_upstream hstep
  · exact ⟨hwrap, hle⟩
  · have hlt : u.index.toNat < sc.healthy := by
      refine FailedAt.lt h hle (hcurrent.imp_right fun hcurrent => ?_)
      exact Option.some.inj ((server_eq hservers).symm.trans hcurrent)
    have hhealthy := sc.healthy_lt
    have hlength := sc.length_lt
    have hwrap : u.index.toNat + 1 < 4294967296 := by omega
    have hadd : u.add.index.toNat = u.index.toNat + 1 :=
      (UInt32.toNat_add u.index 1).trans (Nat.mod_eq_of_lt hwrap)
    exact ⟨hwrap, by omega⟩

/-- The upstream before the healthy server, or at it. -/
def Low (sc : Scenario) (u : UPStream) : Prop :=
  u.servers = sc.servers ∧ u.index.toNat ≤ sc.healthy

/-- **Switches one by one.** If every switch is made while the index names the failed server, no
call returns an error. -/
theorem run_current (hrun : (machine (program sc.net)).run sc.start acts = some s)
    (hcurrent : (machine (program sc.net)).Guarded
      (Steps fun u c => sc.healthy = 0 ∨ Current u c) sc.start acts) : NoError s := by
  have each : Concurrent.Each sc.Low sc.Asserts s := by
    refine Concurrent.run_local ?_ ?_ ?_ hrun hcurrent
      ⟨⟨rfl, Nat.zero_le _⟩, fun c hc => by cases hc⟩
    · intro u c hentry _
      cases c with
      | start query => trivial
      | _ => cases hentry
    · rintro u c u' c' ⟨hservers, hle⟩ h hcurrent hstep
      obtain ⟨hwrap, hle'⟩ := step_low hservers hle h hcurrent hstep
      obtain ⟨hservers', -, h'⟩ := step_asserts hservers h hwrap hstep
      exact ⟨⟨hservers', hle'⟩, h'⟩
    · rintro u c u' c' d ⟨hservers, hle⟩ h hcurrent hstep hd
      obtain ⟨hwrap, -⟩ := step_low hservers hle h hcurrent hstep
      exact Asserts.mono (step_asserts hservers h hwrap hstep).2.1 hd
  exact noError_of_index_le each.calls
    (Nat.le_trans each.shared.2 (Nat.le_of_lt sc.healthy_lt_length))

/-- Calls that do not overlap make their switches so. -/
theorem run_alone (hrun : (machine (program sc.net)).run sc.start acts = some s)
    (hapart : (machine (program sc.net)).Guarded (AtMost (program sc.net) 1) sc.start acts) :
    sc.Low s.shared := by
  have start : Concurrent.Settled (program sc.net) (fun _ u => sc.Low u)
      (fun _ u c => sc.Low u ∧ sc.Asserts u c ∧ Current u c) [] sc.start :=
    .idle (fun c hc => by cases hc) ⟨rfl, Nat.zero_le _⟩
  have settled := Concurrent.run_apart ?_ ?_ ?_ hrun hapart start
  · cases settled with
    | idle _ low => exact low
    | during i c _ _ _ low => exact low.1
  · intro _ u c hentry low
    cases c with
    | start query => exact ⟨rfl, low, trivial, trivial⟩
    | _ => cases hentry
  · intro u c hreturned
    cases c with
    | returned server result => rfl
    | _ => cases hreturned
  · rintro _ u c u' c' ⟨⟨hservers, hle⟩, h, hcurrent⟩ hstep
    obtain ⟨hwrap, hle'⟩ := step_low hservers hle h (.inr hcurrent) hstep
    obtain ⟨hservers', -, h'⟩ := step_asserts hservers h hwrap hstep
    have low : sc.Low u' := ⟨hservers', hle'⟩
    split
    · exact low
    · exact ⟨low, h', step_current hstep⟩

/-! ### Going past the healthy server -/

section Past

variable (sc) {k : Nat}

/-- At most `k` calls at once, and no index that wraps around. -/
def Bounded (k : Nat) (s : Exchanges) (a : Concurrent.Act ExchangeCall) :
    Prop :=
  AtMost (program sc.net) k s a ∧ Steps NoWrap s a

instance (k : Nat) (s : Exchanges) : DecidablePred (sc.Bounded k s) :=
  fun _ => inferInstanceAs (Decidable (_ ∧ _))

/-- Some such run leads from one state to the other. -/
abbrev Leads (k : Nat) : Exchanges → Exchanges → Prop :=
  (machine (program sc.net)).Reaches (sc.Bounded k)

variable {sc}

theorem upstream_index {p : Nat} (hp : p < 4294967296) : (sc.upstream p).index.toNat = p := by
  rw [upstream, UInt32.toNat_ofNat', Nat.mod_eq_of_lt hp]

theorem upstream_server {p : Nat} (hp : p < 4294967296) :
    (sc.upstream p).server = some (sc.place p) := by
  have h := server_eq (show (sc.upstream p).servers = sc.servers from rfl)
  rwa [upstream_index hp] at h

theorem upstream_add (p : Nat) : (sc.upstream p).add = sc.upstream (p + 1) := by
  unfold upstream UPStream.add
  rw [UInt32.ofNat_add]
  rfl

variable {calls : List ExchangeCall}

/-- One step of the call at a place. -/
theorem leads_step {i : Nat} {u u' : UPStream} {c c' : ExchangeCall} (hc : calls[i]? = some c)
    (hwrap : NoWrap u c) (hstep : c.step sc.net u = some (u', c')) :
    sc.Leads k ⟨u, calls⟩ ⟨u', calls.set i c'⟩ := by
  refine .step (a := .step i) ⟨trivial, fun d hd => ?_⟩ (Concurrent.step_of_step hc hstep)
  cases hc.symm.trans hd
  exact hwrap

variable {query : List UInt8}

/-- A call that fails at the place the index names is about to switch. -/
theorem leads_switch {i p left : Nat} (hp : p < 4294967296)
    (hdead : p % sc.servers.length ≠ sc.healthy)
    (hc : calls[i]? = some (.attempt query (sc.place p) left)) :
    ∃ err, sc.Leads k ⟨sc.upstream p, calls⟩
      ⟨sc.upstream p, calls.set i (.switch query (sc.place p) left err)⟩ := by
  obtain ⟨err, herr⟩ : ∃ err, sc.net (sc.place p) query = .error err := by
    cases h : sc.net (sc.place p) query with
    | error err => exact ⟨err, rfl⟩
    | ok response => exact absurd ((net_place p query).mp ⟨response, h⟩) hdead
  have hlt := (List.getElem?_eq_some_iff.mp hc).1
  have hattempt : (ExchangeCall.attempt query (sc.place p) left).step sc.net (sc.upstream p) =
      some (sc.upstream p, .compare query (sc.place p) left err) := by
    rw [ExchangeCall.step, herr]
  have hcompare : (ExchangeCall.compare query (sc.place p) left err).step sc.net (sc.upstream p) =
      some (sc.upstream p, .switch query (sc.place p) left err) := by
    rw [ExchangeCall.step, upstream_server hp]
    exact congrArg (fun c => some (sc.upstream p, c)) (if_pos rfl)
  have second : sc.Leads k ⟨sc.upstream p, calls.set i (.compare query (sc.place p) left err)⟩ _ :=
    leads_step (List.getElem?_set_self hlt) trivial hcompare
  rw [List.set_set] at second
  exact ⟨err, (leads_step hc trivial hattempt).trans second⟩

/-- It switches. -/
theorem leads_next {i p left : Nat} {server : GoString} {err : AttemptError}
    (hp : p + 1 < 4294967296) (hc : calls[i]? = some (.switch query server left err)) :
    sc.Leads k ⟨sc.upstream p, calls⟩
      ⟨sc.upstream (p + 1), calls.set i (.next query (sc.place (p + 1)) left err)⟩ := by
  refine leads_step hc ?_ ?_
  · show (sc.upstream p).index.toNat + 1 < 4294967296
    rw [upstream_index (by omega)]
    exact hp
  · rw [ExchangeCall.step, upstream_add, upstream_server hp]
    rfl

/-- An attempt that fails, while nobody else does anything. -/
theorem leads_fail {i p left : Nat} (hp : p + 1 < 4294967296)
    (hdead : p % sc.servers.length ≠ sc.healthy)
    (hc : calls[i]? = some (.attempt query (sc.place p) left)) :
    ∃ err, sc.Leads k ⟨sc.upstream p, calls⟩
      ⟨sc.upstream (p + 1), calls.set i (.next query (sc.place (p + 1)) left err)⟩ := by
  obtain ⟨err, first⟩ := leads_switch (by omega) hdead hc
  have second : sc.Leads k ⟨_, calls.set i (.switch query (sc.place p) left err)⟩ _ :=
    leads_next hp (List.getElem?_set_self (List.getElem?_eq_some_iff.mp hc).1)
  rw [List.set_set] at second
  exact ⟨err, first.trans second⟩

/-- So a call on its own tries one server after the other. -/
theorem leads_attempts {i left : Nat} (hleft : 0 < left) (m : Nat) {p : Nat}
    (hp : p + m < 4294967296) (hdead : ∀ j < m, (p + j) % sc.servers.length ≠ sc.healthy)
    (hc : calls[i]? = some (.attempt query (sc.place p) (left + m))) :
    sc.Leads k ⟨sc.upstream p, calls⟩
      ⟨sc.upstream (p + m), calls.set i (.attempt query (sc.place (p + m)) left)⟩ := by
  induction m generalizing p calls with
  | zero =>
    obtain ⟨hlt, hget⟩ := List.getElem?_eq_some_iff.mp hc
    rw [Nat.add_zero] at hget ⊢
    rw [← hget, List.set_getElem_self]
    exact .refl _
  | succ m ih =>
    obtain ⟨err, first⟩ := leads_fail (by omega) (hdead 0 (Nat.succ_pos m)) hc
    have hnext : ExchangeCall.next query (sc.place (p + 1)) (left + (m + 1)) err =
        .attempt query (sc.place (p + 1)) (left + m) := if_neg (by omega)
    rw [hnext] at first
    have rest := ih (p := p + 1) (by omega) (fun j hj => ?_)
      (List.getElem?_set_self (List.getElem?_eq_some_iff.mp hc).1)
    · rw [List.set_set, Nat.add_right_comm, Nat.add_assoc] at rest
      exact first.trans rest
    · have := hdead (j + 1) (Nat.succ_lt_succ hj)
      rwa [Nat.add_right_comm, Nat.add_assoc]

theorem leads_call {u : UPStream} (query : List UInt8)
    (hk : Concurrent.inProgress (program sc.net) ⟨u, calls⟩ < k) :
    sc.Leads k ⟨u, calls⟩ ⟨u, calls ++ [.start query]⟩ :=
  .step (a := .call (.start query)) ⟨hk, trivial⟩ rfl

theorem leads_start {i p : Nat} (hp : p < 4294967296) (hc : calls[i]? = some (.start query)) :
    sc.Leads k ⟨sc.upstream p, calls⟩
      ⟨sc.upstream p, calls.set i (.attempt query (sc.place p) sc.servers.length)⟩ := by
  refine leads_step hc trivial ?_
  rw [ExchangeCall.step, upstream_server hp]
  rfl

section Skip

-- the healthy server is behind the place `g`, and `r` more follow it
variable {g r : Nat} (hlength : sc.servers.length = g + r + 2) (hhealthy : sc.healthy = g + 1)
  (hwrap : sc.servers.length + 1 < 4294967296)

include hhealthy

theorem dead_place {p : Nat} (hp : p < sc.servers.length) (hne : p ≠ g + 1) :
    p % sc.servers.length ≠ sc.healthy := by
  rwa [Nat.mod_eq_of_lt hp, hhealthy]

include hlength hwrap

/-- The first call, up to the place before the healthy server. -/
theorem leads_to_switch (hk : 2 ≤ k) :
    ∃ err, sc.Leads k sc.start ⟨sc.upstream g, [.switch [] (sc.place g) (r + 2) err]⟩ := by
  have hdead : ∀ p ≤ g, p % sc.servers.length ≠ sc.healthy := fun p hp =>
    dead_place hhealthy (by omega) (by omega)
  have called : sc.Leads k sc.start ⟨sc.upstream 0, [.start []]⟩ :=
    leads_call [] (show 0 < k by omega)
  have started : sc.Leads k ⟨sc.upstream 0, [.start []]⟩
      ⟨sc.upstream 0, [.attempt [] (sc.place 0) sc.servers.length]⟩ :=
    leads_start (i := 0) (by decide) rfl
  have tried : sc.Leads k ⟨sc.upstream 0, [.attempt [] (sc.place 0) (r + 2 + g)]⟩
      ⟨sc.upstream (0 + g), [.attempt [] (sc.place (0 + g)) (r + 2)]⟩ :=
    leads_attempts (i := 0) (by omega) g (by omega) (fun j hj => hdead _ (by omega)) rfl
  rw [hlength, show g + r + 2 = r + 2 + g by omega] at started
  rw [Nat.zero_add] at tried
  obtain ⟨err, failed⟩ := leads_switch (i := 0) (k := k) (by omega) (hdead g (Nat.le_refl g))
    (show [ExchangeCall.attempt [] (sc.place g) (r + 2)][0]? = _ from rfl)
  exact ⟨err, called.trans (started.trans (tried.trans failed))⟩

/-- The second call switches to the healthy server, and then the first call switches too. -/
theorem leads_past (hk : 2 ≤ k) (err : AttemptError) :
    ∃ c, sc.Leads k ⟨sc.upstream g, [.switch [] (sc.place g) (r + 2) err]⟩
      ⟨sc.upstream (g + 2), [.attempt [] (sc.place (g + 2)) (r + 1), c]⟩ := by
  have called : sc.Leads k ⟨sc.upstream g, [.switch [] (sc.place g) (r + 2) err]⟩
      ⟨sc.upstream g, [.switch [] (sc.place g) (r + 2) err, .start []]⟩ :=
    leads_call [] (show 1 < k by omega)
  have started : sc.Leads k ⟨sc.upstream g, [.switch [] (sc.place g) (r + 2) err, .start []]⟩
      ⟨sc.upstream g, [.switch [] (sc.place g) (r + 2) err,
        .attempt [] (sc.place g) sc.servers.length]⟩ :=
    leads_start (i := 1) (by omega) rfl
  obtain ⟨err', switched⟩ := leads_fail (i := 1) (k := k) (by omega)
    (dead_place hhealthy (by omega) (by omega))
    (show [ExchangeCall.switch [] (sc.place g) (r + 2) err,
        .attempt [] (sc.place g) sc.servers.length][1]? = _ from rfl)
  have skipped : sc.Leads k ⟨sc.upstream (g + 1), [.switch [] (sc.place g) (r + 2) err,
        .next [] (sc.place (g + 1)) sc.servers.length err']⟩
      ⟨sc.upstream (g + 2), [.next [] (sc.place (g + 2)) (r + 2) err, _]⟩ :=
    leads_next (i := 0) (by omega) rfl
  have hnext : ExchangeCall.next [] (sc.place (g + 2)) (r + 2) err =
      .attempt [] (sc.place (g + 2)) (r + 1) := if_neg (Nat.succ_ne_zero r)
  rw [hnext] at skipped
  exact ⟨_, called.trans (started.trans (switched.trans skipped))⟩

/-- Then it tries the servers after the healthy one, and the first one again. -/
theorem leads_error (c : ExchangeCall) :
    ∃ err, sc.Leads k ⟨sc.upstream (g + 2), [.attempt [] (sc.place (g + 2)) (r + 1), c]⟩
      ⟨sc.upstream (g + 2 + r + 1), [.returned (sc.place (g + 2 + r + 1)) (.error err), c]⟩ := by
  have tried : sc.Leads k ⟨sc.upstream (g + 2), [.attempt [] (sc.place (g + 2)) (1 + r), c]⟩
      ⟨sc.upstream (g + 2 + r), [.attempt [] (sc.place (g + 2 + r)) 1, c]⟩ :=
    leads_attempts (i := 0) (by omega) r (by omega)
      (fun j hj => dead_place hhealthy (by omega) (by omega)) rfl
  have hround : (g + 2 + r) % sc.servers.length ≠ sc.healthy := by
    rw [hlength, show g + 2 + r = g + r + 2 by omega, Nat.mod_self]
    omega
  obtain ⟨err, failed⟩ := leads_fail (i := 0) (k := k) (by omega) hround
    (show [ExchangeCall.attempt [] (sc.place (g + 2 + r)) 1, c][0]? = _ from rfl)
  rw [Nat.add_comm 1 r] at tried
  exact ⟨err, tried.trans failed⟩

end Skip

/-- Two calls, if the healthy server is not the first: one of them has failed just before the
healthy server and is about to switch when the other one switches to it. -/
theorem exists_error (hk : 2 ≤ k) (hhealthy : 0 < sc.healthy)
    (hwrap : sc.servers.length + 1 < 4294967296) :
    ∃ s server err, sc.Leads k sc.start s ∧ .returned server (.error err) ∈ s.calls := by
  obtain ⟨g, hg⟩ : ∃ g, sc.healthy = g + 1 := ⟨sc.healthy - 1, by omega⟩
  obtain ⟨r, hr⟩ : ∃ r, sc.servers.length = g + r + 2 :=
    ⟨sc.servers.length - (g + 2), by have := sc.healthy_lt_length; omega⟩
  obtain ⟨err, toSwitch⟩ := leads_to_switch hr hg hwrap hk
  obtain ⟨c, past⟩ := leads_past hr hg hwrap hk err
  obtain ⟨err', toError⟩ := leads_error hr hg hwrap c
  exact ⟨_, _, err', toSwitch.trans (past.trans toError), List.mem_cons_self⟩

end Past

/-! ### All calls return -/

/-- The steps a call has left, at most. -/
def work (sc : Scenario) : ExchangeCall → Nat
  | .start _ => 3 * sc.servers.length + 4
  | .attempt _ _ left => 3 * left + 3
  | .compare _ _ left _ => 3 * left + 2
  | .switch _ _ left _ | .reload _ _ left _ => 3 * left + 1
  | .returned _ _ => 0

theorem work_next (query : List UInt8) (server : GoString) (left : Nat) (err : AttemptError) :
    sc.work (.next query server left err) ≤ 3 * left := by
  unfold ExchangeCall.next
  split
  · exact Nat.zero_le _
  · simp only [work]
    omega

/-- A step leaves less to do. -/
theorem work_step (hservers : u.servers = sc.servers) (hstep : c.step sc.net u = some (u', c')) :
    u'.servers = sc.servers ∧ sc.work c' < sc.work c := by
  have hserver := server_eq hservers
  have hserver' := server_eq (show u.add.servers = sc.servers from hservers)
  cases c with
  | start query =>
    rw [ExchangeCall.step, hserver] at hstep
    cases hstep
    refine ⟨hservers, ?_⟩
    simp only [work, hservers]
    omega
  | attempt query server left =>
    rw [ExchangeCall.step] at hstep
    split at hstep <;> cases hstep <;> refine ⟨hservers, ?_⟩ <;> simp only [work] <;> omega
  | compare query server left err =>
    rw [ExchangeCall.step, hserver] at hstep
    cases hstep
    refine ⟨hservers, ?_⟩
    split <;> simp only [work] <;> omega
  | switch query server left err =>
    rw [ExchangeCall.step, hserver'] at hstep
    cases hstep
    exact ⟨hservers, Nat.lt_succ_of_le (work_next ..)⟩
  | reload query server left err =>
    rw [ExchangeCall.step, hserver] at hstep
    cases hstep
    exact ⟨hservers, Nat.lt_succ_of_le (work_next ..)⟩
  | returned server result => cases hstep

/-- A call that has not returned can go on. -/
theorem step_enabled {u : UPStream} {c : ExchangeCall} (hservers : u.servers = sc.servers)
    (hactive : c.isReturned = false) : ∃ next, c.step sc.net u = some next := by
  have hserver := server_eq hservers
  have hserver' := server_eq (show u.add.servers = sc.servers from hservers)
  cases c with
  | attempt query server left =>
    rw [ExchangeCall.step]
    split <;> exact ⟨_, rfl⟩
  | returned server result => cases hactive
  | switch query server left err =>
    rw [ExchangeCall.step, hserver']
    exact ⟨_, rfl⟩
  | _ =>
    rw [ExchangeCall.step, hserver]
    exact ⟨_, rfl⟩

theorem settles (hs : s.shared.servers = sc.servers) :
    (machine (program sc.net)).Settles IsStep (Idle (program sc.net)) s := by
  refine Concurrent.settles sc.work (I := fun u => u.servers = sc.servers) ?_ ?_ ?_ hs
  · exact fun u c u' c' hservers hstep => work_step hservers hstep
  · intro u c hreturned
    cases c with
    | returned server result => rfl
    | _ => cases hreturned
  · exact fun u c hservers hactive => step_enabled hservers hactive

end Scenario

open Scenario in
/-- **One healthy server.** If every switch is made while the index names the server that has
failed, no call returns an error. In all interleavings, that is so exactly if calls do not overlap,
or the healthy server is the first one, or the index wraps around before a call can get past it. -/
theorem exchange_answers_iff (sc : Scenario) (k : Nat) :
    (∀ acts s, (machine (program sc.net)).run sc.start acts = some s →
      (machine (program sc.net)).Guarded (Steps Current) sc.start acts →
      NoError s ∧ (machine (program sc.net)).Settles IsStep (Idle (program sc.net)) s) ∧
    ((∀ acts s, (machine (program sc.net)).run sc.start acts = some s →
      (machine (program sc.net)).Guarded (sc.Bounded k) sc.start acts →
      NoError s ∧ (machine (program sc.net)).Settles IsStep (Idle (program sc.net)) s) ↔
    k ≤ 1 ∨ sc.healthy = 0 ∨ sc.servers.length = 4294967295) := by
  refine ⟨fun acts s hrun hcurrent => ⟨run_current hrun ?_, settles (run_servers hrun)⟩, ?_, ?_⟩
  · exact Machine.guarded_mono _ (fun s a h => by
      cases a with
      | call c => trivial
      | step i => exact fun c hc => .inr (h c hc)) hcurrent
  · intro hall
    by_contra hnot
    simp only [not_or] at hnot
    obtain ⟨hk, hhealthy, hlength⟩ := hnot
    have hlt := sc.length_lt
    rw [← length_servers] at hlt
    obtain ⟨s, server, err, ⟨acts, hrun, hbounded⟩, hmem⟩ :=
      exists_error (Nat.lt_of_not_le hk) (Nat.pos_of_ne_zero hhealthy) (by omega)
    exact (hall acts s hrun hbounded).1 server err hmem
  · intro hcond acts s hrun hbounded
    refine ⟨?_, settles (run_servers hrun)⟩
    have hwrap := Machine.guarded_mono _ (fun s a h => h.2) hbounded
    have each := run_asserts hrun hwrap
    rcases hcond with hk | hhealthy | hlength
    · have hapart :
          (machine (program sc.net)).Guarded (AtMost (program sc.net) 1) sc.start acts := by
        refine Machine.guarded_mono _ (fun s a h => ?_) hbounded
        cases a with
        | call c => exact Nat.lt_of_lt_of_le h.1 hk
        | step i => trivial
      have low := run_alone hrun hapart
      exact noError_of_index_le each.calls (Nat.le_trans low.2 (Nat.le_of_lt sc.healthy_lt_length))
    · refine run_current hrun (Machine.guarded_mono _ (fun s a h => ?_) hbounded)
      cases a with
      | call c => trivial
      | step i => exact fun c hc => .inl hhealthy
    · refine noError_of_index_le each.calls ?_
      have := s.shared.index.toNat_lt
      omega

/-- A dead server and a healthy one. -/
def deadAndHealthy : Scenario where
  configured := [ascii "a", ascii "b"]
  healthy := 1
  net server _ := if server = ascii "b:53" then .ok [] else .error .exchange
  two_le := Nat.le_refl 2
  length_lt := by decide
  nodup := by decide
  healthy_lt := Nat.lt_succ_self 1
  answers := by
    have hservers :
        (newUPStream [ascii "a", ascii "b"]).servers = [ascii "a:53", ascii "b:53"] := by
      decide
    rw [hservers]
    intro i server h query
    match i, h with
    | 0, h =>
      cases h
      constructor
      · rintro ⟨_, h⟩
        cases h
      · intro h
        cases h
    | 1, h =>
      cases h
      exact ⟨fun _ => rfl, fun _ => ⟨[], rfl⟩⟩

/-- Both calls fail at the first server and find the index unchanged. Then they switch, one to the
healthy server and the other one past it, and back to the dead one. -/
theorem exchange_skips_healthy :
    ∃ acts s, (machine (program deadAndHealthy.net)).run deadAndHealthy.start acts = some s ∧
      (machine (program deadAndHealthy.net)).Guarded (deadAndHealthy.Bounded 2)
        deadAndHealthy.start acts ∧
      .returned (ascii "b:53") (.error .exchange) ∈ s.calls := by
  refine ⟨[.call (.start []), .step 0, .call (.start []), .step 1, .step 0, .step 1, .step 0,
    .step 1, .step 0, .step 1, .step 1, .step 1, .step 1], _, rfl, ?_, ?_⟩
  · decide
  · exact List.mem_cons_of_mem _ List.mem_cons_self

end Glider.Dns
