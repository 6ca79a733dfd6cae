/-
From a configuration to routing tables (`rule/forward.go`, `rule/group.go`,
`rule/proxy.go`): forwarders are built from their URLs, groups from forwarders, and
`buildState` fills the maps that route by domain, address and prefix.

A dialer is known to this code by its address only, so it is that address. The
creators the protocol packages register are part of the environment, except for the
two schemes that name no server, `direct` and `reject`. Timeouts are left out: they
are handed to the dialers and read nowhere here.
-/

import Glider.Go.Lower
import Glider.Go.SyncMap
import Glider.Go.Url
import Glider.Rule.Rotation

namespace Glider.Rule

open Glider.Go

/-- `proxy.Dialer`, by what its `Addr` returns. -/
abbrev Dialer := GoString

/-- `proxy.DialerCreator`: from a URL and the dialer of the previous hop. -/
abbrev DialerCreator := GoString → Dialer → Except GoString Dialer

/-- What the code takes from outside. -/
structure Env where
  cases : CaseTable
  sorter : Sorter
  /-- `net.InterfaceByName` finds an interface. -/
  interfaceByName : GoString → Bool
  /-- The creators of the protocol packages, by scheme. -/
  dialerCreators : GoString → Option DialerCreator

/-! ### Dialers -/

section Dialers

variable (E : Env)

/-- `proxy.NewDirect`; the argument is an address or an interface. -/
def newDirect (intface : GoString) : Except GoString Dialer :=
  if intface = [] then .ok (ascii "DIRECT")
  else
    match parseAddr intface with
    | .ok _ => .ok (ascii "DIRECT")
    | .error _ =>
      if E.interfaceByName intface then .ok (ascii "DIRECT")
      else .error (ascii "route ip+net: no such network interface")

/-- The creator registered for a scheme. -/
def dialerCreator (scheme : GoString) : Option DialerCreator :=
  if scheme = ascii "direct" then some fun _ d => .ok d
  else if scheme = ascii "reject" then some fun _ _ => .ok (ascii "REJECT")
  else E.dialerCreators scheme

/-- `strings.Contains`. -/
def containsString (s sub : GoString) : Bool := s.tails.any fun t => sub.isPrefixOf t

/-- `proxy.DialerFromURL`. -/
def dialerFromURL (s : GoString) (dialer : Dialer) : Except GoString Dialer :=
  let s := if containsString s (ascii "://") then s else s ++ ascii "://"
  let scheme := s.take ((indexByte s colon).getD 0)
  match dialerCreator E (toLower E.cases scheme) with
  | some c => c s dialer
  | none => .error (ascii "unknown scheme '" ++ scheme ++ ascii "'")

end Dialers

/-! ### Forwarders -/

/-- An error of `parseOption`. -/
inductive OptionError where
  | query (e : QueryError)
  | priority (e : NumError)
deriving DecidableEq, Repr

/-- `Forwarder.parseOption`. A query error leaves the forwarder as it was; a
malformed priority does not. -/
def parseOption (f : Forwarder) (option : GoString) : Forwarder × Option OptionError :=
  match parseQuery option with
  | (_, some e) => (f, some (.query e))
  | (query, none) =>
    let p := query.get (ascii "priority")
    let (priority, err) := if p ≠ [] then parseUint32 p else (0, none)
    ({ f with priority := UInt32.ofNat priority, intface := query.get (ascii "interface") },
      err.map .priority)

/-- One hop of the loop of `ForwarderFromURL`: the dialer so far and the addresses,
without immediate repetitions. -/
def addHop (E : Env) (hops : Dialer × List GoString) (url : GoString) :
    Except GoString (Dialer × List GoString) :=
  match dialerFromURL E url hops.1 with
  | .error e => .error e
  | .ok d => .ok (d, if hops.2.getLast? = some d then hops.2 else hops.2 ++ [d])

/-- `ForwarderFromURL`. The error of `parseOption` is overwritten before it is
looked at, and a new forwarder starts disabled. -/
def forwarderFromURL (E : Env) (s intface : GoString) : Except GoString Forwarder :=
  let ss := split s 35
  let f : Forwarder := { url := s }
  let f := match ss[1]? with
    | some option => (parseOption f option).1
    | none => f
  let iface := if f.intface ≠ [] ∧ f.intface ≠ intface then f.intface else intface
  match newDirect E iface with
  | .error e => .error e
  | .ok d =>
    match (split (ss[0]?.getD []) 44).foldlM (addHop E) (d, []) with
    | .error e => .error e
    | .ok (_, addrs) => .ok { f with addr := join addrs 44, disabled := 1 }

/-- `DirectForwarder`. -/
def directForwarder (E : Env) (intface : GoString) : Except GoString Forwarder :=
  match newDirect E intface with
  | .error e => .error e
  | .ok d => .ok { addr := d }

/-! ### Groups -/

/-- The forwarders of `NewFwdrGroup`, or the error of the first one that fails. -/
def groupForwarders (E : Env) (c : Strategy) (s : List GoString) :
    Except GoString (List Forwarder) :=
  s.mapM fun chain =>
    match forwarderFromURL E chain c.intFace with
    | .error e => .error e
    | .ok f => .ok { f with maxFailures := UInt32.ofInt c.maxFailures }

/-- The strategy of a group without forwarders of its own becomes round robin. -/
def effectiveStrategy (s : List GoString) (c : Strategy) : Strategy :=
  if s = [] then { c with strategy := ascii "rr" } else c

/-- `NewFwdrGroup`: a group over the forwarders of the URLs, or over a direct
forwarder when there are none. -/
def newGroup (E : Env) (rulePath : GoString) (s : List GoString) (c : Strategy) :
    Except GoString GroupState :=
  match groupForwarders E c s with
  | .error e => .error e
  | .ok fwdrs =>
    let name := trimSuffix (filepathBase rulePath) (filepathExt rulePath)
    if fwdrs = [] then
      match directForwarder E c.intFace with
      | .error e => .error e
      | .ok direct => .ok (boot E.sorter name [direct] (effectiveStrategy s c))
    else .ok (boot E.sorter name fwdrs (effectiveStrategy s c))

/-! ### Routing tables -/

/-- `Config`, the part of a rule file this code reads. -/
structure Config where
  rulePath : GoString := []
  forward : List GoString := []
  strategy : Strategy := {}
  domain : List GoString := []
  ip : List GoString := []
  cidr : List GoString := []
deriving DecidableEq, Repr

/-- The `*FwdrGroup`s of a routing state. -/
inductive GroupRef where
  | main
  | rule (i : Nat)
  | direct
deriving DecidableEq, Repr

/-- The maps of a routing state. -/
structure Tables where
  domainMap : SyncMap GoString GroupRef := ∅
  ipMap : SyncMap Addr GroupRef := ∅
  cidrMap : SyncMap Prefix GroupRef := ∅

/-- `proxyState`. -/
structure ProxyState extends Tables where
  main : GroupState
  all : List GroupState
  direct : GroupState

/-- The result of a parser, if it is not an error. -/
def parsed {α : Type} : Except String α → Option α
  | .ok a => some a
  | .error _ => none

/-- The stores of one rule; an address or prefix that does not parse is skipped. -/
def Tables.addRule (E : Env) (t : Tables) (r : Config) (group : GroupRef) : Tables where
  domainMap := t.domainMap.storeAll (r.domain.map (toLower E.cases)) group
  ipMap := t.ipMap.storeAll (r.ip.filterMap fun s => parsed (parseAddr s)) group
  cidrMap := t.cidrMap.storeAll (r.cidr.filterMap fun s => parsed (parsePrefix s)) group

/-- The stores of all rules, in order. -/
def ruleTables (E : Env) (rules : List Config) : Tables :=
  rules.zipIdx.foldl (fun t r => t.addRule E r.1 (.rule r.2)) {}

/-- The host under which `buildState` makes a main forwarder reachable directly: that
of the first hop, and empty when the address does not split. -/
def directHost (addr : GoString) : GoString :=
  match splitHostPort ((split addr 44)[0]?.getD []) with
  | .ok (host, _) => host
  | .error _ => []

/-- The records of a group's forwarders, in the order of the group. -/
def GroupState.forwarders (s : GroupState) : List Forwarder := s.group.fwdrs.map s.heap

/-- The keys `buildState` maps to the direct group: `direct`, and the hosts of the
main forwarders that are not addresses. -/
def directKeys (E : Env) (mainForwarders : List GoString) (main : GroupState) : List GoString :=
  ascii "direct" ::
    if mainForwarders = [] then []
    else
      ((main.forwarders.map fun f => directHost f.addr).filter fun host =>
        (parsed (parseAddr host)).isNone).map (toLower E.cases)

/-- The groups of the rules, or the error of the first rule that fails. -/
def ruleGroups (E : Env) (rules : List Config) : Except GoString (List GroupState) :=
  rules.mapM fun r =>
    match newGroup E r.rulePath r.forward r.strategy with
    | .error e => .error (ascii "rule " ++ r.rulePath ++ ascii ": " ++ e)
    | .ok group => .ok group

/-- `buildState`. The direct group is built with the strategy of the main group,
which it turns into round robin. -/
def buildState (E : Env) (mainForwarders : List GoString) (mainStrategy : Strategy)
    (rules : List Config) : Except GoString ProxyState :=
  match newGroup E (ascii "main") mainForwarders mainStrategy with
  | .error e => .error (ascii "main forwarders: " ++ e)
  | .ok main =>
    match ruleGroups E rules with
    | .error e => .error e
    | .ok all =>
      match newGroup E [] [] mainStrategy with
      | .error e => .error (ascii "direct forwarder: " ++ e)
      | .ok direct =>
        let config := { main.group.config with strategy := ascii "rr" }
        let t := ruleTables E rules
        .ok
          { t with
            domainMap := t.domainMap.storeAll (directKeys E mainForwarders main) .direct
            main := { main with group := { main.group with config := config } }
            all := all
            direct := direct }

end Glider.Rule
