/-
Routing (`rule/proxy.go`): `findDialer` sends a destination to a group, and
`AddDomainIP` lets the addresses of a domain follow its rule. `Reload` publishes the
routing state of another configuration.
-/

import Glider.Rule.Build

namespace Glider.Rule

open Glider.Go

namespace ProxyState

variable (E : Env) (s : ProxyState)

/-- The part of `findDialer` for an address: the exact rule, or the first prefix
that contains it in the order `Range` happens to take. -/
def findAddr (visit : SyncMap.Visit s.cidrMap) (ip : Addr) : Option GroupRef :=
  match s.ipMap.load ip with
  | some group => some group
  | none => visit.first fun cidr => cidr.contains ip

/-- The search of `findDialer` for a host in lower case; `none` is out of fuel. -/
def searchHost (fuel : Nat) (host : GoString) : Option GroupRef :=
  (walkLabels (fun t (_ : Unit) => (s.domainMap.load t).elim (.inr ()) .inl) host fuel
    host.length ()).map (Sum.elim id fun _ => .main)

/-- `findDialer`; `none` is a search that did not end. -/
def findDialer (visit : SyncMap.Visit s.cidrMap) (dstAddr : GoString) : Option GroupRef :=
  match splitHostPort dstAddr with
  | .error _ => some .main
  | .ok (host, _) =>
    match (parsed (parseAddr host)).bind (s.findAddr visit) with
    | some group => some group
    | none =>
      let host := toLower E.cases host
      s.searchHost (host.length + 1) host

/-- `AddDomainIP` on the current state; `none` is a search that did not end. -/
def addDomainIP (domain : GoString) (ip : Addr) : Option ProxyState :=
  let domain := toLower E.cases domain
  (walkLabels
    (fun t ipMap => (.inr ((s.domainMap.load t).elim ipMap (ipMap.store ip)) : Empty ⊕ _))
    domain (domain.length + 1) domain.length s.ipMap).map
    (Sum.elim Empty.elim fun ipMap => { s with ipMap := ipMap })

/-! ### What the searches find -/

/-- The groups of the entries that match a name in lower case, that of the shortest
entry first. -/
def hits (name : GoString) : List GroupRef :=
  (labelSuffixes name).filterMap s.domainMap.load

/-- **The search ends**, at the shortest entry that matches. -/
theorem searchHost_eq {fuel : Nat} {host : GoString} (hfuel : host.length < fuel) :
    s.searchHost fuel host = some ((s.hits host).head?.getD .main) := by
  rw [searchHost, walkLabels_eq _ _ hfuel, runLabels_findSome?, hits, List.head?_filterMap]
  cases (labelSuffixes host).findSome? s.domainMap.load with
  | none => rfl
  | some group => rfl

/-- A destination that is a name goes to the shortest entry that matches. -/
theorem findDialer_of_name {visit : SyncMap.Visit s.cidrMap} {dstAddr host port : GoString}
    (hsplit : splitHostPort dstAddr = .ok (host, port)) (hname : parsed (parseAddr host) = none) :
    s.findDialer E visit dstAddr = some ((s.hits (toLower E.cases host)).head?.getD .main) := by
  simp only [findDialer, hsplit, hname, Option.bind_none]
  exact s.searchHost_eq (Nat.lt_succ_self _)

/-- An address with an exact rule goes to the group of the rule. -/
theorem findDialer_of_rule {visit : SyncMap.Visit s.cidrMap} {dstAddr host port : GoString}
    {ip : Addr} {group : GroupRef} (hsplit : splitHostPort dstAddr = .ok (host, port))
    (hip : parsed (parseAddr host) = some ip) (hrule : s.ipMap.load ip = some group) :
    s.findDialer E visit dstAddr = some group := by
  simp only [findDialer, hsplit, hip, Option.bind_some, findAddr, hrule]

/-- Storing every hit leaves the last one. -/
theorem load_foldl_store (m : SyncMap Addr GroupRef) (ip : Addr) (ts : List GoString) :
    (ts.foldl (fun m t => (s.domainMap.load t).elim m (m.store ip)) m).load ip =
      ((ts.filterMap s.domainMap.load).getLast?).or (m.load ip) := by
  induction ts generalizing m with
  | nil => rfl
  | cons t ts ih =>
    rw [List.foldl_cons, ih]
    cases hload : s.domainMap.load t with
    | none => simp [hload]
    | some group =>
      rw [List.filterMap_cons_some hload, List.getLast?_cons]
      cases (ts.filterMap s.domainMap.load).getLast? with
      | none => simp
      | some last => simp

/-- **`AddDomainIP` ends**; it gives the address the longest entry that matches, and
leaves everything else alone. -/
theorem addDomainIP_eq (domain : GoString) (ip : Addr) :
    ∃ ipMap, s.addDomainIP E domain ip = some { s with ipMap := ipMap } ∧
      ipMap.load ip = ((s.hits (toLower E.cases domain)).getLast?).or (s.ipMap.load ip) := by
  simp only [addDomainIP]
  rw [walkLabels_eq _ _ (Nat.lt_succ_self _), runLabels_foldl]
  exact ⟨_, rfl, s.load_foldl_store _ ip _⟩

end ProxyState

/-! ### Publishing a state -/

/-- `Proxy`: the state that is published, if there is one. -/
structure Proxy where
  state : Option ProxyState

/-- `Reload`. What `warmCheck` does to the new state before it is published depends on
the checks. -/
def Proxy.reload (E : Env) (warmCheck : ProxyState → ProxyState) (p : Proxy)
    (mainForwarders : List GoString) (mainStrategy : Strategy) (rules : List Config) :
    Proxy × Option GoString :=
  match buildState E mainForwarders mainStrategy rules with
  | .error e => (p, some e)
  | .ok state => (⟨some (warmCheck state)⟩, none)

end Glider.Rule
