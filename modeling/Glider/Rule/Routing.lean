/-
How a destination is routed, over every configuration.

The routing tables of `buildState` are described key by key (`Built`), and then
compared with what the rest of the code expects of them:

* `learned_route_iff` — `findDialer` stops at the shortest domain entry that
  matches while `AddDomainIP` ends with the longest, so a domain and an address
  learned for it part ways when the two belong to different groups.
* `forwarder_direct_iff` — the host of a main forwarder is reached directly unless a
  shorter rule domain catches it first.
* `domain_match_iff` — domain routing is label-aligned suffix matching, but for
  the empty key a main forwarder without a host leaves behind.
* `cidr_order_iff` — prefixes of different groups that overlap are searched in no
  particular order.
-/

import Glider.Rule.Proxy

namespace Glider.Rule

open Glider.Go

/-! ### The tables of a built state -/

/-- `key` is a domain of some rule, in lower case. -/
def RuleDomain (E : Env) (rules : List Config) (key : GoString) : Prop :=
  ∃ r ∈ rules, ∃ d ∈ r.domain, toLower E.cases d = key

/-- After the stores of the rules, a key leads to a rule that has it, or nowhere. -/
theorem load_rules {K : Type} [DecidableEq K] (keys : Config → List K) (l : List (Config × Nat))
    (m : SyncMap K GroupRef) (key : K) :
    (∃ r ∈ l, key ∈ keys r.1 ∧
        (l.foldl (fun m r => m.storeAll (keys r.1) (.rule r.2)) m).load key = some (.rule r.2)) ∨
      (∀ r ∈ l, key ∉ keys r.1) ∧
        (l.foldl (fun m r => m.storeAll (keys r.1) (.rule r.2)) m).load key = m.load key := by
  induction l generalizing m with
  | nil => exact Or.inr ⟨by simp, rfl⟩
  | cons r l ih =>
    rw [List.foldl_cons]
    rcases ih (m.storeAll (keys r.1) (.rule r.2)) with ⟨r', hr', hkey, hload⟩ | ⟨hnone, hload⟩
    · exact Or.inl ⟨r', List.mem_cons_of_mem r hr', hkey, hload⟩
    · by_cases hkey : key ∈ keys r.1
      · refine Or.inl ⟨r, List.mem_cons_self, hkey, ?_⟩
        rw [hload, SyncMap.load_storeAll, if_pos hkey]
      · refine Or.inr ⟨List.forall_mem_cons.mpr ⟨hkey, hnone⟩, ?_⟩
        rw [hload, SyncMap.load_storeAll, if_neg hkey]

/-- The tables of the rules fill independently of each other. -/
theorem ruleTables_maps (E : Env) (rules : List Config) :
    (ruleTables E rules).domainMap = rules.zipIdx.foldl
        (fun m r => m.storeAll (r.1.domain.map (toLower E.cases)) (.rule r.2)) ∅ ∧
      (ruleTables E rules).ipMap = rules.zipIdx.foldl
        (fun m r => m.storeAll (r.1.ip.filterMap fun s => parsed (parseAddr s)) (.rule r.2)) ∅ := by
  unfold ruleTables
  constructor
  · exact (List.foldl_hom Tables.domainMap fun t r => rfl).symm
  · exact (List.foldl_hom Tables.ipMap fun t r => rfl).symm

/-- What `buildState` puts into the domain map. -/
structure Built (E : Env) (mainForwarders : List GoString) (rules : List Config)
    (s : ProxyState) : Prop where
  direct : ∀ key ∈ directKeys E mainForwarders s.main, s.domainMap.load key = some .direct
  rule : ∀ key, key ∉ directKeys E mainForwarders s.main → RuleDomain E rules key →
    ∃ i, s.domainMap.load key = some (.rule i)
  other : ∀ key, key ∉ directKeys E mainForwarders s.main → ¬ RuleDomain E rules key →
    s.domainMap.load key = none

variable {E : Env} {mainForwarders : List GoString} {mainStrategy : Strategy} {rules : List Config}
  {s : ProxyState}

/-- The tables of a built state: those of the rules, and the direct keys over
them. -/
theorem buildState_tables (hbuild : buildState E mainForwarders mainStrategy rules = .ok s) :
    s.domainMap =
        (ruleTables E rules).domainMap.storeAll (directKeys E mainForwarders s.main) .direct ∧
      s.ipMap = (ruleTables E rules).ipMap ∧ s.cidrMap = (ruleTables E rules).cidrMap := by
  unfold buildState at hbuild
  split at hbuild
  · cases hbuild
  split at hbuild
  · cases hbuild
  · split at hbuild
    · cases hbuild
    · obtain rfl := Except.ok.inj hbuild
      exact ⟨rfl, rfl, rfl⟩

theorem buildState_built (hbuild : buildState E mainForwarders mainStrategy rules = .ok s) :
    Built E mainForwarders rules s := by
  have hdomain := (buildState_tables hbuild).1
  have tables := load_rules (fun r => r.domain.map (toLower E.cases)) rules.zipIdx ∅
  rw [(ruleTables_maps E rules).1] at hdomain
  constructor
  · intro key hkey
    rw [hdomain, SyncMap.load_storeAll, if_pos hkey]
  · rintro key hkey ⟨r, hr, d, hd, rfl⟩
    rw [hdomain, SyncMap.load_storeAll, if_neg hkey]
    rcases tables (toLower E.cases d) with ⟨r', -, -, hload⟩ | ⟨hnone, -⟩
    · exact ⟨r'.2, hload⟩
    · rw [← List.zipIdx_map_fst 0 rules] at hr
      obtain ⟨r', hr', rfl⟩ := List.mem_map.mp hr
      exact absurd (List.mem_map_of_mem hd) (hnone r' hr')
  · intro key hkey hnot
    rw [hdomain, SyncMap.load_storeAll, if_neg hkey]
    rcases tables key with ⟨r, hr, hmem, -⟩ | ⟨-, hload⟩
    · obtain ⟨d, hd, rfl⟩ := List.mem_map.mp hmem
      exact absurd ⟨r.1, List.fst_mem_of_mem_zipIdx hr, d, hd, rfl⟩ hnot
    · exact hload

/-! ### Domains and the addresses learned for them -/

/-- **Learned routes.** After `AddDomainIP(d, ip)` the address goes the way of the
domain exactly when the shortest and the longest entry that match the domain belong
to one group. -/
theorem learned_route_iff (E : Env) (s : ProxyState) (d ipText port dst dst' : GoString)
    (ip : Addr) (hdst : splitHostPort dst = .ok (d, port)) (hname : parsed (parseAddr d) = none)
    (hdst' : splitHostPort dst' = .ok (ipText, port)) (hip : parsed (parseAddr ipText) = some ip)
    (hmatch : ∃ t ∈ labelSuffixes (toLower E.cases d), (s.domainMap.load t).isSome) :
    ∃ s', s.addDomainIP E d ip = some s' ∧ ∀ visit visit' : SyncMap.Visit s'.cidrMap,
      (s'.findDialer E visit dst' = s'.findDialer E visit' dst ↔
        (s.hits (toLower E.cases d)).head? = (s.hits (toLower E.cases d)).getLast?) := by
  obtain ⟨ipMap, hadd, hload⟩ := s.addDomainIP_eq E d ip
  refine ⟨_, hadd, fun visit visit' => ?_⟩
  obtain ⟨t, ht, hsome⟩ := hmatch
  obtain ⟨group, hgroup⟩ := Option.isSome_iff_exists.mp hsome
  have hmem : group ∈ s.hits (toLower E.cases d) := List.mem_filterMap.mpr ⟨t, ht, hgroup⟩
  obtain ⟨first, rest, hhits⟩ := List.exists_cons_of_ne_nil (List.ne_nil_of_mem hmem)
  have hname' : ProxyState.findDialer E { s with ipMap := ipMap } visit' dst = some first := by
    rw [ProxyState.findDialer_of_name E _ hdst hname]
    exact congrArg (fun l => some (l.head?.getD .main)) hhits
  obtain ⟨last, hlast⟩ : ∃ last, (first :: rest).getLast? = some last :=
    ⟨_, List.getLast?_eq_some_getLast (List.cons_ne_nil _ _)⟩
  rw [hhits, hlast, Option.some_or] at hload
  rw [hname', ProxyState.findDialer_of_rule E _ hdst' hip hload, hhits, hlast, List.head?_cons]
  exact eq_comm

/-! ### The hosts of main forwarders -/

/-- The first entry found decides, so an entry is found unless a shorter one is. -/
theorem findSome?_labelSuffixes {m : GoString → Option GroupRef} {name : GoString}
    {group : GroupRef} (h : (labelSuffixes name).findSome? m = some group) :
    ∃ t ∈ labelSuffixes name, m t = some group ∧
      ∀ u ∈ labelSuffixes name, (m u).isSome → t = u ∨ t.length < u.length := by
  obtain ⟨pre, t, post, hsplit, ht, hpre⟩ := List.findSome?_eq_some_iff.mp h
  have order := labelSuffixes_length_lt name
  rw [hsplit] at order
  refine ⟨t, hsplit ▸ by simp, ht, fun u hu hsome => ?_⟩
  rw [hsplit, List.mem_append, List.mem_cons] at hu
  rcases hu with hu | rfl | hu
  · rw [hpre u hu] at hsome
    cases hsome
  · exact Or.inl rfl
  · exact Or.inr (List.rel_of_pairwise_cons (List.pairwise_append.mp order).2.1 hu)

/-- `key` is a rule domain that `buildState` does not map to the direct group. -/
def RuleOnly (E : Env) (mainForwarders : List GoString) (rules : List Config) (main : GroupState)
    (key : GoString) : Prop :=
  RuleDomain E rules key ∧ key ∉ directKeys E mainForwarders main

variable {key : GoString}

theorem Built.load_ruleOnly (built : Built E mainForwarders rules s) :
    RuleOnly E mainForwarders rules s.main key ↔ ∃ i, s.domainMap.load key = some (.rule i) := by
  constructor
  · rintro ⟨hrule, hkey⟩
    exact built.rule key hkey hrule
  · rintro ⟨i, hload⟩
    have hkey : key ∉ directKeys E mainForwarders s.main := by
      intro hkey
      rw [built.direct key hkey] at hload
      cases hload
    by_contra hnot
    have hrule : ¬ RuleDomain E rules key := fun hrule => hnot ⟨hrule, hkey⟩
    rw [built.other key hkey hrule] at hload
    cases hload

theorem Built.load_direct (built : Built E mainForwarders rules s) :
    key ∈ directKeys E mainForwarders s.main ↔ s.domainMap.load key = some .direct := by
  constructor
  · exact built.direct key
  · intro hload
    by_contra hkey
    by_cases hrule : RuleDomain E rules key
    · obtain ⟨i, hi⟩ := built.rule key hkey hrule
      rw [hi] at hload
      cases hload
    · rw [built.other key hkey hrule] at hload
      cases hload

/-- The domain map never leads to the main group. -/
theorem Built.load_cases (built : Built E mainForwarders rules s) {group : GroupRef}
    (hload : s.domainMap.load key = some group) : group = .direct ∨ ∃ i, group = .rule i := by
  by_cases hkey : key ∈ directKeys E mainForwarders s.main
  · rw [built.direct key hkey] at hload
    exact Or.inl (Option.some.inj hload).symm
  · by_cases hrule : RuleDomain E rules key
    · obtain ⟨i, hi⟩ := built.rule key hkey hrule
      exact Or.inr ⟨i, Option.some.inj (hload.symm.trans hi)⟩
    · rw [built.other key hkey hrule] at hload
      cases hload

/-- The first hop of a forwarder's address. -/
def firstHop (f : Forwarder) : GoString := (split f.addr 44)[0]?.getD []

theorem directHost_of_ok {f : Forwarder} {host port : GoString}
    (h : splitHostPort (firstHop f) = .ok (host, port)) : directHost f.addr = host := by
  unfold firstHop at h
  rw [directHost, h]

theorem directHost_of_error {f : Forwarder} {e : AddrError}
    (h : splitHostPort (firstHop f) = .error e) : directHost f.addr = [] := by
  unfold firstHop at h
  rw [directHost, h]

theorem mem_directKeys {main : GroupState} :
    key ∈ directKeys E mainForwarders main ↔ key = ascii "direct" ∨
      (mainForwarders ≠ [] ∧ ∃ f ∈ main.forwarders,
        parsed (parseAddr (directHost f.addr)) = none ∧
          toLower E.cases (directHost f.addr) = key) := by
  unfold directKeys
  by_cases hmain : mainForwarders = []
  · simp [hmain]
  · simp [hmain, and_assoc]

/-- **Main forwarders are reached directly** exactly when every rule domain that
matches the host, and is not the host of a main forwarder itself, comes after a
shorter key of the direct group. -/
theorem forwarder_direct_iff (E : Env) (mainForwarders : List GoString) (mainStrategy : Strategy)
    (rules : List Config) (s : ProxyState)
    (hbuild : buildState E mainForwarders mainStrategy rules = .ok s)
    (hmain : mainForwarders ≠ []) (f : Forwarder) (hf : f ∈ s.main.forwarders)
    (host port : GoString) (hhop : splitHostPort (firstHop f) = .ok (host, port))
    (hname : parsed (parseAddr host) = none) (visit : SyncMap.Visit s.cidrMap) :
    s.findDialer E visit (firstHop f) = some .direct ↔
      ∀ t ∈ labelSuffixes (toLower E.cases host),
        RuleOnly E mainForwarders rules s.main t →
        ∃ u ∈ labelSuffixes (toLower E.cases host),
          u ∈ directKeys E mainForwarders s.main ∧ u.length < t.length := by
  have built := buildState_built hbuild
  have hkey : toLower E.cases host ∈ directKeys E mainForwarders s.main := by
    exact mem_directKeys.mpr (Or.inr ⟨hmain, f, hf, by rwa [directHost_of_ok hhop],
      by rw [directHost_of_ok hhop]⟩)
  have hself : toLower E.cases host ∈ labelSuffixes (toLower E.cases host) :=
    mem_labelSuffixes.mpr (Or.inl rfl)
  obtain ⟨group, hgroup⟩ : ∃ group,
      (labelSuffixes (toLower E.cases host)).findSome? s.domainMap.load = some group := by
    rw [← Option.isSome_iff_exists, List.findSome?_isSome_iff]
    exact ⟨_, hself, by simp [built.direct _ hkey]⟩
  obtain ⟨t, ht, hload, first⟩ := findSome?_labelSuffixes hgroup
  rw [s.findDialer_of_name E hhop hname, ProxyState.hits, List.head?_filterMap, hgroup]
  simp only [Option.getD_some, Option.some.injEq]
  constructor
  · rintro rfl u hu honly
    obtain ⟨i, hi⟩ := built.load_ruleOnly.mp honly
    rcases first u hu (by simp [hi]) with rfl | hlt
    · rw [hload] at hi
      cases hi
    · exact ⟨t, ht, built.load_direct.mpr hload, hlt⟩
  · intro shorter
    rcases built.load_cases hload with rfl | ⟨i, rfl⟩
    · rfl
    · obtain ⟨u, hu, hdirect, hlt⟩ := shorter t ht (built.load_ruleOnly.mpr ⟨i, hload⟩)
      rcases first u hu (by simp [built.direct u hdirect]) with rfl | hlt'
      · exact absurd hlt (Nat.lt_irrefl _)
      · exact absurd hlt (Nat.lt_asymm hlt')

/-! ### Label-aligned matching -/

/-- The host name of a main forwarder: its first hop is `host:port`, and the host
is not an address. -/
def HostName (f : Forwarder) (host : GoString) : Prop :=
  ∃ port, splitHostPort (firstHop f) = .ok (host, port) ∧ parsed (parseAddr host) = none

/-- The names that are meant to route: the domains of the rules, the host names of
the main forwarders, and `direct`. -/
def RoutingName (mainForwarders : List GoString) (rules : List Config) (main : GroupState)
    (name : GoString) : Prop :=
  (∃ r ∈ rules, name ∈ r.domain) ∨
    (mainForwarders ≠ [] ∧ ∃ f ∈ main.forwarders, HostName f name) ∨ name = ascii "direct"

/-- A routing name equals the host, or the part of it after one of its dots,
whatever the case. -/
def Matched (E : Env) (mainForwarders : List GoString) (rules : List Config) (main : GroupState)
    (host : GoString) : Prop :=
  ∃ name, RoutingName mainForwarders rules main name ∧
    ∃ t, (t = host ∨ ∃ pre, host = pre ++ dot :: t) ∧ toLower E.cases name = toLower E.cases t

/-- Some main forwarder has an address that does not split, such as `DIRECT`,
`REJECT` or a socket path. -/
def Hostless (mainForwarders : List GoString) (main : GroupState) : Prop :=
  mainForwarders ≠ [] ∧ ∃ f ∈ main.forwarders, ∃ e, splitHostPort (firstHop f) = .error e

theorem toLower_direct (T : CaseTable) : toLower T (ascii "direct") = ascii "direct" := rfl

/-- The keys of the domain map are the routing names in lower case, and the empty
key of a main forwarder without a host. -/
theorem key_iff {main : GroupState} :
    key ∈ directKeys E mainForwarders main ∨ RuleDomain E rules key ↔
      (∃ name, RoutingName mainForwarders rules main name ∧ toLower E.cases name = key) ∨
        (Hostless mainForwarders main ∧ key = []) := by
  constructor
  · rintro (hkey | ⟨r, hr, d, hd, rfl⟩)
    · rcases mem_directKeys.mp hkey with rfl | ⟨hmain, f, hf, hname, rfl⟩
      · exact Or.inl ⟨_, Or.inr (Or.inr rfl), toLower_direct E.cases⟩
      · cases hhop : splitHostPort (firstHop f) with
        | ok hostport =>
          rw [directHost_of_ok hhop] at hname ⊢
          exact Or.inl ⟨_, Or.inr (Or.inl ⟨hmain, f, hf, _, hhop, hname⟩), rfl⟩
        | error e =>
          rw [directHost_of_error hhop]
          exact Or.inr ⟨⟨hmain, f, hf, e, hhop⟩, rfl⟩
    · exact Or.inl ⟨d, Or.inl ⟨r, hr, hd⟩, rfl⟩
  · rintro (⟨name, ⟨r, hr, hd⟩ | ⟨hmain, f, hf, port, hhop, hname⟩ | rfl, rfl⟩ |
      ⟨⟨hmain, f, hf, e, hhop⟩, rfl⟩)
    · exact Or.inr ⟨r, hr, name, hd, rfl⟩
    · refine Or.inl (mem_directKeys.mpr (Or.inr ⟨hmain, f, hf, ?_, ?_⟩))
      · rwa [directHost_of_ok hhop]
      · rw [directHost_of_ok hhop]
    · exact Or.inl (mem_directKeys.mpr (Or.inl (toLower_direct E.cases)))
    · refine Or.inl (mem_directKeys.mpr (Or.inr ⟨hmain, f, hf, ?_, ?_⟩))
      · rw [directHost_of_error hhop]
        rfl
      · rw [directHost_of_error hhop]
        rfl

/-- A name is routed away from the main group exactly when a routing name matches
it, or when it has an empty last label and a main forwarder has no host. -/
theorem findDialer_ne_main (built : Built E mainForwarders rules s) {dst host port : GoString}
    (hdst : splitHostPort dst = .ok (host, port)) (hname : parsed (parseAddr host) = none)
    (visit : SyncMap.Visit s.cidrMap) :
    s.findDialer E visit dst ≠ some .main ↔
      Matched E mainForwarders rules s.main host ∨
        (Hostless mainForwarders s.main ∧ (host = [] ∨ ∃ pre, host = pre ++ [dot])) := by
  have hkeys : s.findDialer E visit dst ≠ some .main ↔
      ∃ t ∈ labelSuffixes host, toLower E.cases t ∈ directKeys E mainForwarders s.main ∨
        RuleDomain E rules (toLower E.cases t) := by
    rw [s.findDialer_of_name E hdst hname, ProxyState.hits, List.head?_filterMap,
      labelSuffixes_toLower, List.findSome?_map]
    constructor
    · intro hne
      cases hfind : (labelSuffixes host).findSome? (s.domainMap.load ∘ toLower E.cases) with
      | none => simp [hfind] at hne
      | some group =>
        obtain ⟨t, ht, hload⟩ := List.exists_of_findSome?_eq_some hfind
        refine ⟨t, ht, ?_⟩
        by_contra hnot
        rw [not_or] at hnot
        rw [Function.comp_apply, built.other _ hnot.1 hnot.2] at hload
        cases hload
    · rintro ⟨t, ht, hkey⟩
      cases hfind : (labelSuffixes host).findSome? (s.domainMap.load ∘ toLower E.cases) with
      | none =>
        have hnone := List.findSome?_eq_none_iff.mp hfind t ht
        rw [Function.comp_apply] at hnone
        by_cases hdirect : toLower E.cases t ∈ directKeys E mainForwarders s.main
        · rw [built.direct _ hdirect] at hnone
          cases hnone
        · obtain ⟨i, hi⟩ := built.rule _ hdirect (hkey.resolve_left hdirect)
          rw [hi] at hnone
          cases hnone
      | some group =>
        obtain ⟨u, -, hload⟩ := List.exists_of_findSome?_eq_some hfind
        rcases built.load_cases hload with rfl | ⟨i, rfl⟩
        · simp
        · simp
  rw [hkeys]
  constructor
  · rintro ⟨t, ht, hkey⟩
    rcases key_iff.mp hkey with ⟨name, hrouting, heq⟩ | ⟨hostless, hnil⟩
    · exact Or.inl ⟨name, hrouting, t, mem_labelSuffixes.mp ht, heq⟩
    · obtain rfl := toLower_eq_nil.mp hnil
      refine Or.inr ⟨hostless, ?_⟩
      simpa [eq_comm] using mem_labelSuffixes.mp ht
  · rintro (⟨name, hrouting, t, ht, heq⟩ | ⟨hostless, hempty⟩)
    · exact ⟨t, mem_labelSuffixes.mpr ht, key_iff.mpr (Or.inl ⟨name, hrouting, heq⟩)⟩
    · refine ⟨[], mem_labelSuffixes.mpr ?_, key_iff.mpr (Or.inr ⟨hostless, rfl⟩)⟩
      simpa [eq_comm] using hempty

/-- **Label-aligned matching.** The search for a name ends, and it leaves the main
group only for a routing name that is the name or the part of it after a dot — unless
the name is empty or ends with a dot, some main forwarder has no host, and nothing
matches. -/
theorem domain_match_iff (E : Env) (mainForwarders : List GoString) (mainStrategy : Strategy)
    (rules : List Config) (s : ProxyState)
    (hbuild : buildState E mainForwarders mainStrategy rules = .ok s) (dst host port : GoString)
    (hdst : splitHostPort dst = .ok (host, port)) (hname : parsed (parseAddr host) = none)
    (visit : SyncMap.Visit s.cidrMap) :
    (∀ fuel > (toLower E.cases host).length,
        s.searchHost fuel (toLower E.cases host) = s.findDialer E visit dst) ∧
      (s.findDialer E visit dst).isSome ∧
      (((s.findDialer E visit dst ≠ some .main → Matched E mainForwarders rules s.main host) ∧
          (¬ Matched E mainForwarders rules s.main host → s.findDialer E visit dst = some .main)) ↔
        ¬ (Hostless mainForwarders s.main ∧ (host = [] ∨ ∃ pre, host = pre ++ [dot]) ∧
          ¬ Matched E mainForwarders rules s.main host)) := by
  have hfind : s.findDialer E visit dst = _ := s.findDialer_of_name E hdst hname
  refine ⟨fun fuel hfuel => ?_, ?_, ?_⟩
  · rw [s.searchHost_eq hfuel, hfind]
  · rw [hfind]
    rfl
  · have hmain := findDialer_ne_main (buildState_built hbuild) hdst hname visit
    constructor
    · rintro ⟨only, -⟩ ⟨hostless, hempty, hnot⟩
      exact hnot (only (hmain.mpr (Or.inr ⟨hostless, hempty⟩)))
    · intro hcond
      have only : s.findDialer E visit dst ≠ some .main →
          Matched E mainForwarders rules s.main host := by
        intro hne
        rcases hmain.mp hne with hmatched | ⟨hostless, hempty⟩
        · exact hmatched
        · by_contra hnot
          exact hcond ⟨hostless, hempty, hnot⟩
      exact ⟨only, fun hnot => by_contra fun hne => hnot (only hne)⟩

/-! ### Prefixes -/

/-- No rule lists the address. -/
def NoAddrRule (rules : List Config) (ip : Addr) : Prop :=
  ∀ r ∈ rules, ∀ text ∈ r.ip, parsed (parseAddr text) ≠ some ip

theorem load_ipMap_of_noAddrRule (hbuild : buildState E mainForwarders mainStrategy rules = .ok s)
    {ip : Addr} (norule : NoAddrRule rules ip) : s.ipMap.load ip = none := by
  rw [(buildState_tables hbuild).2.1, (ruleTables_maps E rules).2]
  rcases load_rules (fun r => r.ip.filterMap fun s => parsed (parseAddr s)) rules.zipIdx ∅ ip with
    ⟨r, hr, hmem, -⟩ | ⟨-, hload⟩
  · obtain ⟨text, htext, hparse⟩ := List.mem_filterMap.mp hmem
    exact absurd hparse (norule r.1 (List.fst_mem_of_mem_zipIdx hr) text htext)
  · exact hload

/-- An address without an exact rule goes to the first prefix that contains it, and
is treated like a name when there is none. -/
theorem findDialer_of_addr (E : Env) (s : ProxyState) {dst host port : GoString} {ip : Addr}
    (hdst : splitHostPort dst = .ok (host, port)) (hip : parsed (parseAddr host) = some ip)
    (hload : s.ipMap.load ip = none) (visit : SyncMap.Visit s.cidrMap) :
    s.findDialer E visit dst =
      (visit.first fun cidr => cidr.contains ip).or
        (s.searchHost ((toLower E.cases host).length + 1) (toLower E.cases host)) := by
  simp only [ProxyState.findDialer, hdst, hip, Option.bind_some, ProxyState.findAddr, hload]
  cases visit.first fun cidr => cidr.contains ip with
  | none => rfl
  | some group => rfl

/-- **Prefix order.** An address without an exact rule is routed the same way in
every order of the prefix map exactly when all prefixes that contain it belong to one
group. -/
theorem cidr_order_iff (E : Env) (mainForwarders : List GoString) (mainStrategy : Strategy)
    (rules : List Config) (s : ProxyState)
    (hbuild : buildState E mainForwarders mainStrategy rules = .ok s) (dst host port : GoString)
    (ip : Addr) (hdst : splitHostPort dst = .ok (host, port))
    (hip : parsed (parseAddr host) = some ip) (norule : NoAddrRule rules ip) :
    (∀ visit visit' : SyncMap.Visit s.cidrMap,
        s.findDialer E visit dst = s.findDialer E visit' dst) ↔
      ∀ cidr cidr' group group', s.cidrMap.load cidr = some group →
        s.cidrMap.load cidr' = some group' → cidr.contains ip = true →
        cidr'.contains ip = true → group = group' := by
  have hload := load_ipMap_of_noAddrRule hbuild norule
  simp only [findDialer_of_addr E s hdst hip hload]
  exact SyncMap.first_or_eq_iff _

/-! ### Where the tables and the expectations part -/

/-- An environment with one protocol, `http`, whose creator takes `u.Host` of a URL that
is just `http://host:port`. -/
def httpEnv : Env where
  cases := CaseTable.none
  sorter := Sorter.insertion
  interfaceByName _ := false
  dialerCreators scheme := if scheme = ascii "http" then some fun s _ => .ok (s.drop 7) else none

/-- With one rule that matches, the address follows the domain. -/
theorem learned_route_single_rule :
    ∃ s : ProxyState, buildState httpEnv [] {} [{ domain := [ascii "Example.com"] }] = .ok s ∧
      ∃ s', s.addDomainIP httpEnv (ascii "www.example.com") (.v4 0x01020304) = some s' ∧
        ∀ visit visit' : SyncMap.Visit s'.cidrMap,
          s'.findDialer httpEnv visit (ascii "1.2.3.4:80") =
            s'.findDialer httpEnv visit' (ascii "www.example.com:80") := by
  obtain ⟨s, hbuild, hload, hhits⟩ : ∃ s : ProxyState,
      buildState httpEnv [] {} [{ domain := [ascii "Example.com"] }] = .ok s ∧
        (s.domainMap.load (ascii "example.com")).isSome ∧
        s.hits (toLower httpEnv.cases (ascii "www.example.com")) = [.rule 0] :=
    ⟨_, rfl, by decide, by decide⟩
  obtain ⟨s', hadd, hroute⟩ := learned_route_iff httpEnv s (ascii "www.example.com")
    (ascii "1.2.3.4") (ascii "80") (ascii "www.example.com:80") (ascii "1.2.3.4:80")
    (.v4 0x01020304) (by decide) (by decide) (by decide) (by decide)
    ⟨ascii "example.com", by decide, hload⟩
  exact ⟨s, hbuild, s', hadd, fun visit visit' => (hroute visit visit').mpr (by rw [hhits]; rfl)⟩

/-- The rules `com` and `example.com`: the name goes to the first, the address learned
for it to the second. -/
theorem learned_route_differs :
    ∃ s s' : ProxyState,
      buildState httpEnv [] {}
          [{ domain := [ascii "com"] }, { domain := [ascii "example.com"] }] = .ok s ∧
        s.addDomainIP httpEnv (ascii "example.com") (.v4 0x01020304) = some s' ∧
        s'.findDialer httpEnv (SyncMap.Visit.stored _) (ascii "example.com:80") =
          some (.rule 0) ∧
        s'.findDialer httpEnv (SyncMap.Visit.stored _) (ascii "1.2.3.4:80") = some (.rule 1) :=
  ⟨_, _, rfl, rfl, by decide, by decide⟩

/-- A rule for a longer name does not come between a main forwarder and its host. -/
theorem forwarder_direct_longer_rule :
    ∃ s : ProxyState, buildState httpEnv [ascii "http://proxy.example.com:8080"] {}
        [{ domain := [ascii "a.proxy.example.com"] }] = .ok s ∧
      ∀ visit, s.findDialer httpEnv visit (ascii "proxy.example.com:8080") = some .direct := by
  obtain ⟨s, hbuild, f, hf, haddr⟩ : ∃ s : ProxyState,
      buildState httpEnv [ascii "http://proxy.example.com:8080"] {}
          [{ domain := [ascii "a.proxy.example.com"] }] = .ok s ∧
        ∃ f ∈ s.main.forwarders, f.addr = ascii "proxy.example.com:8080" :=
    ⟨_, rfl, _, List.mem_cons_self, rfl⟩
  have hhop : firstHop f = ascii "proxy.example.com:8080" := by
    rw [firstHop, haddr]
    decide
  refine ⟨s, hbuild, fun visit => ?_⟩
  rw [← hhop, forwarder_direct_iff httpEnv [ascii "http://proxy.example.com:8080"] {}
    [{ domain := [ascii "a.proxy.example.com"] }] s hbuild (by decide) f hf
    (ascii "proxy.example.com") (ascii "8080") (by rw [hhop]; decide) (by decide) visit]
  rintro t ht ⟨⟨r, hr, d, hd, rfl⟩, -⟩
  obtain rfl := List.mem_singleton.mp hr
  obtain rfl := List.mem_singleton.mp hd
  exact absurd ht (by decide)

/-- The rule domain `com` catches the host of the main forwarder. -/
theorem forwarder_routed_by_rule :
    ∃ s : ProxyState, buildState httpEnv [ascii "http://proxy.example.com:8080"] {}
        [{ domain := [ascii "com"] }] = .ok s ∧
      s.findDialer httpEnv (SyncMap.Visit.stored _) (ascii "proxy.example.com:8080") =
        some (.rule 0) :=
  ⟨_, rfl, by decide⟩

/-- Without main forwarders a name with a trailing dot stays with the main group. -/
theorem domain_match_no_forwarders :
    ∃ s : ProxyState, buildState httpEnv [] {} [] = .ok s ∧ ∀ visit,
      (s.findDialer httpEnv visit (ascii "example.com.:80") ≠ some .main →
        Matched httpEnv [] [] s.main (ascii "example.com.")) := by
  obtain ⟨s, hbuild⟩ : ∃ s : ProxyState, buildState httpEnv [] {} [] = .ok s := ⟨_, rfl⟩
  refine ⟨s, hbuild, fun visit => ?_⟩
  have hmatch := (domain_match_iff httpEnv [] {} [] s hbuild (ascii "example.com.:80")
    (ascii "example.com.") (ascii "80") (by decide) (by decide) visit).2.2.mpr
  exact (hmatch fun hcond => hcond.1.1 rfl).1

/-- With the main forwarder `reject://` a name with a trailing dot goes to the direct
group, although nothing matches it. -/
theorem trailing_dot_goes_direct :
    ∃ s : ProxyState, buildState httpEnv [ascii "reject://"] {} [] = .ok s ∧
      s.findDialer httpEnv (SyncMap.Visit.stored _) (ascii "example.com.:80") = some .direct ∧
      ¬ Matched httpEnv [ascii "reject://"] [] s.main (ascii "example.com.") := by
  obtain ⟨s, hbuild, hfind, hmain⟩ : ∃ s : ProxyState,
      buildState httpEnv [ascii "reject://"] {} [] = .ok s ∧
        s.findDialer httpEnv (SyncMap.Visit.stored _) (ascii "example.com.:80") = some .direct ∧
        ∀ f ∈ s.main.forwarders, f.addr = ascii "REJECT" :=
    ⟨_, rfl, by decide, by decide⟩
  refine ⟨s, hbuild, hfind, ?_⟩
  rintro ⟨name, ⟨r, hr, -⟩ | ⟨-, f, hf, port, hhop, -⟩ | rfl, t, ht, heq⟩
  · cases hr
  · rw [firstHop, hmain f hf] at hhop
    cases hhop
  · have hsuffix := mem_labelSuffixes.mpr ht
    have hnone : ∀ t ∈ labelSuffixes (ascii "example.com."),
        toLower httpEnv.cases (ascii "direct") ≠ toLower httpEnv.cases t := by decide
    exact hnone t hsuffix heq

/-- Disjoint prefixes leave nothing to the order. -/
theorem cidr_order_disjoint :
    ∃ s : ProxyState, buildState httpEnv [] {}
        [{ cidr := [ascii "10.0.0.0/8"] }, { cidr := [ascii "192.168.0.0/16"] }] = .ok s ∧
      ∀ visit visit' : SyncMap.Visit s.cidrMap,
        s.findDialer httpEnv visit (ascii "10.1.2.3:80") =
          s.findDialer httpEnv visit' (ascii "10.1.2.3:80") := by
  obtain ⟨s, hbuild, hpairs⟩ : ∃ s : ProxyState, buildState httpEnv [] {}
      [{ cidr := [ascii "10.0.0.0/8"] }, { cidr := [ascii "192.168.0.0/16"] }] = .ok s ∧
        ∀ e ∈ s.cidrMap.pairs, e.1.contains (.v4 0x0a010203) = true → e.2 = .rule 0 :=
    ⟨_, rfl, by decide⟩
  refine ⟨s, hbuild, (cidr_order_iff httpEnv [] {}
    [{ cidr := [ascii "10.0.0.0/8"] }, { cidr := [ascii "192.168.0.0/16"] }] s hbuild
    (ascii "10.1.2.3:80") (ascii "10.1.2.3") (ascii "80") (.v4 0x0a010203) (by decide) (by decide)
    (by unfold NoAddrRule; decide)).mpr ?_⟩
  intro cidr cidr' group group' hload hload' hin hin'
  have hgroup := hpairs _ (SyncMap.mem_pairs.mpr hload) hin
  have hgroup' := hpairs _ (SyncMap.mem_pairs.mpr hload') hin'
  exact hgroup.trans hgroup'.symm

/-- Two prefixes of different rules that contain the address, visited in both
orders. -/
theorem cidr_order_matters :
    ∃ s : ProxyState, buildState httpEnv [] {}
        [{ cidr := [ascii "10.0.0.0/8"] }, { cidr := [ascii "10.1.0.0/16"] }] = .ok s ∧
      ∃ visit visit' : SyncMap.Visit s.cidrMap,
        s.findDialer httpEnv visit (ascii "10.1.2.3:80") = some (.rule 0) ∧
        s.findDialer httpEnv visit' (ascii "10.1.2.3:80") = some (.rule 1) :=
  ⟨_, rfl, ⟨_, List.reverse_perm _⟩, SyncMap.Visit.stored _, by decide, by decide⟩

end Glider.Rule
