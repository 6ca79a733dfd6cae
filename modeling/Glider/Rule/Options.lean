/-
The options of a forwarder (`rule/forward.go`): what comes after the first `#` of a forward URL.

`parseOption` reports a query that does not parse and a priority that is not a number, but
`ForwarderFromURL` overwrites its error with that of the next call. So malformed options are
accepted, with whatever `parseOption` has left in the forwarder: no priority, or the largest one.

* `optionError_iff` — the options `parseOption` complains about.
* `forwarderFromURL_of_builds` — a forwarder is built if its dialers are, whatever the options.
* `buildState_error`, `reload_error` — an error of one forwarder keeps a configuration from being
  published.
* `rejects_iff` — malformed options are rejected exactly if the dialers fail anyway.
-/

import Glider.Rule.Routing

namespace Glider.Rule

open Glider.Go

/-! ### Options and chains -/

/-- The options of a forward URL, if it has any. -/
def optionPart (s : GoString) : Option GoString := (split s 35)[1]?

/-- The error of `parseOption` in `ForwarderFromURL`. -/
def optionError (s : GoString) : Option OptionError :=
  (optionPart s).bind fun option => (parseOption { url := s } option).2

/-- The forwarder after `parseOption`. -/
def withOptions (s : GoString) : Forwarder :=
  match optionPart s with
  | some option => (parseOption { url := s } option).1
  | none => { url := s }

/-- The interface of the direct dialer. -/
def dialInterface (s intface : GoString) : GoString :=
  if (withOptions s).intface ≠ [] ∧ (withOptions s).intface ≠ intface then (withOptions s).intface
  else intface

/-- The dialers of the chain can be created. -/
def ChainBuilds (E : Env) (s intface : GoString) : Prop :=
  ∃ d hops, newDirect E (dialInterface s intface) = .ok d ∧
    (split ((split s 35)[0]?.getD []) 44).foldlM (addHop E) (d, []) = .ok hops

/-- The text of the priority among the options. -/
def priorityText (option : GoString) : GoString :=
  Values.get (parseQuery option).1 (ascii "priority")

/-- Options that do not parse, or with a priority that is not a decimal number below `2 ^ 32`. -/
def Malformed (s : GoString) : Prop :=
  ∃ option ∈ optionPart s, (parseQuery option).2 ≠ none ∨
    priorityText option ≠ [] ∧ ∀ n, decimal (priorityText option) = some n → 4294967296 ≤ n

/-- The URL asks for the priority `n`, or for none and `n` is zero. -/
def AsksPriority (s : GoString) (n : Nat) : Prop :=
  optionPart s = none ∧ n = 0 ∨ ∃ option ∈ optionPart s, (parseQuery option).2 = none ∧
    (priorityText option = [] ∧ n = 0 ∨ decimal (priorityText option) = some n)

/-- Where the URL stands in a configuration, with the interface that goes with it. -/
def Configured (s intface : GoString) (mainForwarders : List GoString) (mainStrategy : Strategy)
    (rules : List Config) : Prop :=
  s ∈ mainForwarders ∧ mainStrategy.intFace = intface ∨
    ∃ r ∈ rules, s ∈ r.forward ∧ r.strategy.intFace = intface

section Options

variable {E : Env} {s intface : GoString}

theorem parseOption_query_error {f : Forwarder} {option : GoString} {e : QueryError}
    (h : (parseQuery option).2 = some e) : parseOption f option = (f, some (.query e)) := by
  unfold parseOption
  cases hquery : parseQuery option with
  | mk query err =>
    rw [hquery] at h
    cases h
    rfl

/-- Options of a query that parses. -/
theorem parseOption_query {f : Forwarder} {option : GoString} (h : (parseQuery option).2 = none) :
    (parseOption f option).1.priority =
        UInt32.ofNat
          (if priorityText option ≠ [] then (parseUint32 (priorityText option)).1 else 0) ∧
      ((parseOption f option).2 = none ↔
        priorityText option = [] ∨ (parseUint32 (priorityText option)).2 = none) := by
  unfold parseOption priorityText
  cases hquery : parseQuery option with
  | mk query err =>
    rw [hquery] at h
    cases h
    dsimp only
    by_cases hp : query.get (ascii "priority") = []
    · simp [hp]
    · simp [hp]

/-- **The options `parseOption` complains about.** -/
theorem optionError_iff : optionError s ≠ none ↔ Malformed s := by
  unfold optionError Malformed
  cases hpart : optionPart s with
  | none => simp
  | some option =>
    rw [Option.bind_some]
    have hmem : ∀ P : GoString → Prop, (∃ o ∈ some option, P o) ↔ P option := by simp
    rw [hmem]
    cases hquery : (parseQuery option).2 with
    | some e =>
      rw [parseOption_query_error hquery]
      simp
    | none =>
      rw [ne_eq, (parseOption_query hquery).2, parseUint32_eq_none]
      simp only [ne_eq, not_true, false_or, not_or, not_exists, not_and, Nat.not_lt]

/-- Well-formed options give the priority they ask for. -/
theorem asksPriority_withOptions (h : ¬ Malformed s) :
    AsksPriority s (withOptions s).priority.toNat := by
  unfold Malformed at h
  unfold AsksPriority withOptions
  cases hpart : optionPart s with
  | none => exact .inl ⟨rfl, rfl⟩
  | some option =>
    have hquery : (parseQuery option).2 = none := by
      by_contra hbad
      exact h ⟨option, hpart, .inl hbad⟩
    refine .inr ⟨option, rfl, hquery, ?_⟩
    dsimp only
    rw [(parseOption_query hquery).1]
    by_cases htext : priorityText option = []
    · exact .inl ⟨htext, by rw [if_neg (not_not.mpr htext)]; rfl⟩
    · obtain ⟨n, hn, hlt⟩ : ∃ n, decimal (priorityText option) = some n ∧ n < 4294967296 := by
        by_contra hbad
        refine h ⟨option, hpart, .inr ⟨htext, fun n hn => ?_⟩⟩
        exact Nat.le_of_not_lt fun hlt => hbad ⟨n, hn, hlt⟩
      right
      rw [if_pos htext, parseUint32_eq.mpr ⟨hn, hlt⟩, hn]
      exact congrArg some (UInt32.toNat_ofNat_of_lt' hlt).symm

theorem forwarderFromURL_eq (E : Env) (s intface : GoString) :
    forwarderFromURL E s intface =
      match newDirect E (dialInterface s intface) with
      | .error e => .error e
      | .ok d =>
        match (split ((split s 35)[0]?.getD []) 44).foldlM (addHop E) (d, []) with
        | .error e => .error e
        | .ok (_, addrs) => .ok { withOptions s with addr := join addrs 44, disabled := 1 } := rfl

/-- **Only the dialers matter.** -/
theorem forwarderFromURL_of_builds (h : ChainBuilds E s intface) :
    ∃ addr, forwarderFromURL E s intface =
      .ok { withOptions s with addr := addr, disabled := 1 } := by
  obtain ⟨d, ⟨last, addrs⟩, hdirect, hchain⟩ := h
  refine ⟨join addrs 44, ?_⟩
  rw [forwarderFromURL_eq, hdirect]
  dsimp only
  rw [hchain]

/-- A forwarder that is built has its dialers, and the priority `parseOption` has left. -/
theorem builds_of_forwarderFromURL {f : Forwarder} (h : forwarderFromURL E s intface = .ok f) :
    ChainBuilds E s intface ∧ f.priority = (withOptions s).priority := by
  rw [forwarderFromURL_eq] at h
  unfold ChainBuilds
  split at h
  · cases h
  · rename_i d hdirect
    split at h <;> cases h
    rename_i hops hchain
    exact ⟨⟨d, _, hdirect, hchain⟩, rfl⟩

end Options

/-! ### Errors of a forwarder -/

/-- An error of one element is one of the whole list. -/
theorem mapM_error {α β ε : Type} {f : α → Except ε β} : ∀ {xs : List α} {x : α}, x ∈ xs →
    (∃ e, f x = .error e) → ∃ e, xs.mapM f = .error e
  | y :: ys, x, hmem, herr => by
    rw [List.mapM_cons]
    cases hy : f y with
    | error e => exact ⟨e, rfl⟩
    | ok b =>
      rcases List.mem_cons.mp hmem with rfl | hmem
      · obtain ⟨e, he⟩ := herr
        rw [he] at hy
        cases hy
      · obtain ⟨e, he⟩ := mapM_error hmem herr
        exact ⟨e, by rw [he]; rfl⟩

section Errors

variable {E : Env} {s intface : GoString}

theorem newGroup_error (herr : ∃ e, forwarderFromURL E s intface = .error e) (rulePath : GoString)
    {urls : List GoString} {c : Strategy} (hs : s ∈ urls) (hc : c.intFace = intface) :
    ∃ e, newGroup E rulePath urls c = .error e := by
  obtain ⟨e, he⟩ : ∃ e, groupForwarders E c urls = .error e := by
    apply mapM_error hs
    obtain ⟨e, he⟩ := herr
    exact ⟨e, by rw [hc, he]⟩
  exact ⟨e, by rw [newGroup, he]⟩

/-- **One forwarder with an error** is enough for `buildState` to fail. -/
theorem buildState_error (herr : ∃ e, forwarderFromURL E s intface = .error e)
    {mainForwarders : List GoString} {mainStrategy : Strategy} {rules : List Config}
    (hin : Configured s intface mainForwarders mainStrategy rules) :
    ∃ e, buildState E mainForwarders mainStrategy rules = .error e := by
  unfold buildState
  cases hmain : newGroup E (ascii "main") mainForwarders mainStrategy with
  | error e => exact ⟨_, rfl⟩
  | ok main =>
    dsimp only
    rcases hin with ⟨hs, hc⟩ | ⟨r, hr, hs, hc⟩
    · obtain ⟨e, he⟩ := newGroup_error herr (ascii "main") hs hc
      rw [he] at hmain
      cases hmain
    · obtain ⟨e, he⟩ : ∃ e, ruleGroups E rules = .error e := by
        apply mapM_error hr
        obtain ⟨e, he⟩ := newGroup_error herr r.rulePath hs hc
        exact ⟨_, by rw [he]⟩
      exact ⟨e, by rw [he]⟩

/-- Then nothing is published. -/
theorem reload_error (herr : ∃ e, forwarderFromURL E s intface = .error e)
    (warmCheck : ProxyState → ProxyState) (p : Proxy) {mainForwarders : List GoString}
    {mainStrategy : Strategy} {rules : List Config}
    (hin : Configured s intface mainForwarders mainStrategy rules) :
    ∃ e, p.reload E warmCheck mainForwarders mainStrategy rules = (p, some e) := by
  obtain ⟨e, he⟩ := buildState_error herr hin
  exact ⟨e, by rw [Proxy.reload, he]⟩

end Errors

/-! ### Malformed options -/

/-- What is expected of malformed options: they are an error of `ForwarderFromURL`, such an error
keeps a configuration that has the URL from being published, and a forwarder has no other priority
than the one asked for. -/
structure RejectsMalformed (E : Env) (s intface : GoString) : Prop where
  forwarder : optionError s ≠ none → ChainBuilds E s intface →
    ∃ e, forwarderFromURL E s intface = .error e
  group : (∃ e, forwarderFromURL E s intface = .error e) →
    ∀ rulePath urls c, s ∈ urls → c.intFace = intface → ∃ e, newGroup E rulePath urls c = .error e
  build : (∃ e, forwarderFromURL E s intface = .error e) →
    ∀ mainForwarders mainStrategy rules, Configured s intface mainForwarders mainStrategy rules →
      ∃ e, buildState E mainForwarders mainStrategy rules = .error e
  reload : (∃ e, forwarderFromURL E s intface = .error e) →
    ∀ warmCheck p mainForwarders mainStrategy rules,
      Configured s intface mainForwarders mainStrategy rules →
      ∃ e, Proxy.reload E warmCheck p mainForwarders mainStrategy rules = (p, some e)
  priority : ∀ f, forwarderFromURL E s intface = .ok f → AsksPriority s f.priority.toNat

theorem not_rejects {E : Env} {s intface : GoString} (herr : optionError s ≠ none)
    (hbuilds : ChainBuilds E s intface) : ¬ RejectsMalformed E s intface := by
  intro h
  obtain ⟨addr, hok⟩ := forwarderFromURL_of_builds hbuilds
  obtain ⟨e, he⟩ := h.forwarder herr hbuilds
  rw [hok] at he
  cases he

/-- **Malformed options are rejected** exactly if the dialers of the chain fail anyway. -/
theorem rejects_iff (E : Env) (s intface : GoString) :
    RejectsMalformed E s intface ↔ ¬ (Malformed s ∧ ChainBuilds E s intface) := by
  constructor
  · rintro h ⟨hmalformed, hbuilds⟩
    exact not_rejects (optionError_iff.mpr hmalformed) hbuilds h
  · intro hnot
    constructor
    · intro herr hbuilds
      exact absurd ⟨optionError_iff.mp herr, hbuilds⟩ hnot
    · intro herr rulePath urls c hs hc
      exact newGroup_error herr rulePath hs hc
    · intro herr mainForwarders mainStrategy rules hin
      exact buildState_error herr hin
    · intro herr warmCheck p mainForwarders mainStrategy rules hin
      exact reload_error herr warmCheck p hin
    · intro f hok
      obtain ⟨hbuilds, hpriority⟩ := builds_of_forwarderFromURL hok
      rw [hpriority]
      exact asksPriority_withOptions fun hmalformed => hnot ⟨hmalformed, hbuilds⟩

/-- A priority of `2 ^ 32` becomes the largest one, and the configuration is published. -/
theorem huge_priority_published :
    optionError (ascii "http://a:1#priority=4294967296") = some (.priority .rangeError) ∧
      ChainBuilds httpEnv (ascii "http://a:1#priority=4294967296") [] ∧
      (forwarderFromURL httpEnv (ascii "http://a:1#priority=4294967296") []).map
        Forwarder.priority = .ok 4294967295 ∧
      (Proxy.reload httpEnv id ⟨none⟩ [ascii "http://a:1#priority=4294967296"] {} []).2 = none ∧
      ¬ RejectsMalformed httpEnv (ascii "http://a:1#priority=4294967296") [] := by
  have herr : optionError (ascii "http://a:1#priority=4294967296") =
      some (.priority .rangeError) := by decide +kernel
  have hbuilds : ChainBuilds httpEnv (ascii "http://a:1#priority=4294967296") [] :=
    ⟨_, _, rfl, rfl⟩
  refine ⟨herr, hbuilds, by rfl, by decide +kernel, not_rejects ?_ hbuilds⟩
  rw [herr]
  exact Option.some_ne_none _

end Glider.Rule
