/-
The metrics page of the admin endpoint (`admin/admin.go`): `renderPrometheus`, with the names that
`uniquer` hands out for groups and addresses that are there more than once.

* `take_spec` — a name that is handed out has not been handed out before, and is the one asked for
  if that has not.
* `take_some` — the search for a free suffix comes to an end.
* `groupsLoop_eq` — the page is a text of samples with those names.
* `series_nodup` — no two of them are of one series.
* `metrics_wellFormed` — so a reader of the page gets exactly these samples, and no series twice.
-/

import Mathlib.Data.List.Nodup
import Mathlib.Data.List.Perm.Subperm
import Glider.Go.HostPort
import Glider.Admin.Exposition

namespace Glider.Admin

open Glider.Go

/-! ### The page -/

/-- `rule.ForwarderStatus`, without the priority, which is not on the page. -/
structure ForwarderStatus where
  addr : GoString
  enabled : Bool
  failures : UInt32
  latencyMs : Int64
deriving DecidableEq, Repr

structure GroupStatus where
  group : GoString
  enabled : Int64
  total : Int64
  forwarders : List ForwarderStatus
deriving DecidableEq, Repr

/-- `strconv.FormatFloat(float64(n), 'g', -1, 64)`. Only that it stays in its line matters. -/
structure FloatFormat where
  format : Int → GoString
  newline_notMem : ∀ n, newline ∉ format n

/-- `strings.ReplaceAll` of one byte. -/
def replaceAll (s : GoString) (old : UInt8) (new : GoString) : GoString :=
  s.flatMap fun b => if b = old then new else [b]

def escapeLabel (v : GoString) : GoString :=
  let v := replaceAll v backslash [backslash, backslash]
  let v := replaceAll v quote [backslash, quote]
  replaceAll v newline [backslash, letterN]

def label (k v : GoString) : GoString := k ++ equals :: quote :: (escapeLabel v ++ [quote])

def boolVal (b : Bool) : Int := if b then 1 else 0

def help (name typ desc : GoString) : GoString :=
  ascii "# HELP " ++ name ++ space :: desc ++ newline ::
    (ascii "# TYPE " ++ name ++ space :: typ ++ [newline])

def gauge (fmt : FloatFormat) (name labels : GoString) (val : Int) : GoString :=
  name ++ labels ++ space :: (fmt.format val ++ [newline])

/-- `take` from its loop on; `uniquer` is the list of the names with `true`. -/
def takeLoop : Nat → List GoString → GoString → Nat → Option (GoString × List GoString)
  | 0, _, _, _ => none
  | fuel + 1, u, v, n =>
    let cand := v ++ hash :: formatUint n
    if cand ∉ u then some (cand, cand :: u) else takeLoop fuel u v (n + 1)

def take (fuel : Nat) (u : List GoString) (v : GoString) : Option (GoString × List GoString) :=
  if v ∉ u then some (v, v :: u) else takeLoop fuel u v 1

def groupEnabled : GoString := ascii "glider_group_forwarders_enabled"

def groupTotal : GoString := ascii "glider_group_forwarders_total"

def forwarderEnabled : GoString := ascii "glider_forwarder_enabled"

def forwarderFailures : GoString := ascii "glider_forwarder_failures"

def forwarderLatency : GoString := ascii "glider_forwarder_latency_ms"

def helpText : GoString :=
  help groupEnabled (ascii "gauge") (ascii "forwarders currently in the group's dial rotation") ++
  help groupTotal (ascii "gauge") (ascii "forwarders configured in the group") ++
  help forwarderEnabled (ascii "gauge") (ascii "1 if the forwarder's enabled flag is set") ++
  help forwarderFailures (ascii "gauge")
    (ascii "failures recorded since the forwarder was last enabled (resets on a passing check)") ++
  help forwarderLatency (ascii "gauge") (ascii "smoothed health-check latency in milliseconds")

/-- The loop over the forwarders of a group, with the label of the group. -/
def forwardersLoop (fuel : Nat) (fmt : FloatFormat) (gl : GoString) :
    GoString → List GoString → List ForwarderStatus → Option GoString
  | b, _, [] => some b
  | b, addrs, f :: fs => do
    let (addr, addrs) ← take fuel addrs f.addr
    let fl := openBrace :: (gl ++ comma :: (label (ascii "addr") addr ++ [closeBrace]))
    let b := b ++ gauge fmt forwarderEnabled fl (boolVal f.enabled)
    let b := b ++ gauge fmt forwarderFailures fl f.failures.toNat
    let b := b ++ gauge fmt forwarderLatency fl f.latencyMs.toInt
    forwardersLoop fuel fmt gl b addrs fs

/-- The loop over the groups. -/
def groupsLoop (fuel : Nat) (fmt : FloatFormat) :
    GoString → List GoString → List GroupStatus → Option GoString
  | b, _, [] => some b
  | b, groupNames, g :: gs => do
    let (name, groupNames) ← take fuel groupNames g.group
    let gl := label (ascii "group") name
    let b := b ++ gauge fmt groupEnabled (openBrace :: (gl ++ [closeBrace])) g.enabled.toInt
    let b := b ++ gauge fmt groupTotal (openBrace :: (gl ++ [closeBrace])) g.total.toInt
    let b ← forwardersLoop fuel fmt gl b [] g.forwarders
    groupsLoop fuel fmt b groupNames gs

def renderPrometheus (fuel : Nat) (fmt : FloatFormat) (groups : List GroupStatus) :
    Option GoString :=
  groupsLoop fuel fmt helpText [] groups

/-! ### Names -/

/-- The names that `take` hands out one after the other. -/
def takeAll (fuel : Nat) : List GoString → List GoString → Option (List GoString)
  | _, [] => some []
  | u, v :: vs => do
    let (t, u) ← take fuel u v
    let ts ← takeAll fuel u vs
    return t :: ts

theorem takeLoop_spec {fuel n : Nat} {u u' : List GoString} {v t : GoString}
    (h : takeLoop fuel u v n = some (t, u')) : t ∉ u ∧ u' = t :: u := by
  induction fuel generalizing n with
  | zero => cases h
  | succ fuel ih =>
    rw [takeLoop] at h
    split at h
    · cases h
      exact ⟨‹_›, rfl⟩
    · exact ih h

variable {fuel : Nat}

/-- A name that is handed out is new, and it is the one asked for if that is new. -/
theorem take_spec {u u' : List GoString} {v t : GoString} (h : take fuel u v = some (t, u')) :
    t ∉ u ∧ u' = t :: u ∧ (v ∉ u → t = v) := by
  unfold take at h
  split at h
  · cases h
    exact ⟨‹_›, rfl, fun _ => rfl⟩
  · rename_i hused
    obtain ⟨hnew, hu⟩ := takeLoop_spec h
    exact ⟨hnew, hu, fun hv => absurd hv hused⟩

/-- Some suffix is free: there are more of them than names in use. -/
theorem exists_free (u : List GoString) (v : GoString) :
    ∃ k ≤ u.length, v ++ hash :: formatUint (1 + k) ∉ u := by
  by_contra hnot
  simp only [not_exists, not_and, not_not] at hnot
  let cands := (List.range (u.length + 1)).map fun k => v ++ hash :: formatUint (1 + k)
  have hnodup : cands.Nodup := by
    refine List.Nodup.map (fun k k' heq => ?_) List.nodup_range
    have := formatUint_injective (List.cons.inj (List.append_cancel_left heq)).2
    omega
  have hsub : cands ⊆ u := by
    intro cand hcand
    obtain ⟨k, hk, rfl⟩ := List.mem_map.mp hcand
    exact hnot k (Nat.le_of_lt_succ (List.mem_range.mp hk))
  have hlen := (List.subperm_of_subset hnodup hsub).length_le
  rw [List.length_map, List.length_range] at hlen
  omega

theorem takeLoop_some {u : List GoString} {v : GoString} {k fuel n : Nat}
    (hfree : v ++ hash :: formatUint (n + k) ∉ u) (hfuel : k < fuel) :
    ∃ r, takeLoop fuel u v n = some r := by
  induction fuel generalizing k n with
  | zero => cases hfuel
  | succ fuel ih =>
    rw [takeLoop]
    split
    · exact ⟨_, rfl⟩
    · rename_i hused
      cases k with
      | zero => exact absurd hfree hused
      | succ k =>
        refine ih (k := k) ?_ (Nat.lt_of_succ_lt_succ hfuel)
        rwa [Nat.add_right_comm, Nat.add_assoc]

/-- **The search ends.** -/
theorem take_some {u : List GoString} (hfuel : u.length < fuel) (v : GoString) :
    ∃ t, take fuel u v = some (t, t :: u) := by
  have hsome : ∃ r, take fuel u v = some r := by
    unfold take
    split
    · exact ⟨_, rfl⟩
    · obtain ⟨k, hk, hfree⟩ := exists_free u v
      exact takeLoop_some hfree (Nat.lt_of_le_of_lt hk hfuel)
  obtain ⟨⟨t, u'⟩, h⟩ := hsome
  obtain ⟨-, rfl, -⟩ := take_spec h
  exact ⟨t, h⟩

variable {u vs ts : List GoString}

theorem takeAll_cons {v : GoString} (h : takeAll fuel u (v :: vs) = some ts) :
    ∃ t ts', ts = t :: ts' ∧ take fuel u v = some (t, t :: u) ∧
      takeAll fuel (t :: u) vs = some ts' := by
  obtain ⟨⟨t, u'⟩, ht, h⟩ := Option.bind_eq_some_iff.mp h
  obtain ⟨ts', hts, h⟩ := Option.bind_eq_some_iff.mp h
  cases h
  obtain ⟨-, rfl, -⟩ := take_spec ht
  exact ⟨t, ts', rfl, ht, hts⟩

/-- All names that are handed out are different. -/
theorem takeAll_nodup (h : takeAll fuel u vs = some ts) : ts.Nodup ∧ ∀ t ∈ ts, t ∉ u := by
  induction vs generalizing u ts with
  | nil =>
    cases h
    exact ⟨List.nodup_nil, fun t ht => by cases ht⟩
  | cons v vs ih =>
    obtain ⟨t, ts, rfl, ht, hts⟩ := takeAll_cons h
    have hnew := (take_spec ht).1
    obtain ⟨hnodup, hnotMem⟩ := ih hts
    refine ⟨List.nodup_cons.mpr ⟨fun hmem => ?_, hnodup⟩, fun t' ht' => ?_⟩
    · exact hnotMem t hmem List.mem_cons_self
    · rcases List.mem_cons.mp ht' with rfl | ht'
      · exact hnew
      · exact fun hmem => hnotMem t' ht' (List.mem_cons_of_mem _ hmem)

/-- A name that none of the names before it is, is handed out as it is. -/
theorem takeAll_kept (h : takeAll fuel u vs = some ts) {i : Nat} {v : GoString}
    (hv : vs[i]? = some v) (hu : v ∉ u) (hbefore : v ∉ ts.take i) : ts[i]? = some v := by
  induction vs generalizing u ts i with
  | nil => cases hv
  | cons v' vs ih =>
    obtain ⟨t, ts, rfl, ht, hts⟩ := takeAll_cons h
    cases i with
    | zero =>
      cases hv
      exact congrArg some ((take_spec ht).2.2 hu)
    | succ i =>
      rw [List.take_succ_cons] at hbefore
      obtain ⟨hne, hrest⟩ := not_or.mp (mt List.mem_cons.mpr hbefore)
      exact ih hts hv (fun hmem => (List.mem_cons.mp hmem).elim hne hu) hrest

theorem takeAll_some {u vs : List GoString} (hfuel : u.length + vs.length ≤ fuel) :
    ∃ ts, takeAll fuel u vs = some ts := by
  induction vs generalizing u with
  | nil => exact ⟨[], rfl⟩
  | cons v vs ih =>
    rw [List.length_cons] at hfuel
    have hlt : u.length < fuel := by omega
    obtain ⟨t, ht⟩ := take_some hlt v
    obtain ⟨ts, hts⟩ := ih (u := t :: u) (by rw [List.length_cons]; omega)
    refine ⟨t :: ts, ?_⟩
    rw [takeAll, ht, Option.bind_eq_bind, Option.bind_some]
    dsimp only
    rw [hts]
    rfl

/-! ### Samples -/

theorem escapeLabel_eq (v : GoString) : escapeLabel v = v.flatMap escapeByte := by
  simp only [escapeLabel, replaceAll, List.flatMap_assoc]
  congr 1
  funext b
  unfold escapeByte
  by_cases hbackslash : b = backslash
  · rw [hbackslash]
    rfl
  by_cases hquote : b = quote
  · rw [hquote]
    rfl
  by_cases hnewline : b = newline
  · rw [hnewline]
    rfl
  · simp [hbackslash, hquote, hnewline]

theorem label_eq (k v : GoString) : label k v = labelText (k, v) := by
  rw [label, escapeLabel_eq]
  rfl

/-- A group with its name, and the names of its forwarders. -/
structure Row where
  status : GroupStatus
  name : GoString
  addrs : List GoString

def forwarderSamples (fmt : FloatFormat) (name : GoString) (f : ForwarderStatus × GoString) :
    List Sample :=
  let labels := [(ascii "group", name), (ascii "addr", f.2)]
  [⟨forwarderEnabled, labels, fmt.format (boolVal f.1.enabled)⟩,
    ⟨forwarderFailures, labels, fmt.format f.1.failures.toNat⟩,
    ⟨forwarderLatency, labels, fmt.format f.1.latencyMs.toInt⟩]

def Row.samples (fmt : FloatFormat) (row : Row) : List Sample :=
  [⟨groupEnabled, [(ascii "group", row.name)], fmt.format row.status.enabled.toInt⟩,
    ⟨groupTotal, [(ascii "group", row.name)], fmt.format row.status.total.toInt⟩] ++
  (row.status.forwarders.zip row.addrs).flatMap (forwarderSamples fmt row.name)

theorem gauge_group (fmt : FloatFormat) (metric name : GoString) (val : Int) :
    gauge fmt metric (openBrace :: (label (ascii "group") name ++ [closeBrace])) val =
      Sample.line ⟨metric, [(ascii "group", name)], fmt.format val⟩ ++ [newline] := by
  simp [gauge, label_eq, Sample.line, join_singleton]

theorem gauge_forwarder (fmt : FloatFormat) (metric name addr : GoString) (val : Int) :
    gauge fmt metric (openBrace :: (label (ascii "group") name ++ comma ::
        (label (ascii "addr") addr ++ [closeBrace]))) val =
      Sample.line ⟨metric, [(ascii "group", name), (ascii "addr", addr)], fmt.format val⟩ ++
        [newline] := by
  simp [gauge, label_eq, Sample.line, join_singleton, join_cons_cons]

/-- The text of some samples. -/
def text (ss : List Sample) : GoString := unlines (ss.map Sample.line)

theorem text_append (ss ss' : List Sample) : text (ss ++ ss') = text ss ++ text ss' := by
  simp [text, unlines]

variable {fmt : FloatFormat} {name : GoString}

theorem forwardersLoop_eq {fs : List ForwarderStatus} {u ts : List GoString}
    (h : takeAll fuel u (fs.map ForwarderStatus.addr) = some ts) (b : GoString) :
    forwardersLoop fuel fmt (label (ascii "group") name) b u fs =
      some (b ++ text ((fs.zip ts).flatMap (forwarderSamples fmt name))) := by
  induction fs generalizing u ts b with
  | nil => exact congrArg some (List.append_nil b).symm
  | cons f fs ih =>
    obtain ⟨t, ts, rfl, ht, hts⟩ := takeAll_cons h
    rw [forwardersLoop, ht, Option.bind_eq_bind, Option.bind_some]
    dsimp only
    rw [ih hts, gauge_forwarder, gauge_forwarder, gauge_forwarder, List.zip_cons_cons,
      List.flatMap_cons, text_append]
    simp [text, unlines, forwarderSamples]

theorem groupsLoop_eq {groups : List GroupStatus} (hfuel : ∀ g ∈ groups, g.forwarders.length ≤ fuel)
    {u names : List GoString} (h : takeAll fuel u (groups.map GroupStatus.group) = some names)
    (b : GoString) :
    ∃ rows : List Row, rows.map Row.status = groups ∧ rows.map Row.name = names ∧
      (∀ row ∈ rows, takeAll fuel [] (row.status.forwarders.map ForwarderStatus.addr) =
        some row.addrs) ∧
      groupsLoop fuel fmt b u groups = some (b ++ text (rows.flatMap (Row.samples fmt))) := by
  induction groups generalizing u names b with
  | nil =>
    cases h
    exact ⟨[], rfl, rfl, fun row hrow => (by cases hrow), congrArg some (List.append_nil b).symm⟩
  | cons g groups ih =>
    obtain ⟨name, names, rfl, hname, hnames⟩ := takeAll_cons h
    have hlength : ([] : List GoString).length + (g.forwarders.map ForwarderStatus.addr).length ≤
        fuel := by
      rw [List.length_map, List.length_nil, Nat.zero_add]
      exact hfuel g List.mem_cons_self
    obtain ⟨addrs, haddrs⟩ := takeAll_some hlength
    obtain ⟨rows, hstatus, hrows, htake, hloop⟩ :=
      ih (fun g hg => hfuel g (List.mem_cons_of_mem _ hg)) hnames
        (b ++ text (Row.samples fmt ⟨g, name, addrs⟩))
    refine ⟨⟨g, name, addrs⟩ :: rows, ?_, ?_, ?_, ?_⟩
    · rw [List.map_cons, hstatus]
    · rw [List.map_cons, hrows]
    · intro row hrow
      rcases List.mem_cons.mp hrow with rfl | hrow
      · exact haddrs
      · exact htake row hrow
    · rw [groupsLoop, hname, Option.bind_eq_bind, Option.bind_some]
      dsimp only
      rw [forwardersLoop_eq haddrs, Option.bind_eq_bind, Option.bind_some, List.flatMap_cons,
        text_append, ← List.append_assoc, ← hloop, gauge_group, gauge_group]
      simp [text, unlines, Row.samples]

/-! ### The comments -/

/-- The two lines of `help`. -/
def helpLines (name typ desc : GoString) : List GoString :=
  [ascii "# HELP " ++ name ++ space :: desc, ascii "# TYPE " ++ name ++ space :: typ]

theorem help_eq (name typ desc : GoString) :
    help name typ desc = unlines (helpLines name typ desc) := by
  simp [help, helpLines, unlines]

def comments : List GoString :=
  helpLines groupEnabled (ascii "gauge")
    (ascii "forwarders currently in the group's dial rotation") ++
  helpLines groupTotal (ascii "gauge") (ascii "forwarders configured in the group") ++
  helpLines forwarderEnabled (ascii "gauge") (ascii "1 if the forwarder's enabled flag is set") ++
  helpLines forwarderFailures (ascii "gauge")
    (ascii "failures recorded since the forwarder was last enabled (resets on a passing check)") ++
  helpLines forwarderLatency (ascii "gauge") (ascii "smoothed health-check latency in milliseconds")

theorem helpText_eq : helpText = unlines comments := by
  rw [comments, unlines_append, unlines_append, unlines_append, unlines_append, ← help_eq,
    ← help_eq, ← help_eq, ← help_eq, ← help_eq]
  rfl

theorem comments_not_samples : ∀ line ∈ comments, newline ∉ line ∧ isSample line = false := by
  unfold comments helpLines groupEnabled groupTotal forwarderEnabled forwarderFailures
    forwarderLatency
  repeat rw [ascii_ofList]
  decide +kernel

variable {s : Sample}

/-- The samples of a row: two of the group, and three of each forwarder. -/
theorem mem_samples {row : Row} (h : s ∈ row.samples fmt) :
    (∃ n, s.value = fmt.format n) ∧
    ((s.metric ∈ [groupEnabled, groupTotal] ∧ s.labels = [(ascii "group", row.name)]) ∨
      ∃ f ∈ row.status.forwarders.zip row.addrs, s ∈ forwarderSamples fmt row.name f) := by
  rcases List.mem_append.mp h with h | h
  · refine ⟨?_, .inl ?_⟩
    · simp only [List.mem_cons, List.not_mem_nil, or_false] at h
      rcases h with rfl | rfl <;> exact ⟨_, rfl⟩
    · simp only [List.mem_cons, List.not_mem_nil, or_false] at h
      rcases h with rfl | rfl <;> exact ⟨by simp, rfl⟩
  · obtain ⟨f, hf, hs⟩ := List.mem_flatMap.mp h
    refine ⟨?_, .inr ⟨f, hf, hs⟩⟩
    simp only [forwarderSamples, List.mem_cons, List.not_mem_nil, or_false] at hs
    rcases hs with rfl | rfl | rfl <;> exact ⟨_, rfl⟩

theorem mem_forwarderSamples {f : ForwarderStatus × GoString}
    (h : s ∈ forwarderSamples fmt name f) :
    s.metric ∈ [forwarderEnabled, forwarderFailures, forwarderLatency] ∧
      s.labels = [(ascii "group", name), (ascii "addr", f.2)] := by
  simp only [forwarderSamples, List.mem_cons, List.not_mem_nil, or_false] at h
  rcases h with rfl | rfl | rfl <;> exact ⟨by simp, rfl⟩

theorem valid_of_mem {row : Row} (h : s ∈ row.samples fmt) : s.Valid := by
  have hmetrics : ∀ metric ∈ [groupEnabled, groupTotal] ++
      [forwarderEnabled, forwarderFailures, forwarderLatency],
      metric ≠ [] ∧ metric.head? ≠ some hash ∧ openBrace ∉ metric ∧ newline ∉ metric := by
    unfold groupEnabled groupTotal forwarderEnabled forwarderFailures forwarderLatency
    repeat rw [ascii_ofList]
    decide +kernel
  have hkeys : ∀ key ∈ [ascii "group", ascii "addr"], equals ∉ key ∧ newline ∉ key := by
    repeat rw [ascii_ofList]
    decide +kernel
  obtain ⟨⟨n, hvalue⟩, hs⟩ := mem_samples h
  have hparts : s.metric ∈ [groupEnabled, groupTotal] ++
        [forwarderEnabled, forwarderFailures, forwarderLatency] ∧ s.labels ≠ [] ∧
      ∀ label ∈ s.labels, label.1 ∈ [ascii "group", ascii "addr"] := by
    obtain ⟨hmetric, hlabels⟩ | ⟨f, -, hf⟩ := hs
    · refine ⟨List.mem_append_left _ hmetric, ?_⟩
      simp [hlabels]
    · obtain ⟨hmetric, hlabels⟩ := mem_forwarderSamples hf
      refine ⟨List.mem_append_right _ hmetric, ?_⟩
      simp [hlabels]
  obtain ⟨hmetric, hne, hlabels⟩ := hparts
  obtain ⟨hnil, hhash, hmetric⟩ := hmetrics s.metric hmetric
  exact ⟨hnil, hhash, hmetric, hne, fun label hlabel => hkeys _ (hlabels label hlabel),
    hvalue ▸ fmt.newline_notMem n⟩

/-! ### Series -/

/-- One series: the same metric, and the same set of labels. -/
def SameSeries (s s' : Sample) : Prop :=
  s.metric = s'.metric ∧ ∀ label, label ∈ s.labels ↔ label ∈ s'.labels

/-- The group of a sample can be told from its labels. -/
theorem mem_labels_group {row : Row} (h : s ∈ row.samples fmt) (v : GoString) :
    (ascii "group", v) ∈ s.labels ↔ v = row.name := by
  have hkeys : ascii "group" ≠ ascii "addr" := by decide
  obtain ⟨-, ⟨-, hlabels⟩ | ⟨f, -, hf⟩⟩ := mem_samples h
  · simp [hlabels]
  · simp [(mem_forwarderSamples hf).2, hkeys]

/-- And the address too. -/
theorem mem_labels_addr {f : ForwarderStatus × GoString} (h : s ∈ forwarderSamples fmt name f)
    (v : GoString) : (ascii "addr", v) ∈ s.labels ↔ v = f.2 := by
  have hkeys : ascii "addr" ≠ ascii "group" := by decide
  simp [(mem_forwarderSamples h).2, hkeys]

theorem pairwise_zip {fs : List ForwarderStatus} {addrs : List GoString} (h : addrs.Nodup) :
    (fs.zip addrs).Pairwise fun f f' => f.2 ≠ f'.2 := by
  induction fs generalizing addrs with
  | nil => exact List.Pairwise.nil
  | cons f fs ih =>
    cases addrs with
    | nil => exact List.Pairwise.nil
    | cons addr addrs =>
      obtain ⟨hnew, hnodup⟩ := List.nodup_cons.mp h
      refine List.pairwise_cons.mpr ⟨fun f' hf' heq => hnew ?_, ih hnodup⟩
      have heq : addr = f'.2 := heq
      rw [heq]
      exact (List.of_mem_zip hf').2

theorem forwarderSamples_nodup (f : ForwarderStatus × GoString) :
    (forwarderSamples fmt name f).Pairwise fun s s' => ¬ SameSeries s s' := by
  have hmetrics : forwarderEnabled ≠ forwarderFailures ∧ forwarderEnabled ≠ forwarderLatency ∧
      forwarderFailures ≠ forwarderLatency := by
    decide
  simp [forwarderSamples, SameSeries, hmetrics]

/-- The series of one group are different. -/
theorem row_nodup {row : Row} (haddrs : row.addrs.Nodup) :
    (row.samples fmt).Pairwise fun s s' => ¬ SameSeries s s' := by
  refine List.pairwise_append.mpr ⟨?_, List.pairwise_flatMap.mpr ⟨?_, ?_⟩, ?_⟩
  · have hmetrics : groupEnabled ≠ groupTotal := by decide
    simp [SameSeries, hmetrics]
  · exact fun f _ => forwarderSamples_nodup f
  · refine (pairwise_zip haddrs).imp fun hne s hs s' hs' hsame => hne ?_
    exact (mem_labels_addr hs' _).mp ((hsame.2 _).mp ((mem_labels_addr hs _).mpr rfl))
  · intro s hs s' hs' hsame
    obtain ⟨f, -, hf⟩ := List.mem_flatMap.mp hs'
    have hmetric := (mem_forwarderSamples hf).1
    have hdisjoint : ∀ metric ∈ [groupEnabled, groupTotal],
        metric ∉ [forwarderEnabled, forwarderFailures, forwarderLatency] := by
      decide
    refine hdisjoint s.metric ?_ (hsame.1 ▸ hmetric)
    simp only [List.mem_cons, List.not_mem_nil, or_false] at hs
    rcases hs with rfl | rfl <;> simp

/-- **No series twice**, if the names are different. -/
theorem series_nodup {rows : List Row} (hnames : (rows.map Row.name).Nodup)
    (haddrs : ∀ row ∈ rows, row.addrs.Nodup) :
    (rows.flatMap (Row.samples fmt)).Pairwise fun s s' => ¬ SameSeries s s' := by
  refine List.pairwise_flatMap.mpr ⟨fun row hrow => row_nodup (haddrs row hrow), ?_⟩
  refine (List.pairwise_map.mp hnames).imp fun hne s hs s' hs' hsame => hne ?_
  exact (mem_labels_group hs' _).mp ((hsame.2 _).mp ((mem_labels_group hs _).mpr rfl))

/-- A name that none of the names handed out before it is, is kept. -/
def Kept (names handedOut : List GoString) : Prop :=
  ∀ (i : Nat) (v : GoString), names[i]? = some v → v ∉ handedOut.take i → handedOut[i]? = some v

/-- **The metrics page.** It is rendered, a reader gets from it exactly the samples with the names
that are handed out, no two of them are of one series, and names are kept as far as they can be. -/
theorem metrics_wellFormed (fmt : FloatFormat) (groups : List GroupStatus) (fuel : Nat)
    (hgroups : groups.length ≤ fuel) (hforwarders : ∀ g ∈ groups, g.forwarders.length ≤ fuel) :
    ∃ (rows : List Row) (page : GoString), renderPrometheus fuel fmt groups = some page ∧
      rows.map Row.status = groups ∧
      takeAll fuel [] (groups.map GroupStatus.group) = some (rows.map Row.name) ∧
      (∀ row ∈ rows, takeAll fuel [] (row.status.forwarders.map ForwarderStatus.addr) =
        some row.addrs) ∧
      samples page = some (rows.flatMap (Row.samples fmt)) ∧
      (rows.flatMap (Row.samples fmt)).Pairwise (fun s s' => ¬ SameSeries s s') ∧
      Kept (groups.map GroupStatus.group) (rows.map Row.name) ∧
      ∀ row ∈ rows, Kept (row.status.forwarders.map ForwarderStatus.addr) row.addrs := by
  have hlength : ([] : List GoString).length + (groups.map GroupStatus.group).length ≤ fuel := by
    rwa [List.length_map, List.length_nil, Nat.zero_add]
  obtain ⟨names, hnames⟩ := takeAll_some hlength
  obtain ⟨rows, hstatus, rfl, haddrs, hloop⟩ := groupsLoop_eq hforwarders hnames helpText
  refine ⟨rows, _, hloop, hstatus, hnames, haddrs, ?_, ?_, ?_, ?_⟩
  · rw [helpText_eq, text, ← unlines_append]
    refine samples_text comments_not_samples fun s hs => ?_
    obtain ⟨row, -, hs⟩ := List.mem_flatMap.mp hs
    exact valid_of_mem hs
  · exact series_nodup (takeAll_nodup hnames).1 fun row hrow => (takeAll_nodup (haddrs row hrow)).1
  · exact fun i v hv hbefore => takeAll_kept hnames hv (fun h => by cases h) hbefore
  · exact fun row hrow i v hv hbefore =>
      takeAll_kept (haddrs row hrow) hv (fun h => by cases h) hbefore

/-- A format for small numbers. -/
def plainFormat : FloatFormat where
  format n := formatUint n.toNat
  newline_notMem n h := absurd (formatUint_digits h) (by decide)

/-- Two groups with one name, and a third one with the name that the second one gets. -/
def cnGroups : List GroupStatus :=
  [⟨ascii "cn", 1, 2, [⟨ascii "a:1", true, 0, 7⟩, ⟨ascii "a:1", false, 3, 0⟩]⟩,
    ⟨ascii "cn", 2, 2, []⟩, ⟨ascii "cn#1", 3, 3, []⟩]

theorem metrics_wellFormed_cn :
    ∃ (rows : List Row) (page : GoString),
      renderPrometheus 3 plainFormat cnGroups = some page ∧ rows.map Row.status = cnGroups ∧
      samples page = some (rows.flatMap (Row.samples plainFormat)) ∧
      (rows.flatMap (Row.samples plainFormat)).Pairwise fun s s' => ¬ SameSeries s s' := by
  obtain ⟨rows, page, hpage, hrows, -, -, hsamples, hseries, -⟩ :=
    metrics_wellFormed plainFormat cnGroups 3 (by decide) (by decide)
  exact ⟨rows, page, hpage, hrows, hsamples, hseries⟩

end Glider.Admin
