/-
The text format for metrics that Prometheus reads: one sample in each line, with a metric, its
labels and a value. A label value is quoted, and a backslash, a quote and a line feed in it are
escaped. The reader here is about lines and quotes only: it takes label values that are not UTF-8,
and any text for the value of a sample.

* `readValue_escape` — what is escaped so is read back.
* `parseSample_line` — and so is a whole line.
* `samples_text` — and a text of such lines, with comments before them.
-/

import Glider.Go.Textproto

namespace Glider.Admin

open Glider.Go

def quote : UInt8 := 34

def hash : UInt8 := 35

def comma : UInt8 := 44

def equals : UInt8 := 61

def backslash : UInt8 := 92

/-- `'n'`, for a line feed. -/
def letterN : UInt8 := 110

def openBrace : UInt8 := 123

def closeBrace : UInt8 := 125

/-! ### Reading -/

structure Sample where
  metric : GoString
  labels : List (GoString × GoString)
  value : GoString
deriving DecidableEq, Repr

/-- What a byte after a backslash stands for. -/
def unescapeByte (b : UInt8) : Option UInt8 :=
  if b = backslash then some backslash
  else if b = quote then some quote
  else if b = letterN then some newline
  else none

/-- A label value up to its closing quote, and what comes after it. `escaped` is set after a
backslash. -/
def readValue : Bool → GoString → Option (GoString × GoString)
  | _, [] => none
  | true, b :: s => do
    let b ← unescapeByte b
    let (v, rest) ← readValue false s
    return (b :: v, rest)
  | false, b :: s =>
    if b = quote then some ([], s)
    else if b = backslash then readValue true s
    else if b = newline then none
    else do
      let (v, rest) ← readValue false s
      return (b :: v, rest)

/-- Labels up to the closing brace, and what comes after it. -/
def readLabels : Nat → GoString → Option (List (GoString × GoString) × GoString)
  | 0, _ => none
  | fuel + 1, s =>
    match s.dropWhile (· ≠ equals) with
    | _ :: q :: rest =>
      if q = quote then do
        let (v, rest) ← readValue false rest
        match rest with
        | [] => none
        | b :: rest =>
          if b = comma then do
            let (labels, rest) ← readLabels fuel rest
            return ((s.takeWhile (· ≠ equals), v) :: labels, rest)
          else if b = closeBrace then some ([(s.takeWhile (· ≠ equals), v)], rest)
          else none
      else none
    | _ => none

def parseSample (line : GoString) : Option Sample :=
  match line.dropWhile (· ≠ openBrace) with
  | _ :: rest => do
    let (labels, rest) ← readLabels (rest.length + 1) rest
    match rest with
    | b :: value => if b = space then some ⟨line.takeWhile (· ≠ openBrace), labels, value⟩ else none
    | [] => none
  | [] => none

/-- Neither a comment nor empty. -/
def isSample (line : GoString) : Bool := line ≠ [] && line.head? ≠ some hash

/-- The samples of a text. -/
def samples (text : GoString) : Option (List Sample) :=
  ((split text newline).filter isSample).mapM parseSample

/-! ### Writing -/

def escapeByte (b : UInt8) : GoString :=
  if b = backslash then [backslash, backslash]
  else if b = quote then [backslash, quote]
  else if b = newline then [backslash, letterN]
  else [b]

def labelText (label : GoString × GoString) : GoString :=
  label.1 ++ equals :: quote :: (label.2.flatMap escapeByte ++ [quote])

def Sample.line (s : Sample) : GoString :=
  s.metric ++ openBrace :: (join (s.labels.map labelText) comma ++ closeBrace :: space :: s.value)

/-! ### Reading what is written -/

theorem readValue_escaped {b c : UInt8} {s v rest : GoString} (hc : unescapeByte c = some b)
    (h : readValue false s = some (v, rest)) :
    readValue false (backslash :: c :: s) = some (b :: v, rest) := by
  rw [readValue, if_neg (by decide), if_pos rfl, readValue, hc, Option.bind_eq_bind,
    Option.bind_some, h]
  rfl

theorem readValue_escapeByte (b : UInt8) {s v rest : GoString}
    (h : readValue false s = some (v, rest)) :
    readValue false (escapeByte b ++ s) = some (b :: v, rest) := by
  unfold escapeByte
  split
  · rename_i hb
    exact readValue_escaped (by rw [hb]; rfl) h
  split
  · rename_i hb
    exact readValue_escaped (by rw [hb]; rfl) h
  split
  · rename_i hb
    exact readValue_escaped (by rw [hb]; rfl) h
  · rename_i hbackslash hquote hnewline
    rw [List.singleton_append, readValue, if_neg hquote, if_neg hbackslash, if_neg hnewline, h]
    rfl

theorem readValue_escape (v rest : GoString) :
    readValue false (v.flatMap escapeByte ++ quote :: rest) = some (v, rest) := by
  induction v with
  | nil => rfl
  | cons b v ih =>
    rw [List.flatMap_cons, List.append_assoc]
    exact readValue_escapeByte b ih

theorem takeWhile_ne {s : GoString} {b : UInt8} (h : b ∉ s) (rest : GoString) :
    (s ++ b :: rest).takeWhile (· ≠ b) = s ∧ (s ++ b :: rest).dropWhile (· ≠ b) = b :: rest := by
  have hall : ∀ c ∈ s, decide (c ≠ b) = true := fun c hc =>
    decide_eq_true fun heq => h (heq ▸ hc)
  rw [List.takeWhile_append_of_pos hall, List.dropWhile_append_of_pos hall]
  simp

/-- One label, and the byte after it. -/
theorem readLabels_label {key : GoString} (hkey : equals ∉ key) (v : GoString) (b : UInt8)
    (rest : GoString) (fuel : Nat) :
    readLabels (fuel + 1) (labelText (key, v) ++ b :: rest) =
      if b = comma then do
        let (labels, rest) ← readLabels fuel rest
        return ((key, v) :: labels, rest)
      else if b = closeBrace then some ([(key, v)], rest)
      else none := by
  have htext : labelText (key, v) ++ b :: rest =
      key ++ equals :: quote :: (v.flatMap escapeByte ++ quote :: b :: rest) := by
    simp [labelText]
  obtain ⟨htake, hdrop⟩ := takeWhile_ne hkey (quote :: (v.flatMap escapeByte ++ quote :: b :: rest))
  rw [htext, readLabels, htake, hdrop]
  dsimp only
  rw [if_pos rfl, readValue_escape]
  rfl

theorem readLabels_text {labels : List (GoString × GoString)} (hne : labels ≠ [])
    (hkeys : ∀ label ∈ labels, equals ∉ label.1) {fuel : Nat} (hfuel : labels.length ≤ fuel)
    (rest : GoString) :
    readLabels fuel (join (labels.map labelText) comma ++ closeBrace :: rest) =
      some (labels, rest) := by
  induction labels generalizing fuel with
  | nil => exact absurd rfl hne
  | cons label labels ih =>
    obtain ⟨key, v⟩ := label
    have hkey := hkeys _ List.mem_cons_self
    cases fuel with
    | zero => cases hfuel
    | succ fuel =>
      cases labels with
      | nil =>
        rw [List.map_singleton, join_singleton, readLabels_label hkey, if_neg (by decide),
          if_pos rfl]
      | cons label' labels =>
        rw [List.map_cons, List.map_cons, join_cons_cons, List.append_assoc, List.cons_append,
          readLabels_label hkey, if_pos rfl, ← List.map_cons,
          ih (fun h => by cases h) (fun l hl => hkeys l (List.mem_cons_of_mem _ hl))
            (Nat.le_of_succ_le_succ hfuel)]
        rfl

/-- A sample whose parts can be told from each other. -/
structure Sample.Valid (s : Sample) : Prop where
  metric_ne : s.metric ≠ []
  metric_head : s.metric.head? ≠ some hash
  metric : openBrace ∉ s.metric ∧ newline ∉ s.metric
  labels_ne : s.labels ≠ []
  keys : ∀ label ∈ s.labels, equals ∉ label.1 ∧ newline ∉ label.1
  value : newline ∉ s.value

variable {s : Sample}

theorem length_le_join (labels : List (GoString × GoString)) :
    labels.length ≤ (join (labels.map labelText) comma).length := by
  induction labels with
  | nil => exact Nat.zero_le _
  | cons label labels ih =>
    have hlabel : 0 < (labelText label).length :=
      List.length_pos_of_mem (List.mem_append_right _ List.mem_cons_self)
    cases labels with
    | nil =>
      rw [List.map_singleton, join_singleton]
      exact hlabel
    | cons label' labels =>
      rw [List.map_cons, List.map_cons, join_cons_cons, ← List.map_cons, List.length_append]
      simp only [List.length_cons] at ih ⊢
      omega

theorem parseSample_line (valid : s.Valid) : parseSample s.line = some s := by
  obtain ⟨htake, hdrop⟩ := takeWhile_ne valid.metric.1
    (join (s.labels.map labelText) comma ++ closeBrace :: space :: s.value)
  have hfuel : s.labels.length ≤
      (join (s.labels.map labelText) comma ++ closeBrace :: space :: s.value).length + 1 := by
    have := length_le_join s.labels
    rw [List.length_append]
    omega
  have hlabels := readLabels_text valid.labels_ne (fun label h => (valid.keys label h).1) hfuel
    (space :: s.value)
  rw [parseSample, Sample.line, htake, hdrop]
  dsimp only
  rw [hlabels, Option.bind_eq_bind, Option.bind_some]
  exact if_pos rfl

theorem newline_notMem_escape (v : GoString) : newline ∉ v.flatMap escapeByte := by
  rw [List.mem_flatMap]
  rintro ⟨b, -, hb⟩
  unfold escapeByte at hb
  split at hb
  · exact absurd hb (by decide)
  split at hb
  · exact absurd hb (by decide)
  split at hb
  · exact absurd hb (by decide)
  · rename_i hne
    exact hne (List.mem_singleton.mp hb).symm

theorem newline_notMem_join {labels : List (GoString × GoString)}
    (hkeys : ∀ label ∈ labels, newline ∉ label.1) :
    newline ∉ join (labels.map labelText) comma := by
  induction labels with
  | nil => exact List.not_mem_nil
  | cons label labels ih =>
    have hlabel : newline ∉ labelText label := by
      have hkey := hkeys label List.mem_cons_self
      have hvalue := newline_notMem_escape label.2
      simp only [labelText, List.mem_append, List.mem_cons, List.not_mem_nil, or_false, not_or]
      exact ⟨hkey, by decide, by decide, hvalue, by decide⟩
    have ih := ih fun l hl => hkeys l (List.mem_cons_of_mem _ hl)
    cases labels with
    | nil =>
      rw [List.map_singleton, join_singleton]
      exact hlabel
    | cons label' labels =>
      rw [List.map_cons, List.map_cons, join_cons_cons, ← List.map_cons, List.mem_append,
        List.mem_cons, not_or, not_or]
      exact ⟨hlabel, by decide, ih⟩

theorem newline_notMem_line (valid : s.Valid) : newline ∉ s.line := by
  have hlabels := newline_notMem_join fun label h => (valid.keys label h).2
  simp only [Sample.line, List.mem_append, List.mem_cons, not_or]
  exact ⟨valid.metric.2, by decide, hlabels, by decide, by decide, valid.value⟩

theorem isSample_line (valid : s.Valid) : isSample s.line = true := by
  have hhead := valid.metric_head
  have hne := valid.metric_ne
  unfold isSample Sample.line
  cases hmetric : s.metric with
  | nil => exact absurd hmetric hne
  | cons b metric =>
    rw [hmetric] at hhead
    simpa using hhead

/-- **Round trip.** The samples of a text, with comments before them. -/
theorem samples_text {comments : List GoString} {ss : List Sample}
    (hcomments : ∀ line ∈ comments, newline ∉ line ∧ isSample line = false)
    (valid : ∀ s ∈ ss, s.Valid) :
    samples (unlines (comments ++ ss.map Sample.line)) = some ss := by
  have hlines : ∀ line ∈ comments ++ ss.map Sample.line, newline ∉ line := by
    intro line hline
    rcases List.mem_append.mp hline with hline | hline
    · exact (hcomments line hline).1
    · obtain ⟨s, hs, rfl⟩ := List.mem_map.mp hline
      exact newline_notMem_line (valid s hs)
  have hfilter : (comments ++ ss.map Sample.line ++ [[]]).filter isSample = ss.map Sample.line := by
    rw [List.filter_append, List.filter_append, List.filter_eq_nil_iff.mpr, List.nil_append,
      List.filter_eq_self.mpr]
    · exact List.append_nil _
    · intro line hline
      obtain ⟨s, hs, rfl⟩ := List.mem_map.mp hline
      exact isSample_line (valid s hs)
    · intro line hline
      rw [(hcomments line hline).2]
      exact Bool.false_ne_true
  rw [samples, split_unlines hlines, hfilter]
  clear hfilter hlines
  induction ss with
  | nil => rfl
  | cons s ss ih =>
    rw [List.map_cons, List.mapM_cons, parseSample_line (valid s List.mem_cons_self),
      ih fun s hs => valid s (List.mem_cons_of_mem _ hs)]
    rfl

end Glider.Admin
