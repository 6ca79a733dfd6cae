/-
Label suffixes: a name, and what is left of it after each of its dots.

`labelSuffixes` lists them from the shortest to the longest. `walkLabels` is the
loop that visits them backwards through the string,

    for i := len(s); i != -1; {
        i = strings.LastIndexByte(s[:i], '.')
        ... s[i+1:] ...
    }

with a body that may return from it. The loop has no measure of its own that the
compiler could see, so it takes fuel.

* `walkLabels_eq` — with fuel for every dot the walk ends, and it is the fold of
  its body over `labelSuffixes`.
* `mem_labelSuffixes`, `labelSuffixes_length_lt` — what is visited, and in which
  order.
-/

import Glider.Go.Strings

namespace Glider.Go

/-! ### Suffixes -/

/-- What follows each dot, the longest first. -/
def tailsAfterDot : GoString → List GoString
  | [] => []
  | b :: bs => if b = dot then bs :: tailsAfterDot bs else tailsAfterDot bs

/-- The string and what follows each of its dots, the shortest first. -/
def labelSuffixes (s : GoString) : List GoString := (s :: tailsAfterDot s).reverse

theorem mem_tailsAfterDot {s t : GoString} : t ∈ tailsAfterDot s ↔ ∃ pre, s = pre ++ dot :: t := by
  induction s with
  | nil => simp [tailsAfterDot]
  | cons b bs ih =>
    have split : (∃ pre, b :: bs = pre ++ dot :: t) ↔
        (b = dot ∧ bs = t) ∨ ∃ pre, bs = pre ++ dot :: t := by
      constructor
      · rintro ⟨pre, hpre⟩
        cases pre with
        | nil => exact Or.inl (by simpa using hpre)
        | cons x pre => exact Or.inr ⟨pre, (List.cons.inj hpre).2⟩
      · rintro (⟨rfl, rfl⟩ | ⟨pre, rfl⟩)
        · exact ⟨[], rfl⟩
        · exact ⟨b :: pre, rfl⟩
    rw [split, tailsAfterDot]
    by_cases hb : b = dot
    · simp [hb, ih, eq_comm]
    · simp [hb, ih]

/-- A label suffix is the string itself or the part after one of its dots. -/
theorem mem_labelSuffixes {s t : GoString} :
    t ∈ labelSuffixes s ↔ t = s ∨ ∃ pre, s = pre ++ dot :: t := by
  simp [labelSuffixes, mem_tailsAfterDot, or_comm]

theorem length_lt_of_mem_tailsAfterDot {s t : GoString} (ht : t ∈ tailsAfterDot s) :
    t.length < s.length := by
  obtain ⟨pre, rfl⟩ := mem_tailsAfterDot.mp ht
  simp
  omega

/-- Label suffixes come in the order of their length. -/
theorem labelSuffixes_length_lt (s : GoString) :
    (labelSuffixes s).Pairwise fun t u => t.length < u.length := by
  have longest : ∀ s : GoString, (tailsAfterDot s).Pairwise fun t u => u.length < t.length := by
    intro s
    induction s with
    | nil => exact List.Pairwise.nil
    | cons b bs ih =>
      rw [tailsAfterDot]
      split
      · exact List.pairwise_cons.mpr ⟨fun t => length_lt_of_mem_tailsAfterDot, ih⟩
      · exact ih
  rw [labelSuffixes, List.pairwise_reverse]
  exact List.pairwise_cons.mpr ⟨fun t => length_lt_of_mem_tailsAfterDot, longest s⟩

theorem tailsAfterDot_of_not_mem {s : GoString} (h : dot ∉ s) : tailsAfterDot s = [] := by
  induction s with
  | nil => rfl
  | cons b bs ih =>
    rw [List.mem_cons, not_or] at h
    rw [tailsAfterDot, if_neg (Ne.symm h.1), ih h.2]

theorem tailsAfterDot_append (pre post : GoString) :
    tailsAfterDot (pre ++ dot :: post) =
      (tailsAfterDot pre).map (· ++ dot :: post) ++ post :: tailsAfterDot post := by
  induction pre with
  | nil => simp [tailsAfterDot]
  | cons b bs ih =>
    by_cases hb : b = dot
    · simp [tailsAfterDot, hb, ih]
    · simp [tailsAfterDot, hb, ih]

theorem labelSuffixes_of_not_mem {s : GoString} (h : dot ∉ s) : labelSuffixes s = [s] := by
  rw [labelSuffixes, tailsAfterDot_of_not_mem h, List.reverse_singleton]

/-- Splitting at the last dot separates the shortest suffix from the rest. -/
theorem labelSuffixes_append {pre post : GoString} (h : dot ∉ post) :
    labelSuffixes (pre ++ dot :: post) =
      post :: (labelSuffixes pre).map (· ++ dot :: post) := by
  simp [labelSuffixes, tailsAfterDot_append, tailsAfterDot_of_not_mem h]

/-! ### The walk -/

section Walk

variable {ρ σ : Type} (body : GoString → σ → ρ ⊕ σ)

/-- Run the body on each suffix in turn, until it returns. -/
def runLabels : List GoString → σ → ρ ⊕ σ
  | [], acc => .inr acc
  | t :: ts, acc =>
    match body t acc with
    | .inl r => .inl r
    | .inr acc' => runLabels ts acc'

/-- The loop from index `i`; `none` is out of fuel. -/
def walkLabels (s : GoString) : (fuel i : Nat) → σ → Option (ρ ⊕ σ)
  | 0, _, _ => none
  | fuel + 1, i, acc =>
    match lastIndexByte (s.take i) dot with
    | none => some (body s acc)
    | some j =>
      match body (s.drop (j + 1)) acc with
      | .inl r => some (.inl r)
      | .inr acc' => walkLabels s fuel j acc'

theorem walkLabels_take {fuel : Nat} (pre post : GoString) (acc : σ)
    (hfuel : pre.count dot < fuel) :
    walkLabels body (pre ++ post) fuel pre.length acc =
      some (runLabels body ((labelSuffixes pre).map (· ++ post)) acc) := by
  induction fuel generalizing pre post acc with
  | zero => exact absurd hfuel (Nat.not_lt_zero _)
  | succ fuel ih =>
    rw [walkLabels, List.take_left]
    cases hlast : lastIndexByte pre dot with
    | none =>
      rw [labelSuffixes_of_not_mem (lastIndexByte_eq_none_iff.mp hlast)]
      simp only [List.map_cons, List.map_nil, runLabels]
      cases body (pre ++ post) acc <;> rfl
    | some j =>
      -- one dot fewer lies before the index the walk goes on from
      obtain ⟨front, label, rfl, rfl, hlabel⟩ := lastIndexByte_eq_some hlast
      have hcount : front.count dot < fuel := by
        rw [List.count_append, List.count_cons_self] at hfuel
        omega
      have hdrop : (front ++ dot :: label ++ post).drop (front.length + 1) = label ++ post := by
        simp
      have hsplit : front ++ dot :: label ++ post = front ++ (dot :: label ++ post) := by simp
      rw [labelSuffixes_append hlabel]
      simp only [List.map_cons, List.map_map, runLabels, hdrop]
      cases body (label ++ post) acc with
      | inl r => rfl
      | inr acc' =>
        simp only
        rw [hsplit, ih front _ acc' hcount]
        simp [Function.comp_def]

/-- **The walk ends and visits the label suffixes**, the shortest first. -/
theorem walkLabels_eq {fuel : Nat} {s : GoString} (acc : σ) (hfuel : s.length < fuel) :
    walkLabels body s fuel s.length acc = some (runLabels body (labelSuffixes s) acc) := by
  have hcount : s.count dot < fuel := List.count_le_length.trans_lt hfuel
  simpa using walkLabels_take body s [] acc hcount

end Walk

/-- A body that returns at the first hit finds the shortest suffix. -/
theorem runLabels_findSome? {ρ : Type} (m : GoString → Option ρ) (ts : List GoString) :
    runLabels (fun t (_ : Unit) => (m t).elim (.inr ()) .inl) ts () =
      (ts.findSome? m).elim (.inr ()) .inl := by
  induction ts with
  | nil => rfl
  | cons t ts ih =>
    rw [runLabels, List.findSome?_cons]
    cases m t with
    | none => exact ih
    | some r => rfl

/-- A body that never returns is a fold. -/
theorem runLabels_foldl {ρ σ : Type} (step : σ → GoString → σ) (ts : List GoString) (acc : σ) :
    runLabels (fun t acc => (.inr (step acc t) : ρ ⊕ σ)) ts acc = .inr (ts.foldl step acc) := by
  induction ts generalizing acc with
  | nil => rfl
  | cons t ts ih => exact ih (step acc t)

end Glider.Go
