/-
Concurrent calls on a shared state.

A program says how one call runs, one atomic operation after the other. The machine runs any number
of its calls at once, in any interleaving.

* `run_local` — an assertion about each call, which holds at its entry, which its own steps keep up,
  and which no step of another call breaks, holds in every run.
* `run_apart` — in a run whose calls do not overlap, a call starts where the last one has left the
  shared state.
* `settles` — if the steps of a call lower a measure, all calls return.
-/

import Mathlib.Algebra.GroupWithZero.Nat
import Glider.Lib.Machine

namespace Glider.Lib

/-- A shared state, and the calls made on it so far, each at its point of execution. -/
structure Concurrent (Shared Call : Type) where
  shared : Shared
  calls : List Call

namespace Concurrent

/-- A new call is made, or the call at a place takes its next step. -/
inductive Act (Call : Type) where
  | call (c : Call)
  | step (i : Nat)
deriving DecidableEq, Repr

/-- How a call runs: where it begins, where it has returned, and what it does in between. -/
structure Program (Shared Call : Type) where
  entry : Call → Bool
  returned : Call → Bool
  step : Shared → Call → Option (Shared × Call)

variable {Shared Call : Type} (P : Program Shared Call)

def machine : Machine (Concurrent Shared Call) (Act Call) where
  step s
    | .call c => if P.entry c then some ⟨s.shared, s.calls ++ [c]⟩ else none
    | .step i =>
      s.calls[i]?.bind fun c => (P.step s.shared c).map fun next => ⟨next.1, s.calls.set i next.2⟩

/-- The number of calls that have not returned. -/
def inProgress (s : Concurrent Shared Call) : Nat := s.calls.countP fun c => !P.returned c

/-- All calls have returned. -/
def Idle (s : Concurrent Shared Call) : Prop := ∀ c ∈ s.calls, P.returned c

/-- A call is made only while there are fewer than `k` others. -/
def AtMost (k : Nat) (s : Concurrent Shared Call) : Act Call → Prop
  | .call _ => inProgress P s < k
  | .step _ => True

/-- A condition on the steps of calls. -/
def Steps (ok : Shared → Call → Prop) (s : Concurrent Shared Call) : Act Call → Prop
  | .call _ => True
  | .step i => ∀ c, s.calls[i]? = some c → ok s.shared c

def IsStep : Act Call → Prop
  | .call _ => False
  | .step _ => True

/-- The calls a run makes, in their order. -/
def made : List (Act Call) → List Call
  | [] => []
  | .call c :: acts => c :: made acts
  | .step _ :: acts => made acts

variable {P} {s s' : Concurrent Shared Call} {acts : List (Act Call)}

instance : Decidable (Idle P s) := inferInstanceAs (Decidable (∀ c ∈ s.calls, P.returned c))

instance (k : Nat) (s : Concurrent Shared Call) : DecidablePred (AtMost P k s)
  | .call _ => inferInstanceAs (Decidable (_ < _))
  | .step _ => isTrue trivial

instance (ok : Shared → Call → Prop) [∀ m c, Decidable (ok m c)] (s : Concurrent Shared Call) :
    DecidablePred (Steps ok s)
  | .call _ => isTrue trivial
  | .step i =>
    match h : s.calls[i]? with
    | none => isTrue fun c hc => by rw [h] at hc; cases hc
    | some c => decidable_of_iff (ok s.shared c)
        ⟨fun hok c' hc' => by rw [h] at hc'; cases hc'; exact hok, fun hok => hok c h⟩

/-- Steps make no calls. -/
theorem made_steps (h : ∀ a ∈ acts, IsStep a) : made acts = [] := by
  induction acts with
  | nil => rfl
  | cons a acts ih =>
    cases a with
    | call c => exact (h _ List.mem_cons_self).elim
    | step i => exact ih fun a ha => h a (List.mem_cons_of_mem _ ha)

/-- What one action does. -/
theorem step_cases {a : Act Call} (h : (machine P).step s a = some s') :
    (∃ c, a = .call c ∧ P.entry c ∧ s' = ⟨s.shared, s.calls ++ [c]⟩) ∨
    ∃ i c m c', a = .step i ∧ s.calls[i]? = some c ∧ P.step s.shared c = some (m, c') ∧
      s' = ⟨m, s.calls.set i c'⟩ := by
  cases a with
  | call c =>
    simp only [machine] at h
    split at h <;> cases h
    exact .inl ⟨c, rfl, ‹_›, rfl⟩
  | step i =>
    obtain ⟨c, hc, h⟩ := Option.bind_eq_some_iff.mp h
    obtain ⟨⟨m, c'⟩, hstep, rfl⟩ := Option.map_eq_some_iff.mp h
    exact .inr ⟨i, c, m, c', rfl, hc, hstep, rfl⟩

variable {i : Nat}

theorem step_of_step {c c' : Call} {m : Shared} (hc : s.calls[i]? = some c)
    (h : P.step s.shared c = some (m, c')) :
    (machine P).step s (.step i) = some ⟨m, s.calls.set i c'⟩ := by
  simp only [machine, hc, Option.bind_some, h, Option.map_some]

/-- Calls are made at their entry. -/
theorem entry_of_made (h : (machine P).run s acts = some s') : ∀ c ∈ made acts, P.entry c := by
  induction acts generalizing s with
  | nil =>
    intro c hc
    cases hc
  | cons a acts ih =>
    obtain ⟨mid, hstep, hrest⟩ := Machine.run_cons_eq_some _ h
    obtain ⟨c, rfl, hentry, -⟩ | ⟨i, -, -, -, rfl, -⟩ := step_cases hstep
    · intro d hd
      rcases List.mem_cons.mp hd with rfl | hd
      · exact hentry
      · exact ih hrest d hd
    · exact ih hrest

/-- A call is still there after the step of another one. -/
theorem mem_set_of_ne {calls : List Call} {c c' d : Call} (hc : calls[i]? = some c) (hd : d ∈ calls)
    (hne : d ≠ c) : d ∈ calls.set i c' := by
  obtain ⟨j, hj⟩ := List.mem_iff_getElem?.mp hd
  refine List.mem_iff_getElem?.mpr ⟨j, ?_⟩
  rw [List.getElem?_set_ne]
  · exact hj
  · rintro rfl
    rw [hc] at hj
    exact hne (Option.some.inj hj).symm

/-! ### Assertions about each call -/

section Local

variable {ok : Shared → Call → Prop} {I : Shared → Prop} {Q : Shared → Call → Prop}

/-- An assertion about the shared state, and one about each call. -/
structure Each (I : Shared → Prop) (Q : Shared → Call → Prop) (s : Concurrent Shared Call) :
    Prop where
  shared : I s.shared
  calls : ∀ c ∈ s.calls, Q s.shared c

/-- **Calls one by one.** An assertion that holds at the entries, and that a step keeps for the call
that takes it and for all others, holds of every call in every run. -/
theorem run_local (entry : ∀ m c, P.entry c → I m → Q m c)
    (own : ∀ m c m' c', I m → Q m c → ok m c → P.step m c = some (m', c') → I m' ∧ Q m' c')
    (others : ∀ m c m' c' d, I m → Q m c → ok m c → P.step m c = some (m', c') → Q m d → Q m' d)
    (hrun : (machine P).run s acts = some s') (hok : (machine P).Guarded (Steps ok) s acts)
    (start : Each I Q s) : Each I Q s' := by
  refine (machine P).guarded_invariant ?_ hrun hok start
  rintro s a s' ⟨hshared, hcalls⟩ hok hstep
  obtain ⟨c, rfl, hentry, rfl⟩ | ⟨i, c, m, c', rfl, hc, hcall, rfl⟩ := step_cases hstep
  · refine ⟨hshared, fun d hd => ?_⟩
    rcases List.mem_append.mp hd with hd | hd
    · exact hcalls d hd
    · cases List.mem_singleton.mp hd
      exact entry _ _ hentry hshared
  · have hmem := List.mem_of_getElem? hc
    obtain ⟨hshared', hown⟩ := own _ _ _ _ hshared (hcalls c hmem) (hok c hc) hcall
    refine ⟨hshared', fun d hd => ?_⟩
    rcases List.mem_or_eq_of_mem_set hd with hd | rfl
    · exact others _ _ _ _ d hshared (hcalls c hmem) (hok c hc) hcall (hcalls d hd)
    · exact hown

end Local

/-! ### Calls that do not overlap -/

section Apart

/-- All calls but the one at a place have returned. -/
def Alone (P : Program Shared Call) (calls : List Call) (i : Nat) : Prop :=
  ∀ j d, calls[j]? = some d → P.returned d = false → j = i

theorem Alone.set {calls : List Call} {i : Nat} (h : Alone P calls i) (c : Call) :
    Alone P (calls.set i c) i := by
  intro j d hd hactive
  rw [List.getElem?_set] at hd
  split at hd
  · exact Eq.symm ‹_›
  · exact h j d hd hactive

theorem Idle.alone (h : Idle P s) (c : Call) : Alone P (s.calls ++ [c]) s.calls.length := by
  intro j d hd hactive
  by_cases hlt : j < s.calls.length
  · rw [List.getElem?_append_left hlt] at hd
    rw [h d (List.mem_of_getElem? hd)] at hactive
    cases hactive
  · have := (List.getElem?_eq_some_iff.mp hd).1
    rw [List.length_append, List.length_singleton] at this
    omega

theorem inProgress_lt_one_iff : inProgress P s < 1 ↔ Idle P s := by
  rw [Nat.lt_one_iff, inProgress, List.countP_eq_zero]
  simp only [Bool.not_eq_true, Bool.not_eq_false']
  exact Iff.rfl

theorem atMost_steps {k : Nat} {steps : List (Act Call)} (hsteps : ∀ a ∈ steps, IsStep a)
    (s : Concurrent Shared Call) : (machine P).Guarded (AtMost P k) s steps := by
  induction steps generalizing s with
  | nil => trivial
  | cons a steps ih =>
    refine ⟨?_, fun s' _ => ih (fun b hb => hsteps b (List.mem_cons_of_mem _ hb)) s'⟩
    cases a with
    | call c => exact (hsteps _ List.mem_cons_self).elim
    | step i => trivial

/-- A single call does not overlap with another one. -/
theorem apart_single (h : Idle P s) (c : Call) {steps : List (Act Call)}
    (hsteps : ∀ a ∈ steps, IsStep a) :
    (machine P).Guarded (AtMost P 1) s (.call c :: steps) :=
  ⟨inProgress_lt_one_iff.mpr h, fun s' _ => atMost_steps hsteps s'⟩

/-- Between calls the shared state meets `I`, and during one it meets `Q`, with the calls made so
far. -/
inductive Settled (P : Program Shared Call) (I : List Call → Shared → Prop)
    (Q : List Call → Shared → Call → Prop) (history : List Call) (s : Concurrent Shared Call) : Prop
  | idle (idle : Idle P s) (shared : I history s.shared)
  | during (i : Nat) (c : Call) (here : s.calls[i]? = some c) (active : P.returned c = false)
      (alone : Alone P s.calls i) (shared : Q history s.shared c)

variable {I : List Call → Shared → Prop} {Q : List Call → Shared → Call → Prop}

variable {history : List Call}

theorem Settled.of_idle (h : Settled P I Q history s) (idle : Idle P s) : I history s.shared := by
  cases h with
  | idle _ shared => exact shared
  | during i c here active alone shared =>
    rw [idle c (List.mem_of_getElem? here)] at active
    cases active

/-- The call in progress takes a step, and may return by it. -/
theorem Settled.step {i : Nat} {c' : Call} {m : Shared} (hlt : i < s.calls.length)
    (alone : Alone P s.calls i) (h : if P.returned c' then I history m else Q history m c') :
    Settled P I Q history ⟨m, s.calls.set i c'⟩ := by
  split at h
  · rename_i hreturned
    refine .idle (fun d hd => ?_) h
    obtain ⟨j, hj⟩ := List.mem_iff_getElem?.mp hd
    cases hactive : P.returned d with
    | true => rfl
    | false =>
      cases alone.set c' j d hj hactive
      cases hj.symm.trans (List.getElem?_set_self hlt)
      rw [hactive] at hreturned
      exact hreturned
  · rename_i hactive
    exact .during i c' (List.getElem?_set_self hlt) (Bool.eq_false_iff.mpr hactive)
      (alone.set c') h

/-- **Calls one after the other.** An assertion `I` about the shared state and the calls made so
far holds between calls, if an assertion `Q` about the call in progress leads from one to the
next. -/
theorem run_apart (entry : ∀ history m c, P.entry c → I history m →
      P.returned c = false ∧ Q (history ++ [c]) m c)
    (ended : ∀ m c, P.returned c → P.step m c = none)
    (own : ∀ history m c m' c', Q history m c → P.step m c = some (m', c') →
      if P.returned c' then I history m' else Q history m' c')
    (hrun : (machine P).run s acts = some s') (happart : (machine P).Guarded (AtMost P 1) s acts)
    (start : Settled P I Q history s) : Settled P I Q (history ++ made acts) s' := by
  induction acts generalizing s history with
  | nil =>
    cases hrun
    rw [made, List.append_nil]
    exact start
  | cons a acts ih =>
    obtain ⟨mid, hstep, hrest⟩ := Machine.run_cons_eq_some _ hrun
    have later := happart.2 mid hstep
    obtain ⟨c, rfl, hentry, rfl⟩ | ⟨i, c, m, c', rfl, hc, hcall, rfl⟩ := step_cases hstep
    · have hidle : Idle P s := inProgress_lt_one_iff.mp happart.1
      obtain ⟨hactive, hQ⟩ := entry history s.shared c hentry (start.of_idle hidle)
      rw [made, ← List.singleton_append, ← List.append_assoc]
      exact ih hrest later
        (.during s.calls.length c List.getElem?_concat_length hactive (hidle.alone c) hQ)
    · have hactive : P.returned c = false := by
        cases hreturned : P.returned c with
        | false => rfl
        | true =>
          rw [ended _ _ hreturned] at hcall
          cases hcall
      cases start with
      | idle hidle shared =>
        rw [hidle c (List.mem_of_getElem? hc)] at hactive
        cases hactive
      | during k d here active alone shared =>
        cases alone i c hc hactive
        cases here.symm.trans hc
        exact ih hrest later
          (.step (List.getElem?_eq_some_iff.mp hc).1 alone (own _ _ _ _ _ shared hcall))

end Apart

/-! ### Progress -/

theorem sum_set {calls : List Call} (work : Call → Nat) {c : Call} (hc : calls[i]? = some c)
    (c' : Call) : ((calls.set i c').map work).sum + work c = (calls.map work).sum + work c' := by
  induction calls generalizing i with
  | nil => cases hc
  | cons d calls ih =>
    cases i with
    | zero =>
      cases hc
      simp only [List.set_cons_zero, List.map_cons, List.sum_cons]
      omega
    | succ i =>
      have := ih hc
      simp only [List.set_cons_succ, List.map_cons, List.sum_cons]
      omega

/-- **All calls return**, if every step of a call lowers its measure and only a call that has
returned cannot take a step. -/
theorem settles (work : Call → Nat) {I : Shared → Prop}
    (kept : ∀ m c m' c', I m → P.step m c = some (m', c') → I m' ∧ work c' < work c)
    (ended : ∀ m c, P.returned c → P.step m c = none)
    (enabled : ∀ m c, I m → P.returned c = false → ∃ next, P.step m c = some next)
    (hs : I s.shared) : (machine P).Settles IsStep (Idle P) s := by
  have preserved : ∀ s a s', I s.shared → IsStep a → (machine P).step s a = some s' →
      I s'.shared := by
    intro s a s' hs _ hstep
    obtain ⟨c, rfl, hentry, rfl⟩ | ⟨i, c, m, c', rfl, hc, hcall, rfl⟩ := step_cases hstep
    · exact hs
    · exact (kept _ _ _ _ hs hcall).1
  refine Machine.settles_of_measure (machine P) (fun s => (s.calls.map work).sum) preserved
    ?_ ?_ ?_ hs
  · intro s a s' _ hidle _ hstep
    obtain ⟨c, rfl, hentry, rfl⟩ | ⟨i, c, m, c', rfl, hc, hcall, rfl⟩ := step_cases hstep
    · contradiction
    · rw [ended _ _ (hidle c (List.mem_of_getElem? hc))] at hcall
      cases hcall
  · intro s a s' hs _ _ hstep
    obtain ⟨c, rfl, hentry, rfl⟩ | ⟨i, c, m, c', rfl, hc, hcall, rfl⟩ := step_cases hstep
    · contradiction
    refine .inr ?_
    have hlt := (kept _ _ _ _ hs hcall).2
    have hsum := sum_set work hc c'
    dsimp only
    omega
  · intro s hs hidle
    simp only [Idle, not_forall] at hidle
    obtain ⟨c, hc, hactive⟩ := hidle
    obtain ⟨i, hi⟩ := List.mem_iff_getElem?.mp hc
    obtain ⟨next, hnext⟩ := enabled s.shared c hs (Bool.eq_false_iff.mpr hactive)
    exact ⟨.step i, _, trivial, step_of_step hi hnext⟩

end Concurrent

end Glider.Lib
