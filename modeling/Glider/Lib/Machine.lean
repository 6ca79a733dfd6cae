/-
Machines with an executable, partial step function, and the rules that lift a
fact about one step to a fact about a whole run.

* `run_invariant` — what every enabled step preserves, every run preserves.
* `guarded_invariant` — the same for runs whose steps are all taken in states
  that meet a side condition. This is the rule for properties a program has only
  as long as some branch is not taken.
* `always_iff_guarded` — a property of every state of a run, characterised by a side
  condition on every step of it.
* `run_append` — runs compose, so a long run is assembled from its phases.
* `Reaches` — some run under a guard, again assembled from its phases.
* `settles_of_measure` — a goal is reached by every run of some actions, if each of them
  lowers a measure and one is enabled until then.

A step that is not enabled yields `none`, so a list of actions names at most one
run and a concrete run can be evaluated.
-/

namespace Glider.Lib

/-- A labelled transition system with a partial, executable step function. -/
structure Machine (State Act : Type) where
  step : State → Act → Option State

namespace Machine

variable {State Act : Type} (M : Machine State Act)

/-- Take the actions in order; `none` as soon as one of them is not enabled. -/
def run : State → List Act → Option State
  | s, [] => some s
  | s, a :: as => (M.step s a).bind fun s' => run s' as

/-- Every action of the run is taken in a state that meets `ok`. -/
def Guarded (ok : State → Act → Prop) : State → List Act → Prop
  | _, [] => True
  | s, a :: as => ok s a ∧ ∀ s', M.step s a = some s' → Guarded ok s' as

/-- A decidable guard can be checked along a run. -/
instance decidableGuarded {ok : State → Act → Prop} [∀ s a, Decidable (ok s a)] :
    (s : State) → (as : List Act) → Decidable (M.Guarded ok s as)
  | _, [] => isTrue trivial
  | s, a :: as =>
    have : Decidable (∀ s', M.step s a = some s' → M.Guarded ok s' as) :=
      match M.step s a with
      | none => isTrue fun _ hs' => nomatch hs'
      | some s' =>
        match decidableGuarded s' as with
        | isTrue later => isTrue fun _ hs' => Option.some.inj hs' ▸ later
        | isFalse not => isFalse fun all => not (all s' rfl)
    inferInstanceAs (Decidable (_ ∧ _))

/-- `P` holds in every state the run goes through, the first and the last included. -/
def Always (P : State → Prop) : State → List Act → Prop
  | s, [] => P s
  | s, a :: as => P s ∧ ∀ s', M.step s a = some s' → Always P s' as

@[simp] theorem run_nil (s : State) : M.run s [] = some s := rfl

theorem run_cons (s : State) (a : Act) (as : List Act) :
    M.run s (a :: as) = (M.step s a).bind fun s' => M.run s' as := rfl

variable {Inv : State → Prop} {ok : State → Act → Prop} {s s' mid : State} {a : Act}
  {as : List Act}

/-- Inversion of a nonempty run into its first step and the rest. -/
theorem run_cons_eq_some (h : M.run s (a :: as) = some s') :
    ∃ mid, M.step s a = some mid ∧ M.run mid as = some s' := by
  rw [run_cons] at h
  exact Option.bind_eq_some_iff.mp h

theorem run_cons_of_step (h : M.step s a = some mid) : M.run s (a :: as) = M.run mid as := by
  rw [run_cons, h, Option.bind_some]

/-- Runs compose. -/
theorem run_append {bs : List Act} (h : M.run s as = some mid) :
    M.run s (as ++ bs) = M.run mid bs := by
  induction as generalizing s with
  | nil =>
    cases h
    rfl
  | cons a as ih =>
    obtain ⟨next, hstep, hrest⟩ := M.run_cons_eq_some h
    rw [List.cons_append, M.run_cons_of_step hstep]
    exact ih hrest

/-- **Invariant rule.** What every enabled step preserves holds after every
run that starts where it holds. -/
theorem run_invariant (preserved : ∀ s a s', Inv s → M.step s a = some s' → Inv s')
    (hrun : M.run s as = some s') (start : Inv s) : Inv s' := by
  induction as generalizing s with
  | nil =>
    cases hrun
    exact start
  | cons a as ih =>
    obtain ⟨next, hstep, hrest⟩ := M.run_cons_eq_some hrun
    exact ih hrest (preserved s a next start hstep)

/-- **Guarded invariant rule.** It is enough that a step preserves the
invariant when it is taken in a state meeting the guard. -/
theorem guarded_invariant (preserved : ∀ s a s', Inv s → ok s a → M.step s a = some s' → Inv s')
    (hrun : M.run s as = some s') (guarded : M.Guarded ok s as) (start : Inv s) : Inv s' := by
  induction as generalizing s with
  | nil =>
    cases hrun
    exact start
  | cons a as ih =>
    obtain ⟨next, hstep, hrest⟩ := M.run_cons_eq_some hrun
    obtain ⟨hok, later⟩ := guarded
    exact ih hrest (later next hstep) (preserved s a next start hok hstep)

theorem guarded_cons (hok : ok s a) (hstep : M.step s a = some mid) (later : M.Guarded ok mid as) :
    M.Guarded ok s (a :: as) := by
  refine ⟨hok, fun s' h => ?_⟩
  cases hstep.symm.trans h
  exact later

/-- Guarded runs compose. -/
theorem guarded_append {bs : List Act} (hrun : M.run s as = some mid)
    (first : M.Guarded ok s as) (later : M.Guarded ok mid bs) : M.Guarded ok s (as ++ bs) := by
  induction as generalizing s with
  | nil =>
    cases hrun
    exact later
  | cons a as ih =>
    obtain ⟨next, hstep, hrest⟩ := M.run_cons_eq_some hrun
    exact M.guarded_cons first.1 hstep (ih hrest (first.2 next hstep))

theorem guarded_mono {ok' : State → Act → Prop} (himp : ∀ s a, ok s a → ok' s a)
    (h : M.Guarded ok s as) : M.Guarded ok' s as := by
  induction as generalizing s with
  | nil => trivial
  | cons a as ih => exact ⟨himp s a h.1, fun s' hstep => ih (h.2 s' hstep)⟩

theorem guarded_and {ok' : State → Act → Prop} (h : M.Guarded ok s as)
    (h' : M.Guarded ok' s as) : M.Guarded (fun s a => ok s a ∧ ok' s a) s as := by
  induction as generalizing s with
  | nil => trivial
  | cons a as ih => exact ⟨⟨h.1, h'.1⟩, fun s' hstep => ih (h.2 s' hstep) (h'.2 s' hstep)⟩

/-- A guard on the actions alone. -/
theorem guarded_of_forall {ok : Act → Prop} (h : ∀ a ∈ as, ok a) (s : State) :
    M.Guarded (fun _ a => ok a) s as := by
  induction as generalizing s with
  | nil => trivial
  | cons a as ih =>
    exact ⟨h a List.mem_cons_self, fun s' _ => ih (fun b hb => h b (List.mem_cons_of_mem a hb)) s'⟩

/-- A guard implied by an invariant of the unguarded machine holds along
every run. -/
theorem guarded_of_invariant (preserved : ∀ s a s', Inv s → M.step s a = some s' → Inv s')
    (implies : ∀ s a, Inv s → ok s a) (as : List Act) (start : Inv s) :
    M.Guarded ok s as := by
  induction as generalizing s with
  | nil => trivial
  | cons a as ih =>
    exact ⟨implies s a start, fun next hstep => ih (preserved s a next start hstep)⟩

/-- **Exact guards.** If, from a state where `P` holds, a step keeps `P` exactly
when it is taken under the guard `ok`, then `P` holds all along a run exactly when every
step of the run is taken under `ok`. The invariant may need a guard `pre` of its own. -/
theorem always_iff_guarded_within {P : State → Prop} {pre : State → Act → Prop}
    (preserved : ∀ s a s', Inv s → pre s a → M.step s a = some s' → Inv s')
    (exact_step : ∀ s a s', Inv s → pre s a → P s → M.step s a = some s' → (P s' ↔ ok s a))
    (hrun : M.run s as = some s') (within : M.Guarded pre s as) (inv : Inv s) (start : P s) :
    M.Always P s as ↔ M.Guarded ok s as := by
  induction as generalizing s with
  | nil => exact ⟨fun _ => trivial, fun _ => start⟩
  | cons a as ih =>
    obtain ⟨next, hstep, hrest⟩ := M.run_cons_eq_some hrun
    obtain ⟨hpre, within'⟩ := within
    have inv' := preserved s a next inv hpre hstep
    have iff_step := exact_step s a next inv hpre start hstep
    -- the step function is a function, so the run has one next state
    have unique : ∀ s'', M.step s a = some s'' → next = s'' := fun s'' h =>
      Option.some.inj (hstep.symm.trans h)
    constructor
    · rintro ⟨-, later⟩
      have always' := later next hstep
      have good : P next := by
        cases as with
        | nil => exact always'
        | cons b bs => exact always'.1
      refine ⟨iff_step.mp good, fun s'' h => ?_⟩
      cases unique s'' h
      exact (ih hrest (within' next hstep) inv' good).mp always'
    · rintro ⟨hok, later⟩
      have good := iff_step.mpr hok
      refine ⟨start, fun s'' h => ?_⟩
      cases unique s'' h
      exact (ih hrest (within' next hstep) inv' good).mpr (later next hstep)

/-- Exact guards, for an invariant of all steps. -/
theorem always_iff_guarded {P : State → Prop}
    (preserved : ∀ s a s', Inv s → M.step s a = some s' → Inv s')
    (exact_step : ∀ s a s', Inv s → P s → M.step s a = some s' → (P s' ↔ ok s a))
    (hrun : M.run s as = some s') (inv : Inv s) (start : P s) :
    M.Always P s as ↔ M.Guarded ok s as := by
  have within : M.Guarded (fun _ _ => True) s as :=
    M.guarded_of_invariant preserved (fun _ _ _ => trivial) as inv
  exact M.always_iff_guarded_within (fun s a s' hi _ h => preserved s a s' hi h)
    (fun s a s' hi _ hp h => exact_step s a s' hi hp h) hrun within inv start

/-! ### Reaching a state -/

/-- Some run leads there, and all its steps are taken under a guard. -/
def Reaches (ok : State → Act → Prop) (s s' : State) : Prop :=
  ∃ as, M.run s as = some s' ∧ M.Guarded ok s as

namespace Reaches

variable {M} {ok : State → Act → Prop} {s s' s'' : State}

theorem refl (s : State) : M.Reaches ok s s := ⟨[], rfl, trivial⟩

theorem trans (first : M.Reaches ok s s') (second : M.Reaches ok s' s'') : M.Reaches ok s s'' := by
  obtain ⟨as, hrun, hok⟩ := first
  obtain ⟨bs, hrun', hok'⟩ := second
  exact ⟨as ++ bs, (M.run_append hrun).trans hrun', M.guarded_append hrun hok hok'⟩

instance : Trans (M.Reaches ok) (M.Reaches ok) (M.Reaches ok) := ⟨trans⟩

theorem step {a : Act} (hok : ok s a) (hstep : M.step s a = some s') : M.Reaches ok s s' :=
  ⟨[a], M.run_cons_of_step hstep, M.guarded_cons hok hstep trivial⟩

end Reaches

/-! ### Progress -/

/-- Every run of actions of the class gets to `Goal` within a bounded number of steps, and
is never stuck before it does. -/
def Settles (cls : Act → Prop) (Goal : State → Prop) (s : State) : Prop :=
  ∃ n, ∀ as t, M.run s as = some t → (∀ a ∈ as, cls a) →
    Goal t ∨ (as.length < n ∧ ∃ a t', cls a ∧ M.step t a = some t')

/-- **Progress rule.** It is enough that every step of the class lowers a measure or
reaches the goal, and that one is enabled as long as the goal is not reached. -/
theorem settles_of_measure {cls : Act → Prop} {Inv Goal : State → Prop} (work : State → Nat)
    (preserved : ∀ s a s', Inv s → cls a → M.step s a = some s' → Inv s')
    (stays : ∀ s a s', Inv s → Goal s → cls a → M.step s a = some s' → Goal s')
    (lowers : ∀ s a s', Inv s → ¬ Goal s → cls a → M.step s a = some s' →
      Goal s' ∨ work s' < work s)
    (enabled : ∀ s, Inv s → ¬ Goal s → ∃ a s', cls a ∧ M.step s a = some s')
    {s : State} (inv : Inv s) : M.Settles cls Goal s := by
  -- a goal that is reached is kept
  have together : ∀ s a s', Inv s ∧ Goal s → cls a → M.step s a = some s' → Inv s' ∧ Goal s' :=
    fun s a s' h hcls hstep => ⟨preserved s a s' h.1 hcls hstep, stays s a s' h.1 h.2 hcls hstep⟩
  have key : ∀ as s t, Inv s → M.run s as = some t → (∀ a ∈ as, cls a) →
      Goal t ∨ (Inv t ∧ ¬ Goal t ∧ as.length + work t ≤ work s) := by
    intro as
    induction as with
    | nil =>
      intro s t inv hrun _
      cases hrun
      by_cases goal : Goal s
      · exact .inl goal
      · exact .inr ⟨inv, goal, Nat.le_of_eq (Nat.zero_add _)⟩
    | cons a as ih =>
      intro s t inv hrun hcls
      obtain ⟨next, hstep, hrest⟩ := M.run_cons_eq_some hrun
      have hcls' : ∀ b ∈ as, cls b := fun b hb => hcls b (List.mem_cons_of_mem a hb)
      have inv' := preserved s a next inv (hcls a List.mem_cons_self) hstep
      by_cases goal : Goal next
      · exact .inl (M.guarded_invariant together hrest (M.guarded_of_forall hcls' next)
          ⟨inv', goal⟩).2
      · have notyet : ¬ Goal s := fun goal' =>
          goal (stays s a next inv goal' (hcls a List.mem_cons_self) hstep)
        have hlt := (lowers s a next inv notyet (hcls a List.mem_cons_self) hstep).resolve_left goal
        obtain goal' | ⟨invt, notyet', hle⟩ := ih next t inv' hrest hcls'
        · exact .inl goal'
        · refine .inr ⟨invt, notyet', ?_⟩
          rw [List.length_cons]
          omega
  refine ⟨work s + 1, fun as t hrun hcls => ?_⟩
  obtain goal | ⟨invt, notyet, hle⟩ := key as s t inv hrun hcls
  · exact .inl goal
  · exact .inr ⟨by omega, enabled t invt notyet⟩

end Machine

end Glider.Lib
