/-
Programs that read from a state and may fail, with the state after a failure kept.

* `Keeps` — an invariant of the state, whether the program fails or not, with a rule for each way
  to put programs together.
* `Takes` — the program succeeds on a given input and leaves what follows it, with the same rules.
* `each_items` — calls that take one item each take a stream of items, in order.
-/

namespace Glider.Lib

/-- A program that reads from `S`, and returns `α` or fails with `ε`. -/
def Reads (S ε α : Type) := S → Except ε α × S

namespace Reads

variable {S ε α β : Type}

instance : Monad (Reads S ε) where
  pure a := fun s => (.ok a, s)
  bind x f := fun s =>
    match x s with
    | (.ok a, s') => f a s'
    | (.error e, s') => (.error e, s')

/-- Give up. -/
def fail (e : ε) : Reads S ε α := fun s => (.error e, s)

/-- Another error for the one of a program. -/
def wrap (f : ε → ε) (x : Reads S ε α) : Reads S ε α := fun s =>
  match x s with
  | (.ok a, s') => (.ok a, s')
  | (.error e, s') => (.error (f e), s')

variable {x : Reads S ε α} {f : α → Reads S ε β} {s s' : S}

theorem bind_of_ok {a : α} (h : x s = (.ok a, s')) : (x >>= f) s = f a s' := by
  show (match x s with | (.ok a, s') => f a s' | (.error e, s') => (.error e, s')) = _
  rw [h]

theorem bind_of_error {e : ε} (h : x s = (.error e, s')) : (x >>= f) s = (.error e, s') := by
  show (match x s with | (.ok a, s') => f a s' | (.error e, s') => (.error e, s')) = _
  rw [h]

/-- Inversion of a program that succeeds. -/
theorem bind_eq_ok {b : β} (h : (x >>= f) s = (.ok b, s')) :
    ∃ a s₁, x s = (.ok a, s₁) ∧ f a s₁ = (.ok b, s') := by
  cases hrun : x s with
  | mk res s₁ =>
    cases res with
    | ok a => exact ⟨a, s₁, rfl, (bind_of_ok hrun).symm.trans h⟩
    | error e => cases (bind_of_error hrun).symm.trans h

theorem wrap_of_ok {g : ε → ε} {a : α} (h : x s = (.ok a, s')) : wrap g x s = (.ok a, s') := by
  unfold wrap
  rw [h]

theorem wrap_of_error {g : ε → ε} {e : ε} (h : x s = (.error e, s')) :
    wrap g x s = (.error (g e), s') := by
  unfold wrap
  rw [h]

/-! ### Invariants -/

/-- Whatever the program does, it keeps `P`. -/
def Keeps (P : S → Prop) (x : Reads S ε α) : Prop := ∀ s, P s → P (x s).2

variable {P : S → Prop}

theorem Keeps.pure (a : α) : Keeps P (pure a : Reads S ε α) := fun _ h => h

theorem Keeps.fail (e : ε) : Keeps P (fail e : Reads S ε α) := fun _ h => h

theorem Keeps.bind (hx : Keeps P x) (hf : ∀ a, Keeps P (f a)) : Keeps P (x >>= f) := by
  intro s hs
  have hmid := hx s hs
  cases hrun : x s with
  | mk res s' =>
    rw [hrun] at hmid
    cases res with
    | ok a =>
      rw [bind_of_ok hrun]
      exact hf a s' hmid
    | error e =>
      rw [bind_of_error hrun]
      exact hmid

theorem Keeps.wrap (g : ε → ε) (hx : Keeps P x) : Keeps P (wrap g x) := by
  intro s hs
  have hmid := hx s hs
  cases hrun : x s with
  | mk res s' =>
    rw [hrun] at hmid
    cases res with
    | ok a =>
      rw [wrap_of_ok hrun]
      exact hmid
    | error e =>
      rw [wrap_of_error hrun]
      exact hmid

theorem Keeps.ite {c : Prop} [Decidable c] {y : Reads S ε α} (hx : Keeps P x) (hy : Keeps P y) :
    Keeps P (if c then x else y) := by
  split
  · exact hx
  · exact hy

/-! ### What a program takes from its input -/

/-- Where the input `used` comes first, the program returns `a` and leaves what comes after it;
`At input s` says that `input` is still to be read. -/
def Takes {τ : Type} (At : List τ → S → Prop) (used : List τ) (a : α) (x : Reads S ε α) : Prop :=
  ∀ rest s, At (used ++ rest) s → ∃ s', x s = (.ok a, s') ∧ At rest s'

section

variable {τ : Type} {At : List τ → S → Prop} {used used' : List τ} {a : α} {b : β}

theorem Takes.pure (a : α) : Takes At [] a (pure a : Reads S ε α) := fun _ s h => ⟨s, rfl, h⟩

theorem Takes.bind (hx : Takes At used a x) (hf : Takes At used' b (f a)) :
    Takes At (used ++ used') b (x >>= f) := by
  intro rest s hs
  rw [List.append_assoc] at hs
  obtain ⟨s₁, hrun, hs₁⟩ := hx _ s hs
  obtain ⟨s₂, hrun', hs₂⟩ := hf rest s₁ hs₁
  exact ⟨s₂, (bind_of_ok hrun).trans hrun', hs₂⟩

/-- The last read of a program. -/
theorem Takes.map {g : α → β} (hx : Takes At used a x) (hb : g a = b) :
    Takes At used b (x >>= fun a => Pure.pure (g a)) := by
  rw [← List.append_nil used, ← hb]
  exact .bind hx (.pure _)

theorem Takes.wrap (g : ε → ε) (hx : Takes At used a x) : Takes At used a (wrap g x) := by
  intro rest s hs
  obtain ⟨s', hrun, hs'⟩ := hx rest s hs
  exact ⟨s', wrap_of_ok hrun, hs'⟩

variable {c : Prop} [Decidable c] {y : Reads S ε α}

theorem Takes.ite_pos (h : c) (hx : Takes At used a x) : Takes At used a (if c then x else y) := by
  rw [if_pos h]
  exact hx

theorem Takes.ite_neg (h : ¬ c) (hy : Takes At used a y) :
    Takes At used a (if c then x else y) := by
  rw [if_neg h]
  exact hy

end

end Reads

/-! ### Repeated calls -/

section Each

variable {S ι ρ : Type}

/-- Call a function of a state once for each parameter, and collect what it returns. -/
def each (call : ι → S → ρ × S) : List ι → S → List ρ × S
  | [], s => ([], s)
  | i :: is, s =>
    let first := call i s
    let others := each call is first.2
    (first.1 :: others.1, others.2)

/-- **Item by item.** If a call with a fitting parameter takes the encoding of an item and leaves
what follows, then the calls for a list of items take their concatenation. -/
theorem each_items {δ τ : Type} {At : List τ → S → Prop} {call : ι → S → ρ × S}
    {encode : δ → List τ} {result : δ → ρ} {Fits : δ → ι → Prop}
    (step : ∀ d i rest s, Fits d i → At (encode d ++ rest) s →
      ∃ s', call i s = (result d, s') ∧ At rest s')
    (items : List (δ × ι)) (fits : ∀ p ∈ items, Fits p.1 p.2) {rest : List τ} {s : S}
    (hs : At ((items.map Prod.fst).flatMap encode ++ rest) s) :
    ∃ s', each call (items.map Prod.snd) s = (items.map fun p => result p.1, s') ∧ At rest s' := by
  induction items generalizing s with
  | nil => exact ⟨s, rfl, hs⟩
  | cons p items ih =>
    rw [List.map_cons, List.flatMap_cons, List.append_assoc] at hs
    obtain ⟨s₁, hcall, hs₁⟩ := step p.1 p.2 _ s (fits p List.mem_cons_self) hs
    obtain ⟨s₂, hothers, hs₂⟩ := ih (fun q hq => fits q (List.mem_cons_of_mem p hq)) hs₁
    refine ⟨s₂, ?_, hs₂⟩
    rw [List.map_cons, each, hcall]
    dsimp only
    rw [hothers]
    rfl

end Each

end Glider.Lib
