/-
Readers that are called again and again, each time with a buffer, and what it means
that exactly a given text arrives.

A feed is the state of a reader and a function for one call, which yields data, an error, or
both. The caller goes on until the first error.

* `Delivers` — whatever the buffers, the data is at every time a prefix of the text, the
  error comes when all of it has arrived, and it does come.
* `delivers_of_left` — the rule: a relation between the state and the text still to come
  that every call keeps, and a measure that every call lowers.
-/

import Glider.Lib.Machine

namespace Glider.Lib

/-- A reader with states `S`, which is called with a buffer from `B`. -/
structure Feed (S B α ε : Type) where
  read : S → B → S × List α × Option ε

/-- The calls made so far: where the reader is, what has arrived, and the error that has
ended it. -/
structure Calls (S α ε : Type) where
  state : S
  delivered : List α
  final : Option ε

namespace Feed

variable {S B α ε : Type} (R : Feed S B α ε)

/-- One call after the other; after an error there are no more. -/
def calls : Machine (Calls S α ε) B where
  step c b :=
    match c.final with
    | some _ => some c
    | none =>
      let (s, data, err) := R.read c.state b
      some ⟨s, c.delivered ++ data, err⟩

/-- All the calls from a state on. -/
def run (s : S) (bs : List B) : Option (Calls S α ε) := R.calls.run ⟨s, [], none⟩ bs

/-- The calls come to an error, if none of the buffers is empty (or what else `full` says). -/
def Ends (full : B → Prop) (s : S) : Prop :=
  ∃ n, ∀ bs c, R.run s bs = some c → (∀ b ∈ bs, full b) → n ≤ bs.length → c.final ≠ none

/-- From `s` on exactly `text` arrives, and then `err`. -/
structure Delivers (s : S) (text : List α) (err : ε) : Prop where
  delivered_prefix : ∀ bs c, R.run s bs = some c → c.delivered <+: text
  delivered_all : ∀ bs c e, R.run s bs = some c → c.final = some e → c.delivered = text ∧ e = err
  ends : ∃ n, ∀ bs c, R.run s bs = some c → n ≤ bs.length → c.final = some err

variable {R}

theorem calls_step_of_going {c : Calls S α ε} {b : B} {s : S} {data : List α} {err : Option ε}
    (hgoing : c.final = none) (hread : R.read c.state b = (s, data, err)) :
    R.calls.step c b = some ⟨s, c.delivered ++ data, err⟩ := by
  simp only [calls, hgoing, hread]

theorem calls_step_of_ended {c : Calls S α ε} {b : B} {e : ε} (hended : c.final = some e) :
    R.calls.step c b = some c := by
  simp only [calls, hended]

/-- If every call that goes on lowers a measure, the measure bounds the number of calls. -/
theorem length_add_work_le {Inv : Calls S α ε → Prop} {full : B → Prop} {work : S → Nat}
    (step : ∀ c b c', Inv c → full b → R.calls.step c b = some c' →
      Inv c' ∧ (c'.final = none → c.final = none ∧ work c'.state < work c.state))
    {c c' : Calls S α ε} {bs : List B} (inv : Inv c) (hrun : R.calls.run c bs = some c')
    (hfull : ∀ b ∈ bs, full b) :
    Inv c' ∧ (c'.final = none → c.final = none ∧ bs.length + work c'.state ≤ work c.state) := by
  induction bs generalizing c with
  | nil =>
    cases hrun
    exact ⟨inv, fun h => ⟨h, Nat.le_of_eq (Nat.zero_add _)⟩⟩
  | cons b bs ih =>
    obtain ⟨next, hstep, hrest⟩ := R.calls.run_cons_eq_some hrun
    obtain ⟨inv', hless⟩ := step c b next inv (hfull b List.mem_cons_self) hstep
    obtain ⟨inv'', hless'⟩ := ih inv' hrest fun a ha => hfull a (List.mem_cons_of_mem b ha)
    refine ⟨inv'', fun hfinal => ?_⟩
    obtain ⟨hnext, hwork'⟩ := hless' hfinal
    obtain ⟨hgoing, hwork⟩ := hless hnext
    refine ⟨hgoing, ?_⟩
    rw [List.length_cons]
    omega

theorem exists_run (R : Feed S B α ε) (s : S) (bs : List B) : ∃ c, R.run s bs = some c := by
  unfold run
  generalize (⟨s, [], none⟩ : Calls S α ε) = c
  induction bs generalizing c with
  | nil => exact ⟨c, rfl⟩
  | cons b bs ih =>
    have hstep : ∃ next, R.calls.step c b = some next := by
      cases hfinal : c.final with
      | some e => exact ⟨_, calls_step_of_ended hfinal⟩
      | none => exact ⟨_, calls_step_of_going hfinal rfl⟩
    obtain ⟨next, hstep⟩ := hstep
    rw [R.calls.run_cons_of_step hstep]
    exact ih next

/-- One more call. -/
theorem run_concat {s s' s'' : S} {bs : List B} {b : B} {delivered data : List α} {err : Option ε}
    (hrun : R.run s bs = some ⟨s', delivered, none⟩) (hread : R.read s' b = (s'', data, err)) :
    R.run s (bs ++ [b]) = some ⟨s'', delivered ++ data, err⟩ := by
  have hstep : R.calls.step ⟨s', delivered, none⟩ b = some ⟨s'', delivered ++ data, err⟩ :=
    calls_step_of_going rfl hread
  unfold run
  rw [R.calls.run_append hrun, R.calls.run_cons_of_step hstep]
  rfl

/-- The calls come to an error, if each one before it lowers a measure. -/
theorem ends_of_lowers {full : B → Prop} {work : S → Nat}
    (lowers : ∀ s b s' data, full b → R.read s b = (s', data, none) → work s' < work s) (s : S) :
    R.Ends full s := by
  have step : ∀ c b c', True → full b → R.calls.step c b = some c' →
      True ∧ (c'.final = none → c.final = none ∧ work c'.state < work c.state) := by
    refine fun c b c' _ hb hstep => ⟨trivial, fun hgoing => ?_⟩
    cases hwas : c.final with
    | some e =>
      rw [calls_step_of_ended hwas] at hstep
      cases hstep
      cases hwas.symm.trans hgoing
    | none =>
      cases hread : R.read c.state b with
      | mk s' rest =>
        obtain ⟨data, err⟩ := rest
        rw [calls_step_of_going hwas hread] at hstep
        cases hstep
        cases hgoing
        exact ⟨rfl, lowers _ _ _ _ hb hread⟩
  refine ⟨work s + 1, fun bs c hrun hfull hlong hfinal => ?_⟩
  have hle := ((length_add_work_le step trivial hrun hfull).2 hfinal).2
  dsimp only at hle
  omega

/-- What one call does to a reader that has `text` before it: it goes on and has less work to
do, or it ends with all that was left. -/
def StepsOn (R : Feed S B α ε) (Left : S → List α → Prop) (work : S → Nat) (err : ε) : Prop :=
  ∀ s text b, Left s text →
    (∃ s' data text', R.read s b = (s', data, none) ∧ text = data ++ text' ∧ Left s' text' ∧
      work s' < work s) ∨
    ∃ s', R.read s b = (s', text, some err)

section Rule

variable {Left : S → List α → Prop} {work : S → Nat} {err : ε} {text : List α} {s : S}

/-- The invariant of the calls: the rest of the text is still to come, or all has arrived. -/
structure OnWay (Left : S → List α → Prop) (err : ε) (text : List α) (c : Calls S α ε) :
    Prop where
  going : c.final = none → ∃ text', text = c.delivered ++ text' ∧ Left c.state text'
  ended : ∀ e, c.final = some e → c.delivered = text ∧ e = err

theorem OnWay.step {c c' : Calls S α ε} {b : B} (steps : R.StepsOn Left work err)
    (inv : OnWay Left err text c) (hstep : R.calls.step c b = some c') :
    OnWay Left err text c' ∧
      (c'.final = none → c.final = none ∧ work c'.state < work c.state) := by
  cases hfinal : c.final with
  | some e =>
    rw [calls_step_of_ended hfinal] at hstep
    cases hstep
    exact ⟨inv, fun h => absurd (hfinal.symm.trans h) (by simp)⟩
  | none =>
    obtain ⟨text', htext, hleft⟩ := inv.going hfinal
    obtain ⟨s', data, text'', hread, hsplit, hleft', hless⟩ | ⟨s', hread⟩ :=
      steps c.state text' b hleft
    · rw [calls_step_of_going hfinal hread] at hstep
      cases hstep
      refine ⟨⟨fun _ => ⟨text'', ?_, hleft'⟩, fun e he => ?_⟩, fun _ => ⟨rfl, hless⟩⟩
      · rw [htext, hsplit, List.append_assoc]
      · cases he
    · rw [calls_step_of_going hfinal hread] at hstep
      cases hstep
      refine ⟨⟨fun h => ?_, fun e he => ?_⟩, fun h => ?_⟩
      · cases h
      · cases he
        exact ⟨htext.symm, rfl⟩
      · cases h

theorem OnWay.of_run {c c' : Calls S α ε} {bs : List B} (steps : R.StepsOn Left work err)
    (inv : OnWay Left err text c) (hrun : R.calls.run c bs = some c') :
    OnWay Left err text c' ∧
      (c'.final = none → c.final = none ∧ bs.length + work c'.state ≤ work c.state) :=
  length_add_work_le (fun _ _ _ inv _ hstep => inv.step steps hstep) inv hrun
    fun _ _ => trivial

/-- **Delivery rule.** -/
theorem delivers_of_left (steps : R.StepsOn Left work err) (start : Left s text) :
    R.Delivers s text err := by
  have inv : OnWay Left err text ⟨s, [], none⟩ := by
    refine ⟨fun _ => ⟨text, rfl, start⟩, fun e he => ?_⟩
    cases he
  refine ⟨fun bs c hrun => ?_, fun bs c e hrun he => ?_, work s + 1, fun bs c hrun hlong => ?_⟩
  · obtain ⟨invc, -⟩ := inv.of_run steps hrun
    cases hfinal : c.final with
    | none =>
      obtain ⟨text', htext, -⟩ := invc.going hfinal
      exact ⟨text', htext.symm⟩
    | some e => exact (invc.ended e hfinal).1 ▸ List.prefix_rfl
  · exact (inv.of_run steps hrun).1.ended e he
  · obtain ⟨invc, hless⟩ := inv.of_run steps hrun
    cases hfinal : c.final with
    | none =>
      have hwork := (hless hfinal).2
      dsimp only at hwork
      omega
    | some e => rw [(invc.ended e hfinal).2]

end Rule

end Feed

end Glider.Lib
