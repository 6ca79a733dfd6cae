/-
Decoders over a lower reader, and whether they keep what it returns.

A decoder is a feed that gets bytes from below and delivers the payload in them. It may hold
some of the bytes for later calls. An error ends the calls, and by then everything the lower
reader has returned should have been delivered.

* `kept_iff` — the rule: if every call that goes on accounts for the bytes it took, then
  nothing is lost in a run exactly when each call of it that fails has no payload in the bytes
  it took.
* `RecordFormat` — streams of records, each a header of fixed size and as many bytes as the
  header says.
-/

import Glider.Lib.Delivery

namespace Glider.Lib

/-! ### Decoders -/

/-- A feed over a lower reader. All that is still to come is `ahead`; the part of it that is
still below is `below`. What is payload in the next bytes depends on the state. -/
structure Decoder (S B α ε : Type) extends Feed S B α ε where
  ahead : S → List α
  below : S → List α
  payload : S → List α → List α

namespace Decoder

variable {S B α ε : Type} (D : Decoder S B α ε)

/-- What the lower reader has returned since `s₀`. -/
def returned (s₀ s : S) : List α :=
  (D.ahead s₀).take ((D.ahead s₀).length - (D.below s).length)

/-- At the error, all the payload has been delivered that the lower reader returned. -/
def Kept (s₀ : S) (c : Calls S α ε) : Prop :=
  c.final ≠ none → c.delivered = D.payload s₀ (D.returned s₀ c.state)

/-- Nothing is lost in the calls. -/
def KeptAlong (s₀ : S) (bs : List B) : Prop := D.calls.Always (D.Kept s₀) ⟨s₀, [], none⟩ bs

/-- A condition on the calls of a decoder, for those made before the error. -/
def Before (ok : S → B → Prop) (c : Calls S α ε) (b : B) : Prop := c.final = none → ok c.state b

instance {ok : S → B → Prop} [∀ s b, Decidable (ok s b)] (c : Calls S α ε) (b : B) :
    Decidable (Before ok c b) :=
  inferInstanceAs (Decidable (c.final = none → ok c.state b))

/-- All the calls are made under a condition. -/
def Under (ok : S → B → Prop) (s₀ : S) (bs : List B) : Prop :=
  D.calls.Guarded (Before ok) ⟨s₀, [], none⟩ bs

instance {ok : S → B → Prop} [∀ s b, Decidable (ok s b)] (s₀ : S) (bs : List B) :
    Decidable (D.Under ok s₀ bs) :=
  inferInstanceAs (Decidable (D.calls.Guarded (Before ok) ⟨s₀, [], none⟩ bs))

/-- A call that goes on accounts for the bytes it took; one that fails has taken all that was
held, with no payload in it other than what it delivers exactly if `ok`. -/
structure Tracks (pre ok : S → B → Prop) : Prop where
  going : ∀ s b s' data, pre s b → D.read s b = (s', data, none) →
    ok s b ∧ ∃ xs, D.ahead s = xs ++ D.ahead s' ∧
      ∀ ys, D.payload s (xs ++ ys) = data ++ D.payload s' ys
  ended : ∀ s b s' data e, pre s b → D.read s b = (s', data, some e) →
    ∃ xs, D.ahead s = xs ++ D.below s' ∧ (D.payload s xs = data ↔ ok s b)

variable {D}

theorem returned_eq {s₀ s : S} {xs : List α} (h : D.ahead s₀ = xs ++ D.below s) :
    D.returned s₀ s = xs := by
  rw [returned, h, List.length_append, Nat.add_sub_cancel, List.take_left]

/-- The invariant before the error: what has been delivered and what is payload of the rest make
up the payload, whatever the rest is. -/
def Accounted (D : Decoder S B α ε) (s₀ : S) (c : Calls S α ε) : Prop :=
  c.final = none → ∃ xs, D.ahead s₀ = xs ++ D.ahead c.state ∧
    ∀ ys, D.payload s₀ (xs ++ ys) = c.delivered ++ D.payload c.state ys

variable {pre ok : S → B → Prop} {s₀ : S}

theorem Accounted.step {c c' : Calls S α ε} {b : B} (tracks : D.Tracks pre ok)
    (inv : D.Accounted s₀ c) (hpre : Before pre c b) (hstep : D.calls.step c b = some c') :
    D.Accounted s₀ c' := by
  intro hgoing
  cases hfinal : c.final with
  | some e =>
    rw [Feed.calls_step_of_ended hfinal] at hstep
    cases hstep
    cases hfinal.symm.trans hgoing
  | none =>
    obtain ⟨xs, hahead, hpayload⟩ := inv hfinal
    cases hread : D.read c.state b with
    | mk s' rest =>
      obtain ⟨data, err⟩ := rest
      rw [Feed.calls_step_of_going hfinal hread] at hstep
      cases hstep
      cases hgoing
      obtain ⟨-, xs', hahead', hpayload'⟩ := tracks.going _ _ _ _ (hpre hfinal) hread
      refine ⟨xs ++ xs', ?_, fun ys => ?_⟩
      · rw [hahead, hahead', List.append_assoc]
      · rw [List.append_assoc, hpayload, hpayload', List.append_assoc]

theorem kept_step_iff {c c' : Calls S α ε} {b : B} (tracks : D.Tracks pre ok)
    (inv : D.Accounted s₀ c) (hpre : Before pre c b) (hkept : D.Kept s₀ c)
    (hstep : D.calls.step c b = some c') : D.Kept s₀ c' ↔ Before ok c b := by
  cases hfinal : c.final with
  | some e =>
    rw [Feed.calls_step_of_ended hfinal] at hstep
    cases hstep
    refine ⟨fun _ h => ?_, fun _ => hkept⟩
    cases hfinal.symm.trans h
  | none =>
    obtain ⟨xs, hahead, hpayload⟩ := inv hfinal
    cases hread : D.read c.state b with
    | mk s' rest =>
      obtain ⟨data, err⟩ := rest
      rw [Feed.calls_step_of_going hfinal hread] at hstep
      cases hstep
      cases err with
      | none =>
        have hok := (tracks.going _ _ _ _ (hpre hfinal) hread).1
        exact ⟨fun _ _ => hok, fun _ h => absurd rfl h⟩
      | some e =>
        obtain ⟨xs', hahead', hiff⟩ := tracks.ended _ _ _ _ _ (hpre hfinal) hread
        have hreturned : D.returned s₀ s' = xs ++ xs' := by
          apply returned_eq
          rw [hahead, hahead', List.append_assoc]
        -- the payload of the bytes this call took is what decides
        have hdata : D.Kept s₀ ⟨s', c.delivered ++ data, some e⟩ ↔
            D.payload c.state xs' = data := by
          unfold Kept
          dsimp only
          rw [hreturned, hpayload]
          refine ⟨fun h => (List.append_cancel_left (h (by simp))).symm, fun h _ => by rw [h]⟩
        exact hdata.trans (hiff.trans ⟨fun h _ => h, fun h => h hfinal⟩)

/-- **Nothing is lost, exactly under the guard.** -/
theorem kept_iff {bs : List B} (tracks : D.Tracks pre ok) (within : D.Under pre s₀ bs) :
    D.KeptAlong s₀ bs ↔ D.Under ok s₀ bs := by
  obtain ⟨c, hrun⟩ := D.exists_run s₀ bs
  refine D.calls.always_iff_guarded_within
    (fun s a s' inv hpre hstep => Accounted.step tracks inv hpre hstep)
    (fun s a s' inv hpre hkept hstep => kept_step_iff tracks inv hpre hkept hstep)
    hrun within ?_ ?_
  · exact fun _ => ⟨[], rfl, fun ys => rfl⟩
  · exact fun h => absurd rfl h

theorem under_true (s₀ : S) (bs : List B) : D.Under (fun _ _ => True) s₀ bs := by
  have implies : ∀ (c : Calls S α ε) (b : B), True → Before (fun _ _ => True) c b :=
    fun _ _ _ _ => trivial
  exact D.calls.guarded_of_invariant (fun _ _ _ h _ => h) implies bs trivial

end Decoder

/-! ### Records -/

/-- Records with a header of fixed size, from which the length of what follows is taken. -/
structure RecordFormat (σ α : Type) where
  headerSize : Nat
  headerSize_pos : 0 < headerSize
  length : σ → List α → Nat
  next : σ → List α → σ

namespace RecordFormat

variable {σ α : Type} (F : RecordFormat σ α)

/-- The contents of the records, the last of which may be cut off. -/
def records (s : σ) (bs : List α) : List α :=
  if bs.length < F.headerSize then []
  else
    let header := bs.take F.headerSize
    let rest := bs.drop F.headerSize
    rest.take (F.length s header) ++ records (F.next s header) (rest.drop (F.length s header))
termination_by bs.length
decreasing_by
  have hpos := F.headerSize_pos
  simp only [List.length_drop]
  omega

/-- The contents from within a record on, with `left` of it to come. -/
def body (s : σ) (left : Nat) (bs : List α) : List α := bs.take left ++ F.records s (bs.drop left)

variable {F}

variable {s : σ}

theorem records_of_short {bs : List α} (h : bs.length < F.headerSize) : F.records s bs = [] := by
  rw [records, if_pos h]

theorem records_header {header : List α} (h : header.length = F.headerSize) (bs : List α) :
    F.records s (header ++ bs) = F.body (F.next s header) (F.length s header) bs := by
  rw [records, if_neg (by rw [List.length_append]; omega), ← h, List.take_left, List.drop_left]
  rfl

@[simp] theorem body_zero (s : σ) (bs : List α) : F.body s 0 bs = F.records s bs := rfl

theorem body_append {left : Nat} {xs : List α} (h : xs.length ≤ left) (ys : List α) :
    F.body s left (xs ++ ys) = xs ++ F.body s (left - xs.length) ys := by
  unfold body
  rw [List.take_append, List.drop_append, List.take_of_length_le h, List.drop_eq_nil_of_le h,
    List.append_assoc, List.nil_append]

theorem body_of_length_le {left : Nat} {xs : List α} (h : xs.length ≤ left) :
    F.body s left xs = xs := by
  have hnil : F.records s [] = [] := records_of_short F.headerSize_pos
  rw [body, List.take_of_length_le h, List.drop_eq_nil_of_le h, hnil, List.append_nil]

end RecordFormat

end Glider.Lib
