/-
Compressed names: the wire format, and what the decoder does on it.

`nameToken` says what a name has at one position of a message, `NameAt` is the grammar
of whole names (labels, with a pointer continuing the name elsewhere), and `nameStep`
is the graph a decoder walks: from a label to what follows it, from a pointer to its
target.

* `domainLoop_loop_iff` — the decoder runs out of fuel exactly when so many steps in
  the graph are possible.
* `domainLoop_cases` — otherwise it returns what the grammar says, or an error where
  the grammar has no name.
* `domainLoop_safe` — it never reads outside the message.
-/

import Glider.Dns.Message
import Glider.Lib.Orbit

namespace Glider.Dns

open Glider.Go Glider.Lib

/-! ### The wire format -/

/-- What a name has at a position. -/
inductive Token where
  /-- The message ends; the name ends with it. -/
  | endOfData
  | root
  | label (size : Nat)
  | pointer (target : Nat)
  | malformed (e : String)
deriving DecidableEq, Repr

variable {m : Slice}

def nameToken (m : Slice) (pos : Nat) : Token :=
  if m.len ≤ pos then .endOfData
  else if m.byteAt pos &&& 0xC0 = 0xC0 then
    if m.len < pos + 2 then
      .malformed "UnmarshalDomainTo: not enough size for compressed domain"
    else if m.len < (m.wordAt pos &&& 0x3FFF).toNat then
      .malformed "UnmarshalDomainPointTo: offset larger than msg length"
    else .pointer (m.wordAt pos &&& 0x3FFF).toNat
  else if (m.byteAt pos).toNat = 0 then .root
  else if 63 < (m.byteAt pos).toNat then
    .malformed "UnmarshalDomainTo: label size larger than 63"
  else if m.len < pos + 1 + (m.byteAt pos).toNat then
    .malformed "UnmarshalDomainTo: label size larger than msg length"
  else .label (m.byteAt pos).toNat

/-- The bytes of the label whose length byte is at `pos`. -/
def labelAt (m : Slice) (pos size : Nat) : GoString := (m.mem.drop (pos + 1)).take size

/-- A name starts at `pos`, has these labels, and its own bytes end at `stop`: what a
pointer leads to belongs to the name but not to its bytes. -/
inductive NameAt (m : Slice) : (pos : Nat) → (labels : List GoString) → (stop : Nat) → Prop where
  | endOfData {pos : Nat} (token : nameToken m pos = .endOfData) : NameAt m pos [] pos
  | root {pos : Nat} (token : nameToken m pos = .root) : NameAt m pos [] (pos + 1)
  | label {pos size stop : Nat} {labels : List GoString} (token : nameToken m pos = .label size)
      (rest : NameAt m (pos + 1 + size) labels stop) :
      NameAt m pos (labelAt m pos size :: labels) stop
  | pointer {pos target stop : Nat} {labels : List GoString}
      (token : nameToken m pos = .pointer target) (rest : NameAt m target labels stop) :
      NameAt m pos labels (pos + 2)

/-- The labels of the name at a position, as far as so many steps lead. -/
def wireLabels (m : Slice) : (fuel pos : Nat) → List GoString
  | 0, _ => []
  | fuel + 1, pos =>
    match nameToken m pos with
    | .label size => labelAt m pos size :: wireLabels m fuel (pos + 1 + size)
    | .pointer target => wireLabels m fuel target
    | _ => []

/-- Where a decoder of names goes from a position, unless the name ends there. -/
def nameStep (m : Slice) (pos : Nat) : Option Nat :=
  match nameToken m pos with
  | .label size => some (pos + 1 + size)
  | .pointer target => some target
  | _ => none

section Token

variable {pos size target : Nat}

/-- What a token says about its place in the message. -/
def Token.InBounds (m : Slice) (pos : Nat) : Token → Prop
  | .endOfData => m.len ≤ pos
  | .root => pos < m.len
  | .label size => pos + 1 + size ≤ m.len
  | .pointer target => pos + 2 ≤ m.len ∧ target ≤ m.len
  | .malformed _ => True

theorem nameToken_inBounds (m : Slice) (pos : Nat) : (nameToken m pos).InBounds m pos := by
  unfold nameToken
  split
  · assumption
  rename_i hpos
  split
  · split
    · trivial
    rename_i htwo
    split
    · trivial
    rename_i htarget
    exact ⟨Nat.le_of_not_lt htwo, Nat.le_of_not_lt htarget⟩
  split
  · exact Nat.lt_of_not_le hpos
  split
  · trivial
  split
  · trivial
  rename_i hlabel
  exact Nat.le_of_not_lt hlabel

theorem nameToken_label (h : nameToken m pos = .label size) : pos + 1 + size ≤ m.len := by
  have inBounds := nameToken_inBounds m pos
  rw [h] at inBounds
  exact inBounds

theorem nameToken_label_le (h : nameToken m pos = .label size) : 0 < size ∧ size ≤ 63 := by
  unfold nameToken at h
  split at h
  · cases h
  split at h
  · split at h
    · cases h
    · split at h <;> cases h
  split at h
  · cases h
  rename_i hpos
  split at h
  · cases h
  rename_i hle
  split at h
  · cases h
  cases h
  exact ⟨Nat.pos_of_ne_zero hpos, Nat.le_of_not_lt hle⟩

theorem nameToken_pointer (h : nameToken m pos = .pointer target) :
    pos + 2 ≤ m.len ∧ target ≤ m.len := by
  have inBounds := nameToken_inBounds m pos
  rw [h] at inBounds
  exact inBounds

theorem nameToken_root (h : nameToken m pos = .root) : pos < m.len := by
  have inBounds := nameToken_inBounds m pos
  rw [h] at inBounds
  exact inBounds

/-- The graph stays within the message. -/
theorem nameStep_lt (m : Slice) (a b : Nat) (h : nameStep m a = some b) : b < m.len + 1 := by
  unfold nameStep at h
  split at h
  · rename_i size token
    cases h
    exact Nat.lt_succ_of_le (nameToken_label token)
  · rename_i target token
    cases h
    exact Nat.lt_succ_of_le (nameToken_pointer token).2
  · cases h

end Token

/-- The bytes of a name are bytes of the message. -/
theorem NameAt.bounds {pos stop : Nat} {labels : List GoString} (h : NameAt m pos labels stop)
    (hpos : pos ≤ m.len) : pos ≤ stop ∧ stop ≤ m.len := by
  induction h with
  | endOfData _ => exact ⟨Nat.le_refl _, hpos⟩
  | root token => exact ⟨Nat.le_succ _, nameToken_root token⟩
  | label token _ ih =>
    have := ih (nameToken_label token)
    omega
  | pointer token _ _ => exact ⟨Nat.le_add_right _ _, (nameToken_pointer token).1⟩

/-- The labels of a decoded name are short, and not empty. -/
theorem NameAt.labels_le {pos stop : Nat} {labels : List GoString} (h : NameAt m pos labels stop) :
    ∀ label ∈ labels, label ≠ [] ∧ label.length ≤ 63 := by
  induction h with
  | endOfData _ | root _ => exact fun _ h => by cases h
  | label token _ ih =>
    intro label hlabel
    rcases List.mem_cons.mp hlabel with rfl | hlabel
    · have hin := nameToken_label token
      obtain ⟨hpos, hle⟩ := nameToken_label_le token
      have hmem := m.len_le
      refine ⟨List.ne_nil_of_length_pos ?_, Nat.le_trans (List.length_take_le _ _) hle⟩
      rw [labelAt, List.length_take, List.length_drop]
      omega
    · exact ih label hlabel
  | pointer _ _ ih => exact ih

/-! ### One round of the decoder -/

section Round

variable {off idx : Nat} {sb : GoString}

/-- **One round** of the decoder, by what it finds at its position. -/
theorem domainLoop_succ (fuel : Nat) (hpos : off + idx ≤ m.len) :
    (domainLoop m (fuel + 1) (m.tail off) idx sb).Agrees
      (match nameToken m (off + idx) with
      | .endOfData => pure (idx, sb)
      | .root => pure (idx + 1, sb)
      | .malformed e => Read.fail e
      | .label size =>
        domainLoop m fuel (m.tail off) (idx + 1 + size) (addLabel sb (labelAt m (off + idx) size))
      | .pointer target => do
        let decoded ← domainLoop m fuel (m.tail target) 0 sb
        pure (idx + 2, decoded.2)) := by
  have hidx : idx ≤ (m.tail off).len := by simp; omega
  rw [domainLoop]
  refine (Slice.sliceFrom_agrees hidx).bind.trans ?_
  unfold nameToken
  by_cases hend : m.len ≤ off + idx
  · rw [if_pos (by simp; omega), if_pos hend]
    exact .refl _
  have hlt : idx < (m.tail off).len := by simp; omega
  rw [if_neg (by simp; omega), if_neg hend]
  refine (Slice.index_agrees hlt).bind.trans ?_
  rw [Slice.tail_byteAt]
  by_cases hptr : m.byteAt (off + idx) &&& 0xC0 = 0xC0
  · rw [if_pos hptr, if_pos hptr]
    refine (Slice.sliceFrom_agrees hidx).bind.trans ?_
    by_cases htwo : m.len < off + idx + 2
    · rw [if_pos (by simp; omega), if_pos htwo]
      exact .refl _
    rw [if_neg (by simp; omega), if_neg htwo]
    refine (Slice.slice_uint16_agrees rfl (by simp; omega)).trans ?_
    rw [Slice.tail_wordAt, unmarshalDomainPointTo]
    by_cases htarget : m.len < (m.wordAt (off + idx) &&& 0x3FFF).toNat
    · rw [if_pos htarget, if_pos htarget]
      exact .refl _
    · rw [if_neg htarget, if_neg htarget]
      simp only [bind_assoc, pure_bind]
      exact (Slice.sliceFrom_agrees (Nat.le_of_not_lt htarget)).bind
  · rw [if_neg hptr, if_neg hptr]
    refine (Slice.index_agrees hlt).bind.trans ?_
    rw [Slice.tail_byteAt]
    by_cases hroot : (m.byteAt (off + idx)).toNat = 0
    · rw [if_pos hroot, if_pos hroot]
      exact .refl _
    rw [if_neg hroot, if_neg hroot]
    by_cases hbig : 63 < (m.byteAt (off + idx)).toNat
    · rw [if_pos hbig, if_pos hbig]
      exact .refl _
    rw [if_neg hbig, if_neg hbig]
    by_cases hlong : m.len < off + idx + 1 + (m.byteAt (off + idx)).toNat
    · rw [if_pos (by simp; omega), if_pos hlong]
      exact .refl _
    have hlabel : idx + 1 + (m.byteAt (off + idx)).toNat ≤ (m.tail off).len := by simp; omega
    rw [if_neg (by simp; omega), if_neg hlong]
    refine (Slice.slice_agrees (Nat.le_add_right _ _) hlabel).bind.trans ?_
    rw [Slice.part_bytes (Nat.le_trans hlabel (m.tail off).len_le), Nat.add_sub_cancel_left,
      Slice.tail_mem, List.drop_drop]
    exact .refl _

end Round

/-! ### Whole names -/

section Whole

/-- The decoder never reads outside the message. -/
theorem domainLoop_safe (fuel : Nat) {off idx : Nat} (sb : GoString) (hpos : off + idx ≤ m.len) :
    (domainLoop m fuel (m.tail off) idx sb).Safe := by
  induction fuel generalizing off idx sb with
  | zero => exact Read.safe_outOfFuel
  | succ fuel ih =>
    rw [(domainLoop_succ fuel hpos).safe]
    cases token : nameToken m (off + idx) with
    | endOfData | root => exact Read.safe_pure _
    | malformed e => exact Read.safe_fail e
    | label size =>
      have hnext := nameToken_label token
      exact ih _ (by omega)
    | pointer target =>
      exact Read.safe_bind.mpr ⟨ih sb (nameToken_pointer token).2, fun _ _ => Read.safe_pure _⟩

variable {off idx fuel : Nat} {sb : GoString}

/-- **Fuel.** The decoder runs out of `fuel` exactly when `fuel` steps are possible. -/
theorem domainLoop_loop_iff (hpos : off + idx ≤ m.len) :
    (domainLoop m fuel (m.tail off) idx sb).outcome = .loop ↔
      (orbit (nameStep m) fuel (off + idx)).isSome := by
  induction fuel generalizing off idx sb with
  | zero => exact iff_of_true rfl rfl
  | succ fuel ih =>
    rw [(domainLoop_succ fuel hpos).outcome, orbit]
    cases token : nameToken m (off + idx) with
    | endOfData | root | malformed e => simp [nameStep, token]
    | label size =>
      have hnext : off + (idx + 1 + size) ≤ m.len := by
        have := nameToken_label token
        omega
      simp only [nameStep, token, Option.bind_some]
      rw [ih hnext, show off + (idx + 1 + size) = off + idx + 1 + size by omega]
    | pointer target =>
      simp only [nameStep, token, Option.bind_some]
      rw [Read.bind_eq_loop, ih (nameToken_pointer token).2]
      simp

/-- Where the grammar has a name, the decoder returns it if it returns at all. -/
theorem NameAt.domainLoop_eq {pos stop : Nat} {labels : List GoString}
    (h : NameAt m pos labels stop) (fuel off idx : Nat) (sb : GoString)
    (hpos : off + idx ≤ m.len) (heq : pos = off + idx)
    (hloop : (domainLoop m fuel (m.tail off) idx sb).outcome ≠ .loop) :
    (domainLoop m fuel (m.tail off) idx sb).outcome =
      .ok (stop - off, labels.foldl addLabel sb) := by
  induction h generalizing off idx fuel sb with
  | endOfData token =>
    subst heq
    cases fuel with
    | zero => exact absurd rfl hloop
    | succ fuel =>
      rw [(domainLoop_succ fuel hpos).outcome, token]
      simp
  | root token =>
    subst heq
    cases fuel with
    | zero => exact absurd rfl hloop
    | succ fuel =>
      rw [(domainLoop_succ fuel hpos).outcome, token, Nat.add_assoc, Nat.add_sub_cancel_left]
      rfl
  | label token _ ih =>
    subst heq
    cases fuel with
    | zero => exact absurd rfl hloop
    | succ fuel =>
      rw [(domainLoop_succ fuel hpos).outcome, token] at hloop ⊢
      have := nameToken_label token
      exact ih fuel off _ _ (by omega) (by omega) hloop
  | pointer token _ ih =>
    subst heq
    cases fuel with
    | zero => exact absurd rfl hloop
    | succ fuel =>
      rw [(domainLoop_succ fuel hpos).outcome, token] at hloop ⊢
      have hrest := ih fuel _ 0 sb (nameToken_pointer token).2 rfl fun h =>
        hloop (Read.bind_eq_loop.mpr (.inl h))
      simp only [Read.bind_outcome_of_ok hrest, Read.pure_outcome]
      rw [Nat.add_assoc, Nat.add_sub_cancel_left]

/-- What the decoder returns, the grammar has. -/
theorem NameAt.of_domainLoop {n : Nat} {s : GoString} (hpos : off + idx ≤ m.len)
    (h : (domainLoop m fuel (m.tail off) idx sb).outcome = .ok (n, s)) :
    NameAt m (off + idx) (wireLabels m fuel (off + idx)) (off + n) := by
  induction fuel generalizing off idx sb n s with
  | zero => cases h
  | succ fuel ih =>
    rw [(domainLoop_succ fuel hpos).outcome] at h
    rw [wireLabels]
    cases token : nameToken m (off + idx) with
    | endOfData =>
      rw [token] at h
      cases h
      exact .endOfData token
    | root =>
      rw [token] at h
      cases h
      exact .root token
    | malformed e =>
      rw [token] at h
      cases h
    | label size =>
      rw [token] at h
      have hnext := nameToken_label token
      have rest := ih (by omega) h
      rw [show off + (idx + 1 + size) = off + idx + 1 + size by omega] at rest
      exact .label token rest
    | pointer target =>
      rw [token] at h
      obtain ⟨r, hr, hpure⟩ := Read.bind_eq_ok h
      cases hpure
      exact .pointer token (ih (nameToken_pointer token).2 hr)

end Whole

/-- `UnmarshalDomainTo` at a position of the message: it does not end, it returns the
name there, or it fails and there is none. -/
theorem unmarshalDomainTo_cases (fuel : Nat) {pos : Nat} (hpos : pos ≤ m.len) :
    (unmarshalDomainTo fuel m (m.tail pos)).outcome = .loop ∨
      (∃ labels stop, NameAt m pos labels stop ∧
        (unmarshalDomainTo fuel m (m.tail pos)).Agrees
          (pure (stop - pos, labels.foldl addLabel []))) ∨
      ∃ e, (unmarshalDomainTo fuel m (m.tail pos)).Agrees (Read.fail e) ∧
        ∀ labels stop, ¬ NameAt m pos labels stop := by
  have safe : (domainLoop m fuel (m.tail pos) 0 []).Safe := domainLoop_safe fuel [] hpos
  unfold unmarshalDomainTo
  cases h : (domainLoop m fuel (m.tail pos) 0 []).outcome with
  | loop => exact .inl rfl
  | panic => exact absurd h safe.noPanic
  | ok r =>
    have name := NameAt.of_domainLoop hpos h
    have heq := name.domainLoop_eq fuel pos 0 [] hpos rfl (by rw [h]; simp)
    exact .inr (.inl ⟨_, _, name, Read.agrees_of_safe heq safe⟩)
  | err e =>
    refine .inr (.inr ⟨e, Read.agrees_fail h safe, fun labels stop name => ?_⟩)
    have heq := name.domainLoop_eq fuel pos 0 [] hpos rfl (by rw [h]; simp)
    rw [h] at heq
    cases heq

/-! ### Names as the decoder writes them -/

/-- A label that has dots in it is taken apart like a name. -/
theorem split_foldl_addLabel {sb : GoString} (hsb : sb ≠ []) (labels : List GoString) :
    split (labels.foldl addLabel sb) dot = (sb :: labels).flatMap (split · dot) := by
  induction labels generalizing sb with
  | nil => exact (List.append_nil _).symm
  | cons label labels ih =>
    have hadd : addLabel sb label = sb ++ dot :: label :=
      if_pos (List.length_pos_of_ne_nil hsb)
    rw [List.foldl_cons, hadd, ih (by simp), List.flatMap_cons, split_append, List.append_assoc]
    rfl

/-- Labels without dots are found again in what the decoder writes. -/
theorem eq_split_of_notMem {labels : List GoString} (hne : ∀ label ∈ labels, label ≠ [])
    (hdot : ∀ label ∈ labels, dot ∉ label) :
    labels =
      if labels.foldl addLabel [] = [] then [] else split (labels.foldl addLabel []) dot := by
  cases labels with
  | nil => rfl
  | cons label labels =>
    have hlabel := hne label List.mem_cons_self
    have hsplit : split ((label :: labels).foldl addLabel []) dot = label :: labels := by
      rw [List.foldl_cons, show addLabel [] label = label from rfl, split_foldl_addLabel hlabel,
        List.flatMap_congr fun l hl => split_of_notMem (hdot l hl)]
      exact List.flatMap_singleton' _
    rw [if_neg, hsplit]
    intro hnil
    rw [hnil] at hsplit
    exact hlabel (List.cons.inj hsplit).1.symm

end Glider.Dns
