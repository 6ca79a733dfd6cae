/-
When the decoder of DNS messages ends, and when it stays inside the message.

The conditions are about the bytes of the message. `AnswerAt` is the layout of the
answer section: where its records start as long as each of them lies in the message.

* `decode_terminates_iff` — the decoder ends exactly when no name it comes to leads back
  to a position of itself. Nothing in the decoder rules such names out.
* `decode_safe_iff` — a decoder that ends stays in bounds exactly when the question's
  type and class lie in the message and the address records are long enough.
-/

import Glider.Dns.Name

namespace Glider.Dns

open Glider.Go Glider.Lib

/-! ### The layout of a message -/

variable {m : Slice}

/-- The bytes of an address that the decoder takes from a record's data. -/
def addressLen (rtype : UInt16) : Nat :=
  if rtype = qTypeA then 4 else if rtype = qTypeAAAA then 16 else 0

/-- A record lies in the message: its name starts at `start` and ends at `stop`, its
fixed fields and its data follow. -/
structure RecordAt (m : Slice) (start stop : Nat) : Prop where
  name : ∃ labels, NameAt m start labels stop
  fields : stop + 10 < m.len
  data : stop + 10 + (m.wordAt (stop + 8)).toNat ≤ m.len

/-- Counting from a record at `first`, the `k`-th record starts at `start`. The address
of each record before it lies in the memory, if not in the record. -/
inductive AnswerAt (m : Slice) : (first k start : Nat) → Prop where
  | here (first : Nat) : AnswerAt m first 0 first
  | later {first stop k start : Nat} (record : RecordAt m first stop)
      (address : stop + 10 + addressLen (m.wordAt stop) ≤ m.mem.length)
      (rest : AnswerAt m (stop + 10 + (m.wordAt (stop + 8)).toNat) k start) :
      AnswerAt m first (k + 1) start

/-- One of the announced answers starts here, after a question that lies in the
message. -/
def Reached (m : Slice) (start : Nat) : Prop :=
  18 ≤ m.len ∧ ∃ labels stop, NameAt m 12 labels stop ∧ stop + 4 ≤ m.len ∧
    ∃ k < (m.wordAt 6).toNat, AnswerAt m (stop + 4) k start

/-- No name of the message leads back to a position it has passed. -/
structure Acyclic (m : Slice) : Prop where
  question : 18 ≤ m.len → ¬ Revisits (nameStep m) 12
  answers : ∀ start, Reached m start → ¬ Revisits (nameStep m) start

/-- The question's type and class lie in the message, and the data of an address record
holds the address. -/
structure Fits (m : Slice) : Prop where
  question : 18 ≤ m.len → ∀ labels stop, NameAt m 12 labels stop → stop + 4 ≤ m.len
  answers : ∀ start, Reached m start → ∀ stop, RecordAt m start stop →
    addressLen (m.wordAt stop) ≤ (m.wordAt (stop + 8)).toNat

/-- A position starts at most one name. -/
theorem NameAt.stop_unique {pos stop stop' : Nat} {labels labels' : List GoString}
    (h : NameAt m pos labels stop) (h' : NameAt m pos labels' stop') : stop = stop' := by
  induction h generalizing labels' stop' with
  | endOfData token =>
    cases h' with
    | endOfData _ => rfl
    | root token' | label token' _ | pointer token' _ => cases token.symm.trans token'
  | root token =>
    cases h' with
    | root _ => rfl
    | endOfData token' | label token' _ | pointer token' _ => cases token.symm.trans token'
  | label token _ ih =>
    cases h' with
    | label token' rest' =>
      cases token.symm.trans token'
      exact ih rest'
    | endOfData token' | root token' | pointer token' _ => cases token.symm.trans token'
  | pointer token _ _ =>
    cases h' with
    | pointer _ _ => rfl
    | endOfData token' | root token' | label token' _ => cases token.symm.trans token'

theorem RecordAt.stop_unique {start stop stop' : Nat} (h : RecordAt m start stop)
    (h' : RecordAt m start stop') : stop = stop' := by
  obtain ⟨labels, name⟩ := h.name
  obtain ⟨labels', name'⟩ := h'.name
  exact name.stop_unique name'

/-- A record's length leads to its end. -/
theorem RecordAt.next_eq {start stop : Nat} (h : RecordAt m start stop) (hstart : start ≤ m.len) :
    start + (stop + 10 + (m.wordAt (stop + 8)).toNat - start) =
      stop + 10 + (m.wordAt (stop + 8)).toNat := by
  obtain ⟨labels, name⟩ := h.name
  have := (name.bounds hstart).1
  omega

theorem AnswerAt.le {first k start : Nat} (h : AnswerAt m first k start) (hfirst : first ≤ m.len) :
    start ≤ m.len := by
  induction h with
  | here _ => exact hfirst
  | later record _ _ ih => exact ih record.data

/-- Inversion of a later answer. -/
theorem AnswerAt.rest_of_record {first stop k start : Nat} (h : AnswerAt m first (k + 1) start)
    (record : RecordAt m first stop) :
    AnswerAt m (stop + 10 + (m.wordAt (stop + 8)).toNat) k start := by
  cases h with
  | later record' _ rest =>
    rw [record.stop_unique record']
    exact rest

/-! ### One record -/

/-- What decoding the record at `start` comes to. -/
inductive RecordRead (fuel : Nat) (m : Slice) (start : Nat) : Prop where
  | loops (name : (unmarshalDomainTo fuel m (m.tail start)).outcome = .loop)
      (outcome : (unmarshalRR fuel m start).outcome = .loop)
  | fails (e : String) (name : (unmarshalDomainTo fuel m (m.tail start)).outcome ≠ .loop)
      (none : ∀ stop, ¬ RecordAt m start stop)
      (outcome : (unmarshalRR fuel m start).outcome = .err e)
      (safe : (unmarshalRR fuel m start).Safe)
  | panics (stop : Nat) (name : (unmarshalDomainTo fuel m (m.tail start)).outcome ≠ .loop)
      (record : RecordAt m start stop)
      (address : m.mem.length < stop + 10 + addressLen (m.wordAt stop))
      (outcome : (unmarshalRR fuel m start).outcome = .panic)
  | reads (stop : Nat) (rr : RR)
      (name : (unmarshalDomainTo fuel m (m.tail start)).outcome ≠ .loop)
      (record : RecordAt m start stop)
      (address : stop + 10 + addressLen (m.wordAt stop) ≤ m.mem.length)
      (outcome : (unmarshalRR fuel m start).outcome =
        .ok (rr, stop + 10 + (m.wordAt (stop + 8)).toNat - start))
      (safe : (unmarshalRR fuel m start).Safe ↔
        addressLen (m.wordAt stop) ≤ (m.wordAt (stop + 8)).toNat)

/-- The address is taken from the record's data, up to the end of the memory. -/
theorem unmarshalIP_safe_iff (rtype : UInt16) (rdata : Slice) :
    (unmarshalIP rtype rdata).Safe ↔ addressLen rtype ≤ rdata.len := by
  unfold unmarshalIP addressLen
  split
  · rw [Read.safe_bind, Slice.safe_slice (Nat.zero_le _)]
    exact and_iff_left fun _ _ => Read.safe_pure _
  · split
    · rw [Read.safe_bind, Slice.safe_slice (Nat.zero_le _)]
      exact and_iff_left fun _ _ => Read.safe_pure _
    · exact iff_of_true (Read.safe_pure _) (Nat.zero_le _)

theorem unmarshalIP_outcome (rtype : UInt16) (rdata : Slice) :
    (rdata.mem.length < addressLen rtype ∧ (unmarshalIP rtype rdata).outcome = .panic) ∨
      (addressLen rtype ≤ rdata.mem.length ∧
        ∃ ip, (unmarshalIP rtype rdata).outcome = .ok ip) := by
  unfold unmarshalIP addressLen
  split
  · by_cases h : 4 ≤ rdata.mem.length
    · exact .inr ⟨h, _, Read.bind_outcome_of_ok (Slice.slice_outcome (Nat.zero_le _) h)⟩
    · exact .inl ⟨Nat.lt_of_not_le h, by simp [Read.bind_def, Read.andThen, Slice.slice, h]⟩
  · split
    · by_cases h : 16 ≤ rdata.mem.length
      · exact .inr ⟨h, _, Read.bind_outcome_of_ok (Slice.slice_outcome (Nat.zero_le _) h)⟩
      · exact .inl ⟨Nat.lt_of_not_le h, by simp [Read.bind_def, Read.andThen, Slice.slice, h]⟩
    · exact .inr ⟨Nat.zero_le _, _, rfl⟩

/-- The data of the record whose name ends at `stop`. -/
def rdataAt (m : Slice) (stop : Nat) : Slice :=
  m.part (stop + 10) (stop + 10 + (m.wordAt (stop + 8)).toNat)

/-- The record whose name ends at `stop`. -/
def recordOf (m : Slice) (stop : Nat) (name : GoString) (ip : Option Addr) : RR where
  name := name
  rtype := m.wordAt stop
  rclass := m.wordAt (stop + 2)
  ttl := m.dwordAt (stop + 4)
  rdlength := m.wordAt (stop + 8)
  rdata := (rdataAt m stop).bytes
  ip := ip

/-- The fields after a record's name, up to the address. -/
theorem recordFields_agrees {start stop : Nat} (name : GoString) (hle : start ≤ stop)
    (hstop : stop ≤ m.len) :
    (recordFields (m.tail start) (stop - start, name)).Agrees
      (if m.len ≤ stop + 10 then Read.fail "UnmarshalRR: not enough data"
      else if m.len < stop + 10 + (m.wordAt (stop + 8)).toNat then
        Read.fail "UnmarshalRR: not enough data for RDATA"
      else do
        let ip ← unmarshalIP (m.wordAt stop) (rdataAt m stop)
        pure (recordOf m stop name ip, stop + 10 + (m.wordAt (stop + 8)).toNat - start)) := by
  have position : ∀ i, start + (stop - start + i) = stop + i := by omega
  unfold recordFields
  dsimp only
  by_cases hshort : m.len ≤ stop + 10
  · rw [if_pos (by simp; omega), if_pos hshort]
    exact .refl _
  rw [if_neg (by simp; omega), if_neg hshort]
  refine (Slice.sliceFrom_uint16_agrees (by simp; omega)).trans ?_
  refine (Slice.sliceFrom_uint16_agrees (by simp; omega)).trans ?_
  refine (Slice.sliceFrom_uint32_agrees (by simp; omega)).trans ?_
  refine (Slice.sliceFrom_uint16_agrees (by simp; omega)).trans ?_
  simp only [Slice.tail_wordAt, Slice.tail_dwordAt, position, Nat.add_sub_cancel' hle]
  by_cases hdata : m.len < stop + 10 + (m.wordAt (stop + 8)).toNat
  · rw [if_pos (by simp; omega), if_pos hdata]
    exact .refl _
  rw [if_neg (by simp; omega), if_neg hdata]
  refine (Slice.slice_agrees (by omega) (by simp; omega)).bind.trans ?_
  rw [show stop - start + 10 = stop + 10 - start by omega,
    show stop + 10 - start + (m.wordAt (stop + 8)).toNat =
      stop + 10 + (m.wordAt (stop + 8)).toNat - start by omega, Slice.tail_part (by omega)]
  exact .refl _

/-- **One record.** -/
theorem unmarshalRR_read (fuel : Nat) {start : Nat} (hstart : start ≤ m.len) :
    RecordRead fuel m start := by
  have first : (unmarshalRR fuel m start).Agrees
      (unmarshalDomainTo fuel m (m.tail start) >>= recordFields (m.tail start)) :=
    (Slice.sliceFrom_agrees hstart).bind
  rcases unmarshalDomainTo_cases fuel hstart with hloop | ⟨labels, stop, name, hname⟩ |
    ⟨e, hname, hnone⟩
  · exact .loops hloop (first.outcome.trans (Read.bind_eq_loop.mpr (.inl hloop)))
  · obtain ⟨hle, hstop⟩ := name.bounds hstart
    have all := (first.trans hname.bind).trans (recordFields_agrees _ hle hstop)
    have only : ∀ stop', RecordAt m start stop' → RecordAt m start stop := by
      intro stop' record
      obtain ⟨labels', name'⟩ := record.name
      rw [name.stop_unique name']
      exact record
    by_cases fields : m.len ≤ stop + 10
    · rw [if_pos fields] at all
      exact .fails _ hname.pure_ne_loop
        (fun stop' record => Nat.not_lt_of_le fields (only stop' record).fields)
        all.outcome (all.safe.mpr (Read.safe_fail _))
    by_cases data : m.len < stop + 10 + (m.wordAt (stop + 8)).toNat
    · rw [if_neg fields, if_pos data] at all
      exact .fails _ hname.pure_ne_loop
        (fun stop' record => Nat.not_le_of_lt data (only stop' record).data)
        all.outcome (all.safe.mpr (Read.safe_fail _))
    rw [if_neg fields, if_neg data] at all
    have record : RecordAt m start stop :=
      ⟨⟨labels, name⟩, Nat.lt_of_not_le fields, Nat.le_of_not_lt data⟩
    have hlen : (rdataAt m stop).len = (m.wordAt (stop + 8)).toNat := by
      rw [rdataAt, Slice.part_len (Nat.le_trans record.data m.len_le), Nat.add_sub_cancel_left]
    have hmem : (rdataAt m stop).mem.length = m.mem.length - (stop + 10) := by
      rw [rdataAt, Slice.part_mem, List.length_drop]
    have hcap := m.len_le
    rcases unmarshalIP_outcome (m.wordAt stop) (rdataAt m stop) with
      ⟨hshort, hpanic⟩ | ⟨hfits, ip, hip⟩
    · refine .panics stop hname.pure_ne_loop record (by omega) (all.outcome.trans ?_)
      rw [Read.bind_def, Read.andThen, hpanic]
    · refine .reads stop _ hname.pure_ne_loop record (by omega)
        (all.outcome.trans (Read.bind_outcome_of_ok hip)) ?_
      rw [all.safe, Read.safe_bind, unmarshalIP_safe_iff, hlen]
      exact and_iff_left fun _ _ => Read.safe_pure _
  · have all := first.trans hname.bind_fail
    refine .fails e hname.fail_ne_loop ?_ all.outcome (all.safe.mpr (Read.safe_fail _))
    intro stop record
    obtain ⟨labels, name⟩ := record.name
    exact hnone labels stop name

/-! ### The answers -/

section Answers

variable {fuel count first : Nat}

/-- The decoder does not end in the answers exactly when it does not end in the name of
one of them. -/
theorem unmarshalAnswers_loop_iff (hfirst : first ≤ m.len) (answers : List RR) :
    (unmarshalAnswers fuel m count first answers).outcome = .loop ↔
      ∃ k < count, ∃ start, AnswerAt m first k start ∧
        (unmarshalDomainTo fuel m (m.tail start)).outcome = .loop := by
  induction count generalizing first answers with
  | zero =>
    refine iff_of_false (by intro h; cases h) ?_
    rintro ⟨k, hk, -⟩
    exact absurd hk (Nat.not_lt_zero k)
  | succ count ih =>
    rw [unmarshalAnswers, Read.bind_eq_loop]
    cases unmarshalRR_read fuel hfirst with
    | loops name outcome =>
      exact iff_of_true (.inl outcome) ⟨0, Nat.succ_pos _, first, .here first, name⟩
    | fails e name none outcome safe =>
      rw [outcome]
      refine iff_of_false (by simp) ?_
      rintro ⟨k, -, start, answer, hloop⟩
      cases answer with
      | here => exact name hloop
      | later record _ _ => exact none _ record
    | panics stop name record address outcome =>
      rw [outcome]
      refine iff_of_false (by simp) ?_
      rintro ⟨k, -, start, answer, hloop⟩
      cases answer with
      | here => exact name hloop
      | later record' address' _ =>
        rw [record'.stop_unique record] at address'
        exact Nat.not_le_of_lt address address'
    | reads stop rr name record address outcome _ =>
      have next := record.next_eq hfirst
      rw [outcome]
      constructor
      · rintro (h | ⟨a, h, hrest⟩)
        · cases h
        · cases h
          rw [next, ih record.data] at hrest
          obtain ⟨k, hk, start, answer, hloop⟩ := hrest
          exact ⟨k + 1, Nat.succ_lt_succ hk, start, .later record address answer, hloop⟩
      · rintro ⟨k, hk, start, answer, hloop⟩
        refine .inr ⟨_, rfl, ?_⟩
        rw [next, ih record.data]
        cases k with
        | zero =>
          cases answer
          exact absurd hloop name
        | succ k =>
          exact ⟨k, Nat.lt_of_succ_lt_succ hk, start, answer.rest_of_record record, hloop⟩

/-- Decoding the answers is safe exactly when the data of each address record holds
the address. -/
theorem unmarshalAnswers_safe_iff (hfirst : first ≤ m.len) (answers : List RR)
    (hloop : (unmarshalAnswers fuel m count first answers).outcome ≠ .loop) :
    (unmarshalAnswers fuel m count first answers).Safe ↔
      ∀ k < count, ∀ start, AnswerAt m first k start → ∀ stop, RecordAt m start stop →
        addressLen (m.wordAt stop) ≤ (m.wordAt (stop + 8)).toNat := by
  induction count generalizing first answers with
  | zero => exact iff_of_true (Read.safe_pure _) fun k hk => absurd hk (Nat.not_lt_zero k)
  | succ count ih =>
    rw [unmarshalAnswers] at hloop ⊢
    rw [Read.safe_bind]
    cases unmarshalRR_read fuel hfirst with
    | loops name outcome => exact absurd (Read.bind_eq_loop.mpr (.inl outcome)) hloop
    | fails e name none outcome safe =>
      refine iff_of_true ⟨safe, fun a ha => ?_⟩ ?_
      · rw [outcome] at ha
        cases ha
      · intro k _ start answer stop record
        cases answer with
        | here => exact absurd record (none stop)
        | later record' _ _ => exact absurd record' (none _)
    | panics stop name record address outcome =>
      refine iff_of_false (fun h => h.1.noPanic outcome) fun h => ?_
      have := h 0 (Nat.succ_pos _) first (.here first) stop record
      have := record.data
      have := m.len_le
      omega
    | reads stop rr name record address outcome safe =>
      have next := record.next_eq hfirst
      have hrest := fun h => hloop (Read.bind_eq_loop.mpr (.inr ⟨_, outcome, h⟩))
      rw [next] at hrest
      rw [safe, outcome]
      constructor
      · rintro ⟨hfits, hsafe⟩ k hk start answer stop' record'
        cases k with
        | zero =>
          cases answer
          rw [record'.stop_unique record]
          exact hfits
        | succ k =>
          have htail := hsafe _ rfl
          rw [next] at htail
          exact (ih record.data _ hrest).mp htail k (Nat.lt_of_succ_lt_succ hk) start
            (answer.rest_of_record record) stop' record'
      · intro hall
        refine ⟨hall 0 (Nat.succ_pos _) first (.here first) stop record, fun a ha => ?_⟩
        cases ha
        rw [next]
        refine (ih record.data _ hrest).mpr fun k hk start answer => ?_
        exact hall (k + 1) (Nat.succ_lt_succ hk) start (.later record address answer)

end Answers

/-! ### The question -/

/-- What decoding the question comes to. -/
inductive QuestionRead (fuel : Nat) (m : Slice) : Prop where
  | loops (len : 18 ≤ m.len) (name : (unmarshalDomainTo fuel m (m.tail 12)).outcome = .loop)
      (outcome : (unmarshalQuestion fuel m (m.tail 12)).outcome = .loop)
  | fails (e : String)
      (name : 18 ≤ m.len → (unmarshalDomainTo fuel m (m.tail 12)).outcome ≠ .loop)
      (none : 18 ≤ m.len → ∀ labels stop, ¬ NameAt m 12 labels stop)
      (outcome : (unmarshalQuestion fuel m (m.tail 12)).outcome = .err e)
      (safe : (unmarshalQuestion fuel m (m.tail 12)).Safe)
  | panics (labels : List GoString) (stop : Nat) (len : 18 ≤ m.len)
      (loop : (unmarshalDomainTo fuel m (m.tail 12)).outcome ≠ .loop)
      (name : NameAt m 12 labels stop) (fields : m.mem.length < stop + 4)
      (outcome : (unmarshalQuestion fuel m (m.tail 12)).outcome = .panic)
  | reads (labels : List GoString) (stop : Nat) (q : Question) (len : 18 ≤ m.len)
      (loop : (unmarshalDomainTo fuel m (m.tail 12)).outcome ≠ .loop)
      (name : NameAt m 12 labels stop)
      (outcome : (unmarshalQuestion fuel m (m.tail 12)).outcome = .ok (q, stop + 4 - 12))
      (safe : (unmarshalQuestion fuel m (m.tail 12)).Safe ↔ stop + 4 ≤ m.len)

/-- A question's length leads to its end. -/
theorem NameAt.question_end {labels : List GoString} {stop : Nat} (h : NameAt m 12 labels stop)
    (hlen : headerLen ≤ m.len) : headerLen + (stop + 4 - 12) = stop + 4 := by
  have := (h.bounds hlen).1
  rw [headerLen]
  omega

/-- Type and class are read up to the end of the memory. -/
theorem questionFields_outcome (b : Slice) (idx : Nat) (name : GoString) :
    (questionFields b (idx, name)).outcome =
      if idx + 4 ≤ b.mem.length then
        .ok (⟨name, b.wordAt idx, b.wordAt (idx + 2)⟩, idx + 4)
      else .panic := by
  rw [questionFields, Slice.slice_uint16_outcome rfl, Slice.slice_uint16_outcome rfl]
  by_cases h : idx + 4 ≤ b.mem.length
  · rw [if_pos h, if_pos h, if_pos (by omega), Read.pure_outcome]
  · rw [if_neg h, if_neg h, ite_self]

theorem questionFields_safe_iff (b : Slice) (idx : Nat) (name : GoString) :
    (questionFields b (idx, name)).Safe ↔ idx + 4 ≤ b.len := by
  rw [questionFields, Slice.safe_slice_uint16 rfl, Slice.safe_slice_uint16 rfl]
  constructor
  · rintro ⟨-, h, -⟩
    exact h
  · intro h
    exact ⟨by omega, h, Read.safe_pure _⟩

theorem unmarshalQuestion_read (fuel : Nat) (hlen : 12 ≤ m.len) : QuestionRead fuel m := by
  by_cases hshort : m.len < 18
  · have first : unmarshalQuestion fuel m (m.tail 12) =
        Read.fail "UnmarshalQuestion: not enough data" := if_pos (by simp; omega)
    refine .fails _ (fun h => ?_) (fun h => ?_) (by rw [first]; rfl)
      (by rw [first]; exact Read.safe_fail _)
    · exact absurd hshort (Nat.not_lt_of_le h)
    · exact absurd hshort (Nat.not_lt_of_le h)
  have len := Nat.le_of_not_lt hshort
  have first : unmarshalQuestion fuel m (m.tail 12) =
      unmarshalDomainTo fuel m (m.tail 12) >>= questionFields (m.tail 12) :=
    if_neg (by simp; omega)
  rcases unmarshalDomainTo_cases fuel hlen with hloop | ⟨labels, stop, name, hname⟩ |
    ⟨e, hname, hnone⟩
  · refine .loops len hloop ?_
    rw [first]
    exact Read.bind_eq_loop.mpr (.inl hloop)
  · have all := hname.bind (f := questionFields (m.tail 12))
    rw [← first] at all
    obtain ⟨hle, -⟩ := name.bounds hlen
    have outcome := all.outcome
    rw [questionFields_outcome, Slice.tail_mem, List.length_drop] at outcome
    by_cases hmem : stop + 4 ≤ m.mem.length
    · rw [if_pos (by omega), show stop - 12 + 4 = stop + 4 - 12 by omega] at outcome
      refine .reads labels stop _ len hname.pure_ne_loop name outcome ?_
      rw [all.safe, questionFields_safe_iff, Slice.tail_len]
      omega
    · rw [if_neg (by omega)] at outcome
      exact .panics labels stop len hname.pure_ne_loop name (Nat.lt_of_not_le hmem) outcome
  · have all := hname.bind_fail (f := questionFields (m.tail 12))
    rw [← first] at all
    exact .fails e (fun _ => hname.fail_ne_loop) (fun _ => hnone) all.outcome
      (all.safe.mpr (Read.safe_fail e))

/-! ### The message -/

/-- The header is read inside the message. -/
theorem unmarshalHeader_agrees (hlen : headerLen ≤ m.len) :
    (m.slice 0 headerLen >>= unmarshalHeader).Agrees
      (pure ⟨m.wordAt 0, m.wordAt 2, m.wordAt 4, m.wordAt 6, m.wordAt 8, m.wordAt 10⟩) := by
  have hb : (m.part 0 headerLen).len = headerLen := Slice.part_len (Nat.le_trans hlen m.len_le)
  have long : ∀ i ≤ 12, i ≤ (m.part 0 headerLen).len := fun i hi => hb.symm ▸ hi
  refine (Slice.slice_agrees (Nat.zero_le _) hlen).bind.trans ?_
  rw [unmarshalHeader, if_neg (not_not.mpr hb)]
  refine (Slice.slice_uint16_agrees rfl (long 2 (by decide))).trans ?_
  refine (Slice.slice_uint16_agrees rfl (long 4 (by decide))).trans ?_
  refine (Slice.slice_uint16_agrees rfl (long 6 (by decide))).trans ?_
  refine (Slice.slice_uint16_agrees rfl (long 8 (by decide))).trans ?_
  refine (Slice.slice_uint16_agrees rfl (long 10 (by decide))).trans ?_
  refine (Slice.sliceFrom_uint16_agrees (long 12 (by decide))).trans ?_
  simp only [Slice.part_wordAt, Nat.zero_add]
  exact .refl _

/-- What follows the question in `UnmarshalMessage`. -/
def messageAnswers (fuel : Nat) (m : Slice) (question : Question × Nat) : Read Message := do
  let answers ← unmarshalAnswers fuel m (m.wordAt 6).toNat (headerLen + question.2) []
  pure
    { header := ⟨m.wordAt 0, m.wordAt 2, 1, UInt16.ofNat answers.length, m.wordAt 8, m.wordAt 10⟩
      question := question.1
      answers := answers }

theorem unmarshalMessage_agrees (fuel : Nat) (hlen : headerLen ≤ m.len) :
    (unmarshalMessage fuel m).Agrees
      (unmarshalQuestion fuel m (m.tail 12) >>= messageAnswers fuel m) := by
  rw [unmarshalMessage, if_neg (Nat.not_lt_of_le hlen), ← bind_assoc]
  refine (unmarshalHeader_agrees hlen).bind.trans ?_
  exact (Slice.sliceFrom_agrees hlen).bind

theorem unmarshalMessage_short (fuel : Nat) (hlen : ¬ headerLen ≤ m.len) :
    unmarshalMessage fuel m = Read.fail "UnmarshalMessage: not enough data" :=
  if_pos (Nat.lt_of_not_le hlen)

/-- The question of a decoded message. -/
theorem question_of_unmarshal {fuel : Nat} {msg : Message}
    (h : (unmarshalMessage fuel m).outcome = .ok msg) :
    ∃ n, (unmarshalDomainTo fuel m (m.tail 12)).outcome = .ok (n, msg.question.qname) ∧
      msg.question.qtype = m.wordAt (12 + n) ∧ 12 ≤ m.len := by
  by_cases hlen : headerLen ≤ m.len
  swap
  · rw [unmarshalMessage_short fuel hlen] at h
    cases h
  rw [(unmarshalMessage_agrees fuel hlen).outcome] at h
  obtain ⟨⟨q, n⟩, hq, h⟩ := Read.bind_eq_ok h
  obtain ⟨answers, -, h⟩ := Read.bind_eq_ok h
  cases h
  unfold unmarshalQuestion at hq
  split at hq
  · cases hq
  obtain ⟨⟨n', name⟩, hname, hq⟩ := Read.bind_eq_ok hq
  rw [questionFields_outcome] at hq
  split at hq <;> cases hq
  exact ⟨n', hname, Slice.tail_wordAt 12 n', hlen⟩

/-- The name of that question is put together from the labels the message has there. -/
theorem qname_of_unmarshal {fuel : Nat} {msg : Message}
    (h : (unmarshalMessage fuel m).outcome = .ok msg) :
    msg.question.qname = (wireLabels m fuel 12).foldl addLabel [] ∧
      ∀ label ∈ wireLabels m fuel 12, label ≠ [] ∧ label.length ≤ 63 := by
  obtain ⟨n, hname, -, hlen⟩ := question_of_unmarshal h
  have hloop : (domainLoop m fuel (m.tail 12) 0 []).outcome = .ok (n, msg.question.qname) := hname
  have name := NameAt.of_domainLoop hlen hloop
  have heq := name.domainLoop_eq fuel 12 0 [] hlen rfl (by rw [hloop]; simp)
  rw [hloop, Outcome.ok.injEq, Prod.mk.injEq] at heq
  exact ⟨heq.2, name.labels_le⟩

/-- Beyond the message there is no record: the decoder panics if it needs one. -/
theorem unmarshalAnswers_beyond {fuel count first : Nat} (h : m.len < first) :
    (unmarshalAnswers fuel m count first []).outcome ≠ .loop := by
  cases count with
  | zero =>
    intro h
    cases h
  | succ count =>
    have hpanic : (unmarshalAnswers fuel m (count + 1) first []).outcome = .panic := by
      simp [unmarshalAnswers, unmarshalRR, Read.bind_def, Read.andThen, Slice.sliceFrom,
        Nat.not_le_of_lt h]
    rw [hpanic]
    intro h
    cases h

/-- **The decoder does not end** exactly when it does not end in the name of the
question or of one of the answers it comes to. -/
theorem unmarshalMessage_loop_iff (fuel : Nat) (m : Slice) :
    (unmarshalMessage fuel m).outcome = .loop ↔
      18 ≤ m.len ∧ ((unmarshalDomainTo fuel m (m.tail 12)).outcome = .loop ∨
        ∃ start, Reached m start ∧
          (unmarshalDomainTo fuel m (m.tail start)).outcome = .loop) := by
  by_cases hlen : headerLen ≤ m.len
  swap
  · rw [unmarshalMessage_short fuel hlen]
    exact iff_of_false (by simp) fun h => hlen (Nat.le_trans (by decide) h.1)
  rw [(unmarshalMessage_agrees fuel hlen).outcome, Read.bind_eq_loop]
  cases unmarshalQuestion_read fuel hlen with
  | loops len name outcome => exact iff_of_true (.inl outcome) ⟨len, .inl name⟩
  | fails e name none outcome _ =>
    rw [outcome]
    refine iff_of_false (by simp) ?_
    rintro ⟨len, hloop | ⟨start, ⟨-, labels, stop, hname, -⟩, -⟩⟩
    · exact name len hloop
    · exact none len labels stop hname
  | panics labels stop len loop name fields outcome =>
    rw [outcome]
    refine iff_of_false (by simp) ?_
    rintro ⟨-, hloop | ⟨start, ⟨-, labels', stop', hname, hfits, -⟩, -⟩⟩
    · exact loop hloop
    · rw [← name.stop_unique hname] at hfits
      exact Nat.not_le_of_lt fields (Nat.le_trans hfits m.len_le)
  | reads labels stop q len loop name outcome _ =>
    have first := name.question_end hlen
    rw [outcome]
    constructor
    · rintro (h | ⟨a, h, hrest⟩)
      · cases h
      cases h
      rw [messageAnswers, Read.bind_eq_loop, first] at hrest
      rcases hrest with hrest | ⟨answers, -, h⟩
      swap
      · cases h
      by_cases hfits : stop + 4 ≤ m.len
      · obtain ⟨k, hk, start, answer, hloop⟩ := (unmarshalAnswers_loop_iff hfits []).mp hrest
        exact ⟨len, .inr ⟨start, ⟨len, labels, stop, name, hfits, k, hk, answer⟩, hloop⟩⟩
      · exact absurd hrest (unmarshalAnswers_beyond (Nat.lt_of_not_le hfits))
    · rintro ⟨-, hloop | ⟨start, ⟨-, labels', stop', hname, hfits, k, hk, answer⟩, hloop⟩⟩
      · exact absurd hloop loop
      · rw [← name.stop_unique hname] at hfits answer
        refine .inr ⟨_, rfl, ?_⟩
        rw [messageAnswers, Read.bind_eq_loop, first]
        exact .inl ((unmarshalAnswers_loop_iff hfits []).mpr ⟨k, hk, start, answer, hloop⟩)

/-! ### Termination -/

theorem Reached.le {start : Nat} (h : Reached m start) : start ≤ m.len := by
  obtain ⟨-, labels, stop, -, hfits, k, -, answer⟩ := h
  exact answer.le hfits

/-- `UnmarshalMessage` returns or panics: some number of rounds is enough. -/
def Terminates (m : Slice) : Prop := ∃ fuel, (unmarshalMessage fuel m).outcome ≠ .loop

/-- A name that revisits is decoded for ever. -/
theorem unmarshalDomainTo_loop_of_revisits {pos : Nat} (fuel : Nat) (hpos : pos ≤ m.len)
    (h : Revisits (nameStep m) pos) : (unmarshalDomainTo fuel m (m.tail pos)).outcome = .loop :=
  (domainLoop_loop_iff hpos).mpr (orbit_isSome_of_revisits h fuel)

/-- A name that does not is decoded in at most as many rounds as the message has
positions. -/
theorem unmarshalDomainTo_ne_loop {pos : Nat} (hpos : pos ≤ m.len)
    (h : ¬ Revisits (nameStep m) pos) :
    (unmarshalDomainTo (m.len + 2) m (m.tail pos)).outcome ≠ .loop := by
  intro hloop
  have hsome : (orbit (nameStep m) (m.len + 2) pos).isSome := (domainLoop_loop_iff hpos).mp hloop
  have hnone : orbit (nameStep m) (m.len + 2) pos = none :=
    (orbit_eq_none_iff (nameStep_lt m) (Nat.le_refl _)).mpr h
  rw [hnone] at hsome
  cases hsome

/-- **Termination.** The decoder ends exactly on the messages whose names do not lead
back to themselves. -/
theorem decode_terminates_iff (m : Slice) : Terminates m ↔ Acyclic m := by
  constructor
  · rintro ⟨fuel, hfuel⟩
    rw [ne_eq, unmarshalMessage_loop_iff] at hfuel
    constructor
    · intro len h
      exact hfuel ⟨len, .inl (unmarshalDomainTo_loop_of_revisits fuel (by omega) h)⟩
    · intro start reached h
      exact hfuel ⟨reached.1,
        .inr ⟨start, reached, unmarshalDomainTo_loop_of_revisits fuel reached.le h⟩⟩
  · intro acyclic
    refine ⟨m.len + 2, fun hloop => ?_⟩
    obtain ⟨len, hname | ⟨start, reached, hname⟩⟩ := (unmarshalMessage_loop_iff _ m).mp hloop
    · exact unmarshalDomainTo_ne_loop (by omega) (acyclic.question len) hname
    · exact unmarshalDomainTo_ne_loop reached.le (acyclic.answers start reached) hname

/-- A query whose name is a pointer to itself. -/
def selfPointer : Slice :=
  .ofBytes [0x12, 0x34, 1, 0, 0, 1, 0, 0, 0, 0, 0, 0, 0xC0, 12, 0, 1, 0, 1] []

/-- The decoder does not end on it. -/
theorem selfPointer_not_terminates : ¬ Terminates selfPointer := by
  rintro ⟨fuel, hfuel⟩
  refine hfuel ((unmarshalMessage_loop_iff fuel selfPointer).mpr ⟨by decide, .inl ?_⟩)
  refine unmarshalDomainTo_loop_of_revisits fuel (by decide) ⟨0, 1, Nat.one_pos, 12, rfl, ?_⟩
  decide

/-! ### Bounds -/

/-- **Bounds.** A decoder that ends has returned a message or an error with every access
in bounds, exactly when question and address records are long enough. -/
theorem decode_safe_iff {fuel : Nat} (m : Slice)
    (hloop : (unmarshalMessage fuel m).outcome ≠ .loop) :
    (unmarshalMessage fuel m).Safe ↔ Fits m := by
  by_cases hlen : headerLen ≤ m.len
  swap
  · rw [unmarshalMessage_short fuel hlen]
    refine iff_of_true (Read.safe_fail _) ⟨fun len => ?_, fun start reached => ?_⟩
    · exact absurd (Nat.le_trans (by decide) len) hlen
    · exact absurd (Nat.le_trans (by decide) reached.1) hlen
  have agrees := unmarshalMessage_agrees fuel hlen
  rw [agrees.safe, Read.safe_bind]
  rw [agrees.outcome] at hloop
  cases unmarshalQuestion_read fuel hlen with
  | loops len name outcome => exact absurd (Read.bind_eq_loop.mpr (.inl outcome)) hloop
  | fails e name none outcome safe =>
    refine iff_of_true ⟨safe, fun a ha => ?_⟩ ⟨fun len labels stop hname => ?_, ?_⟩
    · rw [outcome] at ha
      cases ha
    · exact absurd hname (none len labels stop)
    · rintro start ⟨len, labels, stop, hname, -⟩
      exact absurd hname (none len labels stop)
  | panics labels stop len loop name fields outcome =>
    refine iff_of_false (fun h => h.1.noPanic outcome) fun h => ?_
    exact Nat.not_le_of_lt fields (Nat.le_trans (h.question len labels stop name) m.len_le)
  | reads labels stop q len loop name outcome safe =>
    have first := name.question_end hlen
    have hanswers : (unmarshalAnswers fuel m (m.wordAt 6).toNat (stop + 4) []).outcome ≠ .loop := by
      intro h
      refine hloop (Read.bind_eq_loop.mpr (.inr ⟨_, outcome, ?_⟩))
      rw [messageAnswers, Read.bind_eq_loop, first]
      exact .inl h
    rw [safe, outcome]
    constructor
    · rintro ⟨hfits, hrest⟩
      have answers := hrest _ rfl
      rw [messageAnswers, Read.safe_bind, first, unmarshalAnswers_safe_iff hfits [] hanswers]
        at answers
      refine ⟨fun _ labels' stop' name' => name.stop_unique name' ▸ hfits, ?_⟩
      rintro start ⟨-, labels', stop', name', -, k, hk, answer⟩
      rw [← name.stop_unique name'] at answer
      exact answers.1 k hk start answer
    · intro fits
      have hfits := fits.question len labels stop name
      refine ⟨hfits, fun a ha => ?_⟩
      cases ha
      rw [messageAnswers, Read.safe_bind, first, unmarshalAnswers_safe_iff hfits [] hanswers]
      refine ⟨fun k hk start answer => ?_, fun _ _ => Read.safe_pure _⟩
      exact fits.answers start ⟨len, labels, stop, name, hfits, k, hk, answer⟩

/-- A response with the A record of `a.b`, its name being that of the question. -/
def addressResponse : Slice :=
  .ofBytes
    [0x12, 0x34, 0x81, 0x80, 0, 1, 0, 1, 0, 0, 0, 0, 1, 97, 1, 98, 0, 0, 1, 0, 1,
      0xC0, 12, 0, 1, 0, 1, 0, 0, 0, 60, 0, 4, 192, 0, 2, 1] []

theorem decode_safe_addressResponse :
    (∃ msg, (unmarshalMessage 4 addressResponse).outcome = .ok msg ∧ msg.answers.length = 1) ∧
      ((unmarshalMessage 4 addressResponse).Safe ↔ Fits addressResponse) :=
  ⟨⟨_, rfl, rfl⟩, decode_safe_iff addressResponse (by decide)⟩

/-- A message that ends with the name of its question, in a buffer that may go on. -/
def truncatedQuestion (spare : List UInt8) : Slice :=
  .ofBytes [0x12, 0x34, 1, 0, 0, 1, 0, 0, 0, 0, 0, 0, 5, 97, 98, 99, 100, 101] spare

/-- Its type and class are taken from behind the message: the decoder panics, or
returns what the buffer held before. -/
theorem truncatedQuestion_unsafe :
    (unmarshalMessage 3 (truncatedQuestion [])).outcome = .panic ∧
      (unmarshalMessage 3 (truncatedQuestion [0, 28, 0, 1])).outcome =
        .ok ⟨⟨0x1234, 0x100, 1, 0, 0, 0⟩, ⟨ascii "abcde", qTypeAAAA, 1⟩, []⟩ ∧
      ¬ (unmarshalMessage 3 (truncatedQuestion [0, 28, 0, 1])).Safe := by
  refine ⟨by decide, by decide, fun safe => ?_⟩
  have inBounds : (⟨18, 20, 18⟩ : Access).InBounds := safe.inBounds _ (by decide)
  exact absurd inBounds.2 (by decide)

end Glider.Dns
