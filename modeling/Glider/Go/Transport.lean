/-
Connections as the two interfaces `io.Reader` and `io.Writer`, with every behaviour their
contract allows.

A `Transport` is the list of answers a reader is going to give: some bytes, none included,
and an error or none, and both together are possible. A `Read` with a smaller buffer gets
a part of an answer, and the error only with the rest of it; after the last answer `fail` is
returned for ever. Every finite sequence of reads is one of some transport, since the answers
may be as small as one likes.

* `readFull_bytes`, `read_bytes` — no read loses or invents a byte.
* `readFull_of_clean` — with errors at the end only, how a transport cuts its bytes makes no
  difference to `io.ReadFull`.
-/

import Glider.Go.Io

namespace Glider.Go

/-! ### Readers -/

/-- One answer of an `io.Reader`. -/
structure Answer where
  data : List UInt8
  err : Option IoErr := none
deriving DecidableEq, Repr

structure Transport where
  answers : List Answer
  fail : IoErr := .eof
deriving DecidableEq, Repr

namespace Transport

/-- All that is still to come. -/
def bytes (t : Transport) : List UInt8 := t.answers.flatMap Answer.data

/-- `Read` with a buffer of `n` bytes. -/
def read (n : Nat) (t : Transport) : List UInt8 × Option IoErr × Transport :=
  match t.answers with
  | [] => ([], some t.fail, t)
  | a :: as =>
    if n < a.data.length then
      (a.data.take n, none, { t with answers := { a with data := a.data.drop n } :: as })
    else (a.data, a.err, { t with answers := as })

/-- The error of `io.ReadFull` when `got` is all it got. -/
def shortErr (got : List UInt8) (err : IoErr) : IoErr :=
  if got ≠ [] ∧ err = .eof then .unexpectedEOF else err

/-- The loop of `io.ReadFull`, with `n` bytes to go. An error that comes with the last of
them is dropped. -/
def readFullLoop (fail : IoErr) :
    List Answer → List UInt8 → Nat → List UInt8 × Option IoErr × List Answer
  | as, got, 0 => (got, none, as)
  | [], got, _ + 1 => (got, some (shortErr got fail), [])
  | a :: as, got, n + 1 =>
    if n + 1 < a.data.length then
      (got ++ a.data.take (n + 1), none, { a with data := a.data.drop (n + 1) } :: as)
    else if a.data.length = n + 1 then (got ++ a.data, none, as)
    else
      match a.err with
      | some err => (got ++ a.data, some (shortErr (got ++ a.data) err), as)
      | none => readFullLoop fail as (got ++ a.data) (n + 1 - a.data.length)

/-- `io.ReadFull` into `n` bytes. -/
def readFull (n : Nat) (t : Transport) : List UInt8 × Option IoErr × Transport :=
  let (got, err, as) := readFullLoop t.fail t.answers [] n
  (got, err, { t with answers := as })

/-- The only error is the one at the end. -/
def Clean (t : Transport) : Prop := ∀ a ∈ t.answers, a.err = none

instance (t : Transport) : Decidable t.Clean :=
  inferInstanceAs (Decidable (∀ a ∈ t.answers, a.err = none))

@[simp] theorem bytes_mk_nil (fail : IoErr) : (mk [] fail).bytes = [] := rfl

@[simp] theorem bytes_mk_cons (a : Answer) (as : List Answer) (fail : IoErr) :
    (mk (a :: as) fail).bytes = a.data ++ (mk as fail).bytes := rfl

/-- What one `Read` can do. -/
theorem read_cases (n : Nat) (t : Transport) :
    (t.answers = [] ∧ t.read n = ([], some t.fail, t)) ∨
    (∃ a as, t.answers = a :: as ∧ n < a.data.length ∧
      t.read n = (a.data.take n, none, ⟨{ a with data := a.data.drop n } :: as, t.fail⟩)) ∨
    ∃ a as, t.answers = a :: as ∧ a.data.length ≤ n ∧ t.read n = (a.data, a.err, ⟨as, t.fail⟩) := by
  unfold read
  cases has : t.answers with
  | nil => exact .inl ⟨rfl, rfl⟩
  | cons a as =>
    by_cases hlt : n < a.data.length
    · exact .inr (.inl ⟨a, as, rfl, hlt, if_pos hlt⟩)
    · exact .inr (.inr ⟨a, as, rfl, Nat.not_lt.mp hlt, if_neg hlt⟩)

variable {n : Nat} {t t' : Transport} {data : List UInt8} {err : Option IoErr}

theorem read_bytes (h : t.read n = (data, err, t')) :
    t.bytes = data ++ t'.bytes ∧ data.length ≤ n ∧ t'.fail = t.fail := by
  obtain ⟨has, hread⟩ | ⟨a, as, has, hlt, hread⟩ | ⟨a, as, has, hle, hread⟩ := t.read_cases n
  · cases hread.symm.trans h
    exact ⟨rfl, Nat.zero_le n, rfl⟩
  · cases hread.symm.trans h
    refine ⟨?_, by rw [List.length_take]; omega, rfl⟩
    rw [bytes, has, bytes_mk_cons, ← List.append_assoc, List.take_append_drop]
    rfl
  · cases hread.symm.trans h
    refine ⟨?_, hle, rfl⟩
    rw [bytes, has]
    rfl

variable {fail : IoErr}

theorem readFullLoop_bytes {as as' : List Answer} {got got' : List UInt8}
    (h : readFullLoop fail as got n = (got', err, as')) :
    got ++ as.flatMap Answer.data = got' ++ as'.flatMap Answer.data ∧
      got'.length ≤ got.length + n ∧ (err = none ↔ got'.length = got.length + n) := by
  fun_induction readFullLoop fail as got n with
  | case1 as got =>
    cases h
    exact ⟨rfl, Nat.le_refl _, by simp⟩
  | case2 got n =>
    cases h
    exact ⟨rfl, Nat.le_add_right _ _, by simp⟩
  | case3 a as got n hlt =>
    cases h
    refine ⟨?_, ?_, fun _ => ?_, fun _ => rfl⟩
    · rw [List.flatMap_cons, List.flatMap_cons, List.append_assoc,
        ← List.append_assoc (a.data.take _), List.take_append_drop]
    all_goals
      rw [List.length_append, List.length_take]
      omega
  | case4 a as got n _ heq =>
    cases h
    refine ⟨?_, ?_, fun _ => ?_, fun _ => rfl⟩
    · rw [List.flatMap_cons, List.append_assoc]
    all_goals
      rw [List.length_append]
      omega
  | case5 a as got n hle hne e he =>
    cases h
    refine ⟨?_, ?_, ?_⟩
    · rw [List.flatMap_cons, List.append_assoc]
    · rw [List.length_append]
      omega
    · rw [List.length_append]
      simp
      omega
  | case6 a as got n hle hne he ih =>
    obtain ⟨hbytes, hlen, hiff⟩ := ih h
    rw [List.length_append] at hlen hiff
    refine ⟨?_, by omega, hiff.trans ?_⟩
    · rw [List.flatMap_cons, ← hbytes, List.append_assoc]
    · constructor <;> intro <;> omega

theorem readFull_bytes (h : t.readFull n = (data, err, t')) :
    t.bytes = data ++ t'.bytes ∧ t'.fail = t.fail ∧ data.length ≤ n ∧
      (err = none ↔ data.length = n) := by
  unfold readFull at h
  cases hloop : readFullLoop t.fail t.answers [] n with
  | mk got rest =>
    rw [hloop] at h
    cases h
    obtain ⟨hbytes, hlen, hiff⟩ := readFullLoop_bytes hloop
    rw [List.length_nil, Nat.zero_add] at hlen hiff
    exact ⟨hbytes, rfl, hlen, hiff⟩

variable {as : List Answer}

variable {got : List UInt8}

/-- Clean answers stay clean. -/
theorem readFullLoop_clean (clean : ∀ a ∈ as, a.err = none) :
    (∀ a ∈ (readFullLoop fail as got n).2.2, a.err = none) ∧
      ((readFullLoop fail as got n).2.1 = none ∨
        (readFullLoop fail as got n).2.1 =
            some (shortErr (readFullLoop fail as got n).1 fail) ∧
          (readFullLoop fail as got n).2.2 = []) := by
  fun_induction readFullLoop fail as got n with
  | case1 as got => exact ⟨clean, .inl rfl⟩
  | case2 got n => exact ⟨clean, .inr ⟨rfl, rfl⟩⟩
  | case3 a as got n hlt =>
    refine ⟨fun b hb => ?_, .inl rfl⟩
    obtain rfl | hb := List.mem_cons.mp hb
    · exact clean a List.mem_cons_self
    · exact clean b (List.mem_cons_of_mem a hb)
  | case4 a as got n _ heq => exact ⟨fun b hb => clean b (List.mem_cons_of_mem a hb), .inl rfl⟩
  | case5 a as got n hle hne e he => cases (clean a List.mem_cons_self).symm.trans he
  | case6 a as got n hle hne he ih => exact ih fun b hb => clean b (List.mem_cons_of_mem a hb)

/-- **Cuts do not matter to `io.ReadFull`.** A clean transport is read like its bytes. -/
theorem readFull_of_clean (clean : t.Clean) (n : Nat) :
    ∃ data err t', t.readFull n = (data, err, t') ∧ t'.Clean ∧ t'.fail = t.fail ∧
      Go.readFull n ⟨t.bytes, t.fail⟩ = (data, err, ⟨t'.bytes, t.fail⟩) := by
  obtain ⟨hclean, herr⟩ := @readFullLoop_clean n t.fail t.answers [] clean
  cases hread : t.readFull n with
  | mk data rest =>
    obtain ⟨err, t'⟩ := rest
    obtain ⟨hbytes, hfail, hlen, hiff⟩ := readFull_bytes hread
    have hloop : readFullLoop t.fail t.answers [] n = (data, err, t'.answers) := by
      unfold readFull at hread
      cases hread
      rfl
    rw [hloop] at hclean herr
    refine ⟨data, err, t', rfl, hclean, hfail, ?_⟩
    unfold Go.readFull
    dsimp only at herr ⊢
    have hlength := congrArg List.length hbytes
    rw [List.length_append] at hlength
    obtain rfl | ⟨rfl, hend⟩ := herr
    · have hdata := hiff.mp rfl
      rw [if_pos (by omega), hbytes, ← hdata, List.take_left, List.drop_left]
    · have hshort : data.length ≠ n := fun h => by cases hiff.mpr h
      have hempty : t'.bytes = [] := by rw [bytes, hend]; rfl
      rw [hempty, List.append_nil] at hbytes
      rw [if_neg (by rw [hbytes]; omega), hbytes, hempty]
      refine Prod.ext rfl (Prod.ext (congrArg some ?_) rfl)
      unfold shortErr
      split <;> split <;> simp_all

/-! ### Errors at the end only -/

/-- Only the last answer may come with an error. -/
def Final (t : Transport) : Prop := ∀ a ∈ t.answers.dropLast, a.err = none

instance (t : Transport) : Decidable t.Final :=
  inferInstanceAs (Decidable (∀ a ∈ t.answers.dropLast, a.err = none))

variable {a : Answer}

theorem final_cons : (mk (a :: as) fail).Final ↔ as = [] ∨ a.err = none ∧ (mk as fail).Final := by
  unfold Final
  cases as with
  | nil => simp
  | cons b bs => simp

theorem final_nil (fail : IoErr) : (mk [] fail).Final := fun b hb => by cases hb

theorem final_tail (h : (mk (a :: as) fail).Final) : (mk as fail).Final := by
  obtain rfl | ⟨-, hrest⟩ := final_cons.mp h
  · exact final_nil fail
  · exact hrest

/-- A part of an answer that has been taken. -/
theorem final_cut (data : List UInt8) (h : (mk (a :: as) fail).Final) :
    (mk ({ a with data := data } :: as) fail).Final := by
  have hcons := final_cons.mp h
  exact final_cons.mpr hcons

/-- After the error of a transport there is nothing. -/
theorem read_final (final : t.Final) (h : t.read n = (data, err, t')) :
    t'.Final ∧ (err ≠ none → t'.bytes = []) := by
  obtain ⟨has, hread⟩ | ⟨a, as, has, hlt, hread⟩ | ⟨a, as, has, hle, hread⟩ := t.read_cases n
  · cases hread.symm.trans h
    exact ⟨final, fun _ => by rw [bytes, has]; rfl⟩
  · cases hread.symm.trans h
    have hcons : (mk (a :: as) t.fail).Final := has ▸ final
    exact ⟨final_cut _ hcons, fun h => absurd rfl h⟩
  · cases hread.symm.trans h
    have hcons : (mk (a :: as) t.fail).Final := has ▸ final
    obtain rfl | ⟨herr, hrest⟩ := final_cons.mp hcons
    · exact ⟨final_nil t.fail, fun _ => rfl⟩
    · exact ⟨hrest, fun h => absurd herr h⟩

theorem readFullLoop_final (final : (mk as fail).Final) :
    (mk (readFullLoop fail as got n).2.2 fail).Final := by
  fun_induction readFullLoop fail as got n with
  | case1 as got => exact final
  | case2 got n => exact final
  | case3 a as got n hlt => exact final_cut _ final
  | case4 a as got n _ heq | case5 a as got n hle hne e he => exact final_tail final
  | case6 a as got n hle hne he ih => exact ih (final_tail final)

theorem readFull_final (final : t.Final) (h : t.readFull n = (data, err, t')) : t'.Final := by
  have hloop := @readFullLoop_final n t.fail t.answers [] final
  unfold readFull at h
  cases h
  exact hloop

theorem readFullLoop_of_final (final : (mk as fail).Final) (h : n ≤ (mk as fail).bytes.length) :
    (readFullLoop fail as got n).2.1 = none := by
  fun_induction readFullLoop fail as got n with
  | case1 as got => rfl
  | case2 got n => exact absurd h (by simp)
  | case3 a as got n hlt => rfl
  | case4 a as got n _ heq => rfl
  | case5 a as got n hle hne e he =>
    -- the error is that of the last answer, which has too few bytes
    rw [bytes_mk_cons, List.length_append] at h
    obtain rfl | ⟨hnone, -⟩ := final_cons.mp final
    · rw [bytes_mk_nil, List.length_nil] at h
      omega
    · cases hnone.symm.trans he
  | case6 a as got n hle hne he ih =>
    rw [bytes_mk_cons, List.length_append] at h
    exact ih (final_tail final) (by omega)

/-- With errors at the end only, `io.ReadFull` gets what it asks for if there is enough. -/
theorem readFull_of_final (final : t.Final) {data rest : List UInt8} (h : t.bytes = data ++ rest) :
    ∃ t', t.readFull data.length = (data, none, t') ∧ t'.Final ∧ t'.bytes = rest := by
  have hloop : (t.readFull data.length).2.1 = none := by
    refine @readFullLoop_of_final data.length t.fail t.answers [] final ?_
    rw [show mk t.answers t.fail = t from rfl, h, List.length_append]
    omega
  cases hread : t.readFull data.length with
  | mk got after =>
    obtain ⟨err, t'⟩ := after
    rw [hread] at hloop
    obtain ⟨hbytes, -, -, hfull⟩ := readFull_bytes hread
    dsimp only at hloop
    obtain ⟨hdata, hrest⟩ := List.append_inj (h.symm.trans hbytes) (hfull.mp hloop).symm
    exact ⟨t', by rw [hloop, hdata], readFull_final final hread, hrest.symm⟩

/-- The error that ends the reads. -/
def firstErr (t : Transport) : IoErr := (t.answers.findSome? Answer.err).getD t.fail

/-- The bytes and the answers that are left. -/
def size (t : Transport) : Nat := t.bytes.length + t.answers.length

theorem length_answers_read (h : t.read n = (data, err, t')) :
    t'.answers.length ≤ t.answers.length := by
  obtain ⟨has, hread⟩ | ⟨a, as, has, hlt, hread⟩ | ⟨a, as, has, hle, hread⟩ := t.read_cases n
  all_goals
    cases hread.symm.trans h
    simp [has]

theorem read_size (h : t.read n = (data, err, t')) : t'.size + data.length ≤ t.size := by
  have hbytes := congrArg List.length (read_bytes h).1
  have hanswers := length_answers_read h
  rw [List.length_append] at hbytes
  unfold size
  omega

/-- A read with room for something takes bytes or an answer. -/
theorem read_size_lt (hn : 0 < n) (h : t.read n = (data, none, t')) : t'.size < t.size := by
  have hbytes := congrArg List.length (read_bytes h).1
  rw [List.length_append] at hbytes
  unfold size
  obtain ⟨has, hread⟩ | ⟨a, as, has, hlt, hread⟩ | ⟨a, as, has, hle, hread⟩ := t.read_cases n
  · cases hread.symm.trans h
  · cases hread.symm.trans h
    rw [List.length_take] at hbytes
    rw [has]
    dsimp only [List.length_cons]
    omega
  · obtain ⟨-, h⟩ := Prod.mk.inj (hread.symm.trans h)
    rw [has, ← (Prod.mk.inj h).2]
    rw [← (Prod.mk.inj h).2] at hbytes
    dsimp only [List.length_cons]
    omega

theorem length_readFullLoop_le (fail : IoErr) (as : List Answer) (got : List UInt8) (n : Nat) :
    (readFullLoop fail as got n).2.2.length ≤ as.length := by
  fun_induction readFullLoop fail as got n with
  | case1 as got | case2 got n | case3 a as got n hlt => exact Nat.le_refl _
  | case4 a as got n _ heq | case5 a as got n hle hne e he => exact Nat.le_succ _
  | case6 a as got n hle hne he ih => exact Nat.le_succ_of_le ih

theorem readFull_size (h : t.readFull n = (data, err, t')) : t'.size + data.length ≤ t.size := by
  have hbytes := congrArg List.length (readFull_bytes h).1
  have hanswers := length_readFullLoop_le t.fail t.answers [] n
  rw [List.length_append] at hbytes
  unfold readFull at h
  cases hloop : readFullLoop t.fail t.answers [] n with
  | mk got rest =>
    rw [hloop] at h hanswers
    cases h
    unfold size
    dsimp only at hbytes hanswers ⊢
    omega

/-- A clean transport that has bytes left answers with the first of them, and stays clean. -/
theorem read_of_clean (clean : t.Clean) (hne : t.bytes ≠ []) (n : Nat) :
    ∃ data t', t.read n = (data, none, t') ∧ t'.Clean := by
  obtain ⟨has, hread⟩ | ⟨a, as, has, hlt, hread⟩ | ⟨a, as, has, hle, hread⟩ := t.read_cases n
  · rw [bytes, has] at hne
    exact absurd rfl hne
  · refine ⟨_, _, hread, fun b hb => ?_⟩
    obtain rfl | hb := List.mem_cons.mp hb
    · exact clean a (has ▸ List.mem_cons_self)
    · exact clean b (has ▸ List.mem_cons_of_mem a hb)
  · have herr : a.err = none := clean a (has ▸ List.mem_cons_self)
    rw [herr] at hread
    exact ⟨_, _, hread, fun b hb => clean b (has ▸ List.mem_cons_of_mem a hb)⟩

end Transport

/-! ### Writers -/

/-- An `io.Writer`: what has been written, and the answers to the calls to come. A call that
fails has written the given number of bytes; a connection that works has no such answers. -/
structure Sink where
  data : List UInt8 := []
  answers : List (Option (Nat × IoErr)) := []
deriving DecidableEq, Repr

namespace Sink

/-- `Write`; also `net.Buffers.WriteTo`, with the buffers one after the other. -/
def write (s : Sink) (p : List UInt8) : Sink × Nat × Option IoErr :=
  match s.answers with
  | some (n, err) :: answers => (⟨s.data ++ p.take n, answers⟩, min n p.length, some err)
  | none :: answers => (⟨s.data ++ p, answers⟩, p.length, none)
  | [] => (⟨s.data ++ p, []⟩, p.length, none)

theorem write_of_works {s : Sink} (works : s.answers = []) (p : List UInt8) :
    s.write p = (⟨s.data ++ p, []⟩, p.length, none) := by
  unfold write
  rw [works]

/-- What a `Write` sends, whether it fails or not. -/
theorem write_prefix {s s' : Sink} {p : List UInt8} {n : Nat} {err : Option IoErr}
    (h : s.write p = (s', n, err)) :
    ∃ sent, s'.data = s.data ++ sent ∧ sent <+: p ∧ (err = none → sent = p) := by
  unfold write at h
  split at h
  · cases h
    exact ⟨_, rfl, List.take_prefix _ _, fun herr => by cases herr⟩
  · cases h
    exact ⟨p, rfl, List.prefix_rfl, fun _ => rfl⟩
  · cases h
    exact ⟨p, rfl, List.prefix_rfl, fun _ => rfl⟩

end Sink

end Glider.Go
