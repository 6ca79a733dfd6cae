/-
Writers that cut their argument in pieces of a bounded size and encode one piece after
the other, with a state that moves on from piece to piece.

* `chunks` — the pieces: none is empty, none is too long, and they make up the whole.
* `writeChunks` — the loop of such a writer. `writeChunks_keeps`, `callAll_keeps`: its invariants.
* `BlockCode` — the code of one piece in a state, and of a list of them.
* `BlockCode.writeChunks_eq`, `BlockCode.callAll_write` — what the loop and a sequence of calls
  write, from what happens to one piece and in one call.
-/

import Mathlib.Logic.Function.Iterate

namespace Glider.Lib

variable {α β σ : Type}

/-- Pieces of `k` elements; the last one may be shorter. -/
def chunks (k : Nat) (p : List α) : List (List α) :=
  if _h : p = [] ∨ k = 0 then [] else p.take k :: chunks k (p.drop k)
termination_by p.length
decreasing_by
  have hpos := List.length_pos_iff.mpr fun hp => _h (.inl hp)
  have hk : k ≠ 0 := fun hk => _h (.inr hk)
  rw [List.length_drop]
  omega

@[simp] theorem chunks_nil (k : Nat) : chunks k ([] : List α) = [] := by
  rw [chunks]
  simp

theorem chunks_of_ne_nil {k : Nat} {p : List α} (hk : 0 < k) (hp : p ≠ []) :
    chunks k p = p.take k :: chunks k (p.drop k) := by
  rw [chunks]
  simp [hp, Nat.ne_of_gt hk]

/-- What fits in one piece is one. -/
theorem chunks_of_length_le {k : Nat} {p : List α} (hp : p ≠ []) (hle : p.length ≤ k) :
    chunks k p = [p] := by
  have hpos := List.length_pos_iff.mpr hp
  rw [chunks_of_ne_nil (by omega) hp, List.take_of_length_le hle, List.drop_of_length_le hle,
    chunks_nil]

theorem flatten_chunks {k : Nat} (hk : 0 < k) (p : List α) : (chunks k p).flatten = p := by
  fun_induction chunks k p with
  | case1 p h => exact (h.resolve_right (Nat.ne_of_gt hk)).symm
  | case2 p _ ih => rw [List.flatten_cons, ih, List.take_append_drop]

theorem length_of_mem_chunks {k : Nat} {p c : List α} (hc : c ∈ chunks k p) :
    1 ≤ c.length ∧ c.length ≤ k := by
  fun_induction chunks k p with
  | case1 p _ => cases hc
  | case2 p h ih =>
    have hpos := List.length_pos_iff.mpr fun hp => h (.inl hp)
    have hk : k ≠ 0 := fun hk => h (.inr hk)
    obtain rfl | hc := List.mem_cons.mp hc
    · rw [List.length_take]
      omega
    · exact ih hc

/-- The loop of such a writer: `n` elements are done, `p` is what is left, and an error of one
piece ends it. The pieces have a length. -/
def writeChunks {W ε : Type} (k : Nat) (writeChunk : W → List α → W × Option ε) (w : W) (n : Nat)
    (p : List α) : W × Nat × Option ε :=
  if _h : p = [] ∨ k = 0 then (w, n, none)
  else
    match writeChunk w (p.take k) with
    | (w, some err) => (w, n, some err)
    | (w, none) => writeChunks k writeChunk w (n + min k p.length) (p.drop k)
termination_by p.length
decreasing_by
  have hpos := List.length_pos_iff.mpr fun hp => _h (.inl hp)
  have hk : k ≠ 0 := fun hk => _h (.inr hk)
  rw [List.length_drop]
  omega

/-- Calls one after the other, and what they return. -/
def callAll {W A ρ : Type} (call : W → A → W × ρ) : W → List A → W × List ρ
  | w, [] => (w, [])
  | w, a :: as =>
    let (w, r) := call w a
    let (w, rs) := callAll call w as
    (w, r :: rs)

/-! ### Invariants of a writer -/

section Keeps

variable {W A ρ ε : Type} {P : W → Prop}

/-- What one piece keeps, the loop keeps, whether it ends with an error or not. -/
theorem writeChunks_keeps {writeChunk : W → List α → W × Option ε}
    (step : ∀ w c, P w → P (writeChunk w c).1) (k : Nat) (w : W) (n : Nat) (p : List α)
    (h : P w) : P (writeChunks k writeChunk w n p).1 := by
  induction hlen : p.length using Nat.strongRecOn generalizing w n p with
  | ind m ih =>
    rw [writeChunks]
    split
    · exact h
    · rename_i hmore
      have hpos := List.length_pos_iff.mpr fun hp => hmore (.inl hp)
      have hk : k ≠ 0 := fun hk => hmore (.inr hk)
      have hnext := step w (p.take k) h
      split
      · rename_i hwrite
        rw [hwrite] at hnext
        exact hnext
      · rename_i hwrite
        rw [hwrite] at hnext
        exact ih _ (by rw [List.length_drop]; omega) _ _ _ hnext rfl

/-- What one call keeps, a sequence of calls keeps. -/
theorem callAll_keeps {call : W → A → W × ρ} (step : ∀ w a, P w → P (call w a).1) (w : W)
    (as : List A) (h : P w) : P (callAll call w as).1 := by
  induction as generalizing w with
  | nil => exact h
  | cons a as ih => exact ih _ (step w a h)

end Keeps

/-- The code of one piece, which depends on a state, and the state after it. -/
structure BlockCode (σ α β : Type) where
  encode : σ → List α → List β
  next : σ → σ

namespace BlockCode

variable (C : BlockCode σ α β)

/-- The code of the pieces, one after the other. -/
def encodeAll : σ → List (List α) → List β
  | _, [] => []
  | s, c :: cs => C.encode s c ++ encodeAll (C.next s) cs

/-- The state after the pieces. -/
def after (s : σ) (cs : List (List α)) : σ := C.next^[cs.length] s

@[simp] theorem encodeAll_nil (s : σ) : C.encodeAll s [] = [] := rfl

@[simp] theorem encodeAll_cons (s : σ) (c : List α) (cs : List (List α)) :
    C.encodeAll s (c :: cs) = C.encode s c ++ C.encodeAll (C.next s) cs := rfl

@[simp] theorem after_nil (s : σ) : C.after s [] = s := rfl

@[simp] theorem after_cons (s : σ) (c : List α) (cs : List (List α)) :
    C.after s (c :: cs) = C.after (C.next s) cs := rfl

theorem after_append (s : σ) (cs cs' : List (List α)) :
    C.after s (cs ++ cs') = C.after (C.after s cs) cs' := by
  induction cs generalizing s with
  | nil => rfl
  | cons c cs ih => rw [List.cons_append, after_cons, after_cons, ih]

theorem encodeAll_append (s : σ) (cs cs' : List (List α)) :
    C.encodeAll s (cs ++ cs') = C.encodeAll s cs ++ C.encodeAll (C.after s cs) cs' := by
  induction cs generalizing s with
  | nil => rfl
  | cons c cs ih => rw [List.cons_append, encodeAll_cons, ih, encodeAll_cons, after_cons,
      List.append_assoc]

/-- A writer is a state of the code and what has been written, in some `shape`. If it never
fails to write a piece, the loop writes all of them. -/
theorem writeChunks_eq {W ε : Type} {shape : σ → List β → W}
    {writeChunk : W → List α → W × Option ε}
    (hchunk : ∀ s out c,
      writeChunk (shape s out) c = (shape (C.next s) (out ++ C.encode s c), none))
    {k : Nat} (hk : 0 < k) (s : σ) (out : List β) (n : Nat) (p : List α) :
    writeChunks k writeChunk (shape s out) n p =
      (shape (C.after s (chunks k p)) (out ++ C.encodeAll s (chunks k p)), n + p.length, none) := by
  induction hlen : p.length using Nat.strongRecOn generalizing s out n p with
  | ind m ih =>
    rw [writeChunks]
    by_cases hp : p = []
    · rw [dif_pos (.inl hp), ← hlen, hp, chunks_nil, encodeAll_nil, after_nil, List.append_nil]
      rfl
    · have hpos := List.length_pos_iff.mpr hp
      rw [dif_neg (by simp [hp, Nat.ne_of_gt hk]), hchunk]
      dsimp only
      rw [ih (p.drop k).length (by rw [List.length_drop]; omega) _ _ _ _ rfl,
        chunks_of_ne_nil hk hp, encodeAll_cons, after_cons, List.append_assoc]
      have htotal : n + min k p.length + (p.drop k).length = n + m := by
        rw [List.length_drop]
        omega
      rw [htotal]

/-- If each call encodes the pieces of its argument, a sequence of calls encodes all the
pieces. -/
theorem callAll_write {W ρ : Type} {shape : σ → List β → W} {write : W → List α → W × ρ}
    {cut : List α → List (List α)} {result : List α → ρ}
    (hwrite : ∀ s out p, write (shape s out) p =
      (shape (C.after s (cut p)) (out ++ C.encodeAll s (cut p)), result p))
    (s : σ) (out : List β) (ps : List (List α)) :
    callAll write (shape s out) ps =
      (shape (C.after s (ps.flatMap cut)) (out ++ C.encodeAll s (ps.flatMap cut)),
        ps.map result) := by
  induction ps generalizing s out with
  | nil => rw [callAll, List.flatMap_nil, encodeAll_nil, after_nil, List.append_nil, List.map_nil]
  | cons p ps ih =>
    rw [callAll, hwrite]
    dsimp only
    rw [ih, List.flatMap_cons, encodeAll_append, after_append, List.append_assoc, List.map_cons]

end BlockCode

/-- Cutting each argument leaves their concatenation as it is. -/
theorem flatten_flatMap_chunks {k : Nat} (hk : 0 < k) (ps : List (List α)) :
    (ps.flatMap (chunks k)).flatten = ps.flatten := by
  induction ps with
  | nil => rfl
  | cons p ps ih =>
    rw [List.flatMap_cons, List.flatten_append, flatten_chunks hk, ih, List.flatten_cons]

/-! ### Segments -/

/-- The segments of a stream that are left when enough have been taken for `n` elements. -/
def fetch : Nat → List (List α) → List (List α)
  | 0, segs => segs
  | _ + 1, [] => []
  | n + 1, s :: segs => fetch (n + 1 - s.length) segs

@[simp] theorem fetch_zero (segs : List (List α)) : fetch 0 segs = segs := by
  cases segs <;> rfl

/-- **What is taken too much.** The rest of the stream is left exactly if there is a cut at that
place. -/
theorem flatten_fetch_iff {segs : List (List α)} {front rest : List α}
    (h : segs.flatten = front ++ rest) :
    (fetch front.length segs).flatten = rest ↔ ∃ k, (segs.take k).flatten = front := by
  induction segs generalizing front with
  | nil =>
    obtain ⟨rfl, rfl⟩ := List.append_eq_nil_iff.mp h.symm
    exact ⟨fun _ => ⟨0, rfl⟩, fun _ => rfl⟩
  | cons s segs ih =>
    cases hfront : front with
    | nil =>
      rw [hfront] at h
      exact ⟨fun _ => ⟨0, rfl⟩, fun _ => by rw [List.length_nil, fetch_zero]; exact h⟩
    | cons x xs =>
      rw [← hfront]
      have hpos : 0 < front.length := by rw [hfront]; exact Nat.succ_pos _
      have hstep : fetch front.length (s :: segs) = fetch (front.length - s.length) segs := by
        rw [hfront]
        rfl
      have htake : (∃ k, ((s :: segs).take k).flatten = front) ↔
          ∃ k, s ++ (segs.take k).flatten = front := by
        constructor
        · rintro ⟨k, hk⟩
          cases k with
          | zero => rw [← hk] at hpos; exact absurd hpos (by simp)
          | succ k => exact ⟨k, hk⟩
        · rintro ⟨k, hk⟩
          exact ⟨k + 1, hk⟩
      rw [hstep, htake]
      rw [List.flatten_cons] at h
      obtain ⟨more, rfl, hsegs⟩ | ⟨lost, rfl, hrest⟩ := List.append_eq_append_iff.mp h
      · -- the segment is part of the front
        rw [List.length_append, Nat.add_sub_cancel_left, ih hsegs]
        exact exists_congr fun k => (List.append_right_inj s).symm
      · -- it goes beyond the front, by nothing or by what is lost
        have hzero : front.length - (front ++ lost).length = 0 := by simp
        rw [hzero, fetch_zero, hrest]
        constructor
        · intro hleft
          have hlost : lost = [] := List.self_eq_append_left.mp hleft
          exact ⟨0, by rw [hlost]; simp⟩
        · rintro ⟨k, hk⟩
          have hlost : lost = [] := by
            have hlen := congrArg List.length hk
            simp only [List.length_append] at hlen
            exact List.length_eq_zero_iff.mp (by omega)
          rw [hlost]
          rfl

end Glider.Lib
