/-
Go strings as byte lists, with the functions of package `strings` and
`path/filepath` the modelled code calls. A Go string is an arbitrary sequence of
bytes: nothing here assumes UTF-8.

An index result of `-1` is `none`. Only single-byte separators occur in the
modelled code.
-/

import Mathlib.Data.List.DropRight
import Mathlib.Tactic.ByContra

namespace Glider.Go

/-- A Go string: any bytes. -/
abbrev GoString := List UInt8

/-- The bytes of an ASCII literal of the source. -/
def ascii (s : String) : GoString := s.toList.map fun c => c.toNat.toUInt8

/-- A literal is the list of its characters to the kernel; this way it need not be decoded. -/
theorem ascii_ofList (cs : List Char) :
    ascii (String.ofList cs) = cs.map fun c => c.toNat.toUInt8 := by
  rw [ascii, String.toList_ofList]

/-- `'.'`, the only separator of domain labels. -/
def dot : UInt8 := 46

/-- `strings.IndexByte`. -/
def indexByte : GoString → UInt8 → Option Nat
  | [], _ => none
  | b :: bs, c => if b = c then some 0 else (indexByte bs c).map (· + 1)

/-- `strings.LastIndexByte`. -/
def lastIndexByte : GoString → UInt8 → Option Nat
  | [], _ => none
  | b :: bs, c =>
    match lastIndexByte bs c with
    | some i => some (i + 1)
    | none => if b = c then some 0 else none

/-- `strings.Split` with a one-byte separator. -/
def split : GoString → UInt8 → List GoString
  | [], _ => [[]]
  | b :: bs, sep =>
    if b = sep then [] :: split bs sep
    else
      match split bs sep with
      | piece :: pieces => (b :: piece) :: pieces
      | [] => [[b]]

/-- `strings.Join` with a one-byte separator. -/
def join (ss : List GoString) (sep : UInt8) : GoString := [sep].intercalate ss

/-- `strings.Cut` with a one-byte separator: before, after, found. -/
def cut (s : GoString) (sep : UInt8) : GoString × GoString × Bool :=
  match indexByte s sep with
  | some i => (s.take i, s.drop (i + 1), true)
  | none => (s, [], false)

/-- `strings.TrimSuffix`. -/
def trimSuffix (s suffix : GoString) : GoString :=
  if suffix <:+ s then s.take (s.length - suffix.length) else s

/-- `filepath.Ext`: from the last dot of the last path element. -/
def filepathExt (path : GoString) : GoString :=
  match lastIndexByte path dot with
  | some i => if (47 : UInt8) ∈ path.drop i then [] else path.drop i
  | none => []

/-- `filepath.Base`: the last path element, trailing slashes removed. -/
def filepathBase (path : GoString) : GoString :=
  if path = [] then ascii "."
  else
    let stripped := path.rdropWhile (· = 47)
    let elem := match lastIndexByte stripped 47 with
      | some i => stripped.drop (i + 1)
      | none => stripped
    if elem = [] then ascii "/" else elem

/-! ### First occurrence -/

variable {c : UInt8}

theorem indexByte_append {pre : GoString} (h : c ∉ pre) (post : GoString) :
    indexByte (pre ++ c :: post) c = some pre.length := by
  induction pre with
  | nil => simp [indexByte]
  | cons b pre ih =>
    simp only [List.mem_cons, not_or] at h
    obtain ⟨hb, hpre⟩ := h
    simp [indexByte, Ne.symm hb, ih hpre]

variable {s : GoString}

theorem indexByte_eq_none (h : c ∉ s) : indexByte s c = none := by
  induction s with
  | nil => rfl
  | cons b s ih =>
    simp only [List.mem_cons, not_or] at h
    obtain ⟨hb, hs⟩ := h
    simp [indexByte, Ne.symm hb, ih hs]

theorem cut_append {pre : GoString} (h : c ∉ pre) (post : GoString) :
    cut (pre ++ c :: post) c = (pre, post, true) := by
  simp [cut, indexByte_append h]

theorem cut_of_not_mem (h : c ∉ s) : cut s c = (s, [], false) := by
  simp [cut, indexByte_eq_none h]

/-- What `strings.Cut` can do. -/
theorem cut_cases (s : GoString) (c : UInt8) :
    (∃ pre post, s = pre ++ c :: post ∧ c ∉ pre ∧ cut s c = (pre, post, true)) ∨
      (c ∉ s ∧ cut s c = (s, [], false)) := by
  by_cases h : c ∈ s
  · obtain ⟨pre, post, rfl, hpre⟩ := List.eq_append_cons_of_mem h
    exact .inl ⟨pre, post, rfl, hpre, cut_append hpre post⟩
  · exact .inr ⟨h, cut_of_not_mem h⟩

/-! ### Last occurrence -/

/-- No last index means no occurrence. -/
theorem lastIndexByte_eq_none_iff : lastIndexByte s c = none ↔ c ∉ s := by
  induction s with
  | nil => simp [lastIndexByte]
  | cons b bs ih =>
    cases hbs : lastIndexByte bs c with
    | some j =>
      have hmem : c ∈ bs := by
        by_contra hc
        rw [ih.mpr hc] at hbs
        simp at hbs
      simp [lastIndexByte, hbs, hmem]
    | none =>
      have hnot := ih.mp hbs
      by_cases hb : b = c
      · simp [lastIndexByte, hbs, hb]
      · simp [lastIndexByte, hbs, hb, hnot, Ne.symm hb]

/-- The last index splits the string at the last occurrence of the byte. -/
theorem lastIndexByte_eq_some {i : Nat} (h : lastIndexByte s c = some i) :
    ∃ pre post, s = pre ++ c :: post ∧ pre.length = i ∧ c ∉ post := by
  induction s generalizing i with
  | nil => simp [lastIndexByte] at h
  | cons b bs ih =>
    cases hbs : lastIndexByte bs c with
    | some j =>
      simp only [lastIndexByte, hbs, Option.some.injEq] at h
      obtain ⟨pre, post, rfl, hlen, hpost⟩ := ih hbs
      exact ⟨b :: pre, post, rfl, by simp [hlen, ← h], hpost⟩
    | none =>
      simp only [lastIndexByte, hbs] at h
      split at h
      · rename_i hb
        exact ⟨[], bs, by simp [hb], by simpa using h, lastIndexByte_eq_none_iff.mp hbs⟩
      · simp at h

theorem lastIndexByte_append {post : GoString} (h : c ∉ post) (pre : GoString) :
    lastIndexByte (pre ++ c :: post) c = some pre.length := by
  induction pre with
  | nil => simp [lastIndexByte, lastIndexByte_eq_none_iff.mpr h]
  | cons b bs ih =>
    rw [List.cons_append, lastIndexByte, ih]
    rfl

/-! ### Pieces -/

/-- `strings.Split` cuts a string at its separators. -/
theorem split_eq (s : GoString) (sep : UInt8) :
    ∃ piece pieces, split s sep = piece :: pieces ∧ s = piece ++ pieces.flatMap (sep :: ·) := by
  induction s with
  | nil => exact ⟨[], [], rfl, rfl⟩
  | cons b s ih =>
    obtain ⟨piece, pieces, hsplit, hs⟩ := ih
    rw [split, hsplit]
    by_cases hb : b = sep
    · exact ⟨[], piece :: pieces, if_pos hb, by rw [hs, hb]; simp⟩
    · exact ⟨b :: piece, pieces, if_neg hb, by rw [hs]; rfl⟩

theorem split_of_notMem {sep : UInt8} (h : sep ∉ s) : split s sep = [s] := by
  induction s with
  | nil => rfl
  | cons b s ih =>
    obtain ⟨hne, hs⟩ := not_or.mp (mt List.mem_cons.mpr h)
    rw [split, if_neg (Ne.symm hne), ih hs]

theorem split_append (s t : GoString) (sep : UInt8) :
    split (s ++ sep :: t) sep = split s sep ++ split t sep := by
  induction s with
  | nil => exact if_pos rfl
  | cons b s ih =>
    obtain ⟨piece, pieces, hsplit, -⟩ := split_eq s sep
    rw [List.cons_append, split, ih, split, hsplit]
    by_cases hb : b = sep
    · rw [if_pos hb, if_pos hb]
      rfl
    · rw [if_neg hb, if_neg hb]
      rfl

theorem join_singleton (s : GoString) (sep : UInt8) : join [s] sep = s := by
  simp [join, List.intercalate]

theorem join_cons_cons (s s' : GoString) (ss : List GoString) (sep : UInt8) :
    join (s :: s' :: ss) sep = s ++ sep :: join (s' :: ss) sep := by
  simp [join, List.intercalate]

theorem length_le_of_mem_split {s piece : GoString} {sep : UInt8} (h : piece ∈ split s sep) :
    piece.length ≤ s.length := by
  induction s generalizing piece with
  | nil =>
    cases List.mem_singleton.mp h
    exact Nat.le_refl _
  | cons b s ih =>
    obtain ⟨first, pieces, hsplit, -⟩ := split_eq s sep
    rw [split, hsplit] at h
    rw [hsplit] at ih
    split at h
    · rcases List.mem_cons.mp h with rfl | h
      · exact Nat.zero_le _
      · exact Nat.le_succ_of_le (ih h)
    · rcases List.mem_cons.mp h with rfl | h
      · exact Nat.succ_le_succ (ih List.mem_cons_self)
      · exact Nat.le_succ_of_le (ih (List.mem_cons_of_mem _ h))

end Glider.Go
