/-
`strings.ToLower` on arbitrary bytes.

Go lower-cases a string rune by rune: it decodes UTF-8 (an invalid byte is the rune
U+FFFD), maps each rune, and encodes the result. The case table beyond ASCII is a
parameter, of which only one thing is used: no rune outside ASCII has the full stop
as its lower case.

* `toLower_append_dot` — the full stop is a boundary: both sides are lower-cased
  on their own.
* `labelSuffixes_toLower` — lower-casing commutes with taking label suffixes.
-/

import Glider.Go.Labels

namespace Glider.Go

/-! ### UTF-8 -/

/-- `utf8.RuneError`. -/
def runeError : Nat := 0xFFFD

/-- What the first byte of an encoding tells: its size and the range of the second
byte. -/
inductive FirstByte where
  | ascii
  | invalid
  | lead (size : Nat) (lo hi : UInt8)

/-- The table `first` of package `utf8`. -/
def firstByte (b : UInt8) : FirstByte :=
  if b < 0x80 then .ascii
  else if b < 0xC2 then .invalid
  else if b < 0xE0 then .lead 2 0x80 0xBF
  else if b = 0xE0 then .lead 3 0xA0 0xBF
  else if b = 0xED then .lead 3 0x80 0x9F
  else if b < 0xF0 then .lead 3 0x80 0xBF
  else if b = 0xF0 then .lead 4 0x90 0xBF
  else if b < 0xF4 then .lead 4 0x80 0xBF
  else if b = 0xF4 then .lead 4 0x80 0x8F
  else .invalid

/-- The byte is there and lies in the range. -/
def inRange (b : Option UInt8) (lo hi : UInt8) : Bool := b.any fun b => lo ≤ b && b ≤ hi

/-- The low six bits of a continuation byte. -/
def continuation (b : Option UInt8) : Nat := (b.getD 0).toNat % 64

/-- `utf8.DecodeRuneInString` on the string `b0 :: rest`: the rune and its width. -/
def decodeRune (b0 : UInt8) (rest : GoString) : Nat × Nat :=
  match firstByte b0 with
  | .ascii => (b0.toNat, 1)
  | .invalid => (runeError, 1)
  | .lead size lo hi =>
    if inRange rest[0]? lo hi && (size ≤ 2 || inRange rest[1]? 0x80 0xBF) &&
        (size ≤ 3 || inRange rest[2]? 0x80 0xBF) then
      if size ≤ 2 then (b0.toNat % 32 * 64 + continuation rest[0]?, 2)
      else if size ≤ 3 then
        ((b0.toNat % 16 * 64 + continuation rest[0]?) * 64 + continuation rest[1]?, 3)
      else
        (((b0.toNat % 8 * 64 + continuation rest[0]?) * 64 + continuation rest[1]?) * 64 +
          continuation rest[2]?, 4)
    else (runeError, 1)

/-- The runes of a string, as `range` visits them; `skip` bytes still belong to the
last one. -/
def runesFrom : (skip : Nat) → GoString → List Nat
  | _, [] => []
  | skip + 1, _ :: rest => runesFrom skip rest
  | 0, b :: rest => (decodeRune b rest).1 :: runesFrom ((decodeRune b rest).2 - 1) rest

/-- `utf8.AppendRune`. -/
def encodeRune (r : Nat) : GoString :=
  if r < 0x80 then [r.toUInt8]
  else if r < 0x800 then [(0xC0 + r / 64).toUInt8, (0x80 + r % 64).toUInt8]
  else if (0xD800 ≤ r ∧ r < 0xE000) ∨ 0x10FFFF < r then [0xEF, 0xBF, 0xBD]
  else if r < 0x10000 then
    [(0xE0 + r / 4096).toUInt8, (0x80 + r / 64 % 64).toUInt8, (0x80 + r % 64).toUInt8]
  else
    [(0xF0 + r / 262144).toUInt8, (0x80 + r / 4096 % 64).toUInt8, (0x80 + r / 64 % 64).toUInt8,
      (0x80 + r % 64).toUInt8]

/-! ### Lower case -/

/-- The lower case of the runes outside ASCII. -/
structure CaseTable where
  lower : Nat → Nat
  lower_ne_dot : ∀ r, 0x80 ≤ r → lower r ≠ dot.toNat

/-- A table that leaves the runes outside ASCII as they are. -/
def CaseTable.none : CaseTable where
  lower r := r
  lower_ne_dot r hr := by
    rintro rfl
    exact absurd hr (by decide)

/-- `unicode.ToLower`. -/
def CaseTable.toLowerRune (T : CaseTable) (r : Nat) : Nat :=
  if r < 0x80 then if 65 ≤ r ∧ r ≤ 90 then r + 32 else r else T.lower r

/-- `strings.ToLower`. -/
def toLower (T : CaseTable) (s : GoString) : GoString :=
  (runesFrom 0 s).flatMap fun r => encodeRune (T.toLowerRune r)

theorem encodeRune_ne_nil (r : Nat) : encodeRune r ≠ [] := by
  unfold encodeRune
  split_ifs <;> simp

@[simp] theorem toLower_eq_nil {T : CaseTable} {s : GoString} : toLower T s = [] ↔ s = [] := by
  constructor
  · intro h
    cases s with
    | nil => rfl
    | cons b bs =>
      rw [toLower, runesFrom, List.flatMap_cons] at h
      exact absurd (List.append_eq_nil_iff.mp h).1 (encodeRune_ne_nil _)
  · rintro rfl
    rfl

/-! ### The full stop is a boundary -/

/-- The second byte of an encoding lies beyond ASCII, and the bounds make the
encoding decode beyond ASCII too. -/
theorem bounds_of_firstByte_lead {b lo hi : UInt8} {size : Nat}
    (h : firstByte b = .lead size lo hi) :
    0x80 ≤ lo.toNat ∧ hi.toNat ≤ 0xBF ∧
      ((size = 2 ∧ 2 ≤ b.toNat % 32) ∨
        (size = 3 ∧ (1 ≤ b.toNat % 16 ∨ 0xA0 ≤ lo.toNat)) ∨
        (size = 4 ∧ (1 ≤ b.toNat % 8 ∨ 0x90 ≤ lo.toNat))) := by
  -- a fact about each of the 256 first bytes
  have hall : ∀ n < 256, (match firstByte (UInt8.ofNat n) with
      | .lead size lo hi => decide (0x80 ≤ lo.toNat ∧ hi.toNat ≤ 0xBF ∧
          ((size = 2 ∧ 2 ≤ n % 32) ∨ (size = 3 ∧ (1 ≤ n % 16 ∨ 0xA0 ≤ lo.toNat)) ∨
            (size = 4 ∧ (1 ≤ n % 8 ∨ 0x90 ≤ lo.toNat))))
      | _ => true) = true := by
    decide +kernel
  have hb := hall b.toNat b.toNat_lt
  rw [UInt8.ofNat_toNat, h] at hb
  exact of_decide_eq_true hb

/-- A full stop cannot continue an encoding, so it is as good as the end. -/
theorem decodeRune_append_dot (b : UInt8) (rest t : GoString) :
    decodeRune b (rest ++ dot :: t) = decodeRune b rest := by
  unfold decodeRune
  cases hfirst : firstByte b with
  | ascii => rfl
  | invalid => rfl
  | lead size lo hi =>
    have hlo : inRange (some dot) lo hi = false := by
      have hlo := (bounds_of_firstByte_lead hfirst).1
      simp only [inRange, Option.any_some, Bool.and_eq_false_imp, decide_eq_true_eq]
      intro hle
      exact absurd (hlo.trans (UInt8.le_iff_toNat_le.mp hle)) (by decide)
    have hcont : inRange (some dot) 0x80 0xBF = false := by decide
    have hnone : ∀ lo hi, inRange none lo hi = false := fun _ _ => rfl
    -- the bytes of the encoding that are there decide; the full stop is where they end
    rcases rest with _ | ⟨b1, _ | ⟨b2, _ | ⟨b3, rest⟩⟩⟩
    · simp only [List.nil_append, List.getElem?_cons_zero, List.getElem?_nil, hlo, hnone,
        Bool.false_and, Bool.false_eq_true, if_false]
    · by_cases hsize : size ≤ 2
      · simp only [List.cons_append, List.nil_append, List.getElem?_cons_zero, hsize,
          Nat.le_succ_of_le hsize, decide_true, Bool.true_or, if_true]
      · simp only [List.cons_append, List.nil_append, List.getElem?_cons_zero,
          List.getElem?_cons_succ, List.getElem?_nil, hsize, hcont, hnone, decide_false,
          Bool.or_false, Bool.and_false, Bool.false_and, Bool.false_eq_true, if_false]
    · by_cases hsize : size ≤ 3
      · simp only [List.cons_append, List.nil_append, List.getElem?_cons_zero,
          List.getElem?_cons_succ, hsize, decide_true, Bool.true_or, if_true]
      · simp only [List.cons_append, List.nil_append, List.getElem?_cons_zero,
          List.getElem?_cons_succ, List.getElem?_nil, hsize, hcont, hnone, decide_false,
          Bool.or_false, Bool.and_false, Bool.false_eq_true, if_false]
    · simp only [List.cons_append, List.getElem?_cons_zero, List.getElem?_cons_succ]

theorem decodeRune_width (b : UInt8) (rest : GoString) :
    (decodeRune b rest).2 - 1 ≤ rest.length := by
  have present : ∀ {i : Nat} {lo hi : UInt8}, inRange rest[i]? lo hi = true → i < rest.length := by
    intro i lo hi h
    by_contra hlen
    rw [List.getElem?_eq_none (Nat.le_of_not_lt hlen)] at h
    cases h
  unfold decodeRune
  cases firstByte b with
  | ascii | invalid => exact Nat.zero_le _
  | lead size lo hi =>
    simp only
    split_ifs with h h2 h3
    · simp only [Bool.and_eq_true] at h
      exact present h.1.1
    · simp only [Bool.and_eq_true, Bool.or_eq_true, decide_eq_true_eq] at h
      exact present (h.1.2.resolve_left h2)
    · simp only [Bool.and_eq_true, Bool.or_eq_true, decide_eq_true_eq] at h
      exact present (h.2.resolve_left h3)
    · exact Nat.zero_le _

theorem runesFrom_append_dot {k : Nat} {pre : GoString} (t : GoString) (hk : k ≤ pre.length) :
    runesFrom k (pre ++ dot :: t) = runesFrom k pre ++ dot.toNat :: runesFrom 0 t := by
  induction pre generalizing k with
  | nil =>
    obtain rfl : k = 0 := Nat.le_zero.mp hk
    rfl
  | cons b bs ih =>
    cases k with
    | zero =>
      rw [List.cons_append, runesFrom, runesFrom, decodeRune_append_dot,
        ih (decodeRune_width b bs), List.cons_append]
    | succ k =>
      rw [List.cons_append, runesFrom, runesFrom]
      exact ih (Nat.le_of_succ_le_succ hk)

/-- **Lower-casing works label by label.** -/
theorem toLower_append_dot (T : CaseTable) (pre t : GoString) :
    toLower T (pre ++ dot :: t) = toLower T pre ++ dot :: toLower T t := by
  rw [toLower, runesFrom_append_dot t (Nat.zero_le _), List.flatMap_append, List.flatMap_cons]
  rfl

/-! ### No full stop comes from anything else -/

theorem continuation_of_inRange {b : Option UInt8} {lo hi : UInt8} (h : inRange b lo hi = true)
    (hlo : 0x80 ≤ lo.toNat) (hhi : hi.toNat ≤ 0xBF) : lo.toNat - 0x80 ≤ continuation b := by
  cases b with
  | none => cases h
  | some b =>
    simp only [inRange, Option.any_some, Bool.and_eq_true, decide_eq_true_eq,
      UInt8.le_iff_toNat_le] at h
    simp only [continuation, Option.getD_some]
    omega

theorem decodeRune_ne_dot {b : UInt8} (hb : b ≠ dot) (rest : GoString) :
    (decodeRune b rest).1 ≠ dot.toNat := by
  have hdot : dot.toNat = 46 := rfl
  have herror : runeError ≠ dot.toNat := by decide
  unfold decodeRune
  cases hfirst : firstByte b with
  | ascii => exact fun h => hb (UInt8.toNat_inj.mp h)
  | invalid => exact herror
  | lead size lo hi =>
    obtain ⟨hlo, hhi, hsize⟩ := bounds_of_firstByte_lead hfirst
    simp only
    split_ifs with h h2 h3
    · omega
    · simp only [Bool.and_eq_true] at h
      have := continuation_of_inRange h.1.1 hlo hhi
      simp only
      omega
    · simp only [Bool.and_eq_true] at h
      have := continuation_of_inRange h.1.1 hlo hhi
      simp only
      omega
    · exact herror

theorem runesFrom_ne_dot {s : GoString} (hs : dot ∉ s) (k : Nat) :
    ∀ r ∈ runesFrom k s, r ≠ dot.toNat := by
  induction s generalizing k with
  | nil =>
    cases k <;> simp [runesFrom]
  | cons b bs ih =>
    rw [List.mem_cons, not_or] at hs
    cases k with
    | zero =>
      intro r hr
      rw [runesFrom, List.mem_cons] at hr
      rcases hr with rfl | hr
      · exact decodeRune_ne_dot (Ne.symm hs.1) bs
      · exact ih hs.2 _ r hr
    | succ k =>
      rw [runesFrom]
      exact ih hs.2 k

theorem toLowerRune_ne_dot (T : CaseTable) {r : Nat} (hr : r ≠ dot.toNat) :
    T.toLowerRune r ≠ dot.toNat := by
  have hdot : dot.toNat = 46 := rfl
  unfold CaseTable.toLowerRune
  split_ifs with hascii hupper
  · omega
  · exact hr
  · exact T.lower_ne_dot r (Nat.le_of_not_lt hascii)

theorem dot_not_mem_encodeRune {r : Nat} (hr : r ≠ dot.toNat) : dot ∉ encodeRune r := by
  have hdot : dot.toNat = 46 := rfl
  have byte : ∀ n : Nat, dot = n.toUInt8 → n % 256 = 46 := by
    intro n hn
    rw [← hdot, hn]
    simp
  unfold encodeRune
  split_ifs with h1 h2 h3 h4
  · intro hmem
    have := byte r (by simpa using hmem)
    omega
  · intro hmem
    simp only [List.mem_cons, List.not_mem_nil, or_false] at hmem
    rcases hmem with h | h <;> have := byte _ h <;> omega
  · decide
  · intro hmem
    simp only [List.mem_cons, List.not_mem_nil, or_false] at hmem
    rcases hmem with h | h | h <;> have := byte _ h <;> omega
  · intro hmem
    simp only [List.mem_cons, List.not_mem_nil, or_false] at hmem
    rcases hmem with h | h | h | h <;> have := byte _ h <;> omega

theorem dot_not_mem_toLower (T : CaseTable) {s : GoString} (hs : dot ∉ s) : dot ∉ toLower T s := by
  intro hmem
  obtain ⟨r, hr, hdot⟩ := List.mem_flatMap.mp hmem
  exact dot_not_mem_encodeRune (toLowerRune_ne_dot T (runesFrom_ne_dot hs 0 r hr)) hdot

/-! ### Label suffixes -/

theorem tailsAfterDot_toLower (T : CaseTable) (s : GoString) :
    tailsAfterDot (toLower T s) = (tailsAfterDot s).map (toLower T) := by
  by_cases hs : dot ∈ s
  · obtain ⟨pre, post, rfl, hpre⟩ := List.eq_append_cons_of_mem hs
    have hlen : post.length < (pre ++ dot :: post).length := by
      simp
      omega
    rw [toLower_append_dot, tailsAfterDot_append, tailsAfterDot_append,
      tailsAfterDot_of_not_mem hpre, tailsAfterDot_of_not_mem (dot_not_mem_toLower T hpre),
      tailsAfterDot_toLower T post]
    rfl
  · rw [tailsAfterDot_of_not_mem hs, tailsAfterDot_of_not_mem (dot_not_mem_toLower T hs),
      List.map_nil]
termination_by s.length

/-- **Lower-casing commutes with taking label suffixes.** -/
theorem labelSuffixes_toLower (T : CaseTable) (s : GoString) :
    labelSuffixes (toLower T s) = (labelSuffixes s).map (toLower T) := by
  simp [labelSuffixes, tailsAfterDot_toLower]

end Glider.Go
