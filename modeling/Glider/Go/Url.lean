/-
`url.ParseQuery` and `strconv.ParseUint`, as the options of a forwarder use them.

A query that does not parse in full still yields the pairs that do, next to the
error; `ParseUint` likewise returns a value together with its error.

* `parseUint32_eq` — the texts `ParseUint` accepts, and their values.
-/

import Glider.Go.Net

namespace Glider.Go

/-- The errors of `url.ParseQuery`. -/
inductive QueryError where
  | semicolon
  | escape
deriving DecidableEq, Repr

/-- How much of an escape has been read. -/
inductive Escape where
  | outside
  | percent
  | high (x : Nat)

/-- The loop of `url.QueryUnescape`; `none` is an `EscapeError`. -/
def unescapeLoop : GoString → Escape → Option GoString
  | [], .outside => some []
  | [], _ => none
  | b :: rest, .outside =>
    if b = 37 then unescapeLoop rest .percent
    else (unescapeLoop rest .outside).map ((if b = 43 then 32 else b) :: ·)
  | b :: rest, .percent => (hexValue b).bind fun x => unescapeLoop rest (.high x)
  | b :: rest, .high x =>
    (hexValue b).bind fun y =>
      (unescapeLoop rest .outside).map ((x * 16 + y).toUInt8 :: ·)

/-- `url.QueryUnescape`. -/
def queryUnescape (s : GoString) : Option GoString := unescapeLoop s .outside

/-- `url.Values`, as the pairs in the order they are added. -/
abbrev Values := List (GoString × GoString)

/-- `Values.Get`: the first value of a key, or nothing. -/
def Values.get (m : Values) (key : GoString) : GoString := (m.lookup key).getD []

/-- One pair of a query. The first error is kept, except that a semicolon
replaces it. -/
def parsePair (acc : Values × Option QueryError) (pair : GoString) :
    Values × Option QueryError :=
  if (59 : UInt8) ∈ pair then (acc.1, some .semicolon)
  else if pair = [] then acc
  else
    let (key, value, _) := cut pair 61
    match queryUnescape key, queryUnescape value with
    | some key, some value => (acc.1 ++ [(key, value)], acc.2)
    | _, _ => (acc.1, acc.2.or (some .escape))

/-- `url.ParseQuery`. -/
def parseQuery (query : GoString) : Values × Option QueryError :=
  (split query 38).foldl parsePair ([], none)

/-- The errors of `strconv.ParseUint`. -/
inductive NumError where
  | syntaxError
  | rangeError
deriving DecidableEq, Repr

/-- The loop of `strconv.ParseUint` in base 10, up to `maxVal`. -/
def parseUintLoop (maxVal : Nat) : GoString → Nat → Nat × Option NumError
  | [], n => (n, none)
  | b :: rest, n =>
    if isDigit b then
      if maxVal < n * 10 + (b.toNat - 48) then (maxVal, some .rangeError)
      else parseUintLoop maxVal rest (n * 10 + (b.toNat - 48))
    else (0, some .syntaxError)

/-- `strconv.ParseUint(s, 10, 32)`. -/
def parseUint32 (s : GoString) : Nat × Option NumError :=
  if s = [] then (0, some .syntaxError) else parseUintLoop 4294967295 s 0

theorem le_foldl_digit (s : GoString) (n : Nat) :
    n ≤ s.foldl (fun n b => n * 10 + (b.toNat - 48)) n := by
  induction s generalizing n with
  | nil => exact Nat.le_refl n
  | cons b s ih =>
    have hstep : n ≤ n * 10 + (b.toNat - 48) := by omega
    exact Nat.le_trans hstep (ih _)

theorem parseUintLoop_eq {maxVal : Nat} {s : GoString} {n m : Nat} (hn : n ≤ maxVal) :
    parseUintLoop maxVal s n = (m, none) ↔
      s.all isDigit ∧ s.foldl (fun n b => n * 10 + (b.toNat - 48)) n = m ∧ m ≤ maxVal := by
  induction s generalizing n with
  | nil =>
    rw [parseUintLoop]
    constructor
    · rintro ⟨⟩
      exact ⟨rfl, rfl, hn⟩
    · rintro ⟨-, rfl, -⟩
      rfl
  | cons b s ih =>
    rw [parseUintLoop, List.all_cons, List.foldl_cons]
    by_cases hdigit : isDigit b
    · rw [if_pos hdigit, hdigit, Bool.true_and]
      by_cases hbig : maxVal < n * 10 + (b.toNat - 48)
      · -- what is too large stays so
        rw [if_pos hbig]
        constructor
        · intro h
          cases h
        · rintro ⟨-, rfl, hle⟩
          have hgrow := le_foldl_digit s (n * 10 + (b.toNat - 48))
          omega
      · rw [if_neg hbig]
        exact ih (Nat.le_of_not_lt hbig)
    · rw [if_neg hdigit]
      constructor
      · intro h
        cases h
      · rintro ⟨hall, -⟩
        simp [hdigit] at hall

/-- **`ParseUint` accepts the decimal numbers below `2 ^ 32`.** -/
theorem parseUint32_eq {s : GoString} {n : Nat} :
    parseUint32 s = (n, none) ↔ decimal s = some n ∧ n < 4294967296 := by
  unfold parseUint32 decimal
  by_cases hs : s = []
  · simp [hs]
  · rw [if_neg hs, parseUintLoop_eq (Nat.zero_le _)]
    by_cases hall : s.all isDigit
    · rw [if_pos ⟨hs, hall⟩]
      constructor
      · rintro ⟨-, rfl, hle⟩
        exact ⟨rfl, by omega⟩
      · rintro ⟨⟨⟩, hlt⟩
        exact ⟨hall, rfl, by omega⟩
    · simp [hall]

theorem parseUint32_eq_none {s : GoString} :
    (parseUint32 s).2 = none ↔ ∃ n, decimal s = some n ∧ n < 4294967296 := by
  constructor
  · intro h
    exact ⟨_, parseUint32_eq.mp (Prod.ext rfl h)⟩
  · rintro ⟨n, hn⟩
    rw [parseUint32_eq.mpr hn]

example : parseQuery (ascii "priority=10&interface=a%20b") =
    ([(ascii "priority", ascii "10"), (ascii "interface", ascii "a b")], none) := by decide

end Glider.Go
