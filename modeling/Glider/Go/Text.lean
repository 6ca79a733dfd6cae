/-
`strings.TrimSpace` and `strconv.Atoi`.

`TrimSpace` works on runes. Every byte is marked with whether its rune is white space, and
the marked bytes at both ends are dropped.
-/

import Glider.Go.Lower
import Mathlib.Algebra.Group.Nat.Defs

namespace Glider.Go

/-- `unicode.IsSpace`. -/
def isSpace (r : Nat) : Bool :=
  (0x09 ≤ r && r ≤ 0x0D) || r = 0x20 || r = 0x85 || r = 0xA0 || r = 0x1680 ||
    (0x2000 ≤ r && r ≤ 0x200A) || r = 0x2028 || r = 0x2029 || r = 0x202F || r = 0x205F || r = 0x3000

/-- The bytes, each with whether its rune is white space. `skip` bytes still belong to the
rune before, whose mark is `space`. -/
def markSpaces : (skip : Nat) → (space : Bool) → GoString → List (UInt8 × Bool)
  | _, _, [] => []
  | skip + 1, space, b :: rest => (b, space) :: markSpaces skip space rest
  | 0, _, b :: rest =>
    let space := isSpace (decodeRune b rest).1
    (b, space) :: markSpaces ((decodeRune b rest).2 - 1) space rest

/-- `strings.TrimSpace`. -/
def trimSpace (s : GoString) : GoString :=
  ((((markSpaces 0 false s).dropWhile (·.2)).reverse.dropWhile (·.2)).reverse).map (·.1)

/-- A nonempty string of decimal digits as a number. -/
def digits? (s : GoString) : Option Nat :=
  if s ≠ [] ∧ s.all (fun b => 48 ≤ b && b ≤ 57) then
    some (s.foldl (fun n b => n * 10 + (b.toNat - 48)) 0)
  else none

/-- `strconv.Atoi` for a 64-bit `int`; `none` is a syntax or range error. -/
def atoi : GoString → Option Int
  | 45 :: s => (digits? s).bind fun n => if n ≤ 2 ^ 63 then some (-(n : Int)) else none
  | 43 :: s => (digits? s).bind fun n => if n < 2 ^ 63 then some (n : Int) else none
  | s => (digits? s).bind fun n => if n < 2 ^ 63 then some (n : Int) else none

example : trimSpace (ascii " 2 \r") = ascii "2" := by decide

end Glider.Go
