import ChapterLint.Decimal.Binary64

/-!
# Numerals and the numbers they stand for

A numeral is what a JSON text writes for a number, digit for digit. Plain numerals of at most
64 bits stand for integers. Every other numeral stands for the binary number found from its
leading digits that fit 64 bits and its power of ten; a numeral beyond all binary numbers
stands for none.
-/

namespace ChapterLint

/-- A number as it is written. An empty `fraction` is an absent one. -/
structure Numeral where
  negative : Bool
  whole : Nat
  fraction : List Nat
  exponent : Option Int
deriving DecidableEq, Repr

/-- A number as it is understood. -/
inductive Number where
  | integer (n : Int)
  | real (x : Binary64)
deriving DecidableEq, Repr

namespace Number

/-- The binary number nearest to a number. -/
def toBinary64 : Number → Binary64
  | .integer n => ⟨n < 0, Binary64.ofNat n.natAbs⟩
  | .real x => x

end Number

namespace Numeral

/-- The plain numeral of an integer. -/
def ofInt (n : Int) : Numeral := ⟨n < 0, n.natAbs, [], none⟩

/-- The greatest number of 64 bits. -/
def greatestWord : Nat := Nat.pow 2 64 - 1

/-- The leading digits of a number that fit 64 bits, and how many digits follow them. -/
def leadingDigits (n : Nat) : Nat × Nat :=
  if n ≤ greatestWord then (n, 0)
  else
    let (m, k) := leadingDigits (n / 10)
    (m, k + 1)
termination_by n
decreasing_by
  simp only [greatestWord] at *
  omega

/-- Appends decimal digits as long as the result fits 64 bits, and says how many were taken. -/
def appendDigits (n : Nat) : List Nat → Nat × Nat
  | [] => (n, 0)
  | d :: ds =>
    if n * 10 + d ≤ greatestWord then
      let (m, k) := appendDigits (n * 10 + d) ds
      (m, k + 1)
    else (n, 0)

/-- The magnitude of a numeral as a binary number, or `none` if it is out of range. -/
def magnitude? (x : Numeral) : Option Nat :=
  let (lead, dropped) := leadingDigits x.whole
  let (significand, taken) := appendDigits lead x.fraction
  Binary64.scale (Binary64.ofNat significand) (dropped - taken + x.exponent.getD 0)

/-- The numeral has neither fraction nor exponent. -/
def isPlain (x : Numeral) : Bool := x.fraction.isEmpty && x.exponent.isNone

/-- The number that a numeral stands for. A plain numeral is an integer from `-2 ^ 63` to
`2 ^ 64 - 1`, but a negative zero is not. -/
def number? (x : Numeral) : Option Number :=
  if x.isPlain && !x.negative && x.whole ≤ greatestWord then some (.integer x.whole)
  else if x.isPlain && x.negative && 0 < x.whole && x.whole ≤ Nat.pow 2 63 then
    some (.integer (-x.whole))
  else x.magnitude?.map fun units => .real ⟨x.negative, units⟩

end Numeral

end ChapterLint
