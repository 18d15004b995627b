/-!
# Binary floating point, exactly

Every finite binary64 number is a whole number of the least positive one, `2 ^ (-1074)`. A
magnitude is kept as that count, so rounding is one division of natural numbers and no
operation leaves exact arithmetic.
-/

namespace ChapterLint

/-- A finite binary64 number: its sign and its magnitude in units of `2 ^ (-1074)`. -/
structure Binary64 where
  negative : Bool
  units : Nat
deriving DecidableEq, Repr

namespace Binary64

/-- The count of units in the number one. -/
def one : Nat := Nat.pow 2 1074

/-- The first count of units that is out of range, `2 ^ 1024`. -/
def limit : Nat := Nat.pow 2 2098

/-- The whole number nearest to `num / den`, the even one of two. -/
def nearest (num den : Nat) : Nat :=
  let q := num / den
  let r := num % den
  if 2 * r < den then q else if den < 2 * r then q + 1 else q + q % 2

/-- The binary place of the last of the 53 leading digits of a count of units. -/
def place (units : Nat) : Nat := units.log2 - 52

/-- The count of units nearest to `num / den` among those with at most 53 binary digits before
the trailing zeros. It may reach `limit`. -/
def round (num den : Nat) : Nat :=
  let step := Nat.pow 2 (place (num / den))
  nearest num (den * step) * step

/-- The magnitude nearest to a natural number. -/
def ofNat (n : Nat) : Nat := round (n * one) 1

/-- The magnitude nearest to `10 ^ k`. -/
def powerOfTen (k : Nat) : Nat := ofNat (Nat.pow 10 k)

/-- The rounded product of two magnitudes. -/
def product (a b : Nat) : Nat := round (a * b) one

/-- The rounded quotient of two magnitudes. -/
def quotient (a b : Nat) : Nat := round (a * one) b

/-- The greatest power of ten in range. -/
def greatestPower : Nat := 308

/-- The magnitude `f * 10 ^ e`, by one rounded product or by at most two rounded quotients;
`none` out of range. Quotients below the least magnitude are zero. -/
def scale (f : Nat) : Int → Option Nat
  | .ofNat e =>
    if f = 0 then some 0
    else if greatestPower < e then none
    else
      let x := product f (powerOfTen e)
      if x < limit then some x else none
  | .negSucc e =>
    let e := e + 1
    if e ≤ greatestPower then some (quotient f (powerOfTen e))
    else
      let g := quotient f (powerOfTen greatestPower)
      let e := e - greatestPower
      if e ≤ greatestPower then some (quotient g (powerOfTen e)) else some 0

/-- The number is whole. -/
def isInteger (x : Binary64) : Bool := x.units % one = 0

/-- The greatest whole number below which whole numbers and magnitudes agree, `2 ^ 53 - 1`. -/
def greatestSafe : Nat := Nat.pow 2 53 - 1

/-- The number is whole and at most `2 ^ 53 - 1` in magnitude. -/
def isSafeInteger (x : Binary64) : Bool := x.isInteger && x.units ≤ greatestSafe * one

/-- The 64 bits of the interchange format. -/
def bits (x : Binary64) : Nat :=
  let p := place x.units
  (if x.negative then Nat.pow 2 63 else 0) + p * Nat.pow 2 52 + x.units / Nat.pow 2 p

theorem nearest_mul_self {d : Nat} (hd : 0 < d) (n : Nat) : nearest (n * d) d = n := by
  simp [nearest, Nat.mul_div_cancel _ hd, hd]

end Binary64

end ChapterLint
