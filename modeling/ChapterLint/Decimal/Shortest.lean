import ChapterLint.Decimal.Binary64

/-!
# The shortest decimal of a binary number

The decimals that read back as a magnitude fill an interval around it. Among them the one with
the fewest digits is chosen, and of several such the nearest, the even one of two equally near.
-/

namespace ChapterLint

/-- A positive decimal `digits * 10 ^ exponent`. -/
structure Decimal where
  digits : Nat
  exponent : Int
deriving DecidableEq, Repr

namespace Decimal

/-- The same number without trailing zeros, given enough fuel to drop them. -/
def trim : Nat → Decimal → Decimal
  | 0, d => d
  | fuel + 1, d => if d.digits % 10 = 0 then trim fuel ⟨d.digits / 10, d.exponent + 1⟩ else d

/-- How many decimal digits a natural number has. -/
def length (n : Nat) : Nat := (Nat.toDigits 10 n).length

/-- The reals that round to one magnitude, as fractions over a common denominator. -/
structure Interval where
  low : Nat
  middle : Nat
  high : Nat
  denominator : Nat
  closed : Bool

/-- The reals that round to a magnitude. Below a power of two the neighbour is twice as near. -/
def Interval.around (units : Nat) : Interval :=
  let step := Nat.pow 2 (Binary64.place units)
  let isPower := units = Nat.pow 2 52 * step && 1 < step
  { low := 4 * units - (if isPower then step else 2 * step)
    middle := 4 * units
    high := 4 * units + 2 * step
    denominator := 4 * Binary64.one
    closed := units / step % 2 = 0 }

/-- The fraction `num / den` rounds to the magnitude. -/
def Interval.contains (i : Interval) (num den : Nat) : Bool :=
  if i.closed then i.low * den ≤ num * i.denominator && num * i.denominator ≤ i.high * den
  else i.low * den < num * i.denominator && num * i.denominator < i.high * den

/-- The power of ten `10 ^ e` as a fraction. -/
def power : Int → Nat × Nat
  | .ofNat e => (Nat.pow 10 e, 1)
  | .negSucc e => (1, Nat.pow 10 (e + 1))

/-- The multiple of `10 ^ e` in the interval that is nearest to its middle. -/
def onGrid (i : Interval) (e : Int) : Option Nat :=
  let (num, den) := power e
  let below := i.middle * den / (num * i.denominator)
  let rest := i.middle * den % (num * i.denominator)
  let fits (n : Nat) := i.contains (n * num) den
  let nearer :=
    if 2 * rest < num * i.denominator then below
    else if num * i.denominator < 2 * rest then below + 1
    else below + below % 2
  let other := if nearer = below then below + 1 else below
  if fits nearer then some nearer else if fits other then some other else none

/-- The power of ten of the first digit of a magnitude. -/
def leadingPower (units : Nat) : Int :=
  (length (units * Nat.pow 10 342 / Binary64.one) : Int) - 343

/-- The first grid, from coarse to fine, that meets the interval. -/
def search (i : Interval) (leading : Int) : Nat → Nat → Decimal
  | 0, count => ⟨(onGrid i (leading - count)).getD 0, leading - count⟩
  | fuel + 1, count =>
    match onGrid i (leading - count) with
    | some n => ⟨n, leading - count⟩
    | none => search i leading fuel (count + 1)

/-- The shortest decimal that reads back as a positive magnitude: seventeen digits suffice. -/
def shortest (units : Nat) : Decimal :=
  trim 17 (search (.around units) (leadingPower units) 17 0)

/-! ## Layout -/

/-- How decimals are laid out: the powers of ten of the first digit that are written
positionally, and what stands before an exponent that is not negative. -/
structure Layout where
  least : Int
  greatest : Int
  plus : String

/-- The text of a positive decimal with a fraction, or with an exponent where the layout asks. -/
def text (l : Layout) (d : Decimal) : String :=
  let ds := Nat.toDigits 10 d.digits
  let point : Int := ds.length + d.exponent
  let zeros (n : Int) := List.replicate n.toNat '0'
  if point - 1 < l.least ∨ l.greatest < point - 1 then
    let tail := if ds.length = 1 then [] else '.' :: ds.drop 1
    let sign := if 0 ≤ point - 1 then l.plus else ""
    String.ofList (ds.take 1 ++ tail) ++ "e" ++ sign ++ toString (point - 1)
  else if 0 ≤ d.exponent then String.ofList (ds ++ zeros d.exponent) ++ ".0"
  else if 0 < point then
    String.ofList (ds.take point.toNat ++ '.' :: ds.drop point.toNat)
  else String.ofList ('0' :: '.' :: zeros (-point) ++ ds)

end Decimal

end ChapterLint
