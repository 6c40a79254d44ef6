import SchemaShaper.Decimal.Binary64
import SchemaShaper.Decimal.Whole

/-!
# The shortest decimal of a binary number

`shortest` finds the fewest digits whose decimal is read back as the given number. For 1, 2, … 17
digits it looks at the two neighbours of the number on the grid of that many digits; the first grid
with a neighbour inside the interval of reals that round to the number wins, and of two such
neighbours the nearer one. How digits are laid out is decided by a `FloatLayout`.
-/

namespace SchemaShaper.Decimal

/-- Twice the numerators, over a common denominator, of the ends of the interval of reals that round
to a number, with the number itself between them. -/
structure Interval where
  low : Nat
  value : Nat
  high : Nat
  denominator : Nat
  closed : Bool

/-- The interval of a finite number that is not zero. Its ends belong to it when the mantissa is
even; below a power of two the gap is half as wide. -/
def Binary64.interval (x : Binary64) : Interval :=
  let m := x.mantissa
  let narrow := x.fractionBits == 0 && x.exponentBits > 1
  let (low, value, high) := (4 * m - (if narrow then 1 else 2), 4 * m, 4 * m + 2)
  let e := x.exponent - 2
  let closed := m % 2 == 0
  if 0 ≤ e then
    let p := Nat.pow 2 e.toNat
    ⟨low * p, value * p, high * p, 1, closed⟩
  else ⟨low, value, high, Nat.pow 2 (-e).toNat, closed⟩

/-- Does the interval hold `digits * 10 ^ e`? -/
def Interval.holds (i : Interval) (digits : Nat) (e : Int) : Bool :=
  let (n, d) := if 0 ≤ e then (digits * Nat.pow 10 e.toNat, 1) else (digits, Nat.pow 10 (-e).toNat)
  let (n, low, high) := (n * i.denominator, i.low * d, i.high * d)
  if i.closed then low ≤ n && n ≤ high else low < n && n < high

/-- The number of decimal digits of a natural number. -/
def width (n : Nat) : Nat := (digits n).length

/-- The greatest exponent `e` with `10 ^ e` not above the interval's value. -/
def Interval.magnitude (i : Interval) : Int :=
  let guess : Int := (width i.value : Int) - (width i.denominator : Int)
  let fits := if 0 ≤ guess then i.denominator * Nat.pow 10 guess.toNat ≤ i.value
    else i.denominator ≤ i.value * Nat.pow 10 (-guess).toNat
  if fits then guess else guess - 1

/-- The digits and exponent of the grid point with `count` digits that the interval holds and that
is nearest to its value. -/
def Interval.onGrid? (i : Interval) (count : Nat) : Option (Nat × Int) :=
  let e := i.magnitude - (count - 1 : Nat)
  let (n, d) := if 0 ≤ e then (i.value, i.denominator * Nat.pow 10 e.toNat)
    else (i.value * Nat.pow 10 (-e).toNat, i.denominator)
  let below := n / d
  let r := n % d
  let upper := 2 * r > d || (2 * r == d && below % 2 == 1)
  let (near, far) := if upper then (below + 1, below) else (below, below + 1)
  if i.holds near e then some (near, e) else if i.holds far e then some (far, e) else none

/-- The first grid of at least `count` digits with a point in the interval. -/
def Interval.search (i : Interval) : Nat → Nat → Nat × Int
  | 0, count => (i.onGrid? count).getD (0, 0)
  | fuel + 1, count => (i.onGrid? count).getD (i.search fuel (count + 1))

/-- The shortest digits and their exponent for a finite number that is not zero. -/
def shortest (x : Binary64) : Nat × Int :=
  let (n, e) := x.interval.search 16 1
  if n % 10 == 0 then (n / 10, e + 1) else (n, e)

/-- How the digits of a float are laid out. -/
structure FloatLayout where
  /-- The sign of an exponent that is not negative. -/
  exponentPlus : String
  /-- The greatest exponent of ten written without an exponent part. -/
  greatestPlain : Int
  /-- The least exponent of ten written without an exponent part. -/
  leastPlain : Int

/-- The text of a finite number: its shortest digits, positional with at least one digit on each
side of the point inside the plain range, else as a number from 1 to 10 with an exponent part. -/
def FloatLayout.text (layout : FloatLayout) (x : Binary64) : String :=
  let sign := if x.isNegative then "-" else ""
  if x.isZero then sign ++ "0.0"
  else
    let (n, e) := shortest x
    let ds := digits n
    let top : Int := e + ds.length - 1
    let body :=
      if layout.leastPlain ≤ top && top ≤ layout.greatestPlain then
        if 0 ≤ e then ds ++ List.replicate e.toNat '0' ++ ['.', '0']
        else if 0 ≤ top then ds.take (top.toNat + 1) ++ '.' :: ds.drop (top.toNat + 1)
        else '0' :: '.' :: List.replicate (-top - 1).toNat '0' ++ ds
      else
        let lead := match ds with
          | [] => []
          | [d] => [d]
          | d :: rest => d :: '.' :: rest
        lead ++ 'e' :: (if top < 0 then [] else layout.exponentPlus.toList) ++ signed top
    sign ++ String.ofList body

end SchemaShaper.Decimal
