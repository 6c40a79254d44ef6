/-!
# Binary floating point numbers of 64 bits

A number is kept as its bits: a sign, eleven exponent bits and 52 fraction bits. A finite one is
`mantissa * 2 ^ exponent` up to its sign, and `ofQuotient` is the number nearest to a quotient,
where a tie goes to the even mantissa. All of it is exact arithmetic on whole numbers.
-/

namespace SchemaShaper.Decimal

/-- A binary floating point number of 64 bits. -/
structure Binary64 where
  bits : UInt64
  deriving DecidableEq, Repr

namespace Binary64

/-- Is the sign bit set? -/
def isNegative (x : Binary64) : Bool := x.bits.toNat / Nat.pow 2 63 == 1

/-- The eleven exponent bits. -/
def exponentBits (x : Binary64) : Nat := x.bits.toNat / Nat.pow 2 52 % Nat.pow 2 11

/-- The 52 fraction bits. -/
def fractionBits (x : Binary64) : Nat := x.bits.toNat % Nat.pow 2 52

/-- Is it no number? -/
def isNaN (x : Binary64) : Bool := x.exponentBits == 2047 && x.fractionBits != 0

/-- Is it an infinity? -/
def isInfinite (x : Binary64) : Bool := x.exponentBits == 2047 && x.fractionBits == 0

/-- Is it a number and no infinity? -/
def isFinite (x : Binary64) : Bool := x.exponentBits != 2047

/-- The whole number that a finite number's size is a multiple of a power of two of. -/
def mantissa (x : Binary64) : Nat :=
  if x.exponentBits == 0 then x.fractionBits else x.fractionBits + Nat.pow 2 52

/-- The exponent of that power of two. -/
def exponent (x : Binary64) : Int :=
  if x.exponentBits == 0 then -1074 else (x.exponentBits : Int) - 1075

/-- Is it zero, of either sign? -/
def isZero (x : Binary64) : Bool := x.exponentBits == 0 && x.fractionBits == 0

/-- Put a sign in front of the lower 63 bits. -/
def withSign (negative : Bool) (size : Nat) : Binary64 :=
  ⟨UInt64.ofNat (size + if negative then Nat.pow 2 63 else 0)⟩

/-- The infinity of a sign. -/
def infinity (negative : Bool) : Binary64 := withSign negative (2047 * Nat.pow 2 52)

/-- The value that is no number. -/
def nan : Binary64 := withSign false (2047 * Nat.pow 2 52 + Nat.pow 2 51)

/-- Numeric equality: the two zeros are equal, and so are any two values that are no number. -/
def same (x y : Binary64) : Bool :=
  x.bits == y.bits || (x.isZero && y.isZero) || (x.isNaN && y.isNaN)

/-- The numerator and denominator of `num / den / 2 ^ e`. -/
def scale (num den : Nat) (e : Int) : Nat × Nat :=
  if 0 ≤ e then (num, den * Nat.pow 2 e.toNat) else (num * Nat.pow 2 (-e).toNat, den)

/-- The exponent at which the quotient of two positive numbers has a mantissa of 53 bits, or the
least exponent. -/
def exponentFor (num den : Nat) : Int :=
  let e : Int := (num.log2 : Int) - (den.log2 : Int) - 52
  let (n, d) := scale num den e
  max (if n < d * Nat.pow 2 52 then e - 1 else e) (-1074)

/-- A quotient of natural numbers rounded to a whole number, a tie to the even one. -/
def roundEven (num den : Nat) : Nat :=
  let q := num / den
  let r := 2 * (num % den)
  if den < r || (den == r && q % 2 == 1) then q + 1 else q

/-- The number nearest to `num / den`; too large a quotient is an infinity. -/
def ofQuotient (negative : Bool) (num den : Nat) : Binary64 :=
  if num == 0 then withSign negative 0
  else
    let e := exponentFor num den
    let (n, d) := scale num den e
    let m := roundEven n d
    if m < Nat.pow 2 52 then withSign negative m
    else
      let size := m + (e + 1074).toNat * Nat.pow 2 52
      if size < 2047 * Nat.pow 2 52 then withSign negative size else infinity negative

/-- The numerator and denominator of the size of a finite number. -/
def quotient (x : Binary64) : Nat × Nat :=
  if 0 ≤ x.exponent then (x.mantissa * Nat.pow 2 x.exponent.toNat, 1)
  else (x.mantissa, Nat.pow 2 (-x.exponent).toNat)

/-- The product of two finite numbers' sizes, rounded. -/
def mulSize (x y : Binary64) : Binary64 :=
  let (a, b) := x.quotient
  let (c, d) := y.quotient
  ofQuotient false (a * c) (b * d)

/-- The quotient of two finite numbers' sizes, rounded; the divisor is not zero. -/
def divSize (x y : Binary64) : Binary64 :=
  let (a, b) := x.quotient
  let (c, d) := y.quotient
  ofQuotient false (a * d) (b * c)

/-- The number nearest to `digits * 10 ^ e`. Exponents far outside the range are decided by the
size of the digits. -/
def ofDecimal (negative : Bool) (digits : Nat) (e : Int) : Binary64 :=
  if digits == 0 then withSign negative 0
  else if e > 400 then infinity negative
  else if e < -400 - (digits.log2 : Int) then withSign negative 0
  else if 0 ≤ e then ofQuotient negative (digits * Nat.pow 10 e.toNat) 1
  else ofQuotient negative digits (Nat.pow 10 (-e).toNat)

end Binary64

end SchemaShaper.Decimal
