import SchemaShaper.Decimal.Shortest
import SchemaShaper.Text.Split
import SchemaShaper.Value.Basic

/-!
# Numbers of JSON

A literal without fraction and exponent is a whole number as long as it stays inside the 64-bit
range and is no negative zero. Any other literal is a float with a significand of 64 bits: the
digits that fit are kept, further digits of the whole part count for the exponent, and further ones
of the fraction are dropped. The significand is rounded, and then multiplied or divided by a rounded
power of ten, so that long literals may miss the nearest float.
-/

namespace SchemaShaper.Json

open Decimal

/-- The largest significand, 2^64 - 1. -/
def maxSignificand : Nat := Nat.pow 2 64 - 1

/-- Take digits into a significand as long as they fit; the answer also holds the digits left
over. -/
def absorb (significand : Nat) : List Char → Nat × List Char
  | [] => (significand, [])
  | c :: cs =>
    let next := significand * 10 + digitValue c
    if next ≤ maxSignificand then absorb next cs else (significand, c :: cs)

/-- The largest exponent of a power of ten that is a finite float. -/
def maxPower : Nat := 308

/-- The float of a power of ten. -/
def power (e : Nat) : Binary64 := .ofQuotient false (Nat.pow 10 e) 1

/-- The size `x * 10 ^ e`; none when it is too large. At most `fuel` divisions by the largest power
come before the last one. -/
def scaled? (x : Binary64) (e : Int) (fuel : Nat) : Option Binary64 :=
  if x.isZero then some x
  else if 0 ≤ e then
    if e ≤ maxPower then
      let y := x.mulSize (power e.toNat)
      if y.isInfinite then none else some y
    else none
  else if -e ≤ maxPower then some (x.divSize (power (-e).toNat))
  else
    match fuel with
    | 0 => some (.withSign false 0)
    | fuel + 1 => scaled? (x.divSize (power maxPower)) (e + maxPower) fuel

/-- A number literal in its parts. -/
structure Literal where
  negative : Bool
  whole : List Char
  /-- The digits behind the point; none without a point. -/
  fraction : Option (List Char)
  /-- The exponent; none without its mark. -/
  exponent : Option Int

/-- The exponent behind its mark. -/
def exponentValue (cs : List Char) : Int := (ofSigned? cs).getD 0

/-- The parts of a literal. -/
def Literal.ofText (literal : String) : Literal :=
  let (negative, cs) := match literal.toList with
    | '-' :: cs => (true, cs)
    | cs => (false, cs)
  let (mantissa, exponent) := match Text.cutAt (fun c => c == 'e' || c == 'E') cs with
    | some (mantissa, exponent) => (mantissa, some (exponentValue exponent))
    | none => (cs, none)
  match Text.cutAt (· == '.') mantissa with
  | some (whole, fraction) => { negative, whole, fraction := some fraction, exponent }
  | none => { negative, whole := mantissa, fraction := none, exponent }

/-- The float of a literal; none when it is too large. -/
def Literal.float? (l : Literal) : Option Binary64 :=
  let (significand, extra) := absorb 0 l.whole
  let fraction := l.fraction.getD []
  let (significand, dropped) := absorb significand fraction
  let taken : Nat := fraction.length - dropped.length
  let e : Int := (l.exponent.getD 0) + extra.length - taken
  (scaled? (.ofQuotient false significand 1) e 3).map fun x =>
    .withSign l.negative x.bits.toNat

/-- The number of a literal; none when it is too large. -/
def Literal.number? (l : Literal) : Option Number :=
  let n := valueFrom 0 l.whole
  if l.fraction.isNone && l.exponent.isNone && !l.negative && n ≤ maxSignificand then
    some (.whole n)
  else if l.fraction.isNone && l.exponent.isNone && l.negative && 0 < n && n ≤ Nat.pow 2 63 then
    some (.whole (-n))
  else l.float?.map .float

/-- The layout of floats. -/
def floatLayout : FloatLayout := { exponentPlus := "+", greatestPlain := 15, leastPlain := -5 }

end SchemaShaper.Json
