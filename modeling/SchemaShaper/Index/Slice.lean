/-!
# Slices

A slice `start:stop:step` designates positions of a list of known length. Its bounds are 64-bit
whole numbers; each may be absent, which means the end of the list that the step comes from or goes
to. A negative bound counts from the end, bounds outside the list are clamped to it, and a negative
step walks backwards. Sums stay within the 64-bit range by stopping at its ends.
-/

namespace SchemaShaper.Index

/-- A position or a step as a spec writes it. -/
abbrev Offset := Int64

/-- The largest offset, 2^63 - 1. -/
def maxOffset : Int := 9223372036854775807

/-- The smallest offset, -2^63. -/
def minOffset : Int := -9223372036854775808

/-- Addition that stops at the ends of the 64-bit range. -/
def addWithin (a b : Int) : Int := max minOffset (min maxOffset (a + b))

/-- A slice `start:stop:step`; an absent part takes its default. -/
structure Slice where
  start : Option Offset
  stop : Option Offset
  step : Option Offset
  deriving DecidableEq, Repr

namespace Slice

/-- The step of the walk, 1 unless the slice gives one. -/
def stride (s : Slice) : Int := (s.step.map Int64.toInt).getD 1

/-- The least and the greatest value of a bound in a list of `len` elements: a forward walk moves
between 0 and `len`, a backward walk between -1 and `len - 1`. -/
def limits (s : Slice) (len : Int) : Int × Int :=
  if s.stride < 0 then (-1, len - 1) else (0, len)

/-- A bound in a list of `len` elements: absent means `default`, a negative one counts from the
end, and each is clamped on the side where it can leave the list. -/
def bound (s : Slice) (len : Int) (value : Option Offset) (default : Int) : Int :=
  match value with
  | none => default
  | some v =>
    if v.toInt < 0 then max (addWithin v.toInt len) (s.limits len).1
    else min v.toInt (s.limits len).2

/-- The position where the walk begins. -/
def first (s : Slice) (len : Int) : Int :=
  s.bound len s.start (if s.stride < 0 then (s.limits len).2 else (s.limits len).1)

/-- The position before which the walk ends. -/
def finish (s : Slice) (len : Int) : Int :=
  s.bound len s.stop (if s.stride < 0 then (s.limits len).1 else (s.limits len).2)

/-- The positions from `i` on, `step` apart, as long as they stand before `stop`. -/
def walkUp (step stop i : Int) : List Nat :=
  if 0 < step ∧ i < stop ∧ i < addWithin i step then
    i.toNat :: walkUp step stop (addWithin i step)
  else if 0 < step ∧ i < stop then [i.toNat]
  else []
termination_by (stop - i).toNat
decreasing_by omega

/-- The positions from `i` down, `-step` apart, as long as they stand behind `stop`. -/
def walkDown (step stop i : Int) : List Nat :=
  if step < 0 ∧ stop < i ∧ addWithin i step < i then
    i.toNat :: walkDown step stop (addWithin i step)
  else if step < 0 ∧ stop < i then [i.toNat]
  else []
termination_by (i - stop).toNat
decreasing_by omega

/-- The positions that the slice visits in a list of `len` elements, in step order. A slice whose
step is zero visits none. -/
def positions (s : Slice) (len : Nat) : List Nat :=
  let len := min (len : Int) maxOffset
  if s.stride < 0 then walkDown s.stride (s.finish len) (s.first len)
  else walkUp s.stride (s.finish len) (s.first len)

end Slice

end SchemaShaper.Index
