import SchemaShaper.Index.Slice
import Mathlib.Algebra.Order.Ring.Int

/-!
# Slices in unbounded numbers

The walk of a slice adds its step within 64 bits, and so do the bounds that count from the end. In
unbounded numbers the positions are `start`, `start + step`, `start + 2 * step` and so on, as long
as they stand before the stop in the direction of the step (`Visits.getElem?_eq`), where each bound
is a place of the list (`Slice.place`).

The two agree because a sum that leaves the 64-bit range is past every stop, and so is the end of
the range that stands in for it (`Visits.unbounded`). `Slice.positions_unbounded` says so for
every slice with a step: the walk ends, its sums may be taken without a bound, no position leaves
the list, and the positions go one way.
-/

namespace SchemaShaper.Index

/-! ## Walks -/

/-- Does `i` stand before the stop, seen in the direction of the step? -/
def Precedes (step stop i : Int) : Prop := 0 < step ∧ i < stop ∨ step < 0 ∧ stop < i

instance (step stop i : Int) : Decidable (Precedes step stop i) :=
  inferInstanceAs (Decidable (_ ∨ _))

/-- A walk from `i` on, whose sums are those of `add`, visits these numbers and ends. -/
inductive Visits (add : Int → Int → Int) (step stop : Int) : Int → List Int → Prop
  | ended {i : Int} (h : ¬ Precedes step stop i) : Visits add step stop i []
  | visit {i : Int} {rest : List Int} (h : Precedes step stop i)
      (next : Visits add step stop (add i step) rest) : Visits add step stop i (i :: rest)

theorem addWithin_cases (a b : Int) :
    addWithin a b = a + b ∨ maxOffset < a + b ∧ addWithin a b = maxOffset ∨
      a + b < minOffset ∧ addWithin a b = minOffset := by
  unfold addWithin maxOffset minOffset
  omega

section Walks

variable {step stop i : Int} {is : List Int}

theorem addWithin_mem_range (a b : Int) :
    minOffset ≤ addWithin a b ∧ addWithin a b ≤ maxOffset := by
  unfold addWithin maxOffset minOffset
  omega

/-- A sum that is cut short stands past the stop, as the whole sum does. -/
theorem addWithin_eq_or_past (hlow : minOffset ≤ stop) (hhigh : stop ≤ maxOffset)
    (hi : minOffset ≤ i ∧ i ≤ maxOffset) :
    addWithin i step = i + step ∨
      ¬ Precedes step stop (addWithin i step) ∧ ¬ Precedes step stop (i + step) := by
  unfold Precedes
  rcases addWithin_cases i step with heq | ⟨hover, heq⟩ | ⟨hunder, heq⟩
  · exact Or.inl heq
  · have hup : 0 < step := by omega
    exact Or.inr (by omega)
  · have hdown : step < 0 := by omega
    exact Or.inr (by omega)

/-- **Sums within 64 bits.** A walk with such sums is one with sums without a bound. -/
theorem Visits.unbounded (hlow : minOffset ≤ stop) (hhigh : stop ≤ maxOffset)
    (h : Visits addWithin step stop i is) (hi : minOffset ≤ i ∧ i ≤ maxOffset) :
    Visits (· + ·) step stop i is := by
  induction h with
  | ended h => exact .ended h
  | @visit i rest h next ih =>
    refine .visit h ?_
    rcases addWithin_eq_or_past hlow hhigh hi with heq | ⟨hpast, hpast'⟩
    · have hnext := ih (addWithin_mem_range i step)
      rwa [heq] at hnext
    · -- The sums differ, but the walk ends at either of them.
      cases next with
      | ended => exact .ended hpast'
      | visit h => exact absurd h hpast

theorem not_precedes_add_mul (h : ¬ Precedes step stop i) (k : Nat) :
    ¬ Precedes step stop (i + k * step) := by
  unfold Precedes at *
  rintro (⟨hup, hlt⟩ | ⟨hdown, hlt⟩)
  · have hge : 0 ≤ (k : Int) * step := Int.mul_nonneg (by omega) (by omega)
    omega
  · have hle : (k : Int) * step ≤ 0 := Int.mul_nonpos_of_nonneg_of_nonpos (by omega) (by omega)
    omega

/-- A walk visits `i`, `i + step`, `i + 2 * step` and so on, as long as they precede the stop. -/
theorem Visits.getElem?_eq (h : Visits (· + ·) step stop i is) (k : Nat) :
    is[k]? = if Precedes step stop (i + k * step) then some (i + k * step) else none := by
  induction h generalizing k with
  | ended h => rw [if_neg (not_precedes_add_mul h k), List.getElem?_nil]
  | @visit i rest h _ ih =>
    cases k with
    | zero =>
      have hzero : i + ((0 : Nat) : Int) * step = i := by simp
      rw [hzero, if_pos h, List.getElem?_cons_zero]
    | succ k =>
      have hsucc : i + ((k + 1 : Nat) : Int) * step = i + step + k * step := by
        rw [Nat.cast_succ, Int.add_mul, Int.one_mul]
        omega
      rw [List.getElem?_cons_succ, ih k, hsucc]

/-- Whatever a walk visits precedes the stop and does not stand behind the beginning. -/
theorem Visits.of_mem (h : Visits (· + ·) step stop i is) :
    ∀ j ∈ is, Precedes step stop j ∧ ¬ Precedes step i j := by
  induction h with
  | ended => simp
  | @visit i rest h _ ih =>
    intro j hj
    rcases List.mem_cons.1 hj with rfl | hj
    · exact ⟨h, by unfold Precedes; omega⟩
    · obtain ⟨hstop, hbegin⟩ := ih j hj
      unfold Precedes at *
      exact ⟨hstop, by omega⟩

/-- A walk goes one way. -/
theorem Visits.pairwise (h : Visits (· + ·) step stop i is) :
    is.Pairwise fun a b => Precedes step b a := by
  induction h with
  | ended => exact .nil
  | @visit i rest h next ih =>
    refine .cons (fun j hj => ?_) ih
    have hbegin := (next.of_mem j hj).2
    unfold Precedes at *
    omega

end Walks

/-! ## The two directions -/

namespace Slice

theorem visits_walkUp {step stop i : Int} (hstep : 0 < step) (hstop : stop ≤ maxOffset)
    (hi : 0 ≤ i) : Visits addWithin step stop i ((walkUp step stop i).map (↑)) := by
  fun_induction walkUp step stop i with
  | case1 i h ih =>
    obtain ⟨-, hlt, hup⟩ := h
    rw [List.map_cons, Int.toNat_of_nonneg hi]
    exact .visit (Or.inl ⟨hstep, hlt⟩) (ih (by omega))
  | case2 i hnot h =>
    -- The sum goes up, as it is cut short above the stop only.
    have hcases := addWithin_cases i step
    omega
  | case3 i hnot h =>
    exact .ended (by unfold Precedes; omega)

theorem visits_walkDown {step stop i : Int} (hstep : step < 0) (hstop : -1 ≤ stop) :
    Visits addWithin step stop i ((walkDown step stop i).map (↑)) := by
  fun_induction walkDown step stop i with
  | case1 i h ih =>
    obtain ⟨-, hlt, hdown⟩ := h
    rw [List.map_cons, Int.toNat_of_nonneg (by omega)]
    exact .visit (Or.inr ⟨hstep, hlt⟩) ih
  | case2 i hnot h =>
    have hcases := addWithin_cases i step
    have hlow : minOffset < 0 := by decide
    omega
  | case3 i hnot h =>
    exact .ended (by unfold Precedes; omega)

/-! ## Bounds -/

/-- The place in a list of `len` elements that a bound means, in unbounded numbers: a negative one
is increased by the length, and each is clamped to where a walk with this step can begin or end. -/
def place (step len v : Int) : Int :=
  let i := if v < 0 then v + len else v
  if step < 0 then max (-1) (min i (len - 1)) else max 0 (min i len)

/-- The place that a bound of a slice means, where an absent one means `default`. -/
def placeOr (step len default : Int) : Option Offset → Int
  | some v => place step len v.toInt
  | none => default

/-- Where the walk begins in unbounded numbers; when the slice does not say, at the end of the list
that the step comes from. -/
def beginning (s : Slice) (len : Int) : Int :=
  placeOr s.stride len (if s.stride < 0 then len - 1 else 0) s.start

/-- Where the walk stops in unbounded numbers; when the slice does not say, past the end of the list
that the step goes to. -/
def ending (s : Slice) (len : Int) : Int :=
  placeOr s.stride len (if s.stride < 0 then -1 else len) s.stop

/-- A walk with this step can begin or end here. -/
def IsPlace (step len i : Int) : Prop :=
  (step < 0 → -1 ≤ i ∧ i ≤ len - 1) ∧ (0 < step → 0 ≤ i ∧ i ≤ len)

section Bounds

variable {len : Int}

/-- The sum of a bound within 64 bits does not leave the range, and each side is clamped where it
can leave the list. -/
theorem bound_eq_placeOr (s : Slice) (hlen : 0 ≤ len) (hmax : len ≤ maxOffset)
    (value : Option Offset) (default : Int) :
    s.bound len value default = placeOr s.stride len default value := by
  cases value with
  | none => rfl
  | some v =>
    have hlow : minOffset ≤ v.toInt := v.le_toInt
    have hhigh : v.toInt ≤ maxOffset := Int.le_of_lt_add_one v.toInt_lt
    have hsum := addWithin_cases v.toInt len
    unfold bound placeOr place limits
    by_cases hneg : v.toInt < 0
    · have heq : addWithin v.toInt len = v.toInt + len := by omega
      simp only [hneg, if_true, heq]
      split <;> omega
    · simp only [hneg, if_false]
      split <;> omega

theorem first_eq_beginning (s : Slice) (hlen : 0 ≤ len) (hmax : len ≤ maxOffset) :
    s.first len = s.beginning len := by
  unfold first beginning
  rw [s.bound_eq_placeOr hlen hmax]
  unfold limits
  split <;> rfl

theorem finish_eq_ending (s : Slice) (hlen : 0 ≤ len) (hmax : len ≤ maxOffset) :
    s.finish len = s.ending len := by
  unfold finish ending
  rw [s.bound_eq_placeOr hlen hmax]
  unfold limits
  split <;> rfl

theorem isPlace_place (hlen : 0 ≤ len) (step v : Int) : IsPlace step len (place step len v) := by
  unfold IsPlace place
  dsimp only
  constructor
  · intro hneg
    rw [if_pos hneg]
    omega
  · intro hpos
    rw [if_neg (by omega)]
    omega

theorem isPlace_placeOr (hlen : 0 ≤ len) {step default : Int} (h : IsPlace step len default)
    (value : Option Offset) : IsPlace step len (placeOr step len default value) := by
  cases value with
  | none => exact h
  | some v => exact isPlace_place hlen step v.toInt

theorem isPlace_beginning (s : Slice) (hlen : 0 ≤ len) :
    IsPlace s.stride len (s.beginning len) := by
  refine isPlace_placeOr hlen ?_ s.start
  unfold IsPlace
  split <;> omega

theorem isPlace_ending (s : Slice) (hlen : 0 ≤ len) : IsPlace s.stride len (s.ending len) := by
  refine isPlace_placeOr hlen ?_ s.stop
  unfold IsPlace
  split <;> omega

end Bounds

/-! ## Positions -/

theorem stride_ne_zero {s : Slice} (h : s.step ≠ some 0) : s.stride ≠ 0 := by
  unfold stride
  cases hstep : s.step with
  | none => decide
  | some v =>
    intro hzero
    have hv : v = 0 := by
      rw [← v.ofInt_toInt]
      exact congrArg Int64.ofInt hzero
    exact h (hstep.trans (congrArg some hv))

/-- The walk within 64 bits ends, and visits the positions. -/
theorem visits_positions {s : Slice} (h : s.step ≠ some 0) {len : Nat} (hlen : len ≤ maxOffset) :
    Visits addWithin s.stride (s.finish len) (s.first len) ((s.positions len).map (↑)) := by
  have hnonneg : (0 : Int) ≤ len := Int.natCast_nonneg len
  have hfirst := s.isPlace_beginning hnonneg
  have hfinish := s.isPlace_ending hnonneg
  rw [← s.first_eq_beginning hnonneg hlen] at hfirst
  rw [← s.finish_eq_ending hnonneg hlen] at hfinish
  unfold positions
  dsimp only
  rw [Int.min_eq_left hlen]
  split
  · next hneg => exact visits_walkDown hneg (hfinish.1 hneg).1
  · next hneg =>
    have hne := stride_ne_zero h
    have hpos : 0 < s.stride := by omega
    have hstop : s.finish len ≤ maxOffset := Int.le_trans (hfinish.2 hpos).2 hlen
    exact visits_walkUp hpos hstop (hfirst.2 hpos).1

/-- The positions are what the slice visits in a list of `len` elements, in unbounded numbers. -/
structure IsUnbounded (s : Slice) (len : Nat) (positions : List Nat) : Prop where
  /-- The walk within 64 bits visits them and ends. -/
  walk : Visits addWithin s.stride (s.finish len) (s.first len) (positions.map (↑))
  /-- So does the walk whose bounds and sums have no limit. -/
  unbounded : Visits (· + ·) s.stride (s.ending len) (s.beginning len) (positions.map (↑))
  getElem?_eq : ∀ k : Nat, positions[k]?.map Int.ofNat =
    if Precedes s.stride (s.ending len) (s.beginning len + k * s.stride) then
      some (s.beginning len + k * s.stride) else none
  lt_len : ∀ p ∈ positions, p < len
  ascending : 0 < s.stride → positions.Pairwise (· < ·)
  descending : s.stride < 0 → positions.Pairwise (· > ·)

/-- **Slices in unbounded numbers.** In a list of up to 2^63 - 1 elements, a slice whose step is not
zero visits what it visits when bounds and sums have no limit. -/
theorem positions_unbounded {s : Slice} (h : s.step ≠ some 0) {len : Nat} (hlen : len ≤ maxOffset) :
    s.IsUnbounded len (s.positions len) := by
  have hnonneg : (0 : Int) ≤ len := Int.natCast_nonneg len
  have hne := stride_ne_zero h
  have hbeginning := s.isPlace_beginning hnonneg
  have hending := s.isPlace_ending hnonneg
  have hwalk := visits_positions h hlen
  have hfirst := s.first_eq_beginning hnonneg hlen
  have hfinish := s.finish_eq_ending hnonneg hlen
  have hexact : Visits (· + ·) s.stride (s.ending len) (s.beginning len)
      ((s.positions len).map (↑)) := by
    have hlow : minOffset < -1 := by decide
    unfold IsPlace at hbeginning hending
    rw [hfirst, hfinish] at hwalk
    exact hwalk.unbounded (by omega) (by omega) (by omega)
  refine ⟨hwalk, hexact, fun k => ?_, fun p hp => ?_, fun hpos => ?_, fun hneg => ?_⟩
  · rw [← hexact.getElem?_eq, List.getElem?_map]
    rfl
  · have hvisited := hexact.of_mem p (List.mem_map_of_mem hp)
    unfold Precedes IsPlace at *
    omega
  · refine (List.pairwise_map.1 hexact.pairwise).imp fun {a b} hab => ?_
    unfold Precedes at hab
    omega
  · refine (List.pairwise_map.1 hexact.pairwise).imp fun {a b} hab => ?_
    unfold Precedes at hab
    omega

/-- A step up from the fourth element from the end; its sum is cut short. -/
def longStep : Slice := ⟨some (-4), none, some Int64.maxValue⟩

/-- A step down from as far as a slice can say. -/
def farStart : Slice := ⟨some Int64.maxValue, some Int64.minValue, some Int64.minValue⟩

theorem extreme_steps_unbounded :
    (longStep.step ≠ some 0 ∧ ((7 : Nat) : Int) ≤ maxOffset ∧
      addWithin 3 longStep.stride ≠ 3 + longStep.stride ∧
      longStep.positions 7 = [3] ∧ longStep.IsUnbounded 7 (longStep.positions 7)) ∧
    farStart.step ≠ some 0 ∧ ((9223372036854775807 : Nat) : Int) ≤ maxOffset ∧
      farStart.positions 9223372036854775807 = [9223372036854775806] ∧
      farStart.IsUnbounded 9223372036854775807 (farStart.positions 9223372036854775807) := by
  have hup : longStep.step ≠ some 0 := by decide
  have hseven : ((7 : Nat) : Int) ≤ maxOffset := by decide
  have hdown : farStart.step ≠ some 0 := by decide
  have hlargest : ((9223372036854775807 : Nat) : Int) ≤ maxOffset := by decide
  exact ⟨⟨hup, hseven, by decide, by decide +kernel, positions_unbounded hup hseven⟩,
    hdown, hlargest, by decide +kernel, positions_unbounded hdown hlargest⟩

end Slice

end SchemaShaper.Index
