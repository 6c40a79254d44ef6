import SchemaShaper.Index.Spec
import SchemaShaper.Proofs.Index.Walks
import Mathlib.Data.List.FinRange

/-!
# Positions that a spec designates

Every position that a spec designates in a list is a position of the list, whatever whole numbers
the spec contains and however long the list is (`Spec.lt_of_mem_positions`). So selecting looks up
every designated position (`Spec.exists_select_eq`), and resolving a spec keeps each of its
positions (`Spec.mem_resolve_iff`).

A single index is looked up in one step, a slice is walked. Where the slice `i:i+1` can be written
the two agree (`Term.single_agrees_with_slice`): its bounds are clamped to the place of the element
and to the one behind it, or both to the same end of the list.
-/

namespace SchemaShaper.Index

namespace Slice

theorem of_mem_walkUp {step stop i : Int} {p : Nat} (h : p ∈ walkUp step stop i) :
    0 < step ∧ (0 ≤ i → (p : Int) < stop) := by
  fun_induction walkUp step stop i with
  | case1 i hgo ih =>
    obtain ⟨hstep, hlt, hup⟩ := hgo
    rcases List.mem_cons.1 h with rfl | h
    · exact ⟨hstep, by omega⟩
    · exact ⟨hstep, fun hi => (ih h).2 (by omega)⟩
  | case2 i _ hgo =>
    rw [List.mem_singleton] at h
    exact ⟨hgo.1, by omega⟩
  | case3 => simp at h

theorem of_mem_walkDown {step stop i : Int} {p : Nat} (h : p ∈ walkDown step stop i) :
    step < 0 ∧ (-1 ≤ stop → (p : Int) ≤ i) := by
  fun_induction walkDown step stop i with
  | case1 i hgo ih =>
    obtain ⟨hstep, hlt, hdown⟩ := hgo
    rcases List.mem_cons.1 h with rfl | h
    · exact ⟨hstep, by omega⟩
    · exact ⟨hstep, fun hstop => Int.le_trans ((ih h).2 hstop) (Int.le_of_lt hdown)⟩
  | case2 i _ hgo =>
    rw [List.mem_singleton] at h
    exact ⟨hgo.1, by omega⟩
  | case3 => simp at h

theorem lt_of_mem_positions {s : Slice} {len p : Nat} (h : p ∈ s.positions len) : p < len := by
  unfold positions at h
  dsimp only at h
  have hnonneg : 0 ≤ min (len : Int) maxOffset := by unfold maxOffset; omega
  have hmax : min (len : Int) maxOffset ≤ maxOffset := Int.min_le_right _ _
  have hle : min (len : Int) maxOffset ≤ len := Int.min_le_left _ _
  generalize min (len : Int) maxOffset = bounded at h hnonneg hmax hle
  have hfirst := s.isPlace_beginning hnonneg
  have hfinish := s.isPlace_ending hnonneg
  rw [s.first_eq_beginning hnonneg hmax, s.finish_eq_ending hnonneg hmax] at h
  split at h
  · next hneg =>
    have hbelow := (of_mem_walkDown h).2 (hfinish.1 hneg).1
    have hlast := (hfirst.1 hneg).2
    omega
  · obtain ⟨hpos, hbelow⟩ := of_mem_walkUp h
    have hstop := (hfinish.2 hpos).2
    have hbefore := hbelow (hfirst.2 hpos).1
    omega

end Slice

theorem Term.lt_of_mem_positions {t : Term} {len p : Nat} (h : p ∈ t.positions len) : p < len := by
  cases t with
  | single i =>
    have hsome : normalize i len = some p := Option.mem_toList.1 h
    unfold normalize at hsome
    dsimp only at hsome
    generalize (if i.toInt < 0 then i.toInt + len else i.toInt) = place at hsome
    split at hsome
    · next hin =>
      have hp := Option.some.inj hsome
      omega
    · cases hsome
  | range s => exact Slice.lt_of_mem_positions h

theorem mem_dropRepeats {xs : List Nat} {a : Nat} : a ∈ dropRepeats xs ↔ a ∈ xs := by
  fun_induction dropRepeats xs with
  | case1 b rest ih => simp [ih]
  | case2 b c rest hne ih => simp [ih]
  | case3 => rfl

/-- Looking up positions of a list finds an element at each of them. -/
theorem exists_places {α β : Type} (items : List α) (f : Nat → α → β) {ps : List Nat}
    (h : ∀ p ∈ ps, p < items.length) :
    ∃ places : List (Fin items.length), places.map Fin.val = ps ∧
      (ps.filterMap fun p => items[p]?.map (f p)) =
        places.map fun i : Fin items.length => f i (items.get i) := by
  induction ps with
  | nil => exact ⟨[], rfl, rfl⟩
  | cons p ps ih =>
    obtain ⟨hp, hps⟩ := List.forall_mem_cons.1 h
    obtain ⟨places, hvals, hfound⟩ := ih hps
    refine ⟨⟨p, hp⟩ :: places, by rw [List.map_cons, hvals], ?_⟩
    rw [List.filterMap_cons, List.getElem?_eq_getElem hp, hfound]
    rfl

namespace Spec

variable {s : Spec} {len p : Nat}

theorem lt_of_mem_positions (h : p ∈ s.positions len) : p < len := by
  obtain ⟨t, -, hp⟩ := List.mem_flatMap.1 h
  exact t.lt_of_mem_positions hp

theorem mem_resolve_iff : p ∈ s.resolve len ↔ p ∈ s.positions len := by
  unfold resolve
  rw [mem_dropRepeats, List.mem_mergeSort]

/-- Selecting looks up the designated positions, in term order. -/
theorem exists_select_eq {α : Type} (s : Spec) (items : List α) :
    ∃ selected : List (Fin items.length), s.select items = selected.map items.get ∧
      selected.map Fin.val = s.positions items.length := by
  obtain ⟨selected, hvals, hselected⟩ :=
    exists_places items (fun _ item => item) fun _ hp => s.lt_of_mem_positions hp
  simp only [Option.map_id'] at hselected
  exact ⟨selected, hselected, hvals⟩

end Spec

/-! ## Single indices -/

/-- The place that an index means in a list of `len` elements: a negative one counts from the
end. -/
def counted (len v : Int) : Int := if v < 0 then v + len else v

/-- The index designates the position in a list of `len` elements, counted from the front or from
the end. -/
def Designates (i : Offset) (len p : Nat) : Prop := p < len ∧ (i.toInt = p ∨ i.toInt = p - len)

/-- The slice of a single index: `i:i+1`, or `-1:` for the last element, since no offset means the
place behind it when it counts from the end. -/
def Slice.ofIndex (i : Offset) : Slice where
  start := some i
  stop := if i = -1 then none else some (i + 1)
  step := none

section Single

variable {i : Offset} {len : Nat}

theorem normalize_eq (hlen : len ≤ maxOffset) :
    normalize i len =
      if 0 ≤ counted len i.toInt ∧ counted len i.toInt < len then
        some (counted len i.toInt).toNat else none := by
  unfold normalize counted
  simp only [hlen, true_and]

theorem normalize_eq_some_iff (hlen : len ≤ maxOffset) {p : Nat} :
    normalize i len = some p ↔ Designates i len p := by
  rw [normalize_eq hlen, Option.ite_none_right_eq_some, Option.some_inj]
  unfold counted Designates
  split <;> omega

theorem normalize_eq_none_iff (hlen : len ≤ maxOffset) :
    normalize i len = none ↔ i.toInt < -len ∨ len ≤ i.toInt := by
  rw [normalize_eq hlen, ite_eq_right_iff]
  unfold counted
  simp only [reduceCtorEq, imp_false]
  split <;> omega

theorem toInt_add_one (h : i < Int64.maxValue) : (i + 1).toInt = i.toInt + 1 := by
  have hlow : -2 ^ 63 ≤ i.toInt := i.le_toInt
  have hhigh : i.toInt < Int64.maxValue.toInt := Int64.lt_iff_toInt_lt.1 h
  have hone : (1 : Int64).toInt = 1 := rfl
  rw [Int64.toInt_maxValue] at hhigh
  rw [Int64.toInt_add, hone]
  exact Int.bmod_eq_of_le (by omega) (by omega)

namespace Slice

theorem display_ofIndex (h : i < Int64.maxValue) :
    (ofIndex i).display = Decimal.text i.toInt ++ ":" ++
      if i = -1 then "" else Decimal.text (i.toInt + 1) := by
  unfold display ofIndex optionalText
  rw [String.append_empty]
  by_cases hlast : i = -1
  · rw [if_pos hlast, if_pos hlast]
  · rw [if_neg hlast, if_neg hlast]
    dsimp only
    rw [toInt_add_one h]

/-- A walk by one whose stop is at most one above takes at most one step. -/
theorem walkUp_one {stop i : Int} (hnext : stop ≤ i + 1) (hmax : stop ≤ maxOffset) :
    walkUp 1 stop i = if i < stop then [i.toNat] else [] := by
  by_cases hlt : i < stop
  · have hsum : stop ≤ addWithin i 1 := by
      have hcases := addWithin_cases i 1
      omega
    have hend : walkUp 1 stop (addWithin i 1) = [] := by
      rw [walkUp, if_neg (by omega), if_neg (by omega)]
    rw [walkUp, hend, if_pos hlt]
    by_cases hup : i < addWithin i 1
    · rw [if_pos ⟨by decide, hlt, hup⟩]
    · rw [if_neg (by omega), if_pos ⟨by decide, hlt⟩]
  · rw [walkUp, if_neg (by omega), if_neg (by omega), if_neg hlt]

theorem beginning_ofIndex (i : Offset) (len : Int) :
    (ofIndex i).beginning len = max 0 (min (counted len i.toInt) len) := rfl

theorem ending_ofIndex (h : i < Int64.maxValue) {len : Int} (hlen : 0 ≤ len) :
    (ofIndex i).ending len = max 0 (min (counted len i.toInt + 1) len) := by
  by_cases hlast : i = -1
  · subst hlast
    have hone : (-1 : Int64).toInt = -1 := rfl
    have hending : (ofIndex (-1)).ending len = len := rfl
    rw [hending, hone]
    unfold counted
    omega
  · have hne : i.toInt ≠ -1 := fun heq => hlast (Int64.toInt_inj.1 heq)
    have hending : (ofIndex i).ending len = max 0 (min (counted len (i + 1).toInt) len) := by
      unfold ending ofIndex
      rw [if_neg hlast]
      rfl
    rw [hending, toInt_add_one h]
    unfold counted
    split <;> split <;> omega

theorem positions_ofIndex (h : i < Int64.maxValue) (hlen : len ≤ maxOffset) :
    (ofIndex i).positions len = (normalize i len).toList := by
  have hnonneg : (0 : Int) ≤ len := Int.natCast_nonneg len
  have hwalk : (ofIndex i).positions len =
      walkUp 1 ((ofIndex i).finish len) ((ofIndex i).first len) := by
    unfold positions
    dsimp only
    rw [Int.min_eq_left hlen]
    rfl
  rw [hwalk, first_eq_beginning _ hnonneg hlen, finish_eq_ending _ hnonneg hlen, beginning_ofIndex,
    ending_ofIndex h hnonneg, normalize_eq hlen]
  generalize counted len i.toInt = v
  rw [walkUp_one (by omega) (by omega)]
  by_cases hin : 0 ≤ v ∧ v < len
  · have hplace : max 0 (min v (len : Int)) = v := by omega
    rw [if_pos (by omega), if_pos hin, hplace]
    rfl
  · -- Both bounds stand at the same end of the list.
    rw [if_neg (by omega), if_neg hin]
    rfl

end Slice

/-- **Single indices are slices.** In a list of up to 2^63 - 1 elements, an index other than the
largest has the positions of the slice `i:i+1`, or `-1:`: the one that it designates, or none when
it lies outside the list on either side. -/
theorem Term.single_agrees_with_slice (h : i < Int64.maxValue) (hlen : len ≤ maxOffset) :
    (single i).positions len = (range (.ofIndex i)).positions len ∧
      (range (.ofIndex i)).display = Decimal.text i.toInt ++ ":" ++
        (if i = -1 then "" else Decimal.text (i.toInt + 1)) ∧
      (∀ p, (single i).positions len = [p] ↔ Designates i len p) ∧
      ((single i).positions len = [] ↔ i.toInt < -len ∨ len ≤ i.toInt) := by
  have hsingle : (single i).positions len = (normalize i len).toList := rfl
  refine ⟨?_, Slice.display_ofIndex h, fun p => ?_, ?_⟩
  · exact (Slice.positions_ofIndex h hlen).symm
  · rw [hsingle, ← normalize_eq_some_iff hlen]
    cases normalize i len <;> simp
  · rw [hsingle, ← normalize_eq_none_iff hlen]
    cases normalize i len <;> simp

theorem Term.farIndices_agree_with_slices :
    ((-4 : Offset) < Int64.maxValue ∧ ((4 : Nat) : Int) ≤ maxOffset ∧
      (single (-4)).positions 4 = [0] ∧ (range (.ofIndex (-4))).positions 4 = [0] ∧
      Designates (-4) 4 0) ∧
    (Int64.minValue < Int64.maxValue ∧ ((9223372036854775807 : Nat) : Int) ≤ maxOffset ∧
      (single Int64.minValue).positions 9223372036854775807 = [] ∧
      (range (.ofIndex Int64.minValue)).positions 9223372036854775807 = []) := by
  have hfirst : (-4 : Offset) < Int64.maxValue := by decide
  have hfour : ((4 : Nat) : Int) ≤ maxOffset := by decide
  have hleast : Int64.minValue < Int64.maxValue := by decide
  have hlargest : ((9223372036854775807 : Nat) : Int) ≤ maxOffset := by decide
  obtain ⟨hsame, -, hone, -⟩ := single_agrees_with_slice hfirst hfour
  obtain ⟨hsame', -, -, hnone⟩ := single_agrees_with_slice hleast hlargest
  have hpositions : (single (-4)).positions 4 = [0] := by decide
  have hempty : (single Int64.minValue).positions 9223372036854775807 = [] :=
    hnone.2 (Or.inl (by decide))
  exact ⟨⟨hfirst, hfour, hpositions, hsame ▸ hpositions, (hone 0).1 hpositions⟩,
    hleast, hlargest, hempty, hsame' ▸ hempty⟩

end Single

end SchemaShaper.Index
