import SchemaShaper.Proofs.Index.Positions
import SchemaShaper.Proofs.Index.RoundTrip

/-!
# Computing positions ends

The walk of a slice is a loop that nothing stops but its condition (`Loop`). A step that is not
positive counts as a step down, so with the step zero a walk that begins above its stop goes on
forever, and only then (`Slice.loop_ends_iff`). Specs that are read have no such step: for each of
them computing the positions ends in exactly one way, in a list of any length
(`Spec.yields_iff`). The resolved positions are the same ones, ascending.
-/

namespace SchemaShaper.Index

/-! ## Loops -/

/-- Does the loop go on at `i`? -/
def GoesOn (step stop i : Int) : Prop := if 0 < step then i < stop else stop < i

/-- The loop from `i` on, whose sums stay within 64 bits, takes these numbers and ends. -/
inductive Loop (step stop : Int) : Int → List Int → Prop
  | ended {i : Int} (h : ¬ GoesOn step stop i) : Loop step stop i []
  | taken {i : Int} {rest : List Int} (h : GoesOn step stop i)
      (next : Loop step stop (addWithin i step) rest) : Loop step stop i (i :: rest)

section Loops

variable {step stop i : Int} {is js : List Int}

theorem goesOn_iff_precedes (h : step ≠ 0) : GoesOn step stop i ↔ Precedes step stop i := by
  unfold GoesOn Precedes
  split <;> omega

theorem Loop.unique (h : Loop step stop i is) (h' : Loop step stop i js) : is = js := by
  induction h generalizing js with
  | ended hend =>
    cases h' with
    | ended => rfl
    | taken hgo => exact absurd hgo hend
  | taken hgo _ ih =>
    cases h' with
    | ended hend => exact absurd hgo hend
    | taken _ next => rw [ih next]

theorem Visits.loop (hstep : step ≠ 0) (h : Visits addWithin step stop i is) :
    Loop step stop i is := by
  induction h with
  | ended hend => exact .ended (mt (goesOn_iff_precedes hstep).1 hend)
  | visit hgo _ ih => exact .taken ((goesOn_iff_precedes hstep).2 hgo) ih

/-- A loop that does not move never gets past its stop. -/
theorem not_loop_zero (hi : minOffset ≤ i ∧ i ≤ maxOffset) (h : stop < i) : ¬ Loop 0 stop i is := by
  intro hloop
  have hstays : addWithin i 0 = i := by
    have hcases := addWithin_cases i 0
    omega
  -- Each number taken is the one before it, so the last one would have to be past the stop.
  generalize hstep : (0 : Int) = step at hloop
  induction hloop with
  | ended hend =>
    subst hstep
    exact hend (by simpa [GoesOn] using h)
  | taken _ _ ih =>
    subst hstep
    rw [hstays] at ih
    exact ih hi h hstays

end Loops

/-! ## Slices -/

/-- The length that slices reckon with: a longer list is taken for one of 2^63 - 1 elements. -/
def reckoned (len : Nat) : Int := min (len : Int) maxOffset

theorem reckoned_bounds (len : Nat) :
    0 ≤ reckoned len ∧ reckoned len ≤ maxOffset ∧ reckoned len ≤ len := by
  unfold reckoned maxOffset
  omega

namespace Slice

theorem first_mem_range (s : Slice) (len : Nat) :
    minOffset ≤ s.first (reckoned len) ∧ s.first (reckoned len) ≤ maxOffset := by
  obtain ⟨hnonneg, hmax, -⟩ := reckoned_bounds len
  rw [s.first_eq_beginning hnonneg hmax]
  unfold beginning placeOr place minOffset
  unfold maxOffset at *
  cases s.start <;> dsimp only <;> split <;> omega

theorem loop_positions {s : Slice} (h : s.step ≠ some 0) (len : Nat) :
    Loop s.stride (s.finish (reckoned len)) (s.first (reckoned len))
      ((s.positions len).map (↑)) := by
  obtain ⟨hnonneg, hmax, -⟩ := reckoned_bounds len
  obtain ⟨bounded, hbounded⟩ := Int.eq_ofNat_of_zero_le hnonneg
  rw [hbounded] at hmax
  -- A list is walked like one of the reckoned length, for which the walk is known to end.
  have hsame : s.positions len = s.positions bounded := by
    have hmin : min (bounded : Int) maxOffset = min (len : Int) maxOffset :=
      (Int.min_eq_left hmax).trans hbounded.symm
    unfold positions
    rw [hmin]
  rw [hsame, hbounded]
  exact (visits_positions h hmax).loop (stride_ne_zero h)

theorem stride_of_step_zero {s : Slice} (h : s.step = some 0) : s.stride = 0 := by
  unfold stride
  rw [h]
  rfl

/-- The walk of a slice ends unless its step is zero and it begins above its stop. -/
theorem loop_ends_iff (s : Slice) (len : Nat) :
    (∃ is, Loop s.stride (s.finish (reckoned len)) (s.first (reckoned len)) is) ↔
      s.step ≠ some 0 ∨ s.first (reckoned len) ≤ s.finish (reckoned len) := by
  constructor
  · rintro ⟨is, hloop⟩
    by_contra hnot
    obtain ⟨hzero, habove⟩ := not_or.1 hnot
    rw [stride_of_step_zero (not_not.1 hzero)] at hloop
    exact not_loop_zero (s.first_mem_range len) (Int.not_le.1 habove) hloop
  · intro h
    by_cases hzero : s.step = some 0
    · have hend : s.first (reckoned len) ≤ s.finish (reckoned len) := h.resolve_left (· hzero)
      refine ⟨[], .ended ?_⟩
      rw [stride_of_step_zero hzero]
      simpa [GoesOn] using hend
    · exact ⟨_, loop_positions hzero len⟩

end Slice

/-! ## Specs -/

/-- Computing the positions of a term in a list of `len` elements ends with these. -/
inductive Term.Yields (len : Nat) : Term → List Nat → Prop
  | single (i : Offset) : Yields len (.single i) (normalize i len).toList
  | range {s : Slice} {ps : List Nat}
      (h : Loop s.stride (s.finish (reckoned len)) (s.first (reckoned len)) (ps.map (↑))) :
      Yields len (.range s) ps

theorem Term.yields_iff {t : Term} (h : t.StepNonzero) {len : Nat} {ps : List Nat} :
    t.Yields len ps ↔ t.positions len = ps := by
  cases t with
  | single i =>
    constructor
    · rintro ⟨⟩
      rfl
    · rintro rfl
      exact .single i
  | range s =>
    have hloop := Slice.loop_positions h len
    constructor
    · rintro ⟨⟩
      next h' => exact List.map_injective_iff.2 Nat.cast_injective (hloop.unique h')
    · rintro rfl
      exact .range hloop

namespace Spec

/-- Computing the positions of a spec, term by term, ends with these. -/
def Yields (len : Nat) (s : Spec) (ps : List Nat) : Prop :=
  ∃ parts, List.Forall₂ (Term.Yields len) s.terms parts ∧ ps = parts.flatten

theorem forall₂_yields_iff {len : Nat} {terms : List Term} (h : ∀ t ∈ terms, t.StepNonzero)
    {parts : List (List Nat)} :
    List.Forall₂ (Term.Yields len) terms parts ↔ parts = terms.map (·.positions len) := by
  induction terms generalizing parts with
  | nil => exact List.forall₂_nil_left_iff
  | cons t terms ih =>
    obtain ⟨ht, hterms⟩ := List.forall_mem_cons.1 h
    simp only [List.forall₂_cons_left_iff, Term.yields_iff ht, ih hterms, List.map_cons]
    constructor
    · rintro ⟨_, _, rfl, rfl, rfl⟩
      rfl
    · rintro rfl
      exact ⟨_, _, rfl, rfl, rfl⟩

/-- Computing ends, and there is one outcome. -/
theorem yields_iff {s : Spec} (h : s.StepsNonzero) {len : Nat} {ps : List Nat} :
    s.Yields len ps ↔ ps = s.positions len := by
  unfold Yields
  simp only [forall₂_yields_iff h, exists_eq_left]
  rfl

end Spec

theorem pairwise_dropRepeats {xs : List Nat} (h : xs.Pairwise (· ≤ ·)) :
    (dropRepeats xs).Pairwise (· < ·) := by
  fun_induction dropRepeats xs with
  | case1 b rest ih => exact ih h.of_cons
  | case2 a b rest hne ih =>
    obtain ⟨hfirst, hrest⟩ := List.pairwise_cons.1 h
    refine .cons (fun c hc => ?_) (ih hrest)
    have hab := hfirst b List.mem_cons_self
    rcases List.mem_cons.1 (mem_dropRepeats.1 hc) with rfl | hc
    · omega
    · have hbc := List.rel_of_pairwise_cons hrest hc
      omega
  | case3 short hshort =>
    rcases short with _ | ⟨a, _ | ⟨b, rest⟩⟩
    · exact .nil
    · exact List.pairwise_singleton _ a
    · exact absurd rfl (hshort a b rest)

theorem Spec.pairwise_resolve (s : Spec) (len : Nat) : (s.resolve len).Pairwise (· < ·) := by
  have hsorted : ((s.positions len).mergeSort (· ≤ ·)).Pairwise fun a b => decide (a ≤ b) = true :=
    List.pairwise_mergeSort (by grind) (by grind) _
  exact pairwise_dropRepeats (hsorted.imp of_decide_eq_true)

/-- In a list of any length, computing the positions of the spec ends with positions of the list,
and no other outcome is possible. -/
structure Spec.StaysInside (s : Spec) : Prop where
  yields_iff : ∀ len ps, s.Yields len ps ↔ ps = s.positions len
  lt_len : ∀ len, ∀ p ∈ s.positions len, p < len
  resolve_ascending : ∀ len, (s.resolve len).Pairwise (· < ·)
  mem_resolve_iff : ∀ len p, p ∈ s.resolve len ↔ p ∈ s.positions len
  /-- Selecting looks up every position, and finds an element there. -/
  select_eq : ∀ {α : Type} (items : List α), ∃ selected : List (Fin items.length),
    s.select items = selected.map items.get ∧ selected.map Fin.val = s.positions items.length

theorem Spec.staysInside {s : Spec} (h : s.StepsNonzero) : s.StaysInside where
  yields_iff _ _ := Spec.yields_iff h
  lt_len _ _ := lt_of_mem_positions
  resolve_ascending := s.pairwise_resolve
  mem_resolve_iff _ _ := Spec.mem_resolve_iff
  select_eq := s.exists_select_eq

end SchemaShaper.Index
