import SchemaShaper.CommandLine.Run
import SchemaShaper.Proofs.Index.Loops

/-!
# Lists of tables

A list of tables shows the tables at positions that a spec designates, or all of them. Every
position that is looked up is one of the list, whatever whole numbers the spec contains
(`parsed_specs_stay_inside`).
-/

namespace SchemaShaper.CommandLine

/-- The list of the tables at these places. -/
def listing (tables : List Table) (places : List (Fin tables.length)) : Result :=
  { output := printed (places.map fun i : Fin tables.length => tableLine i (tables.get i)) }

section Tables

variable {m : Type → Type} [Monad m] [LawfulMonad m] (s : Session)

theorem runTables_all :
    runTables (m := m) s none = pure (listing s.working.tables (List.finRange _)) := by
  obtain ⟨places, hvals, hlines⟩ :=
    Index.exists_places s.working.tables tableLine fun _ hp => List.mem_range.1 hp
  have hall : places = List.finRange s.working.tables.length := by
    refine List.map_injective_iff.2 Fin.val_injective ?_
    rw [hvals, List.map_coe_finRange_eq_range]
  unfold runTables listing
  simp only [pure_bind, hlines, hall]

theorem runTables_selected {text : String} {spec : Index.Spec}
    (h : Index.Spec.parse text = .ok spec) :
    ∃ places : List (Fin s.working.tables.length),
      places.map Fin.val = spec.positions s.working.tables.length ∧
      runTables (m := m) s (some text) = pure (listing s.working.tables places) := by
  obtain ⟨places, hvals, hlines⟩ :=
    Index.exists_places s.working.tables tableLine fun _ hp => spec.lt_of_mem_positions hp
  refine ⟨places, hvals, ?_⟩
  unfold runTables listing
  simp only [h, pure_bind, hlines]

end Tables

/-- **Positions stay inside.** Whatever whole numbers a spec contains, and however long a list is,
computing the positions ends, they are positions of the list, and resolving the spec gives the set
of them. So neither selecting elements nor listing tables looks outside its list. -/
theorem parsed_specs_stay_inside {text : String} {spec : Index.Spec}
    (h : Index.Spec.parse text = .ok spec) :
    spec.StaysInside ∧
    ∀ (m : Type → Type) [Monad m] [LawfulMonad m] (s : Session),
      runTables (m := m) s none = pure (listing s.working.tables (List.finRange _)) ∧
      ∃ places : List (Fin s.working.tables.length),
        places.map Fin.val = spec.positions s.working.tables.length ∧
        runTables (m := m) s (some text) = pure (listing s.working.tables places) :=
  ⟨Index.Spec.staysInside (Index.Spec.stepsNonzero_of_parse h),
    fun _ _ _ s => ⟨runTables_all s, runTables_selected s h⟩⟩

/-- Terms at the ends of the 64-bit range, and steps that leave it. -/
def farTerms : Index.Spec :=
  ⟨[.single 5, .single Int64.minValue, .range ⟨none, some 3, some Int64.maxValue⟩,
    .range ⟨some Int64.maxValue, some (-3), some (-3)⟩]⟩

theorem farTerms_stay_inside :
    Index.Spec.parse
        "[+5,-9223372036854775808, :3:9223372036854775807 ,9223372036854775807:-3:-3]" =
      .ok farTerms ∧
    farTerms.positions 8 = [5, 0, 7] ∧
    farTerms.positions 18446744073709551615 = [0, 9223372036854775806] ∧
    farTerms.StaysInside := by
  have hparse : Index.Spec.parse
      "[+5,-9223372036854775808, :3:9223372036854775807 ,9223372036854775807:-3:-3]" =
      .ok farTerms := by decide +kernel
  exact ⟨hparse, by decide +kernel, by decide +kernel, (parsed_specs_stay_inside hparse).1⟩

end SchemaShaper.CommandLine
