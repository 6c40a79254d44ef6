import SchemaShaper.Edit.Injection
import SchemaShaper.Proofs.Edit.Batches

/-!
# Batches in parts

A batch can be cut at any entry: the two parts, one after the other, do what the whole does, and an
error in the second part keeps its cause and moves by the length of the first. Skipped entries can
be put in at any places, also many at once (`spaced`): all they change is the position of the entry
that fails. Both are read off `Passes` and `StopsBehind`, so they hold for every kind of entry, and
also where a later entry sees what an earlier one left (`batches_run_in_parts`).
-/

namespace SchemaShaper

section Runs

variable {step : String → Document → Except EditError Document}
  {entries more before : List String} {d d₁ d' : Document} {cause : EditError}

/-! ## Cutting -/

/-- What stands behind the failing entry has no part in the failure. -/
theorem StopsBehind.append (h : StopsBehind step entries before d d' cause) (more : List String) :
    StopsBehind step (entries ++ more) before d d' cause := by
  obtain ⟨entry, after, rfl, hbefore, hact, hbad⟩ := h
  exact ⟨entry, after ++ more, by simp, hbefore, hact, hbad⟩

theorem StopsBehind.after (hentries : Passes step entries d d₁)
    (h : StopsBehind step more before d₁ d' cause) :
    StopsBehind step (entries ++ more) (entries ++ before) d d' cause := by
  obtain ⟨entry, after, rfl, hbefore, hact, hbad⟩ := h
  have hpassed : Passes step (entries ++ before) d d' := passes_append.2 ⟨d₁, hentries, hbefore⟩
  exact ⟨entry, after, by simp, hpassed, hact, hbad⟩

/-! ## Putting in skipped entries -/

/-- Entries with others put in: each has a gap in front of it, and one more gap is behind the last
of them. A gap may be empty. -/
def spaced (gapped : List (List String × String)) (last : List String) : List String :=
  gapped.flatMap (fun p => p.1 ++ [p.2]) ++ last

/-- The entries that were put in before the entry at this position, counted from 1. -/
def insertedBefore (gapped : List (List String × String)) (position : Nat) : List String :=
  (gapped.take position).flatMap Prod.fst

variable {gapped : List (List String × String)} {last : List String}

theorem spaced_cons (gap : List String) (entry : String) :
    spaced ((gap, entry) :: gapped) last = gap ++ entry :: spaced gapped last := by
  simp [spaced]

theorem spaced_append_cons (gapped' : List (List String × String)) (gap : List String)
    (entry : String) :
    spaced (gapped ++ (gap, entry) :: gapped') last =
      spaced gapped gap ++ entry :: spaced gapped' last := by
  simp [spaced]

theorem length_spaced (gapped : List (List String × String)) (last : List String) :
    (spaced gapped last).length =
      gapped.length + (gapped.flatMap Prod.fst).length + last.length := by
  induction gapped with
  | nil => simp [spaced]
  | cons p gapped ih =>
    obtain ⟨gap, entry⟩ := p
    rw [spaced_cons, List.length_append, List.length_cons, ih, List.length_cons, List.flatMap_cons,
      List.length_append]
    dsimp only
    omega

theorem passes_of_skipped (h : ∀ entry ∈ entries, isSkipped entry = true) :
    Passes step entries d d := by
  induction entries with
  | nil => exact .nil d
  | cons entry entries ih =>
    obtain ⟨hentry, hentries⟩ := List.forall_mem_cons.1 h
    exact .skip hentry (ih hentries)

theorem passes_spaced (hgaps : ∀ p ∈ gapped, ∀ entry ∈ p.1, isSkipped entry = true)
    (hlast : ∀ entry ∈ last, isSkipped entry = true)
    (h : Passes step (gapped.map Prod.snd) d d') : Passes step (spaced gapped last) d d' := by
  induction gapped generalizing d with
  | nil =>
    cases h
    exact passes_of_skipped hlast
  | cons p gapped ih =>
    obtain ⟨gap, entry⟩ := p
    obtain ⟨hgap, hgaps⟩ := List.forall_mem_cons.1 hgaps
    rw [spaced_cons]
    refine passes_append.2 ⟨d, passes_of_skipped hgap, ?_⟩
    cases h with
    | skip hskip rest => exact .skip hskip (ih hgaps rest)
    | act hact hs rest => exact .act hact hs (ih hgaps rest)

/-- The entry that fails is the same, behind the entries that were put in before it. -/
theorem stopsBehind_spaced (hgaps : ∀ p ∈ gapped, ∀ entry ∈ p.1, isSkipped entry = true)
    (h : StopsBehind step (gapped.map Prod.snd) before d d' cause) (last : List String) :
    ∃ before', StopsBehind step (spaced gapped last) before' d d' cause ∧
      before'.length =
        before.length + (insertedBefore gapped (before.length + 1)).length := by
  obtain ⟨entry, after, hentries, hbefore, hact, hbad⟩ := h
  obtain ⟨front, back, rfl, rfl, hback⟩ := List.map_eq_append_iff.1 hentries
  obtain ⟨⟨gap, entry'⟩, back, rfl, rfl, rfl⟩ := List.map_eq_cons_iff.1 hback
  obtain ⟨hfront, hgap⟩ := List.forall_mem_append.1 hgaps
  have hpassed : Passes step (spaced front gap) d d' :=
    passes_spaced hfront (hgap _ List.mem_cons_self) hbefore
  -- All that is passed now is what was passed before with its gaps, and the gap of the entry.
  refine ⟨spaced front gap, ⟨entry', spaced back last, spaced_append_cons back gap entry', hpassed,
    hact, hbad⟩, ?_⟩
  have htake : (front ++ (gap, entry') :: back).take (front.length + 1) =
      front ++ [(gap, entry')] := by
    rw [List.take_append, List.take_of_length_le (Nat.le_succ _), Nat.add_sub_cancel_left]
    rfl
  rw [length_spaced, List.length_map, insertedBefore, htake, List.flatMap_append,
    List.length_append]
  simp only [List.flatMap_singleton]
  omega

end Runs

/-! ## Batches -/

/-- A run over entries can be cut anywhere, and skipped entries can be put in anywhere. Each error
of it is wrapped with the position of an entry. -/
structure RunsInParts (run : List String → Document → Attempt) : Prop where
  second_succeeds : ∀ entries more d d₁ d₂, run entries d = ⟨d₁, none⟩ →
    run more d₁ = ⟨d₂, none⟩ → run (entries ++ more) d = ⟨d₂, none⟩
  second_fails : ∀ entries more d d₁ d₂ e, run entries d = ⟨d₁, none⟩ →
    run more d₁ = ⟨d₂, some e⟩ → ∃ position cause, e = .atLine position cause ∧
      run (entries ++ more) d = ⟨d₂, some (.atLine (position + entries.length) cause)⟩
  first_fails : ∀ entries more d d₁ e, run entries d = ⟨d₁, some e⟩ →
    run (entries ++ more) d = ⟨d₁, some e⟩
  spaced_succeeds : ∀ gapped last d d₁, (∀ p ∈ gapped, ∀ entry ∈ p.1, isSkipped entry = true) →
    (∀ entry ∈ last, isSkipped entry = true) → run (gapped.map Prod.snd) d = ⟨d₁, none⟩ →
    run (spaced gapped last) d = ⟨d₁, none⟩
  spaced_fails : ∀ gapped last d d₁ e, (∀ p ∈ gapped, ∀ entry ∈ p.1, isSkipped entry = true) →
    run (gapped.map Prod.snd) d = ⟨d₁, some e⟩ →
    ∃ position cause, e = .atLine position cause ∧
      run (spaced gapped last) d =
        ⟨d₁, some (.atLine (position + (insertedBefore gapped position).length) cause)⟩

theorem runsInParts_runEntries (step : String → Document → Except EditError Document) :
    RunsInParts (runEntries step 1) where
  second_succeeds entries more d d₁ d₂ hentries hmore := by
    rw [runEntries_eq_none_iff] at hentries hmore ⊢
    exact passes_append.2 ⟨d₁, hentries, hmore⟩
  second_fails entries more d d₁ d₂ e hentries hmore := by
    rw [runEntries_eq_none_iff] at hentries
    obtain ⟨before, cause, hstop, rfl⟩ := runEntries_eq_some_iff.1 hmore
    have hrun := runEntries_of_stopsBehind (hstop.after hentries) 1
    refine ⟨1 + before.length, cause, rfl, hrun.trans ?_⟩
    rw [List.length_append, Nat.add_comm entries.length, Nat.add_assoc]
  first_fails entries more d d₁ e hentries := by
    obtain ⟨before, cause, hstop, rfl⟩ := runEntries_eq_some_iff.1 hentries
    exact runEntries_of_stopsBehind (hstop.append more) 1
  spaced_succeeds gapped last d d₁ hgaps hlast h := by
    rw [runEntries_eq_none_iff] at h ⊢
    exact passes_spaced hgaps hlast h
  spaced_fails gapped last d d₁ e hgaps h := by
    obtain ⟨before, cause, hstop, rfl⟩ := runEntries_eq_some_iff.1 h
    obtain ⟨before', hstop', hlength⟩ := stopsBehind_spaced hgaps hstop last
    have hrun := runEntries_of_stopsBehind hstop' 1
    refine ⟨1 + before.length, cause, rfl, hrun.trans ?_⟩
    rw [hlength, Nat.add_comm 1 before.length, ← Nat.add_assoc, Nat.add_comm 1 before.length]

/-- **Batches in parts.** Deleting and adding by two lists in a row is doing it by the first and,
when that succeeds, by the second; blank entries and comments have no effect but on positions. -/
theorem batches_run_in_parts : RunsInParts Document.transform ∧ RunsInParts Document.addKeys :=
  ⟨runsInParts_runEntries Document.deleteEntry, runsInParts_runEntries Document.addKeyEntry⟩

end SchemaShaper
