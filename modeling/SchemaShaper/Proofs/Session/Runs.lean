import SchemaShaper.Proofs.Document.Errors
import SchemaShaper.Proofs.Edit.Batches
import SchemaShaper.Proofs.Edit.KeyNames
import SchemaShaper.Session

/-!
# Runs of a session

What one deleted or added entry preserves, a batch preserves whether it fails or not, and so does
every run of a session, resets included (`Session.run_invariant`). With descent from the base as
the invariant, no run introduces an error (`Session.run_errors_sublist`), and each table of the
working copy comes from a table of the base, in their order, with injected keys behind the old ones
(`Session.run_tables_embed`). Distinct names of the foreign keys of a table are an invariant as well
(`Session.run_keyNames_distinct`).

The whole edits are the plain ones made atomic (`Session.whole_edits_are_atomic`): they succeed
together and then leave the same session, and on failure a whole edit changes nothing, while the
plain one leaves what the whole edit of the entries before the failing one does.
-/

namespace SchemaShaper

/-! ## Invariants of batches -/

section Batches

variable {step : String → Document → Except EditError Document} {P : Document → Prop}

theorem Passes.invariant {entries : List String} {d d' : Document} (h : Passes step entries d d')
    (hstep : ∀ entry ∈ entries, isSkipped entry = false →
      ∀ d d', step entry d = .ok d' → P d → P d') (hd : P d) : P d' := by
  induction h with
  | nil => exact hd
  | skip _ _ ih => exact ih (fun e he => hstep e (List.mem_cons_of_mem _ he)) hd
  | act hact hs _ ih =>
    exact ih (fun e he => hstep e (List.mem_cons_of_mem _ he))
      (hstep _ List.mem_cons_self hact _ _ hs hd)

/-- What every entry preserves holds of the document a run leaves, also of a failed one. -/
theorem runEntries_invariant {entries : List String}
    (hstep : ∀ entry ∈ entries, isSkipped entry = false →
      ∀ d d', step entry d = .ok d' → P d → P d')
    {d : Document} (hd : P d) (position : Nat) :
    P (runEntries step position entries d).document := by
  rcases passes_or_stopsBehind step entries d with ⟨d', hp⟩ | ⟨before, d', reason, hstop⟩
  · rw [runEntries_of_passes hp]
    exact hp.invariant hstep hd
  · rw [runEntries_of_stopsBehind hstop]
    obtain ⟨entry, after, rfl, hp, -, -⟩ := hstop
    exact hp.invariant (fun e he => hstep e (List.mem_append_left _ he)) hd

end Batches

namespace Session

/-! ## Whole edits -/

theorem keepWhole_of_none {a : Attempt} (h : a.failure = none) (s : Session) :
    s.keepWhole a = s.keep a := by
  unfold keepWhole keep
  rw [h]

theorem keepWhole_of_some {a : Attempt} {reason : EditError} (h : a.failure = some reason)
    (s : Session) : s.keepWhole a = ⟨s, some reason⟩ := by
  unfold keepWhole
  rw [h]

/-- The edit `whole` is the edit `plain` made atomic. A failed plain edit names the position of an
entry, counted from 1, and leaves what the whole edit of the entries before it leaves. -/
structure AtomicOf (plain whole : List String → Session → Outcome) : Prop where
  succeeds_iff : ∀ entries s, (whole entries s).failure = none ↔ (plain entries s).failure = none
  commits : ∀ entries s, (plain entries s).failure = none → whole entries s = plain entries s
  rolls_back : ∀ entries s reason, (plain entries s).failure = some reason →
    whole entries s = ⟨s, some reason⟩
  stops : ∀ entries s reason, (plain entries s).failure = some reason →
    ∃ position cause, reason = .atLine position cause ∧ 0 < position ∧
      position ≤ entries.length ∧
      whole (entries.take (position - 1)) s = ⟨(plain entries s).session, none⟩

theorem atomicOf_keepWhole (step : String → Document → Except EditError Document) :
    AtomicOf (fun entries s => s.keep (runEntries step 1 entries s.working))
      (fun entries s => s.keepWhole (runEntries step 1 entries s.working)) where
  succeeds_iff entries s := by
    cases h : (runEntries step 1 entries s.working).failure with
    | none => rw [keepWhole_of_none h]
    | some reason => rw [keepWhole_of_some h, keep, h]
  commits entries s h := keepWhole_of_none h s
  rolls_back entries s reason h := keepWhole_of_some h s
  stops entries s reason h := by
    have hrun : runEntries step 1 entries s.working =
        ⟨(runEntries step 1 entries s.working).document, some reason⟩ :=
      congrArg (Attempt.mk _) h
    obtain ⟨before, cause, ⟨entry, after, hentries, hp, -, -⟩, rfl⟩ := runEntries_eq_some_iff.1 hrun
    refine ⟨1 + before.length, cause, rfl, by omega, ?_, ?_⟩
    · rw [hentries, List.length_append, List.length_cons]
      omega
    · have htake : entries.take (1 + before.length - 1) = before := by
        rw [hentries, Nat.add_sub_cancel_left, List.take_left]
      simp only [htake, runEntries_eq_none_iff.2 hp]
      rfl

/-- **All or nothing.** Deleting and adding in one piece are the plain edits made atomic. -/
theorem whole_edits_are_atomic :
    AtomicOf transform transformWhole ∧ AtomicOf addKeys addKeysWhole :=
  ⟨atomicOf_keepWhole Document.deleteEntry, atomicOf_keepWhole Document.addKeyEntry⟩

/-! ## Invariants of runs -/

/-- The deletion statements of an operation. -/
def Operation.deletions : Operation → List String
  | .transform entries | .transformWhole entries => entries
  | _ => []

/-- The foreign key specs of an operation. -/
def Operation.additions : Operation → List String
  | .addKeys entries | .addKeysWhole entries => entries
  | _ => []

theorem keepWhole_base (s : Session) (a : Attempt) : (s.keepWhole a).session.base = s.base := by
  unfold keepWhole
  split <;> rfl

@[simp] theorem perform_base (s : Session) (operation : Operation) :
    (s.perform operation).session.base = s.base := by
  cases operation with
  | transformWhole entries => exact keepWhole_base s _
  | addKeysWhole entries => exact keepWhole_base s _
  | _ => rfl

theorem run_base (s : Session) (operations : List Operation) :
    (s.run operations).base = s.base := by
  induction operations generalizing s with
  | nil => rfl
  | cons operation operations ih => exact (ih _).trans (s.perform_base operation)

section Invariant

variable {P : Document → Prop}

/-- A whole edit leaves the working copy of the plain one or the one before. -/
theorem keepWhole_invariant {s : Session} {a : Attempt} (hs : P s.working) (ha : P a.document) :
    P (s.keepWhole a).session.working := by
  unfold keepWhole
  split
  · exact ha
  · exact hs

theorem perform_invariant {s : Session} {operation : Operation}
    (hdelete : ∀ entry ∈ operation.deletions, isSkipped entry = false →
      ∀ d d', d.deleteEntry entry = .ok d' → P d → P d')
    (hadd : ∀ entry ∈ operation.additions, isSkipped entry = false →
      ∀ d d', d.addKeyEntry entry = .ok d' → P d → P d')
    (hbase : P s.base) (hworking : P s.working) :
    P (s.perform operation).session.working := by
  cases operation with
  | transform entries => exact runEntries_invariant hdelete hworking 1
  | transformWhole entries =>
    exact keepWhole_invariant hworking (runEntries_invariant hdelete hworking 1)
  | addKeys entries => exact runEntries_invariant hadd hworking 1
  | addKeysWhole entries =>
    exact keepWhole_invariant hworking (runEntries_invariant hadd hworking 1)
  | omitKeys entries => exact hworking
  | reset => exact hbase

/-- What holds of the base and is preserved by every entry of every operation holds of the working
copy after every run. -/
theorem run_invariant {operations : List Operation}
    (hdelete : ∀ operation ∈ operations, ∀ entry ∈ operation.deletions, isSkipped entry = false →
      ∀ d d', d.deleteEntry entry = .ok d' → P d → P d')
    (hadd : ∀ operation ∈ operations, ∀ entry ∈ operation.additions, isSkipped entry = false →
      ∀ d d', d.addKeyEntry entry = .ok d' → P d → P d')
    {s : Session} (hbase : P s.base) (hworking : P s.working) : P (s.run operations).working := by
  induction operations generalizing s with
  | nil => exact hworking
  | cons operation operations ih =>
    have hstep := perform_invariant (hdelete operation List.mem_cons_self)
      (hadd operation List.mem_cons_self) hbase hworking
    refine ih (fun o ho => hdelete o (List.mem_cons_of_mem _ ho))
      (fun o ho => hadd o (List.mem_cons_of_mem _ ho)) ?_ hstep
    rwa [perform_base]

end Invariant

/-! ## Runs and the base -/

/-- An operation may inject the key into a table of this name: an entry writes a spec for the table,
and the key is the one of the spec under a name generated for such a table. -/
def Operation.Injects (operation : Operation) (table : String) (key : ForeignKey) : Prop :=
  ∃ entry ∈ operation.additions, isSkipped entry = false ∧
    ∃ spec t, KeySpec.parse entry = .ok spec ∧ spec.sourceTable = table ∧ t.name = table ∧
      key = spec.key (spec.nameIn t)

/-- The working copy descends from the base, and only keys that the run injects are added. -/
theorem run_descends_injecting (base : Document) (operations : List Operation) :
    ((start base).run operations).working.Descends
      (fun table key => ∃ operation ∈ operations, operation.Injects table key) base := by
  refine run_invariant (P := fun d => d.Descends _ base) ?_ ?_ (.refl base) (.refl base)
  · intro _ _ _ _ _ d d' h hd
    exact (Document.deleteEntry_descends h).trans hd
  · intro operation hop entry hentry hact d d' h hd
    refine (Document.addKeyEntry_descends (fun s t hs ht => ?_) h).trans hd
    exact ⟨operation, hop, entry, hentry, hact, s, t, hs, rfl, ht, rfl⟩

/-- The working copy descends from the base; the added keys come from entries of the run. -/
theorem run_descends {added : String → ForeignKey → Prop} {operations : List Operation}
    (hadded : ∀ operation ∈ operations, ∀ entry ∈ operation.additions,
      ∀ spec, KeySpec.parse entry = .ok spec → ∀ name, added spec.sourceTable (spec.key name))
    (base : Document) : ((start base).run operations).working.Descends added base := by
  refine (run_descends_injecting base operations).mono ?_
  rintro _ _ ⟨operation, hop, entry, hentry, -, spec, t, hspec, rfl, -, rfl⟩
  exact hadded operation hop entry hentry spec hspec (spec.nameIn t)

/-- **No run introduces an error.** The errors of the working copy are some of those of the base, in
their order; so there are none when the base has none. -/
theorem run_errors_sublist (base : Document) (operations : List Operation) :
    ((start base).run operations).working.errors.Sublist base.errors ∧
      (base.errors = [] → ((start base).run operations).working.errors = []) := by
  have hdescends : ((start base).run operations).working.Descends
      (fun _ k => k.isBalanced = true) base := by
    refine run_descends ?_ base
    intro _ _ entry _ spec hspec name
    exact beq_iff_eq.2 (KeySpec.lengths_eq_of_parse hspec)
  have hsub := hdescends.errors_sublist fun _ _ h => h
  exact ⟨hsub, fun h => List.sublist_nil.1 (h ▸ hsub)⟩

/-- **Where the tables of a run come from.** Each table of the working copy descends from a table of
the base at a position of its own, in strictly increasing order, and only injected keys are
added. -/
theorem run_tables_embed (base : Document) (operations : List Operation) :
    ∃ position : Fin ((start base).run operations).working.tables.length →
        Fin base.tables.length, StrictMono position ∧
      ∀ i, (((start base).run operations).working.tables.get i).Descends
        (fun table key => ∃ operation ∈ operations, operation.Injects table key)
        (base.tables.get (position i)) :=
  (run_descends_injecting base operations).exists_origin

/-- **No run repeats a key name.** When the foreign keys of each table of the base have distinct
names, so do those of each table of the working copy. -/
theorem run_keyNames_distinct {base : Document} (h : base.KeyNamesDistinct)
    (operations : List Operation) :
    ((start base).run operations).working.KeyNamesDistinct := by
  refine run_invariant ?_ ?_ h h
  · intro _ _ _ _ _ d d' hdelete hd
    exact Document.deleteEntry_keyNamesDistinct hdelete hd
  · intro _ _ _ _ _ d d' hadd hd
    exact Document.addKeyEntry_keyNamesDistinct hadd hd

/-- One table, whose key written by hand has the form of a generated name. -/
def handWritten : Document :=
  ⟨[⟨"a", [⟨"d", "INTEGER", false⟩, ⟨"c_d", "INTEGER", false⟩], none,
      some [⟨"fk_a_b_c_d_2", ["d"], "b", ["k"]⟩]⟩]⟩

/-- Specs for different targets whose names share a stem: a batch that fails behind its additions, a
whole one that is undone, a deletion that frees a number, and an addition that takes it again. -/
def sharedStem : List Operation :=
  [.addKeys ["a|d|-->|b_c|k", "# once more", "a|c_d|-->|b|k", "a|d|-->|b"],
    .addKeysWhole ["a|d|-->|b_c|k", "missing|d|-->|b|k"],
    .transform ["del fk pattern:fk_a_b_c_d_1"],
    .addKeysWhole ["a|c_d|-->|b|k"]]

theorem sharedStem_keyNames_distinct :
    handWritten.KeyNamesDistinct ∧
    ((start handWritten).run sharedStem).working.tables.map (·.keyNames) =
      [["fk_a_b_c_d_2", "fk_a_b_c_d_3", "fk_a_b_c_d_1"]] ∧
    ((start handWritten).run sharedStem).working.KeyNamesDistinct := by
  have hbase : handWritten.KeyNamesDistinct := by decide
  exact ⟨hbase, by decide +kernel, run_keyNames_distinct hbase sharedStem⟩

end Session

end SchemaShaper
