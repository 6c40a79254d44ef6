import SchemaShaper.Edit.Deletion
import Mathlib.Data.List.Forall2

/-!
# Runs over a list of entries

A run that reaches its end leads from one document to another through every entry that is not
skipped (`Passes`). A run that fails has passed the entries before the failing one and keeps the
document they lead to (`StopsBehind`). Both are exact: `runEntries_eq_none_iff` and
`runEntries_eq_some_iff` say what a run leaves, for every kind of entry, and where positions come
in.

Entries can be read without acting (`ReadsAs`). Where acting does not change which entries are
allowed, a run reaches its end when the entries write items that are allowed from the start
(`passes_iff_readsAs`). For deletions, `transform_agrees_with_reading`: acting on each entry as
soon as it is read agrees with reading all entries first and applying the statements afterwards, in
the outcome, in the first error and in what is left of a failed run.
-/

namespace SchemaShaper

/-! ## Runs as relations -/

section Runs

variable {step : String → Document → Except EditError Document}

variable (step) in
/-- Every entry is skipped or acts, and in order they lead from one document to another. -/
inductive Passes : List String → Document → Document → Prop
  | nil (d : Document) : Passes [] d d
  | skip {entry : String} {entries : List String} {d d' : Document}
      (h : isSkipped entry = true) (rest : Passes entries d d') : Passes (entry :: entries) d d'
  | act {entry : String} {entries : List String} {d d₁ d' : Document}
      (h : isSkipped entry = false) (hs : step entry d = .ok d₁) (rest : Passes entries d₁ d') :
      Passes (entry :: entries) d d'

variable (step) in
/-- The entries `before` pass and lead to `d'`, where the entry behind them fails. -/
def StopsBehind (entries before : List String) (d d' : Document) (reason : EditError) : Prop :=
  ∃ entry after, entries = before ++ entry :: after ∧ Passes step before d d' ∧
    isSkipped entry = false ∧ step entry d' = .error reason

theorem passes_append {entries more : List String} {d d' : Document} :
    Passes step (entries ++ more) d d' ↔
      ∃ d₁, Passes step entries d d₁ ∧ Passes step more d₁ d' := by
  constructor
  · intro h
    induction entries generalizing d with
    | nil => exact ⟨d, .nil d, h⟩
    | cons entry entries ih =>
      cases h with
      | skip h rest =>
        obtain ⟨d₁, hentries, hmore⟩ := ih rest
        exact ⟨d₁, .skip h hentries, hmore⟩
      | act h hs rest =>
        obtain ⟨d₁, hentries, hmore⟩ := ih rest
        exact ⟨d₁, .act h hs hentries, hmore⟩
  · rintro ⟨d₁, hentries, hmore⟩
    induction hentries with
    | nil => exact hmore
    | skip h _ ih => exact .skip h (ih hmore)
    | act h hs _ ih => exact .act h hs (ih hmore)

theorem runEntries_of_passes {entries : List String} {d d' : Document}
    (h : Passes step entries d d') (position : Nat) :
    runEntries step position entries d = ⟨d', none⟩ := by
  induction h generalizing position with
  | nil d => rfl
  | skip h _ ih => rw [runEntries_cons_skip h, ih]
  | act h hs _ ih => rw [runEntries_cons_ok h hs, ih]

theorem runEntries_of_stopsBehind {entries before : List String} {d d' : Document}
    {reason : EditError} (h : StopsBehind step entries before d d' reason) (position : Nat) :
    runEntries step position entries d =
      ⟨d', some (.atLine (position + before.length) reason)⟩ := by
  obtain ⟨entry, after, rfl, hb, hentry, hs⟩ := h
  induction hb generalizing position with
  | nil d => exact runEntries_cons_error hentry hs position
  | skip h _ ih =>
    rw [List.cons_append, runEntries_cons_skip h, ih _ hs, List.length_cons,
      Nat.add_assoc, Nat.add_comm 1]
  | act h hs' _ ih =>
    rw [List.cons_append, runEntries_cons_ok h hs', ih _ hs, List.length_cons,
      Nat.add_assoc, Nat.add_comm 1]

variable (step) in
/-- A run reaches its end, or stops behind the entries that passed. -/
theorem passes_or_stopsBehind (entries : List String) (d : Document) :
    (∃ d', Passes step entries d d') ∨
      ∃ before d' reason, StopsBehind step entries before d d' reason := by
  induction entries generalizing d with
  | nil => exact Or.inl ⟨d, .nil d⟩
  | cons entry entries ih =>
    cases h : isSkipped entry with
    | true =>
      rcases ih d with ⟨d', hp⟩ | ⟨before, d', reason, bad, after, rfl, hb, hbad⟩
      · exact Or.inl ⟨d', .skip h hp⟩
      · exact Or.inr ⟨entry :: before, d', reason, bad, after, rfl, .skip h hb, hbad⟩
    | false =>
      cases hs : step entry d with
      | error reason => exact Or.inr ⟨[], d, reason, entry, entries, rfl, .nil d, h, hs⟩
      | ok d₁ =>
        rcases ih d₁ with ⟨d', hp⟩ | ⟨before, d', reason, bad, after, rfl, hb, hbad⟩
        · exact Or.inl ⟨d', .act h hs hp⟩
        · exact Or.inr ⟨entry :: before, d', reason, bad, after, rfl, .act h hs hb, hbad⟩

/-- The position has no part in whether and where a run ends well. -/
theorem runEntries_eq_none_iff {position : Nat} {entries : List String} {d d' : Document} :
    runEntries step position entries d = ⟨d', none⟩ ↔ Passes step entries d d' := by
  constructor
  · intro h
    rcases passes_or_stopsBehind step entries d with ⟨d₁, hp⟩ | ⟨before, d₁, reason, hb⟩
    · rw [runEntries_of_passes hp] at h
      cases h
      exact hp
    · rw [runEntries_of_stopsBehind hb] at h
      cases h
  · intro h
    exact runEntries_of_passes h position

/-- A failed run reports the position of the entry that failed and keeps what the entries before it
did. -/
theorem runEntries_eq_some_iff {position : Nat} {entries : List String} {d d' : Document}
    {e : EditError} :
    runEntries step position entries d = ⟨d', some e⟩ ↔
      ∃ before reason, StopsBehind step entries before d d' reason ∧
        e = .atLine (position + before.length) reason := by
  constructor
  · intro h
    rcases passes_or_stopsBehind step entries d with ⟨d₁, hp⟩ | ⟨before, d₁, reason, hb⟩
    · rw [runEntries_of_passes hp] at h
      cases h
    · rw [runEntries_of_stopsBehind hb] at h
      cases h
      exact ⟨before, reason, hb, rfl⟩
  · rintro ⟨before, reason, hb, rfl⟩
    exact runEntries_of_stopsBehind hb position

end Runs

/-! ## Reading entries -/

section Reading

variable {α : Type} {parse : String → Except EditError α} {entry : String} {entries : List String}
  {items : List α}

variable (parse) in
/-- The entries that are not skipped write these items, one by one. -/
def ReadsAs (entries : List String) (items : List α) : Prop :=
  List.Forall₂ (fun entry item => parse entry = .ok item) (entries.filter (!isSkipped ·)) items

theorem readsAs_nil : ReadsAs parse [] items ↔ items = [] :=
  List.forall₂_nil_left_iff

theorem readsAs_cons_skip (h : isSkipped entry = true) :
    ReadsAs parse (entry :: entries) items ↔ ReadsAs parse entries items := by
  unfold ReadsAs
  rw [List.filter_cons_of_neg (by simp [h])]

theorem readsAs_cons_act (h : isSkipped entry = false) :
    ReadsAs parse (entry :: entries) items ↔
      ∃ item rest, parse entry = .ok item ∧ ReadsAs parse entries rest ∧ items = item :: rest := by
  unfold ReadsAs
  rw [List.filter_cons_of_pos (by simp [h]), List.forall₂_cons_left_iff]

/-- An entry in a list that is read is skipped or writes one of the items. -/
theorem ReadsAs.exists_of_mem (h : ReadsAs parse entries items) :
    ∀ entry ∈ entries, isSkipped entry = true ∨ ∃ item ∈ items, parse entry = .ok item := by
  intro entry hmem
  cases hskip : isSkipped entry with
  | true => exact Or.inl rfl
  | false =>
    have hkept : entry ∈ entries.filter (!isSkipped ·) := List.mem_filter.2 ⟨hmem, by simp [hskip]⟩
    obtain ⟨i, hi, rfl⟩ := List.getElem_of_mem hkept
    have hlen := h.length_eq
    have hparse := (List.forall₂_iff_get.1 h).2 i hi (hlen ▸ hi)
    exact Or.inr ⟨_, List.get_mem _ _, hparse⟩

theorem ReadsAs.exists_entry (h : ReadsAs parse entries items) :
    ∀ item ∈ items, ∃ entry ∈ entries, parse entry = .ok item := by
  intro item hmem
  obtain ⟨i, hi, rfl⟩ := List.getElem_of_mem hmem
  have hlen := h.length_eq
  have hparse := (List.forall₂_iff_get.1 h).2 i (hlen ▸ hi) hi
  exact ⟨_, List.mem_of_mem_filter (List.get_mem _ _), hparse⟩

theorem ReadsAs.eq_filterMap (h : ReadsAs parse entries items) :
    items = (entries.filter (!isSkipped ·)).filterMap fun entry => (parse entry).toOption := by
  unfold ReadsAs at h
  generalize entries.filter (!isSkipped ·) = kept at h ⊢
  induction h with
  | nil => rfl
  | cons hparse _ ih =>
    rw [List.filterMap_cons, hparse, ← ih]
    rfl

theorem ReadsAs.perm {reordered : List String} {items' : List α} (h : ReadsAs parse entries items)
    (h' : ReadsAs parse reordered items') (hperm : reordered.Perm entries) : items'.Perm items := by
  rw [h.eq_filterMap, h'.eq_filterMap]
  exact (hperm.filter _).filterMap _

/-- Where every entry reads an item and acts by it if the document allows that, and acting does not
change what is allowed, entries pass when they write items that are allowed from the start. -/
theorem passes_iff_readsAs {step : String → Document → Except EditError Document}
    {allowed : α → Document → Prop} {act : Document → α → Document}
    (hstep : ∀ entry d d', step entry d = .ok d' ↔
      ∃ item, parse entry = .ok item ∧ allowed item d ∧ act d item = d')
    (hallowed : ∀ item other d, allowed item (act d other) ↔ allowed item d) {d d' : Document} :
    Passes step entries d d' ↔
      ∃ items, ReadsAs parse entries items ∧ (∀ item ∈ items, allowed item d) ∧
        d' = items.foldl act d := by
  constructor
  · intro h
    induction h with
    | nil d => exact ⟨[], readsAs_nil.2 rfl, by simp, rfl⟩
    | skip h _ ih =>
      obtain ⟨items, hr, hall, e⟩ := ih
      exact ⟨items, (readsAs_cons_skip h).2 hr, hall, e⟩
    | act h hs _ ih =>
      obtain ⟨items, hr, hall, e⟩ := ih
      obtain ⟨item, hparse, hitem, rfl⟩ := (hstep _ _ _).1 hs
      refine ⟨item :: items, (readsAs_cons_act h).2 ⟨item, items, hparse, hr, rfl⟩, ?_, e⟩
      exact List.forall_mem_cons.2 ⟨hitem, fun x hx => (hallowed x item _).1 (hall x hx)⟩
  · rintro ⟨items, hr, hall, rfl⟩
    induction entries generalizing items d with
    | nil =>
      rw [readsAs_nil.1 hr]
      exact .nil d
    | cons entry entries ih =>
      cases hskip : isSkipped entry with
      | true => exact .skip hskip (ih _ ((readsAs_cons_skip hskip).1 hr) hall)
      | false =>
        obtain ⟨item, rest, hparse, hrest, rfl⟩ := (readsAs_cons_act hskip).1 hr
        obtain ⟨hitem, hall⟩ := List.forall_mem_cons.1 hall
        refine .act hskip ((hstep _ _ _).2 ⟨item, hparse, hitem, rfl⟩) (ih _ hrest ?_)
        exact fun x hx => (hallowed x item d).2 (hall x hx)

end Reading

/-! ## Reading statements -/

namespace Statement

/-- The entries that are not skipped write these statements, one by one. -/
def Reads (entries : List String) (statements : List Statement) : Prop :=
  List.Forall₂ (fun entry s => parse entry = .ok s) (entries.filter (!isSkipped ·)) statements

theorem reads_nil {statements : List Statement} : Reads [] statements ↔ statements = [] :=
  readsAs_nil

theorem reads_cons_skip {entry : String} (h : isSkipped entry = true) {entries : List String}
    {statements : List Statement} :
    Reads (entry :: entries) statements ↔ Reads entries statements :=
  readsAs_cons_skip h

theorem reads_cons_act {entry : String} (h : isSkipped entry = false) {entries : List String}
    {statements : List Statement} :
    Reads (entry :: entries) statements ↔
      ∃ s rest, parse entry = .ok s ∧ Reads entries rest ∧ statements = s :: rest :=
  readsAs_cons_act h

/-- An entry in a list that is read is skipped or writes a statement. -/
theorem Reads.accepted {entries : List String} {statements : List Statement}
    (h : Reads entries statements) :
    ∀ entry ∈ entries, isSkipped entry = true ∨ ∃ s, parse entry = .ok s := by
  intro entry hmem
  rcases ReadsAs.exists_of_mem h entry hmem with hskip | ⟨s, -, hs⟩
  · exact Or.inl hskip
  · exact Or.inr ⟨s, hs⟩

theorem parseFrom_of_reads {entries : List String} {statements : List Statement}
    (h : Reads entries statements) (position : Nat) :
    parseFrom position entries = .ok statements := by
  induction entries generalizing statements position with
  | nil => rw [reads_nil.1 h, parseFrom]
  | cons entry entries ih =>
    cases hskip : isSkipped entry with
    | true =>
      rw [parseFrom_cons_skip hskip]
      exact ih ((reads_cons_skip hskip).1 h) _
    | false =>
      obtain ⟨s, rest, hs, hrest, rfl⟩ := (reads_cons_act hskip).1 h
      rw [parseFrom_cons_ok hskip hs, ih hrest]
      rfl

theorem parseFrom_append_of_reads {before : List String} {statements : List Statement}
    (h : Reads before statements) {entry : String} (hentry : isSkipped entry = false)
    {reason : EditError} (hbad : parse entry = .error reason) (after : List String)
    (position : Nat) :
    parseFrom position (before ++ entry :: after) =
      .error (.atLine (position + before.length) reason) := by
  induction before generalizing statements position with
  | nil => exact parseFrom_cons_error hentry hbad position
  | cons first before ih =>
    rw [List.cons_append, List.length_cons, Nat.add_comm before.length, ← Nat.add_assoc]
    cases hskip : isSkipped first with
    | true =>
      rw [parseFrom_cons_skip hskip]
      exact ih ((reads_cons_skip hskip).1 h) _
    | false =>
      obtain ⟨s, rest, hs, hrest, rfl⟩ := (reads_cons_act hskip).1 h
      rw [parseFrom_cons_ok hskip hs, ih hrest]
      rfl

/-- Entries that pass are those that write statements; they lead to what the statements lead to. -/
theorem passes_deleteEntry_iff {entries : List String} {d d' : Document} :
    Passes Document.deleteEntry entries d d' ↔
      ∃ statements, Reads entries statements ∧ d' = applyAll statements d := by
  have hstep : ∀ (entry : String) (d d' : Document), d.deleteEntry entry = .ok d' ↔
      ∃ s, parse entry = .ok s ∧ True ∧ s.apply d = d' := by
    intro entry d d'
    rw [Document.deleteEntry_eq_ok_iff]
    simp only [true_and]
  have hpasses := @passes_iff_readsAs _ _ entries _ _ _ hstep (fun _ _ _ => Iff.rfl) d d'
  simp only [implies_true, true_and] at hpasses
  exact hpasses

/-! ## Acting while reading -/

/-- The entry at this position, counted from 1, is the first that is neither skipped nor a
statement. -/
structure FirstInvalid (entries : List String) (position : Nat) (reason : EditError) : Prop where
  position_pos : 0 < position
  invalid : ∃ entry, entries[position - 1]? = some entry ∧ isSkipped entry = false ∧
    parse entry = .error reason
  before : ∀ entry ∈ entries.take (position - 1),
    isSkipped entry = true ∨ ∃ s, parse entry = .ok s

/-- What acting on the entries leaves agrees with what reading them gives: the run succeeds when
they can be read, and then applies the statements in order; otherwise both report the first invalid
entry, and the run has applied the statements of the entries before it. -/
structure AgreesWithReading (entries : List String) (d : Document)
    (read : Except EditError (List Statement)) (left : Attempt) : Prop where
  succeeds_iff : left.failure = none ↔ ∃ statements, read = .ok statements
  of_ok : ∀ statements, read = .ok statements →
    Reads entries statements ∧ left = ⟨applyAll statements d, none⟩
  of_error : ∀ e, read = .error e → ∃ position reason statements,
    e = .atLine position reason ∧ FirstInvalid entries position reason ∧
      Reads (entries.take (position - 1)) statements ∧ left = ⟨applyAll statements d, some e⟩

/-- Reading and running reach the end together, or stop together at the first invalid entry. -/
theorem parseEntries_transform_cases (entries : List String) (d : Document) :
    (∃ statements, Reads entries statements ∧ parseEntries entries = .ok statements ∧
      d.transform entries = ⟨applyAll statements d, none⟩) ∨
    ∃ position reason statements, FirstInvalid entries position reason ∧
      Reads (entries.take (position - 1)) statements ∧
      parseEntries entries = .error (.atLine position reason) ∧
      d.transform entries = ⟨applyAll statements d, some (.atLine position reason)⟩ := by
  rcases passes_or_stopsBehind Document.deleteEntry entries d with
    ⟨d', hp⟩ | ⟨before, d', reason, hstop⟩
  · obtain ⟨statements, hr, rfl⟩ := passes_deleteEntry_iff.1 hp
    exact Or.inl ⟨statements, hr, parseFrom_of_reads hr 1, runEntries_of_passes hp 1⟩
  · have hrun := runEntries_of_stopsBehind hstop 1
    obtain ⟨entry, after, rfl, hp, hentry, hbad⟩ := hstop
    obtain ⟨statements, hr, rfl⟩ := passes_deleteEntry_iff.1 hp
    have hparse := Document.deleteEntry_eq_error_iff.1 hbad
    have htake : (before ++ entry :: after).take (1 + before.length - 1) = before := by
      rw [Nat.add_sub_cancel_left, List.take_left]
    refine Or.inr ⟨1 + before.length, reason, statements,
      ⟨by omega, ⟨entry, ?_, hentry, hparse⟩, ?_⟩, ?_,
      parseFrom_append_of_reads hr hentry hparse after 1, hrun⟩
    · rw [Nat.add_sub_cancel_left, List.getElem?_append_right (Nat.le_refl _), Nat.sub_self]
      rfl
    · rw [htake]
      exact hr.accepted
    · rwa [htake]

theorem agreesWithReading (entries : List String) (d : Document) :
    AgreesWithReading entries d (parseEntries entries) (d.transform entries) := by
  rcases parseEntries_transform_cases entries d with
    ⟨statements, hr, hparse, hrun⟩ | ⟨position, reason, statements, hfirst, hr, hparse, hrun⟩
  · rw [hparse, hrun]
    refine ⟨⟨fun _ => ⟨statements, rfl⟩, fun _ => rfl⟩, ?_, ?_⟩
    · intro _ h
      cases h
      exact ⟨hr, rfl⟩
    · intro _ h
      cases h
  · rw [hparse, hrun]
    refine ⟨⟨fun h => ?_, fun ⟨_, h⟩ => ?_⟩, ?_, ?_⟩
    · cases h
    · cases h
    · intro _ h
      cases h
    · intro _ h
      cases h
      exact ⟨position, reason, statements, rfl, hfirst, hr, rfl⟩

/-- **Acting while reading is reading first.** For every list of entries and every script, the run
agrees with reading all of it and applying the statements afterwards. -/
theorem transform_agrees_with_reading :
    (∀ (entries : List String) (d : Document),
      AgreesWithReading entries d (parseEntries entries) (d.transform entries)) ∧
    ∀ (script : String) (d : Document),
      AgreesWithReading (Text.linesOf script) d (parseScript script) (d.transformScript script) :=
  ⟨agreesWithReading, fun script d => agreesWithReading (Text.linesOf script) d⟩

end Statement

end SchemaShaper
