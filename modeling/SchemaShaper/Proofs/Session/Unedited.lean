import SchemaShaper.Proofs.Session.Changes

/-!
# Comparisons without changes

A comparison lists nothing exactly if the working copy has a table of every name that the base has
and no other, and the first of its name has the columns and the foreign keys of each table of the
base, by name (`Change.between_eq_nil_iff`). A document compared with itself meets this where tables
of one name name the same. Where they do not, a session reports changes before anything has been
edited, and again after every reset (`Session.changes_of_unedited`).
-/

namespace SchemaShaper

/-- The tables name the same columns and the same foreign keys. -/
structure Table.SameNames (t u : Table) : Prop where
  columns : ∀ name, name ∈ t.columnNames ↔ name ∈ u.columnNames
  keys : ∀ name, name ∈ t.keyNames ↔ name ∈ u.keyNames

namespace Table

variable {t u v : Table}

theorem SameNames.refl (t : Table) : t.SameNames t := ⟨fun _ => Iff.rfl, fun _ => Iff.rfl⟩

theorem SameNames.symm (h : t.SameNames u) : u.SameNames t :=
  ⟨fun name => (h.columns name).symm, fun name => (h.keys name).symm⟩

theorem SameNames.trans (h : t.SameNames u) (h' : u.SameNames v) : t.SameNames v :=
  ⟨fun name => (h.columns name).trans (h'.columns name),
    fun name => (h.keys name).trans (h'.keys name)⟩

end Table

namespace Change

theorem block_eq_nil_iff (change : String → Change) (names others : List String) :
    (names.filter fun n => !others.contains n).map change = [] ↔ ∀ name ∈ names, name ∈ others := by
  simp [List.filter_eq_nil_iff]

theorem betweenTables_eq_nil_iff {before after : Table} :
    betweenTables before after = [] ↔ before.SameNames after := by
  simp only [betweenTables_eq, List.append_eq_nil_iff, block_eq_nil_iff]
  constructor
  · rintro ⟨⟨⟨hcolumns, hcolumns'⟩, hkeys⟩, hkeys'⟩
    exact ⟨fun name => ⟨hcolumns name, hcolumns' name⟩, fun name => ⟨hkeys name, hkeys' name⟩⟩
  · intro h
    exact ⟨⟨⟨fun name => (h.columns name).1, fun name => (h.columns name).2⟩,
      fun name => (h.keys name).1⟩, fun name => (h.keys name).2⟩

theorem aboutTable_eq_nil_iff {working : Document} {t : Table} :
    aboutTable working t = [] ↔
      ∃ current, working.table? t.name = some current ∧ t.SameNames current := by
  cases hw : working.table? t.name with
  | none => simp [aboutTable_of_none hw]
  | some current => simp [aboutTable_of_some hw, betweenTables_eq_nil_iff]

/-- Nothing has changed by name. -/
theorem between_eq_nil_iff {base working : Document} :
    between base working = [] ↔
      (∀ t ∈ base.tables, ∃ current, working.table? t.name = some current ∧ t.SameNames current) ∧
      ∀ name ∈ working.tableNames, name ∈ base.tableNames := by
  unfold between
  rw [List.append_eq_nil_iff, List.flatMap_eq_nil_iff, List.map_eq_nil_iff, List.filter_eq_nil_iff]
  simp only [aboutTable_eq_nil_iff, Option.isNone_iff_eq_none, Document.table?_eq_none_iff,
    not_not]

theorem between_self_eq_nil_iff {d : Document} :
    between d d = [] ↔
      ∀ t ∈ d.tables, ∃ first, d.table? t.name = some first ∧ t.SameNames first := by
  rw [between_eq_nil_iff, and_iff_left fun _ hname => hname]

end Change

namespace Session

theorem changes_start (d : Document) : (start d).changes = Change.between d d := rfl

theorem changes_reset_run (d : Document) (operations : List Operation) :
    ((start d).run operations).reset.changes = Change.between d d := by
  rw [reset, run_base]
  rfl

/-- **When nothing has been edited.** A document compared with itself has no changes exactly if each
table has the columns and the foreign keys of the first table of its name, by name; so it has none
where no name repeats. With two tables of one name that differ, a session reports changes before any
edit, and after a reset behind whatever was done. -/
theorem changes_of_unedited (d : Document) :
    (Change.between d d = [] ↔
      ∀ t ∈ d.tables, ∃ first, d.table? t.name = some first ∧ t.SameNames first) ∧
    (d.tableNames.Nodup → Change.between d d = []) ∧
    ∀ t ∈ d.tables, ∀ u ∈ d.tables, t.name = u.name → ¬ t.SameNames u →
      (start d).changes ≠ [] ∧
      ∀ operations, ((start d).run operations).reset.changes ≠ [] := by
  refine ⟨Change.between_self_eq_nil_iff, fun hd => ?_, fun t ht u hu hname hdiffer => ?_⟩
  · rw [Change.between_self_eq_nil_iff]
    exact fun t ht => ⟨t, Document.table?_of_mem hd ht, .refl t⟩
  · have hne : Change.between d d ≠ [] := by
      intro hnil
      rw [Change.between_self_eq_nil_iff] at hnil
      obtain ⟨first, hfirst, hsame⟩ := hnil t ht
      obtain ⟨first', hfirst', hsame'⟩ := hnil u hu
      rw [← hname, hfirst, Option.some.injEq] at hfirst'
      subst hfirst'
      exact hdiffer (hsame.trans hsame'.symm)
    rw [changes_start]
    refine ⟨hne, fun operations => ?_⟩
    rwa [changes_reset_run]

/-- A table with one foreign key. -/
def linked : Table :=
  ⟨"a", [⟨"id", "INTEGER", false⟩], none, some [⟨"to_b", ["id"], "b", ["id"]⟩]⟩

/-- A table of the same name with another foreign key, and with its column twice. -/
def relinked : Table :=
  ⟨"a", [⟨"id", "TEXT", true⟩, ⟨"id", "TEXT", true⟩], none, some [⟨"to_a", [], "a", []⟩]⟩

/-- Three tables of one name around one of another. -/
def repeated : Document :=
  ⟨[linked, ⟨"b", [], some [], none⟩, linked.pushColumn ⟨"note", "TEXT", true⟩, relinked]⟩

theorem repeated_reports_changes :
    (Document.mk [linked, { relinked with name := "b" }]).tableNames.Nodup ∧
    Change.between ⟨[linked, { relinked with name := "b" }]⟩
      ⟨[linked, { relinked with name := "b" }]⟩ = [] ∧
    (linked ∈ repeated.tables ∧ relinked ∈ repeated.tables ∧ linked.name = relinked.name ∧
      ¬ linked.SameNames relinked) ∧
    (start repeated).changes ≠ [] ∧
    (∀ operations, ((start repeated).run operations).reset.changes ≠ []) ∧
    (start repeated).changes =
      [.columnRemoved "a" "note", .keyRemoved "a" "to_a", .keyAdded "a" "to_b"] := by
  have hnames : (Document.mk [linked, { relinked with name := "b" }]).tableNames.Nodup := by decide
  have hlinked : linked ∈ repeated.tables := by decide
  have hrelinked : relinked ∈ repeated.tables := by decide
  have hdiffer : ¬ linked.SameNames relinked := fun h =>
    absurd ((h.keys "to_b").1 (by decide)) (by decide)
  obtain ⟨hstart, hreset⟩ :=
    (changes_of_unedited repeated).2.2 linked hlinked relinked hrelinked rfl hdiffer
  exact ⟨hnames, (changes_of_unedited _).2.1 hnames, ⟨hlinked, hrelinked, rfl, hdiffer⟩, hstart,
    hreset, by decide +kernel⟩

end Session

end SchemaShaper
