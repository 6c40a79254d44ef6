import SchemaShaper.Proofs.Document.Comparison
import SchemaShaper.Proofs.Session.Runs

/-!
# What the changes of a session say

A document that descends from another has no table and no column that the other has not. So the
changes from the one to the other list no added table and no added column, and they determine what
is left: the names of the tables, and in each of them the names of the columns and of the foreign
keys (`Change.determines_of_descends`). A key that is listed as added is one that was added
(`Change.exists_added_of_mem`).

The working copy of a session descends from its base, whatever the run
(`Session.run_changes_determine_working`). Names of columns may repeat, and a key may be deleted and
added again under its name: what is determined are sets of names.
-/

namespace SchemaShaper

variable {added : String → ForeignKey → Prop}

/-! ## Names under descent -/

theorem Document.Descends.tableNames_sublist {d origin : Document} (h : d.Descends added origin) :
    d.tableNames.Sublist origin.tableNames := by
  obtain ⟨origins, hdescend, hsub⟩ := List.sublistForall₂_iff.1 h
  have hnames : List.Forall₂ (· = ·) d.tableNames (origins.map (·.name)) :=
    List.forall₂_map_left_iff.2
      (List.forall₂_map_right_iff.2 (hdescend.imp fun _ _ ht => ht.name_eq))
  rw [List.forall₂_eq_eq_eq] at hnames
  rw [hnames]
  exact hsub.map _

/-- Where names are distinct, a table descends from the one of its name. -/
theorem Document.Descends.of_name_eq {d origin : Document} (h : d.Descends added origin)
    (horigin : origin.tableNames.Nodup) {t u : Table} (ht : t ∈ d.tables) (hu : u ∈ origin.tables)
    (hname : u.name = t.name) : t.Descends added u := by
  obtain ⟨v, hv, hdescends⟩ := h.exists_of_mem ht
  have heq : v = u :=
    List.inj_on_of_nodup_map horigin hv hu (hdescends.name_eq.symm.trans hname.symm)
  rwa [heq] at hdescends

theorem Table.Descends.columnNames_subset {t origin : Table} (h : t.Descends added origin) :
    t.columnNames ⊆ origin.columnNames :=
  (h.columns_sublist.map _).subset

/-- The name of a foreign key is an old one or that of an added key. -/
theorem Table.Descends.mem_keyNames {t origin : Table} (h : t.Descends added origin) {key : String}
    (hkey : key ∈ t.keyNames) :
    key ∈ origin.keyNames ∨ ∃ k, added t.name k ∧ k.name = key := by
  obtain ⟨kept, new, hkeys, hkept, hnew⟩ := h.keys_eq_append
  obtain ⟨k, hk, rfl⟩ := List.mem_map.1 hkey
  rw [hkeys, List.mem_append] at hk
  rcases hk with hk | hk
  · exact Or.inl (List.mem_map_of_mem (hkept.subset hk))
  · exact Or.inr ⟨k, hnew k hk, rfl⟩

/-- A sublist of distinct elements is what it has of the whole list. -/
theorem eq_filter_of_sublist {α : Type} [DecidableEq α] {xs ys : List α} (h : xs.Sublist ys)
    (hys : ys.Nodup) {p : α → Bool} (hp : ∀ y ∈ ys, p y = true ↔ y ∈ xs) : xs = ys.filter p := by
  refine (hys.perm_iff_eq_of_sublist h List.filter_sublist).1 ?_
  rw [List.perm_ext_iff_of_nodup (hys.sublist h) (hys.filter p)]
  intro y
  rw [List.mem_filter]
  constructor
  · intro hy
    exact ⟨h.subset hy, (hp y (h.subset hy)).2 hy⟩
  · rintro ⟨hy, hpy⟩
    exact (hp y hy).1 hpy

namespace Change

/-! ## What a comparison determines -/

/-- The changes say what is left of the base: nothing is added but foreign keys, and the names of
tables, columns and foreign keys are those of the base without the removed and with the added. -/
structure Determines (base working : Document) (changes : List Change) : Prop where
  tableAdded_not_mem : ∀ name, tableAdded name ∉ changes
  columnAdded_not_mem : ∀ table column, columnAdded table column ∉ changes
  tableNames_eq : working.tableNames =
    base.tableNames.filter fun name => !changes.contains (tableRemoved name)
  mem_columnNames_iff : ∀ before ∈ base.tables, ∀ after ∈ working.tables,
    before.name = after.name → ∀ column, column ∈ after.columnNames ↔
      column ∈ before.columnNames ∧ columnRemoved before.name column ∉ changes
  mem_keyNames_iff : ∀ before ∈ base.tables, ∀ after ∈ working.tables,
    before.name = after.name → ∀ key, key ∈ after.keyNames ↔
      key ∈ before.keyNames ∧ keyRemoved before.name key ∉ changes ∨
        keyAdded before.name key ∈ changes

/-- A change about a missing name is listed when the name is missing. -/
theorem mem_iff_of_count {c : Change} {changes : List Change} {names others : List String}
    {name : String} (h : changes.count c = missing names others name) :
    c ∈ changes ↔ name ∈ names ∧ name ∉ others := by
  rw [← List.count_pos_iff, h, missing]
  split
  · next hmem => simp [hmem]
  · next hnot => simp [hnot]

section Descent

variable {base working : Document} (h : working.Descends added base) (hb : base.tableNames.Nodup)
include h hb

theorem listsDifferences_of_descends : ListsDifferences base working (between base working) :=
  listsDifferences_between hb (hb.sublist h.tableNames_sublist)

/-- A change about columns or keys is about a table of the base and one that descends from it. -/
theorem exists_tables_of_mem {c : Change} (hc : c ∈ between base working)
    (hremoved : ∀ name, c ≠ tableRemoved name) (hadded : ∀ name, c ≠ tableAdded name) :
    ∃ before ∈ base.tables, ∃ after ∈ working.tables,
      before.name = c.table ∧ after.name = c.table ∧ after.Descends added before := by
  rcases (listsDifferences_of_descends h hb).in_both c hc with heq | heq | ⟨hbase, hworking⟩
  · exact absurd heq (hremoved _)
  · exact absurd heq (hadded _)
  · obtain ⟨before, hbefore, hname⟩ := List.mem_map.1 hbase
    obtain ⟨after, hafter, hname'⟩ := List.mem_map.1 hworking
    have hdescends := h.of_name_eq hb hafter hbefore (hname.trans hname'.symm)
    exact ⟨before, hbefore, after, hafter, hname, hname', hdescends⟩

theorem tableAdded_not_mem_of_descends (name : String) :
    tableAdded name ∉ between base working := by
  rw [← List.count_eq_zero, (listsDifferences_of_descends h hb).count_tableAdded, if_neg]
  rintro ⟨hworking, hbase⟩
  exact hbase (h.tableNames_sublist.subset hworking)

theorem columnAdded_not_mem_of_descends (table column : String) :
    columnAdded table column ∉ between base working := by
  intro hmem
  obtain ⟨before, hbefore, after, hafter, hname, hname', hdescends⟩ :=
    exists_tables_of_mem h hb hmem (by simp) (by simp)
  obtain rfl : before.name = table := hname
  have hlisted := mem_iff_of_count
    ((listsDifferences_of_descends h hb).count_columnAdded before hbefore after hafter hname'.symm
      column)
  obtain ⟨hcolumn, hnot⟩ := hlisted.1 hmem
  exact hnot (hdescends.columnNames_subset hcolumn)

/-- A key that is listed as added has been added. -/
theorem exists_added_of_mem {table key : String}
    (hmem : keyAdded table key ∈ between base working) : ∃ k, added table k ∧ k.name = key := by
  obtain ⟨before, hbefore, after, hafter, hname, hname', hdescends⟩ :=
    exists_tables_of_mem h hb hmem (by simp) (by simp)
  obtain rfl : before.name = table := hname
  have hlisted := mem_iff_of_count
    ((listsDifferences_of_descends h hb).count_keyAdded before hbefore after hafter hname'.symm key)
  obtain ⟨hkey, hnot⟩ := hlisted.1 hmem
  rcases hdescends.mem_keyNames hkey with hold | hnew
  · exact absurd hold hnot
  · rwa [hname'] at hnew

/-- **Changes determine what is left.** -/
theorem determines_of_descends : Determines base working (between base working) where
  tableAdded_not_mem := tableAdded_not_mem_of_descends h hb
  columnAdded_not_mem := columnAdded_not_mem_of_descends h hb
  tableNames_eq := by
    refine eq_filter_of_sublist h.tableNames_sublist hb fun name hname => ?_
    have hlisted : tableRemoved name ∈ between base working ↔ name ∉ working.tableNames := by
      rw [← List.count_pos_iff, (listsDifferences_of_descends h hb).count_tableRemoved]
      by_cases hleft : name ∈ working.tableNames <;> simp [hname, hleft]
    rw [Bool.not_eq_true', ← Bool.not_eq_true, List.contains_iff_mem, hlisted, not_not]
  mem_columnNames_iff before hbefore after hafter hname column := by
    have hsub := (h.of_name_eq hb hafter hbefore hname).columnNames_subset
    have hlisted := mem_iff_of_count
      ((listsDifferences_of_descends h hb).count_columnRemoved before hbefore after hafter hname
        column)
    rw [hlisted]
    constructor
    · intro hcolumn
      exact ⟨hsub hcolumn, fun hremoved => hremoved.2 hcolumn⟩
    · rintro ⟨hcolumn, hkept⟩
      by_contra hnot
      exact hkept ⟨hcolumn, hnot⟩
  mem_keyNames_iff before hbefore after hafter hname key := by
    have hdifferences := listsDifferences_of_descends h hb
    rw [mem_iff_of_count (hdifferences.count_keyRemoved before hbefore after hafter hname key),
      mem_iff_of_count (hdifferences.count_keyAdded before hbefore after hafter hname key)]
    by_cases hold : key ∈ before.keyNames <;> by_cases hnew : key ∈ after.keyNames <;>
      simp [hold, hnew]

end Descent

/-- Where no key has been added, all changes are removals. -/
theorem isRemoval_of_descends {base working : Document}
    (h : working.Descends (fun _ _ => False) base) (hb : base.tableNames.Nodup) {c : Change}
    (hc : c ∈ between base working) : c.isRemoval = true := by
  cases c with
  | tableAdded name => exact absurd hc (tableAdded_not_mem_of_descends h hb name)
  | columnAdded table column => exact absurd hc (columnAdded_not_mem_of_descends h hb table column)
  | keyAdded table key =>
    obtain ⟨_, hadded, -⟩ := exists_added_of_mem h hb hc
    exact hadded.elim
  | _ => rfl

end Change

/-! ## Runs -/

namespace Session

/-- No operation of the run adds a foreign key: each that could leaves the working copy as it is. -/
def AddsNoKey (s : Session) : List Operation → Prop
  | [] => True
  | operation :: operations =>
    (operation.additions ≠ [] → (s.perform operation).session.working = s.working) ∧
      (s.perform operation).session.AddsNoKey operations

theorem run_descends_of_addsNoKey {s : Session} {operations : List Operation}
    (hs : s.AddsNoKey operations) (hworking : s.working.Descends (fun _ _ => False) s.base) :
    (s.run operations).working.Descends (fun _ _ => False) s.base := by
  induction operations generalizing s with
  | nil => exact hworking
  | cons operation operations ih =>
    obtain ⟨hkept, hrest⟩ := hs
    have hstep : (s.perform operation).session.working.Descends (fun _ _ => False) s.base := by
      by_cases hnone : operation.additions = []
      · refine perform_invariant (P := fun d => d.Descends (fun _ _ => False) s.base) ?_ ?_
          (.refl _) hworking
        · intro _ _ _ d d' h hd
          exact (Document.deleteEntry_descends h).trans hd
        · rw [hnone]
          simp
      · rwa [hkept hnone]
    rw [← s.perform_base operation] at hstep ⊢
    exact ih hrest hstep

/-- **The changes of a session determine its working copy**, up to names. -/
theorem run_changes_determine_working {base : Document} (h : base.tableNames.Nodup)
    (operations : List Operation) :
    Change.Determines base ((start base).run operations).working
      ((start base).run operations).changes ∧
    ((start base).AddsNoKey operations →
      ∀ c ∈ ((start base).run operations).changes, c.isRemoval = true) := by
  have hchanges : ((start base).run operations).changes =
      Change.between base ((start base).run operations).working := by
    rw [changes, run_base]
    rfl
  rw [hchanges]
  refine ⟨Change.determines_of_descends (run_descends_injecting base operations) h, ?_⟩
  intro hnone c hc
  exact Change.isRemoval_of_descends (run_descends_of_addsNoKey hnone (.refl base)) h hc

instance decidableAddsNoKey :
    (s : Session) → (operations : List Operation) → Decidable (s.AddsNoKey operations)
  | _, [] => isTrue trivial
  | s, operation :: operations =>
    haveI := decidableAddsNoKey (s.perform operation).session operations
    inferInstanceAs (Decidable (_ ∧ _))

/-- Three tables, one of which names a column twice. -/
def shop : Document :=
  ⟨[⟨"orders", [⟨"id", "INTEGER", false⟩, ⟨"note", "TEXT", true⟩, ⟨"note", "CLOB", true⟩], none,
      some [⟨"fk_orders_items_id_1", ["id"], "items", ["id"]⟩]⟩,
    ⟨"items", [⟨"id", "INTEGER", false⟩, ⟨"tag", "TEXT", true⟩], some ["id"], none⟩,
    ⟨"old_items", [⟨"id", "INTEGER", false⟩], none, some []⟩]⟩

/-- Edits that a reset drops; then a batch that fails behind its deletions, additions one of which
takes the name of a deleted key, and a deletion in one piece. -/
def reworking : List Operation :=
  [.addKeys ["items|id|-->|orders|id"], .reset,
    .transform ["del fk pattern:fk_orders_items_id_?", "del column items pattern:ta?",
      "del everything", "del table pattern:*"],
    .addKeysWhole ["orders|id|-->|items|id", "items|tag|-->|orders|note"],
    .transformWhole ["del table pattern:old?items"]]

/-- Deletions, and additions that fail. -/
def trimming : List Operation :=
  [.addKeys ["missing|id|-->|orders|id"], .transform ["del column * pattern:note"],
    .addKeysWhole ["items|tag|-->|orders|id", "items|tag"], .omitKeys ["type"],
    .transform ["del fk pattern:fk_orders_items_id_[1]", "del table pattern:old?items"]]

theorem shop_changes :
    shop.tableNames.Nodup ∧
    ((start shop).run reworking).changes =
      [.columnRemoved "items" "tag", .keyAdded "items" "fk_items_orders_tag_1",
        .tableRemoved "old_items"] ∧
    Change.Determines shop ((start shop).run reworking).working
      ((start shop).run reworking).changes ∧
    (start shop).AddsNoKey trimming ∧
    ((start shop).run trimming).changes =
      [.columnRemoved "orders" "note", .columnRemoved "orders" "note",
        .keyRemoved "orders" "fk_orders_items_id_1", .tableRemoved "old_items"] ∧
    ∀ c ∈ ((start shop).run trimming).changes, c.isRemoval = true := by
  have hnames : shop.tableNames.Nodup := by decide
  have hnone : (start shop).AddsNoKey trimming := by decide +kernel
  exact ⟨hnames, by decide +kernel, (run_changes_determine_working hnames reworking).1, hnone,
    by decide +kernel, (run_changes_determine_working hnames trimming).2 hnone⟩

end Session

end SchemaShaper
