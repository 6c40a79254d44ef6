import SchemaShaper.Document.Change
import Mathlib.Data.List.Perm.Basic
import Mathlib.Data.List.Nodup
import Mathlib.Data.List.Count

/-!
# What a comparison of documents lists

Where the names of the tables of each document are distinct, `Change.between` lists every change by
name as often as it has to be listed, and in order (`Change.between_lists_differences`). It is read
off the number of times that a change is listed (`Change.count_between`): only the tables of one
name list changes about that name, and in a list of such tables there is at most one. That number
stays the same when the documents change places and the change is turned round, so the comparison
the other way lists the mirrored changes.
-/

namespace SchemaShaper

/-- The names of the columns. -/
def Table.columnNames (t : Table) : List String := t.columns.map (·.name)

theorem Table.hasColumn_iff {t : Table} {name : String} :
    t.hasColumn name = true ↔ name ∈ t.columnNames := by
  simp [hasColumn, columnNames]

/-- A table of a document is the first of its name, when no other table has that name. -/
theorem Document.table?_of_mem {d : Document} (hd : d.tableNames.Nodup) {t : Table}
    (ht : t ∈ d.tables) : d.table? t.name = some t := by
  cases h : d.table? t.name with
  | none =>
    have hnone := List.find?_eq_none.1 h t ht
    simp at hnone
  | some u =>
    have hname := name_of_table? h
    rw [List.inj_on_of_nodup_map hd (mem_of_table? h) ht hname]

namespace Change

/-- The table that a change is about. -/
def table : Change → String
  | tableRemoved table | tableAdded table => table
  | columnRemoved table _ | columnAdded table _ => table
  | keyRemoved table _ | keyAdded table _ => table

/-- The change with removal and addition exchanged. -/
def mirror : Change → Change
  | tableRemoved table => tableAdded table
  | tableAdded table => tableRemoved table
  | columnRemoved table column => columnAdded table column
  | columnAdded table column => columnRemoved table column
  | keyRemoved table key => keyAdded table key
  | keyAdded table key => keyRemoved table key

theorem mirror_mirror (c : Change) : c.mirror.mirror = c := by
  cases c <;> rfl

theorem mirror_injective : Function.Injective mirror := by
  intro c c' h
  rw [← mirror_mirror c, h, mirror_mirror]

/-! ## How often a change is listed -/

/-- How often a name of the first list has to be reported as missing from the second. -/
def missing (names others : List String) (name : String) : Nat :=
  if name ∈ others then 0 else names.count name

/-- How often a change about two tables of one name has to be listed. -/
def timesAbout (before after : Table) : Change → Nat
  | columnRemoved _ column => missing before.columnNames after.columnNames column
  | columnAdded _ column => missing after.columnNames before.columnNames column
  | keyRemoved _ key => missing before.keyNames after.keyNames key
  | keyAdded _ key => missing after.keyNames before.keyNames key
  | _ => 0

/-- How often a change has to be listed. -/
def times (base working : Document) (c : Change) : Nat :=
  match base.table? c.table, working.table? c.table with
  | some before, some after => timesAbout before after c
  | some _, none => if c = tableRemoved c.table then 1 else 0
  | none, some _ => if c = tableAdded c.table then 1 else 0
  | none, none => 0

theorem timesAbout_mirror (before after : Table) (c : Change) :
    timesAbout after before c.mirror = timesAbout before after c := by
  cases c <;> rfl

theorem count_filter_not_contains (names others : List String) (name : String) :
    (names.filter fun n => !others.contains n).count name = missing names others name := by
  unfold missing
  split
  · next h =>
    refine List.count_eq_zero.2 fun hmem => ?_
    have hnot := (List.mem_filter.1 hmem).2
    simp [h] at hnot
  · next h => exact List.count_filter (by simp [h])

theorem betweenTables_eq (before after : Table) :
    betweenTables before after =
      (before.columnNames.filter fun n => !after.columnNames.contains n).map
        (columnRemoved before.name)
      ++ (after.columnNames.filter fun n => !before.columnNames.contains n).map
        (columnAdded before.name)
      ++ (before.keyNames.filter fun n => !after.keyNames.contains n).map (keyRemoved before.name)
      ++ (after.keyNames.filter fun n => !before.keyNames.contains n).map
        (keyAdded before.name) := by
  have hcontains : ∀ (t : Table) (n : String), t.hasColumn n = t.columnNames.contains n := by
    intro t n
    rw [Bool.eq_iff_iff, Table.hasColumn_iff, List.contains_iff_mem]
  unfold betweenTables
  simp only [hcontains]
  rfl

theorem of_mem_betweenTables {before after : Table} {c : Change}
    (h : c ∈ betweenTables before after) :
    c.table = before.name ∧ ∀ name, c ≠ tableRemoved name ∧ c ≠ tableAdded name := by
  rw [betweenTables_eq] at h
  simp only [List.mem_append, List.mem_map] at h
  rcases h with ((⟨n, -, rfl⟩ | ⟨n, -, rfl⟩) | ⟨n, -, rfl⟩) | ⟨n, -, rfl⟩ <;>
    simp [table]

/-- A block of changes of one kind lists each missing name as often as it occurs. -/
theorem count_block {change : String → Change} (hinj : Function.Injective change)
    (names others : List String) (name : String) :
    ((names.filter fun n => !others.contains n).map change).count (change name) =
      missing names others name := by
  rw [List.count_map_of_injective _ change hinj, count_filter_not_contains]

/-- A block of changes of another kind does not list the change. -/
theorem count_other_block {change : String → Change} {c : Change} (h : ∀ name, change name ≠ c)
    (names : List String) : (names.map change).count c = 0 := by
  refine List.count_eq_zero.2 fun hmem => ?_
  obtain ⟨name, -, hname⟩ := List.mem_map.1 hmem
  exact h name hname

theorem count_betweenTables {before after : Table} {c : Change} (hc : c.table = before.name) :
    (betweenTables before after).count c = timesAbout before after c := by
  rw [betweenTables_eq]
  simp only [List.count_append]
  cases c with
  | tableRemoved table | tableAdded table => simp [count_other_block, timesAbout]
  | columnRemoved table column =>
    cases hc
    rw [count_block fun _ _ h => (columnRemoved.inj h).2]
    simp [count_other_block, timesAbout]
  | columnAdded table column =>
    cases hc
    rw [count_block fun _ _ h => (columnAdded.inj h).2]
    simp [count_other_block, timesAbout]
  | keyRemoved table key =>
    cases hc
    rw [count_block fun _ _ h => (keyRemoved.inj h).2]
    simp [count_other_block, timesAbout]
  | keyAdded table key =>
    cases hc
    rw [count_block fun _ _ h => (keyAdded.inj h).2]
    simp [count_other_block, timesAbout]

/-! ## All tables -/

theorem aboutTable_of_none {working : Document} {t : Table} (h : working.table? t.name = none) :
    aboutTable working t = [tableRemoved t.name] := by
  rw [aboutTable, h]

theorem aboutTable_of_some {working : Document} {t current : Table}
    (h : working.table? t.name = some current) :
    aboutTable working t = betweenTables t current := by
  rw [aboutTable, h]

theorem of_mem_aboutTable {working : Document} {t : Table} {c : Change}
    (h : c ∈ aboutTable working t) : c.table = t.name ∧ ∀ name, c ≠ tableAdded name := by
  cases hw : working.table? t.name with
  | none =>
    rw [aboutTable_of_none hw, List.mem_singleton] at h
    rw [h]
    exact ⟨rfl, fun _ h => by cases h⟩
  | some current =>
    rw [aboutTable_of_some hw] at h
    obtain ⟨htable, hkind⟩ := of_mem_betweenTables h
    exact ⟨htable, fun name => (hkind name).2⟩

theorem count_aboutTable (working : Document) {t : Table} {c : Change} (hc : c.table = t.name) :
    (aboutTable working t).count c =
      match working.table? t.name with
      | some current => timesAbout t current c
      | none => if c = tableRemoved t.name then 1 else 0 := by
  cases hw : working.table? t.name with
  | none => simp only [aboutTable_of_none hw, List.count_singleton, beq_iff_eq, eq_comm (a := c)]
  | some current =>
    rw [aboutTable_of_some hw]
    exact count_betweenTables hc

/-- Where the names of tables are distinct, only the table that a change is about lists it. -/
theorem count_flatMap_aboutTable {base : Document} (hb : base.tableNames.Nodup)
    (working : Document) (c : Change) :
    (base.tables.flatMap (aboutTable working)).count c =
      match base.table? c.table with
      | some t => (aboutTable working t).count c
      | none => 0 := by
  obtain ⟨tables⟩ := base
  unfold Document.table?
  induction tables with
  | nil => rfl
  | cons t ts ih =>
    obtain ⟨hnot, hts⟩ := List.nodup_cons.1 hb
    rw [List.flatMap_cons, List.count_append, ih hts, List.find?_cons]
    cases hname : t.name == c.table with
    | true =>
      have hnone : ts.find? (·.name == c.table) = none := by
        refine List.find?_eq_none.2 fun u hu => ?_
        rw [beq_iff_eq] at hname ⊢
        intro h
        exact hnot (List.mem_map.2 ⟨u, hu, h.trans hname.symm⟩)
      rw [hnone]
      rfl
    | false =>
      have hzero : (aboutTable working t).count c = 0 := by
        refine List.count_eq_zero.2 fun hmem => ?_
        rw [(of_mem_aboutTable hmem).1, beq_self_eq_true] at hname
        cases hname
      rw [hzero, Nat.zero_add]

theorem count_added {base working : Document} (hw : working.tableNames.Nodup) (c : Change) :
    ((working.tableNames.filter fun name => (base.table? name).isNone).map tableAdded).count c =
      match base.table? c.table, working.table? c.table with
      | none, some _ => if c = tableAdded c.table then 1 else 0
      | _, _ => 0 := by
  by_cases hc : c = tableAdded c.table
  · rw [if_pos hc]
    generalize c.table = name at hc
    subst hc
    rw [List.count_map_of_injective _ _ fun _ _ => tableAdded.inj, (hw.filter _).count]
    cases hb : base.table? name with
    | some before => simp [hb]
    | none =>
      have hmem := @Document.table?_eq_none_iff working name
      cases hw : working.table? name with
      | some after => simp_all
      | none => simp_all
  · rw [count_other_block, if_neg hc]
    · split <;> rfl
    · rintro name rfl
      exact hc rfl

/-- A change is listed as often as it has to be. -/
theorem count_between {base working : Document} (hb : base.tableNames.Nodup)
    (hw : working.tableNames.Nodup) (c : Change) :
    (between base working).count c = times base working c := by
  unfold between times
  rw [List.count_append, count_flatMap_aboutTable hb, count_added hw]
  cases hbase : base.table? c.table with
  | none => cases working.table? c.table <;> simp
  | some t =>
    have hname := Document.name_of_table? hbase
    simp only
    rw [count_aboutTable working hname.symm, hname]
    cases working.table? c.table <;> simp

theorem times_mirror (base working : Document) (c : Change) :
    times working base c.mirror = times base working c := by
  have htable : c.mirror.table = c.table := by cases c <;> rfl
  have hremoved : c.mirror = tableRemoved c.table ↔ c = tableAdded c.table := by
    cases c <;> simp [mirror, table]
  have hadded : c.mirror = tableAdded c.table ↔ c = tableRemoved c.table := by
    cases c <;> simp [mirror, table]
  unfold times
  rw [htable]
  simp only [hremoved, hadded]
  cases base.table? c.table <;> cases working.table? c.table <;> simp only [timesAbout_mirror]

/-! ## The order of the changes -/

/-- Where the table of a change stands: the tables of the first document in its order, and behind
them those that only the second has. -/
def tablePlace (base working : Document) : Change → Nat
  | tableAdded table => base.tableNames.length + working.tableNames.idxOf table
  | c => base.tableNames.idxOf c.table

/-- Where a change of this kind stands among those about its table. -/
def kindPlace : Change → Nat
  | tableRemoved _ | tableAdded _ | columnRemoved .. => 0
  | columnAdded .. => 1
  | keyRemoved .. => 2
  | keyAdded .. => 3

/-- The first change may be listed in front of the second. -/
def MayPrecede (base working : Document) (c c' : Change) : Prop :=
  c.tablePlace base working < c'.tablePlace base working ∨
    c.tablePlace base working = c'.tablePlace base working ∧ c.kindPlace ≤ c'.kindPlace

theorem pairwise_idxOf_lt {names : List String} (h : names.Nodup) :
    names.Pairwise fun a b => names.idxOf a < names.idxOf b := by
  refine List.pairwise_iff_getElem.2 fun i j hi hj hij => ?_
  rw [h.idxOf_getElem i hi, h.idxOf_getElem j hj]
  exact hij

theorem pairwise_kindPlace_betweenTables (before after : Table) :
    (betweenTables before after).Pairwise fun c c' => c.kindPlace ≤ c'.kindPlace := by
  have hblock : ∀ (change : String → Change) (names : List String),
      (∀ name name', (change name).kindPlace ≤ (change name').kindPlace) →
      (names.map change).Pairwise fun c c' => c.kindPlace ≤ c'.kindPlace := fun change names h =>
    List.pairwise_map.2 (List.pairwise_of_forall h)
  rw [betweenTables_eq]
  simp only [List.pairwise_append, List.mem_append, List.mem_map]
  refine ⟨⟨⟨hblock _ _ fun _ _ => Nat.le_refl _, hblock _ _ fun _ _ => Nat.le_refl _, ?_⟩,
    hblock _ _ fun _ _ => Nat.le_refl _, ?_⟩, hblock _ _ fun _ _ => Nat.le_refl _, ?_⟩
  · rintro _ ⟨_, -, rfl⟩ _ ⟨_, -, rfl⟩
    exact Nat.zero_le _
  · rintro _ (⟨_, -, rfl⟩ | ⟨_, -, rfl⟩) _ ⟨_, -, rfl⟩ <;> simp [kindPlace]
  · rintro _ ((⟨_, -, rfl⟩ | ⟨_, -, rfl⟩) | ⟨_, -, rfl⟩) _ ⟨_, -, rfl⟩ <;> simp [kindPlace]

/-- A change that a table of the first document lists stands at the place of that table. -/
theorem tablePlace_of_mem_aboutTable {base working : Document} {t : Table} {c : Change}
    (h : c ∈ aboutTable working t) : c.tablePlace base working = base.tableNames.idxOf t.name := by
  obtain ⟨htable, hkind⟩ := of_mem_aboutTable h
  cases c with
  | tableAdded name => exact absurd rfl (hkind name)
  | _ => rw [← htable]; rfl

theorem pairwise_aboutTable (base working : Document) (t : Table) :
    (aboutTable working t).Pairwise (MayPrecede base working) := by
  have hkind : (aboutTable working t).Pairwise fun c c' => c.kindPlace ≤ c'.kindPlace := by
    cases hw : working.table? t.name with
    | none =>
      rw [aboutTable_of_none hw]
      exact List.pairwise_singleton _ _
    | some current =>
      rw [aboutTable_of_some hw]
      exact pairwise_kindPlace_betweenTables t current
  refine hkind.imp_of_mem fun hc hc' hle => Or.inr ⟨?_, hle⟩
  rw [tablePlace_of_mem_aboutTable hc, tablePlace_of_mem_aboutTable hc']

theorem pairwise_between {base working : Document} (hb : base.tableNames.Nodup)
    (hw : working.tableNames.Nodup) :
    (between base working).Pairwise (MayPrecede base working) := by
  refine List.pairwise_append.2 ⟨List.pairwise_flatMap.2 ⟨?_, ?_⟩, ?_, ?_⟩
  · exact fun t _ => pairwise_aboutTable base working t
  · refine (List.pairwise_map.1 (pairwise_idxOf_lt hb)).imp fun hlt c hc c' hc' => Or.inl ?_
    rwa [tablePlace_of_mem_aboutTable hc, tablePlace_of_mem_aboutTable hc']
  · refine List.pairwise_map.2 (((pairwise_idxOf_lt hw).sublist List.filter_sublist).imp ?_)
    exact fun hlt => Or.inl (Nat.add_lt_add_left hlt _)
  · intro c hc c' hc'
    obtain ⟨t, ht, hc⟩ := List.mem_flatMap.1 hc
    obtain ⟨name, -, rfl⟩ := List.mem_map.1 hc'
    have hlt := List.idxOf_lt_length_iff.2 (List.mem_map_of_mem (f := (·.name)) ht)
    refine Or.inl ?_
    rw [tablePlace_of_mem_aboutTable hc]
    exact Nat.lt_of_lt_of_le hlt (Nat.le_add_right _ _)

/-! ## The whole comparison -/

/-- The list holds the differences of two documents by name, each as often as it has to be listed,
and in order. -/
structure ListsDifferences (base working : Document) (changes : List Change) : Prop where
  count_tableRemoved : ∀ name, changes.count (tableRemoved name) =
    if name ∈ base.tableNames ∧ name ∉ working.tableNames then 1 else 0
  count_tableAdded : ∀ name, changes.count (tableAdded name) =
    if name ∈ working.tableNames ∧ name ∉ base.tableNames then 1 else 0
  count_columnRemoved : ∀ before ∈ base.tables, ∀ after ∈ working.tables,
    before.name = after.name → ∀ column, changes.count (columnRemoved before.name column) =
      if column ∈ after.columnNames then 0 else before.columnNames.count column
  count_columnAdded : ∀ before ∈ base.tables, ∀ after ∈ working.tables,
    before.name = after.name → ∀ column, changes.count (columnAdded before.name column) =
      if column ∈ before.columnNames then 0 else after.columnNames.count column
  count_keyRemoved : ∀ before ∈ base.tables, ∀ after ∈ working.tables,
    before.name = after.name → ∀ key, changes.count (keyRemoved before.name key) =
      if key ∈ after.keyNames then 0 else before.keyNames.count key
  count_keyAdded : ∀ before ∈ base.tables, ∀ after ∈ working.tables,
    before.name = after.name → ∀ key, changes.count (keyAdded before.name key) =
      if key ∈ before.keyNames then 0 else after.keyNames.count key
  /-- Nothing is listed about the columns or keys of a table that is not in both. -/
  in_both : ∀ c ∈ changes, c = tableRemoved c.table ∨ c = tableAdded c.table ∨
    c.table ∈ base.tableNames ∧ c.table ∈ working.tableNames
  ordered : changes.Pairwise (MayPrecede base working)

theorem count_between_of_mem {base working : Document} (hb : base.tableNames.Nodup)
    (hw : working.tableNames.Nodup) {before after : Table} (hbefore : before ∈ base.tables)
    (hafter : after ∈ working.tables) (hname : before.name = after.name) {c : Change}
    (hc : c.table = before.name) :
    (between base working).count c = timesAbout before after c := by
  rw [count_between hb hw, times, hc, Document.table?_of_mem hb hbefore, hname,
    Document.table?_of_mem hw hafter]

theorem listsDifferences_between {base working : Document} (hb : base.tableNames.Nodup)
    (hw : working.tableNames.Nodup) : ListsDifferences base working (between base working) where
  count_tableRemoved name := by
    rw [count_between hb hw, times]
    cases hbase : base.table? name <;> cases hworking : working.table? name <;>
      simp [table, timesAbout, hbase, hworking, Document.mem_tableNames_iff]
  count_tableAdded name := by
    rw [count_between hb hw, times]
    cases hbase : base.table? name <;> cases hworking : working.table? name <;>
      simp [table, timesAbout, hbase, hworking, Document.mem_tableNames_iff]
  count_columnRemoved before hbefore after hafter hname column :=
    count_between_of_mem hb hw hbefore hafter hname rfl
  count_columnAdded before hbefore after hafter hname column :=
    count_between_of_mem hb hw hbefore hafter hname rfl
  count_keyRemoved before hbefore after hafter hname key :=
    count_between_of_mem hb hw hbefore hafter hname rfl
  count_keyAdded before hbefore after hafter hname key :=
    count_between_of_mem hb hw hbefore hafter hname rfl
  in_both c hc := by
    have hlisted : times base working c ≠ 0 := by
      rw [← count_between hb hw]
      exact Nat.pos_iff_ne_zero.1 (List.count_pos_iff.2 hc)
    unfold times at hlisted
    cases hbase : base.table? c.table with
    | none =>
      cases hworking : working.table? c.table with
      | none => simp [hbase, hworking] at hlisted
      | some after =>
        simp only [hbase, hworking, ne_eq, ite_eq_right_iff, Classical.not_imp] at hlisted
        exact Or.inr (Or.inl hlisted.1)
    | some before =>
      cases hworking : working.table? c.table with
      | none =>
        simp only [hbase, hworking, ne_eq, ite_eq_right_iff, Classical.not_imp] at hlisted
        exact Or.inl hlisted.1
      | some after =>
        exact Or.inr (Or.inr ⟨Document.mem_tableNames_iff.2 ⟨before, hbase⟩,
          Document.mem_tableNames_iff.2 ⟨after, hworking⟩⟩)
  ordered := pairwise_between hb hw

/-- **What a comparison lists.** Between documents whose tables have distinct names, the changes are
the differences by name, in order; the other way round, they are the same with removals and
additions exchanged. -/
theorem between_lists_differences {base working : Document} (hb : base.tableNames.Nodup)
    (hw : working.tableNames.Nodup) :
    ListsDifferences base working (between base working) ∧
      (between working base).Perm ((between base working).map mirror) := by
  refine ⟨listsDifferences_between hb hw, List.perm_iff_count.2 fun c => ?_⟩
  rw [← mirror_mirror c, List.count_map_of_injective _ _ mirror_injective,
    count_between hw hb, count_between hb hw, times_mirror]

/-- Two tables, one of which names a column twice. -/
def earlier : Document :=
  ⟨[⟨"a", [⟨"id", "INTEGER", false⟩, ⟨"note", "TEXT", true⟩, ⟨"note", "CLOB", true⟩], none,
      some [⟨"to_b", ["id"], "b", ["id"]⟩]⟩, ⟨"b", [⟨"id", "INTEGER", false⟩], none, none⟩]⟩

/-- One table has gone and another has come in front; columns and keys of the third have changed. -/
def later : Document :=
  ⟨[⟨"c", [], none, none⟩, ⟨"a", [⟨"head", "INTEGER", true⟩, ⟨"id", "TEXT", true⟩], none,
      some [⟨"to_c", ["id"], "c", ["id"]⟩]⟩]⟩

theorem earlier_later_differences :
    (earlier.tableNames.Nodup ∧ later.tableNames.Nodup) ∧
    between earlier later =
      [columnRemoved "a" "note", columnRemoved "a" "note", columnAdded "a" "head",
        keyRemoved "a" "to_b", keyAdded "a" "to_c", tableRemoved "b", tableAdded "c"] ∧
    ListsDifferences earlier later (between earlier later) ∧
    (between later earlier).Perm ((between earlier later).map mirror) := by
  have hearlier : earlier.tableNames.Nodup := by decide
  have hlater : later.tableNames.Nodup := by decide
  exact ⟨⟨hearlier, hlater⟩, by decide, between_lists_differences hearlier hlater⟩

end Change

end SchemaShaper
