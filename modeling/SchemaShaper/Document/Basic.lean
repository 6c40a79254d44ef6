/-!
# Schema documents

A document is an ordered list of tables; a table has columns, possibly a primary key and possibly
foreign keys. An absent primary key or foreign key list differs from one that is declared empty.
Names may repeat, and looking a table or a column up by name finds the first of that name.

The `keep` operations take a test of position and element. They keep the order of what stays, and
the number removed is the difference in length.
-/

namespace SchemaShaper

/-- A column. Its type is the raw token of the database, such as `DECIMAL(9,2)`. -/
structure Column where
  name : String
  type : String
  nullable : Bool
  deriving DecidableEq, Repr

/-- A named foreign key: the source columns pair up, by position, with columns of the target
table. -/
structure ForeignKey where
  name : String
  sourceColumns : List String
  targetTable : String
  targetColumns : List String
  deriving DecidableEq, Repr

/-- Are there as many source columns as target columns? -/
def ForeignKey.isBalanced (k : ForeignKey) : Bool :=
  k.sourceColumns.length == k.targetColumns.length

/-- A table. -/
structure Table where
  name : String
  columns : List Column
  primaryKey : Option (List String)
  foreignKeys : Option (List ForeignKey)
  deriving DecidableEq, Repr

/-- A schema document. -/
structure Document where
  tables : List Table
  deriving DecidableEq, Repr

/-- The elements of a list that pass a test of position and element, in order. -/
def keepAt {α : Type} (keep : Nat → α → Bool) (xs : List α) : List α :=
  (xs.zipIdx.filter fun (x, i) => keep i x).map (·.1)

theorem keepAt_sublist {α : Type} (keep : Nat → α → Bool) (xs : List α) :
    (keepAt keep xs).Sublist xs := by
  have h : ((xs.zipIdx.filter fun (x, i) => keep i x).map (·.1)).Sublist (xs.zipIdx.map (·.1)) :=
    List.filter_sublist.map _
  rwa [List.zipIdx_map_fst] at h

/-- A test that does not look at the position filters the list. -/
theorem keepAt_eq_filter {α : Type} (keep : α → Bool) (xs : List α) :
    keepAt (fun _ x => keep x) xs = xs.filter keep := by
  have h : (xs.zipIdx.map (·.1)).filter keep = (xs.zipIdx.filter fun (x, _) => keep x).map (·.1) :=
    List.filter_map
  rw [List.zipIdx_map_fst] at h
  exact h.symm

namespace Table

/-- The first column of a name. -/
def column? (t : Table) (name : String) : Option Column := t.columns.find? (·.name == name)

/-- Does the table have a column of this name? -/
def hasColumn (t : Table) (name : String) : Bool := t.columns.any (·.name == name)

/-- The foreign keys, none when the table declares none. -/
def keys (t : Table) : List ForeignKey := t.foreignKeys.getD []

/-- The names of the foreign keys. -/
def keyNames (t : Table) : List String := t.keys.map (·.name)

/-- The columns of the primary key, none when the table declares none. -/
def primaryColumns (t : Table) : List String := t.primaryKey.getD []

/-- Keep the columns that pass the test. -/
def keepColumns (keep : Nat → Column → Bool) (t : Table) : Table :=
  { t with columns := keepAt keep t.columns }

/-- Keep the foreign keys that pass the test. A list that this empties becomes absent; one that was
empty before stays declared. -/
def keepKeys (keep : Nat → ForeignKey → Bool) (t : Table) : Table :=
  match t.foreignKeys with
  | none => t
  | some keys =>
    let kept := keepAt keep keys
    { t with foreignKeys := if kept.isEmpty && !keys.isEmpty then none else some kept }

/-- Append a foreign key, declaring the list when the table has none. -/
def pushKey (t : Table) (key : ForeignKey) : Table :=
  { t with foreignKeys := some (t.keys ++ [key]) }

/-- Append a column. -/
def pushColumn (t : Table) (column : Column) : Table :=
  { t with columns := t.columns ++ [column] }

@[simp] theorem keys_keepKeys (keep : Nat → ForeignKey → Bool) (t : Table) :
    (t.keepKeys keep).keys = keepAt keep t.keys := by
  unfold keepKeys keys
  cases hk : t.foreignKeys with
  | none => simp [hk, keepAt]
  | some keys =>
    simp only [Option.getD_some]
    split
    · next h =>
      rw [Bool.and_eq_true, List.isEmpty_iff] at h
      simp [h.1]
    · rfl

@[simp] theorem keys_pushKey (t : Table) (key : ForeignKey) :
    (t.pushKey key).keys = t.keys ++ [key] := rfl

@[simp] theorem name_keepKeys (keep : Nat → ForeignKey → Bool) (t : Table) :
    (t.keepKeys keep).name = t.name := by
  unfold keepKeys
  cases t.foreignKeys <;> rfl

@[simp] theorem columns_keepKeys (keep : Nat → ForeignKey → Bool) (t : Table) :
    (t.keepKeys keep).columns = t.columns := by
  unfold keepKeys
  cases t.foreignKeys <;> rfl

@[simp] theorem primaryKey_keepKeys (keep : Nat → ForeignKey → Bool) (t : Table) :
    (t.keepKeys keep).primaryKey = t.primaryKey := by
  unfold keepKeys
  cases t.foreignKeys <;> rfl

end Table

namespace Document

/-- The names of the tables, in order. -/
def tableNames (d : Document) : List String := d.tables.map (·.name)

/-- The first table of a name. -/
def table? (d : Document) (name : String) : Option Table := d.tables.find? (·.name == name)

theorem mem_of_table? {d : Document} {name : String} {t : Table} (h : d.table? name = some t) :
    t ∈ d.tables := List.mem_of_find?_eq_some h

theorem name_of_table? {d : Document} {name : String} {t : Table} (h : d.table? name = some t) :
    t.name = name := by
  have hname : (t.name == name) = true := List.find?_some (p := fun t : Table => t.name == name) h
  exact beq_iff_eq.1 hname

theorem mem_tableNames_iff {d : Document} {name : String} :
    name ∈ d.tableNames ↔ ∃ t, d.table? name = some t := by
  unfold tableNames table?
  rw [← Option.isSome_iff_exists, List.find?_isSome, List.mem_map]
  simp only [beq_iff_eq]

theorem table?_eq_none_iff {d : Document} {name : String} :
    d.table? name = none ↔ name ∉ d.tableNames := by
  rw [mem_tableNames_iff, ← Option.isSome_iff_exists, Option.not_isSome_iff_eq_none]

/-- Keep the tables that pass the test. -/
def keepTables (keep : Nat → Table → Bool) (d : Document) : Document :=
  ⟨keepAt keep d.tables⟩

/-- Change the first table of a name; nothing changes when there is none. -/
def modifyTable (name : String) (f : Table → Table) (d : Document) : Document :=
  ⟨go d.tables⟩
where
  /-- Change the first table of the name in a list of tables. -/
  go : List Table → List Table
    | [] => []
    | t :: ts => if t.name == name then f t :: ts else t :: go ts

end Document

end SchemaShaper
