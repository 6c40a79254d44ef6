import SchemaShaper.Document.Basic

/-!
# Changes between two documents

`Change.between` compares two documents by name. The changes about the tables of the first come in
its order; tables that only the second has come last. Within a table the removed columns come
before the added ones, then the removed and the added foreign keys.
-/

namespace SchemaShaper

/-- One difference between two documents. -/
inductive Change where
  | tableRemoved (table : String)
  | tableAdded (table : String)
  | columnRemoved (table column : String)
  | columnAdded (table column : String)
  | keyRemoved (table key : String)
  | keyAdded (table key : String)
  deriving DecidableEq, Repr

namespace Change

/-- Does the change take something away? -/
def isRemoval : Change → Bool
  | tableRemoved _ | columnRemoved .. | keyRemoved .. => true
  | _ => false

/-- The written form of a change. -/
def display : Change → String
  | tableRemoved table => s!"- table {table}"
  | tableAdded table => s!"+ table {table}"
  | columnRemoved table column => s!"- column {table}.{column}"
  | columnAdded table column => s!"+ column {table}.{column}"
  | keyRemoved table key => s!"- fk {table}.{key}"
  | keyAdded table key => s!"+ fk {table}.{key}"

/-- The changes from one table to a table of the same name. -/
def betweenTables (before after : Table) : List Change :=
  ((before.columns.map (·.name)).filter (!after.hasColumn ·)).map (columnRemoved before.name)
  ++ ((after.columns.map (·.name)).filter (!before.hasColumn ·)).map (columnAdded before.name)
  ++ (before.keyNames.filter (!after.keyNames.contains ·)).map (keyRemoved before.name)
  ++ (after.keyNames.filter (!before.keyNames.contains ·)).map (keyAdded before.name)

/-- The changes about one table of the first document. -/
def aboutTable (working : Document) (t : Table) : List Change :=
  match working.table? t.name with
  | none => [tableRemoved t.name]
  | some current => betweenTables t current

/-- The changes from one document to another. -/
def between (base working : Document) : List Change :=
  base.tables.flatMap (aboutTable working)
  ++ (working.tableNames.filter fun name => (base.table? name).isNone).map tableAdded

end Change

end SchemaShaper
