import SchemaShaper.Document.Basic

/-!
# Structural findings

`Document.check` lists what is wrong with a document, in table order. A repeated table name and an
unbalanced foreign key break the model and are errors. References to columns or tables that are not
there can be left behind by deletions and are warnings.
-/

namespace SchemaShaper

/-- A structural finding. -/
inductive Finding where
  | duplicateTable (table : String)
  | keyArity (table key : String) (sources targets : Nat)
  | unknownPrimaryColumn (table column : String)
  | unknownSourceColumn (table key column : String)
  | danglingKey (table key target : String)
  | unknownTargetColumn (table key target column : String)
  deriving DecidableEq, Repr

namespace Finding

/-- Does the finding break the document model? -/
def isError : Finding → Bool
  | duplicateTable _ | keyArity .. => true
  | _ => false

/-- The wording of a finding. -/
def message : Finding → String
  | duplicateTable table => s!"duplicate table name: {table}"
  | keyArity table key sources targets =>
    s!"foreign key {table}.{key} pairs {sources} source column(s) with {targets} target column(s)"
  | unknownPrimaryColumn table column =>
    s!"primary key of {table} references unknown column: {column}"
  | unknownSourceColumn table key column =>
    s!"foreign key {table}.{key} references unknown source column: {column}"
  | danglingKey table key target =>
    s!"foreign key {table}.{key} references missing table: {target}"
  | unknownTargetColumn table key target column =>
    s!"foreign key {table}.{key} references unknown column: {target}.{column}"

end Finding

/-- The names that are no column of the table, in order and with repetitions. -/
def Table.unknownColumns (t : Table) (names : List String) : List String :=
  names.filter (!t.hasColumn ·)

/-- The findings about one foreign key of a table of the document. -/
def Document.checkKey (d : Document) (t : Table) (k : ForeignKey) : List Finding :=
  (if k.isBalanced then []
    else [.keyArity t.name k.name k.sourceColumns.length k.targetColumns.length])
  ++ (t.unknownColumns k.sourceColumns).map (.unknownSourceColumn t.name k.name)
  ++ match d.table? k.targetTable with
    | none => [.danglingKey t.name k.name k.targetTable]
    | some target =>
      (target.unknownColumns k.targetColumns).map
        (.unknownTargetColumn t.name k.name k.targetTable)

/-- The findings about one table of the document, apart from its name. -/
def Document.checkTable (d : Document) (t : Table) : List Finding :=
  (t.unknownColumns t.primaryColumns).map (.unknownPrimaryColumn t.name)
  ++ t.keys.flatMap (d.checkKey t)

/-- The findings about the tables of a list, when the names in `seen` stand before it. -/
def Document.checkFrom (d : Document) (seen : List String) : List Table → List Finding
  | [] => []
  | t :: ts =>
    (if seen.contains t.name then [.duplicateTable t.name] else [])
    ++ d.checkTable t ++ d.checkFrom (t.name :: seen) ts

/-- All structural findings, in table order. -/
def Document.check (d : Document) : List Finding := d.checkFrom [] d.tables

end SchemaShaper
