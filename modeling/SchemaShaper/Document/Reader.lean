import SchemaShaper.Document.Basic
import SchemaShaper.Record.Access

/-!
# Reading documents

The records of a document and the names of their fields, as every interchange format uses them. A
table needs its name only; a column and a foreign key need all their fields.
-/

namespace SchemaShaper

variable {m : Type → Type} [Monad m] {α : Type}

/-- Read a column. -/
def Column.read (a : Access m α) (source : α) : m Column := do
  let fields ← a.entries ["columnname", "type", "nullable"] source
  return {
    name := ← a.required "columnname" a.text fields
    type := ← a.required "type" a.text fields
    nullable := ← a.required "nullable" a.flag fields }

/-- Read a foreign key. -/
def ForeignKey.read (a : Access m α) (source : α) : m ForeignKey := do
  let fields ← a.entries ["fkname", "sourcecolumns", "targettable", "targetcolumns"] source
  return {
    name := ← a.required "fkname" a.text fields
    sourceColumns := ← a.required "sourcecolumns" (a.list a.text) fields
    targetTable := ← a.required "targettable" a.text fields
    targetColumns := ← a.required "targetcolumns" (a.list a.text) fields }

/-- Read a table. -/
def Table.read (a : Access m α) (source : α) : m Table := do
  let fields ← a.entries ["tablename", "columns", "primary_key", "foreign_keys"] source
  return {
    name := ← a.required "tablename" a.text fields
    columns := ← a.defaulted "columns" (a.list (Column.read a)) [] fields
    primaryKey := ← a.optional "primary_key" (a.list a.text) fields
    foreignKeys := ← a.optional "foreign_keys" (a.list (ForeignKey.read a)) fields }

/-- Read a document. -/
def Document.read (a : Access m α) (source : α) : m Document := do
  let fields ← a.entries ["tables"] source
  return { tables := ← a.defaulted "tables" (a.list (Table.read a)) [] fields }

end SchemaShaper
