import SchemaShaper.Document.Reader
import SchemaShaper.Value.Record

/-!
# Documents as values

`Document.toValue` is the interchange form of a document: its fields in a fixed order, where an
absent primary key or foreign key list has no entry and one that is declared empty has an empty
sequence. `Document.ofValue?` reads it back.
-/

namespace SchemaShaper

/-- The interchange form of a column. -/
def Column.toValue (c : Column) : Value :=
  .record [("columnname", .text c.name), ("type", .text c.type), ("nullable", .bool c.nullable)]

/-- The interchange form of a foreign key. -/
def ForeignKey.toValue (k : ForeignKey) : Value :=
  .record [("fkname", .text k.name), ("sourcecolumns", .texts k.sourceColumns),
    ("targettable", .text k.targetTable), ("targetcolumns", .texts k.targetColumns)]

/-- The interchange form of a table. -/
def Table.toValue (t : Table) : Value :=
  .record ([("tablename", .text t.name), ("columns", .sequence (t.columns.map Column.toValue))]
    ++ (match t.primaryKey with
      | none => []
      | some names => [("primary_key", .texts names)])
    ++ match t.foreignKeys with
      | none => []
      | some keys => [("foreign_keys", .sequence (keys.map ForeignKey.toValue))])

namespace Document

/-- The interchange form of a document. -/
def toValue (d : Document) : Value :=
  .record [("tables", .sequence (d.tables.map Table.toValue))]

/-- The document that a value is the interchange form of. -/
def ofValue? (v : Value) : Option Document := read Value.access v

end Document

end SchemaShaper
