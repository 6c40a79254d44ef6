import SchemaShaper.JsonSchema.Describe

/-!
# Schemas of documents and settings

The JSON Schemas of the interchange form of documents and of the file of the settings.
-/

namespace SchemaShaper.JsonSchema

/-- The schema of a column. -/
def column : Json :=
  .record (fields
    ("One column of a table, in declaration order.\n\n`type` is kept as the raw type token of the "
      ++ "source (`INTEGER`, `DECIMAL(9,2)`, ...).")
    [("columnname", text), ("nullable", flag), ("type", text)]
    ["columnname", "type", "nullable"])

/-- The schema of a foreign key. -/
def foreignKey : Json :=
  .record (fields
    "A named, positionally paired column mapping from the owning table to `targettable`."
    [("fkname", text), ("sourcecolumns", requiredList text), ("targetcolumns", requiredList text),
      ("targettable", text)]
    ["fkname", "sourcecolumns", "targettable", "targetcolumns"])

/-- The schema of a table. -/
def table : Json :=
  .record (fields
    ("One relational table.\n\n`primary_key` and `foreign_keys` distinguish \"absent\" (`None`, "
      ++ "omitted when\nserialized) from \"declared but empty\" (`Some(vec![])`).")
    [("columns", list "" (reference "ColumnDef")),
      ("foreign_keys", nullableList (reference "ForeignKeyDef")),
      ("primary_key", nullableList text), ("tablename", text)]
    ["tablename"])

/-- The schema of documents. -/
def document : Json :=
  root "SchemaDocument"
    (fields
      ("Normalized relational schema: an ordered list of tables.\n\nTable order is significant (it "
        ++ "reflects the dependency or display order of the\nproducer) and every operation in "
        ++ "relform preserves it.")
      [("tables", list "" (reference "TableDef"))] [])
    [("ColumnDef", column), ("ForeignKeyDef", foreignKey), ("TableDef", table)]

/-- The schema of the diagram's settings. -/
def diagramConfig : Json :=
  .record (fields "Mermaid diagram settings."
    [("direction", defaultReference "Direction" (.string Direction.topDown.name)),
      ("output", nullableText
        "Where `relform mermaid` writes the diagram. Printed to stdout when unset.")] [])

/-- The schema of directions. -/
def direction : Json :=
  choices "Layout direction of a rendered ER diagram."
    [(Direction.topDown.name, "Top to bottom."), (Direction.bottomUp.name, "Bottom to top."),
      (Direction.leftRight.name, "Left to right."), (Direction.rightLeft.name, "Right to left.")]

/-- The schema of formats. -/
def format : Json :=
  enumeration "Serialization format for written schema documents." (Format.all.map Format.name)

/-- The schema of settings. -/
def config : Json :=
  let default : Config := {}
  root "RelformConfig"
    (fields
      ("Top-level relform configuration (`relform.json`).\n\nThe pipeline loads `schema`, applies "
        ++ "every file in `transforms`, injects the keys\nfrom `foreign_keys`, then hides the tags "
        ++ "listed in `omit_tags`.")
      [("diagram", defaultReference "DiagramConfig" default.diagram.toJson),
        ("foreignKeys",
          list "Foreign key spec files, applied in order after the transforms." text),
        ("omitTags", list "Omit-tag files." text),
        ("output", defaultText default.output),
        ("outputFormat", defaultReference "FileFormat" (.string default.outputFormat.name)),
        ("schema", defaultText default.schema),
        ("transforms", list "DSL files, applied in order." text)] [])
    [("DiagramConfig", diagramConfig), ("Direction", direction), ("FileFormat", format)]

end SchemaShaper.JsonSchema
