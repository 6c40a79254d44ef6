import SchemaShaper.Diagram
import SchemaShaper.Files.Path
import SchemaShaper.Format

/-!
# Settings

The settings name the document that is edited, the files with statements, foreign keys and keys to
leave out, and where and how results are written. Every setting has a default.
-/

namespace SchemaShaper

/-- The settings of the diagram. -/
structure DiagramConfig where
  direction : Direction := .topDown
  /-- Where the diagram is written; without it, it is printed. -/
  output : Option String := none
  deriving DecidableEq, Repr

/-- The settings. -/
structure Config where
  schema : String := "schema.yaml"
  transforms : List String := []
  foreignKeys : List String := []
  omitTags : List String := []
  output : String := "out/schema.yaml"
  outputFormat : Format := .yaml
  diagram : DiagramConfig := {}
  deriving DecidableEq, Repr

namespace Config

/-- The settings with every path as it is seen from `root`. -/
def rootedAt (root : String) (c : Config) : Config :=
  { c with
    schema := Path.join root c.schema
    transforms := c.transforms.map (Path.join root)
    foreignKeys := c.foreignKeys.map (Path.join root)
    omitTags := c.omitTags.map (Path.join root)
    output := Path.join root c.output
    diagram := { c.diagram with output := c.diagram.output.map (Path.join root) } }

end Config

end SchemaShaper
