import SchemaShaper.Config.Basic
import SchemaShaper.Json.Parser
import SchemaShaper.Json.Printer

/-!
# Settings as JSON

`Config.toJson` writes every setting, but for an absent place of the diagram; `Config.ofJson?` gives
missing settings their defaults and ignores unknown ones.
-/

namespace SchemaShaper

/-- The word that chooses among alternatives: a text, or the name of an object's only member, whose
value is null. -/
def Json.choice? : Json → Option String
  | .text s => s
  | .object [(name, .null)] => name
  | _ => none

/-- The direction that a JSON value chooses. -/
def Direction.ofJson? (j : Json) : Option Direction := j.choice?.bind ofName?

/-- The format that a JSON value chooses. -/
def Format.ofJson? (j : Json) : Option Format := j.choice?.bind ofName?

namespace DiagramConfig

/-- The JSON form of the diagram's settings. -/
def toJson (d : DiagramConfig) : Json :=
  .record ([("direction", .string d.direction.name)]
    ++ match d.output with
      | none => []
      | some path => [("output", .string path)])

/-- The diagram's settings of a JSON value. -/
def ofJson? (j : Json) : Option DiagramConfig := do
  let fields ← Json.access.entries ["direction", "output"] j
  return {
    direction := ← Json.access.defaulted "direction" Direction.ofJson? .topDown fields
    output := ← Json.access.optional "output" Json.text? fields }

end DiagramConfig

namespace Config

/-- The JSON form of settings. -/
def toJson (c : Config) : Json :=
  let paths (names : List String) : Json := .array (names.map Json.string)
  .record [
    ("schema", .string c.schema),
    ("transforms", paths c.transforms),
    ("foreignKeys", paths c.foreignKeys),
    ("omitTags", paths c.omitTags),
    ("output", .string c.output),
    ("outputFormat", .string c.outputFormat.name),
    ("diagram", c.diagram.toJson)]

/-- The names of the settings. -/
def fieldNames : List String :=
  ["schema", "transforms", "foreignKeys", "omitTags", "output", "outputFormat", "diagram"]

/-- The settings of a JSON value. -/
def ofJson? (j : Json) : Option Config := do
  let paths := Json.access.list Json.text?
  let fields ← Json.access.entries fieldNames j
  let default : Config := {}
  return {
    schema := ← Json.access.defaulted "schema" Json.text? default.schema fields
    transforms := ← Json.access.defaulted "transforms" paths default.transforms fields
    foreignKeys := ← Json.access.defaulted "foreignKeys" paths default.foreignKeys fields
    omitTags := ← Json.access.defaulted "omitTags" paths default.omitTags fields
    output := ← Json.access.defaulted "output" Json.text? default.output fields
    outputFormat :=
      ← Json.access.defaulted "outputFormat" Format.ofJson? default.outputFormat fields
    diagram := ← Json.access.defaulted "diagram" DiagramConfig.ofJson? default.diagram fields }

/-- The settings that a text holds. -/
def parse? (text : String) : Option Config := (Json.parse? text).bind ofJson?

/-- The text of settings. -/
def text (c : Config) : String := c.toJson.pretty

end Config

end SchemaShaper
