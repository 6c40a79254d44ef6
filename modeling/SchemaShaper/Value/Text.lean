import SchemaShaper.Failure
import SchemaShaper.Format
import SchemaShaper.Value.Json
import SchemaShaper.Yaml.Printer

/-!
# Values as texts

The text of a value in a format. A text ends with a line feed.
-/

namespace SchemaShaper.Value

/-- The text of a value in a format. -/
def render (format : Format) (v : Value) : Except Failure String :=
  if format.isJson then
    match v.toJson? with
    | some j => .ok (j.pretty ++ "\n")
    | none => .error (.during "serialize JSON" (.outside .json))
  else
    match v.toYaml? with
    | some rendered => .ok rendered
    | none => .error (.during "serialize YAML" (.outside .yaml))

end SchemaShaper.Value
