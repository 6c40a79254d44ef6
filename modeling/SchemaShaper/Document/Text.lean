import SchemaShaper.Document.Reader
import SchemaShaper.Failure
import SchemaShaper.Format
import SchemaShaper.Json.Parser
import SchemaShaper.Yaml.Reader

/-!
# Documents as texts

The document that a text holds, in JSON or in YAML.
-/

namespace SchemaShaper.Document

/-- The document of a JSON text. -/
def ofJsonText? (text : String) : Option Document :=
  (Json.parse? text).bind (read Json.access)

/-- The document of a YAML text. -/
def ofYamlText? (text : String) : Option Document :=
  Yaml.read? (fun context root => read context.access root) text

/-- The document of a text in a format. -/
def parse (format : Format) (text : String) : Except Failure Document :=
  if format.isJson then
    match ofJsonText? text with
    | some d => .ok d
    | none => .error (.outside .json)
  else
    match ofYamlText? text with
    | some d => .ok d
    | none => .error (.outside .yaml)

end SchemaShaper.Document
