/-!
# Formats of files

Documents are written as JSON or as YAML; the two YAML formats differ in their name only.
-/

namespace SchemaShaper

/-- The format of a file. -/
inductive Format where
  | json
  | yaml
  | yml
  deriving DecidableEq, Repr

namespace Format

/-- All formats, in the order in which they are offered. -/
def all : List Format := [json, yaml, yml]

/-- The word for a format, which is also the extension of its files. -/
def name : Format → String
  | json => "json"
  | yaml => "yaml"
  | yml => "yml"

/-- The format of a word. -/
def ofName? (word : String) : Option Format := all.find? (·.name == word)

/-- Is the format JSON? -/
def isJson (f : Format) : Bool := f == json

end Format

end SchemaShaper
