import SchemaShaper.Config.Json

/-!
# Describing JSON

The parts that a JSON Schema of records is made of. Keywords stand in a fixed order: the dialect,
the title, the description and the type first, definitions last, the rest by name. Properties and
definitions are sorted by name, required names stand in the order of the fields.
-/

namespace SchemaShaper.JsonSchema

/-- The dialect of the schemas. -/
def dialect : String := "https://json-schema.org/draft/2020-12/schema"

/-- A text in pairs with a name. -/
def word (name text : String) : String × Json := (name, .string text)

/-- The description, where there is one. -/
def described (text : String) : List (String × Json) :=
  if text.isEmpty then [] else [word "description" text]

/-- The schema of a text. -/
def text : Json := .record [word "type" "string"]

/-- The schema of a truth value. -/
def flag : Json := .record [word "type" "boolean"]

/-- A reference to a definition. -/
def reference (name : String) : Json := .record [word "$ref" ("#/$defs/" ++ name)]

/-- The schema of a text that may be null. -/
def nullableText (description : String) : Json :=
  .record (described description ++ [("type", .array [.string "string", .string "null"])])

/-- The schema of a list that is empty by default. -/
def list (description : String) (item : Json) : Json :=
  .record (described description ++
    [word "type" "array", ("default", .array []), ("items", item)])

/-- The schema of a list that every record has. -/
def requiredList (item : Json) : Json := .record [word "type" "array", ("items", item)]

/-- The schema of a list that may be null. -/
def nullableList (item : Json) : Json :=
  .record [("type", .array [.string "array", .string "null"]), ("items", item)]

/-- A schema with a default. -/
def withDefault (default : Json) (schema : List (String × Json)) : Json :=
  .record (schema ++ [("default", default)])

/-- A text with a default. -/
def defaultText (default : String) : Json :=
  withDefault (.string default) [word "type" "string"]

/-- A reference with a default. -/
def defaultReference (name : String) (default : Json) : Json :=
  .record [word "$ref" ("#/$defs/" ++ name), ("default", default)]

/-- The fields of a schema of records: their schemas sorted by name, and the required ones. -/
def fields (description : String) (properties : List (String × Json)) (required : List String) :
    List (String × Json) :=
  described description ++ [word "type" "object", ("properties", .record properties)]
    ++ if required.isEmpty then [] else [("required", .array (required.map Json.string))]

/-- The schema of one of the given words. -/
def enumeration (description : String) (words : List String) : Json :=
  .record (described description ++
    [word "type" "string", ("enum", .array (words.map Json.string))])

/-- The schema of one of the given words, each with its description. -/
def choices (description : String) (words : List (String × String)) : Json :=
  .record (described description ++ [("oneOf", .array (words.map fun (value, meaning) =>
    .record (described meaning ++ [word "type" "string", word "const" value])))])

/-- A whole schema. -/
def root (title : String) (body : List (String × Json)) (definitions : List (String × Json)) :
    Json :=
  .record ([word "$schema" dialect, word "title" title] ++ body
    ++ [("$defs", .record definitions)])

end SchemaShaper.JsonSchema
