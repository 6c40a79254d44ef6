import SchemaShaper.CommandLine.Run
import SchemaShaper.JsonSchema.Formats

/-!
# Writing the schema files

A program of its own that writes the schemas of documents and settings into a directory.
-/

namespace SchemaShaper.JsonSchema

open CommandLine

/-- The name of the program. -/
def programName : String := "relform-schema-gen"

/-- The level of the program. -/
def level : Level :=
  { name := programName
    about := "Emit JSON Schemas for relform schema documents and configuration."
    switches := [{ long := "out", short := some 'o', about := "Output directory for schema files"
                   value := some ("OUT", .path), default := some "schemas" }] }

variable {m : Type → Type} [Monad m]

/-- Write a schema to a file. -/
def writeSchema (files : Files m) (path : String) (schema : Json) : ExceptT Failure m Unit :=
  orFail ("write " ++ path) (files.write path schema.pretty)

/-- Write the schema files into a directory, which is made unless it is there. -/
def writeAll (files : Files m) (out : String) : ExceptT Failure m Result := do
  unless ← files.leadsSomewhere out do
    orFail ("create dir " ++ out) (files.makeDirectories out)
  let documentPath := Path.join out "document.schema.json"
  let configPath := Path.join out "config.schema.json"
  writeSchema files documentPath document
  writeSchema files configPath config
  return { output := printed ["Wrote schemas:", "  " ++ documentPath, "  " ++ configPath] }

/-- Run the program. -/
def run (files : Files m) (args : List String) : m Result :=
  match level.readOptions args with
  | .error (.help long) => pure { output := level.helpPage long }
  | .error _ => pure { misused := true }
  | .ok settings => settle (writeAll files ((settings.lookup "out").getD "schemas"))

end SchemaShaper.JsonSchema
