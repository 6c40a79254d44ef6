import SchemaShaper.Failure
import SchemaShaper.Files.Path
import SchemaShaper.Text.Split
import SchemaShaper.Value.Json
import SchemaShaper.Yaml.Printer
import SchemaShaper.Yaml.Reader

/-!
# Files of entries

Statements, foreign keys and keys to leave out stand in files of entries. A YAML or JSON file holds
a mapping with a list under the key of its kind, where null is a blank entry; any other file holds
an entry per line. Blank entries are kept, so that positions are those of the file.
-/

namespace SchemaShaper

/-- What the entries of a file are. -/
inductive EntryKind where
  | transforms
  | foreignKeys
  | omitTags
  deriving DecidableEq, Repr

/-- The key of the list of entries. -/
def EntryKind.key : EntryKind → String
  | transforms => "transformation_steps"
  | foreignKeys => "foreign_keys"
  | omitTags => "omit_tags"

namespace Entries

/-- The value that the text of a file holds; none when the file holds plain lines. -/
def value? (path text : String) : Option (Except Failure Value) :=
  match Path.extension? path with
  | some "json" =>
    some <| match (Json.parse? text).bind Value.ofJson? with
      | some v => .ok v
      | none => .error (.during ("parse JSON spec file: " ++ path) (.outside .json))
  | some "yaml" | some "yml" =>
    some <| match Yaml.value? text with
      | some v => .ok v
      | none => .error (.during ("parse YAML spec file: " ++ path) (.outside .yaml))
  | _ => none

/-- The complaint about the item at `position`, which is no text. -/
def complaint (kind : EntryKind) (path : String) (position : Nat) (item : Value) : Failure :=
  match item.toYaml? with
  | none => .outside .yaml
  | some shown =>
    .notice (s!"'{kind.key}' entry {position} in {path} must be a string, found: "
      ++ String.ofList (Text.trimEnd shown.toList))

/-- The entries that items are, the first of them at `position`. -/
def ofItems (kind : EntryKind) (path : String) : Nat → List Value → Except Failure (List String)
  | _, [] => .ok []
  | position, .text entry :: items => (ofItems kind path (position + 1) items).map (entry :: ·)
  | position, .null :: items => (ofItems kind path (position + 1) items).map ("" :: ·)
  | position, item :: _ => .error (complaint kind path position item)

/-- The entries in the value of a file. -/
def ofValue (kind : EntryKind) (path : String) (v : Value) : Except Failure (List String) :=
  match v.get? kind.key with
  | none =>
    .error (.notice s!"{path} must contain '{kind.key}' key with a list of entries")
  | some (.sequence items) => ofItems kind path 1 items
  | some _ => .error (.notice s!"'{kind.key}' in {path} must be a list")

/-- The entries in the text of a file. -/
def parse (kind : EntryKind) (path text : String) : Except Failure (List String) :=
  match value? path text with
  | none => .ok (Text.linesOf text)
  | some (.error failure) => .error failure
  | some (.ok v) => ofValue kind path v

end Entries

end SchemaShaper
