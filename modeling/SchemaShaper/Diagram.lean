import SchemaShaper.Document.Basic
import SchemaShaper.Text.Split

/-!
# Entity relationship diagrams

A document is drawn as the text of a Mermaid `erDiagram`: one entity block per table with its
columns, then one many-to-one relationship per foreign key, labelled with its column lists. Keys of
the interchange form can be left out, which draws the document as if it did not have them.
-/

namespace SchemaShaper

/-- The layout direction of a diagram. -/
inductive Direction where
  | topDown
  | bottomUp
  | leftRight
  | rightLeft
  deriving DecidableEq, Repr

namespace Direction

/-- All directions, in the order in which they are offered. -/
def all : List Direction := [topDown, bottomUp, leftRight, rightLeft]

/-- The word for a direction. -/
def name : Direction → String
  | topDown => "TB"
  | bottomUp => "BT"
  | leftRight => "LR"
  | rightLeft => "RL"

/-- The direction of a word. -/
def ofName? (word : String) : Option Direction := all.find? (·.name == word)

end Direction

/-- How a document is drawn. -/
structure Diagram where
  direction : Direction
  omitted : List String
  deriving DecidableEq, Repr

namespace Diagram

/-- The characters outside parentheses, when `depth` parentheses are open. An unmatched closing
parenthesis counts as text. -/
def outside : Nat → List Char → List Char
  | _, [] => []
  | depth, '(' :: cs => outside (depth + 1) cs
  | 0, c :: cs => c :: outside 0 cs
  | depth + 1, ')' :: cs => outside depth cs
  | depth + 1, _ :: cs => outside (depth + 1) cs

/-- The one-word token of a raw column type: groups in parentheses are dropped and the words that
are left are joined by `_`. -/
def typeToken (raw : String) : String :=
  match Text.words (outside 0 raw.toList) with
  | [] => "UNKNOWN"
  | ws => Text.joinWith "_" (ws.map String.ofList)

/-- Is the key left out? -/
def omits (d : Diagram) (key : String) : Bool := d.omitted.contains key

/-- The line of a column in a table with the given primary columns. -/
def columnLine (d : Diagram) (primary : List String) (c : Column) : String :=
  "        " ++ typeToken (if d.omits "type" then "" else c.type) ++ " " ++ c.name
    ++ if primary.contains c.name then " PK" else ""

/-- The lines of an entity block. -/
def entityLines (d : Diagram) (t : Table) : List String :=
  let primary := if d.omits "primary_key" then [] else t.primaryColumns
  let columns := if d.omits "columns" then [] else t.columns
  ["    " ++ t.name ++ " \x7b"] ++ columns.map (d.columnLine primary) ++ ["    \x7d"]

/-- The line of a relationship. -/
def keyLine (t : Table) (k : ForeignKey) : String :=
  "    " ++ t.name ++ " \x7do--|| " ++ k.targetTable ++ " : \""
    ++ Text.joinWith ", " k.sourceColumns ++ " -> " ++ Text.joinWith ", " k.targetColumns ++ "\""

/-- The lines of a diagram. -/
def lines (d : Diagram) (doc : Document) : List String :=
  let tables := if d.omits "tables" then [] else doc.tables
  let keyed := if d.omits "foreign_keys" then [] else tables
  ["erDiagram", "    direction " ++ d.direction.name]
    ++ tables.flatMap d.entityLines ++ keyed.flatMap fun t => t.keys.map (keyLine t)

/-- The text of a diagram. -/
def text (d : Diagram) (doc : Document) : String := Text.joinWith "\n" (d.lines doc)

/-- Draw a document with nothing left out. -/
def draw (direction : Direction) (doc : Document) : String :=
  text { direction, omitted := [] } doc

end Diagram

end SchemaShaper
