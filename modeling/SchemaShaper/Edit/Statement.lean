import SchemaShaper.Edit.Error
import SchemaShaper.Glob.Parser

/-!
# Deletion statements

A statement deletes tables, columns of one table or of every table, or foreign keys:

* `del table T`
* `del column NAME T`, where the name `*` means every table
* `del fk T`

The target `T` is `pattern:` with a wildcard pattern for names, or `index:` with an index spec for
positions.
-/

namespace SchemaShaper

/-- What a statement selects in a list of named elements. -/
inductive Target where
  | pattern (glob : Glob)
  | index (spec : Index.Spec)
  deriving DecidableEq, Repr

/-- The tables whose columns a statement deletes. -/
inductive TableChoice where
  | all
  | named (name : String)
  deriving DecidableEq, Repr

/-- Does the choice include a table of this name? -/
def TableChoice.includes : TableChoice → String → Bool
  | all, _ => true
  | named name, table => name == table

/-- A deletion statement. -/
inductive Statement where
  | deleteTables (target : Target)
  | deleteColumns (tables : TableChoice) (target : Target)
  | deleteKeys (target : Target)
  deriving DecidableEq, Repr

/-- The written form of a target. -/
def Target.display : Target → String
  | pattern glob => "pattern:" ++ glob.source
  | index spec => "index:" ++ spec.display

/-- The word for the chosen tables. -/
def TableChoice.display : TableChoice → String
  | all => "*"
  | named name => name

namespace Statement

/-- The written form of a statement. -/
def display : Statement → String
  | deleteTables target => "del table " ++ target.display
  | deleteColumns tables target => "del column " ++ tables.display ++ " " ++ target.display
  | deleteKeys target => "del fk " ++ target.display

/-- The rest behind a word and at least one blank, from its first character that is no blank. -/
def afterWord (word : String) (cs : List Char) : Option (List Char) :=
  match Text.dropLead word.toList cs with
  | some (c :: cs) => if Text.isBlank c then some (Text.trimStart cs) else none
  | _ => none

/-- Read the target at the end of the trimmed line `line`. -/
def readTarget (line cs : List Char) : Except EditError Target :=
  match Text.dropLead "pattern:".toList cs with
  | some glob =>
    let glob := Text.trim glob
    if glob.isEmpty then .error (.invalidStatement (String.ofList line))
    else .ok (.pattern (Glob.ofString (String.ofList glob)))
  | none =>
    match Text.dropLead "index:".toList cs with
    | some spec =>
      let spec := String.ofList (Text.trim spec)
      match Index.Spec.parse spec with
      | .ok parsed => .ok (.index parsed)
      | .error reason => .error (.invalidIndexSpec spec reason)
    | none => .error (.invalidStatement (String.ofList line))

/-- The choice that a table word writes. -/
def tableChoice (word : List Char) : TableChoice :=
  if word = ['*'] then .all else .named (String.ofList word)

/-- Read the statement on a trimmed line. -/
def readLine (line : List Char) : Except EditError Statement :=
  let invalid := .error (.invalidStatement (String.ofList line))
  match afterWord "del" line with
  | none => invalid
  | some rest =>
    match afterWord "table" rest with
    | some rest => (readTarget line rest).map deleteTables
    | none =>
      match afterWord "column" rest with
      | some rest =>
        match Text.cutAt Text.isBlank rest with
        | none => invalid
        | some (table, rest) =>
          (readTarget line (Text.trimStart rest)).map (deleteColumns (tableChoice table))
      | none =>
        match afterWord "fk" rest with
        | some rest => (readTarget line rest).map deleteKeys
        | none => invalid

/-- Read a statement; blanks at the ends of the line do not count. -/
def parse (line : String) : Except EditError Statement := readLine (Text.trim line.toList)

end Statement

end SchemaShaper
