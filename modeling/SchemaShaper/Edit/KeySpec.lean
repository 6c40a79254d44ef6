import SchemaShaper.Edit.Error
import SchemaShaper.Text.Split

/-!
# Foreign key specs

A spec is a line `source table | columns |-->| target table | columns` with as many source columns
as target columns. Columns are separated by commas, and blanks around any name do not count.
-/

namespace SchemaShaper

/-- A foreign key to be added to its source table. -/
structure KeySpec where
  sourceTable : String
  sourceColumns : List String
  targetTable : String
  targetColumns : List String
  deriving DecidableEq, Repr

namespace KeySpec

/-- The text between the two sides of a spec. -/
def separator : String := "|-->|"

/-- The table and the columns of one side. -/
def readSide? (side : List Char) : Option (String × List String) :=
  match (Text.splitOn '|' side).map Text.trim with
  | [table, columns] =>
    some (String.ofList table,
      (Text.splitOn ',' columns).map fun column => String.ofList (Text.trim column))
  | _ => none

/-- The spec that the two sides of the trimmed line `line` give. -/
def ofSides (line source target : List Char) : Except EditError KeySpec :=
  match readSide? source with
  | none => .error (.invalidSource (String.ofList source))
  | some (sourceTable, sourceColumns) =>
    match readSide? target with
    | none => .error (.invalidTarget (String.ofList target))
    | some (targetTable, targetColumns) =>
      if sourceTable.isEmpty || targetTable.isEmpty
          || (sourceColumns ++ targetColumns).any String.isEmpty then
        .error (.emptyName (String.ofList line))
      else if sourceColumns.length != targetColumns.length then
        .error (.columnCountMismatch (String.ofList line) sourceColumns.length
          targetColumns.length)
      else .ok { sourceTable, sourceColumns, targetTable, targetColumns }

/-- Read the spec on a trimmed line. -/
def readLine (line : List Char) : Except EditError KeySpec :=
  match Text.splitOnText separator.toList line with
  | [source, target] => ofSides line (Text.trim source) (Text.trim target)
  | [_] => .error (.missingSeparator (String.ofList line))
  | _ => .error (.duplicateSeparator (String.ofList line))

/-- Read a spec; blanks at the ends of the line do not count. -/
def parse (line : String) : Except EditError KeySpec := readLine (Text.trim line.toList)

theorem lengths_eq_of_ofSides {line source target : List Char} {s : KeySpec}
    (h : ofSides line source target = .ok s) : s.sourceColumns.length = s.targetColumns.length := by
  unfold ofSides at h
  split at h
  · cases h
  · split at h
    · cases h
    · split at h
      · cases h
      · split at h
        · cases h
        · next hlen =>
          cases h
          simpa using hlen

/-- A spec that is read pairs its columns up. -/
theorem lengths_eq_of_parse {line : String} {s : KeySpec} (h : parse line = .ok s) :
    s.sourceColumns.length = s.targetColumns.length := by
  unfold parse readLine at h
  split at h
  · exact lengths_eq_of_ofSides h
  · cases h
  · cases h

/-- The written form of a spec, without blanks. -/
def display (s : KeySpec) : String :=
  s.sourceTable ++ "|" ++ Text.joinWith "," s.sourceColumns ++ separator
    ++ s.targetTable ++ "|" ++ Text.joinWith "," s.targetColumns

end KeySpec

end SchemaShaper
