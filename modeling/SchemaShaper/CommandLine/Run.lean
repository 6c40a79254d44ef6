import SchemaShaper.CommandLine.Commands
import SchemaShaper.Pipeline.Loading

/-!
# Running commands

What each command prints and writes, for any way of keeping files. A run ends with what it printed
and, when it failed, with the reason.
-/

namespace SchemaShaper.CommandLine

/-- What a run leaves behind, apart from files. -/
structure Result where
  output : String := ""
  failure : Option Failure := none
  /-- The arguments broke a rule. -/
  misused : Bool := false
  deriving DecidableEq, Repr

/-- The exit status of a run. -/
def Result.status (r : Result) : Nat :=
  if r.misused then 2 else if r.failure.isSome then 1 else 0

variable {m : Type → Type} [Monad m]

/-- Lines, each with its line feed. -/
def printed (lines : List String) : String := String.join (lines.map (· ++ "\n"))

/-- The directory of a path, the empty path for one without. -/
def directoryOf (path : String) : String := (Path.parent? path).getD ""

/-- Load the settings. Paths in a given file are seen from its directory. -/
def settings (files : Files m) (config : Option String) : ExceptT Failure m Config := do
  match config with
  | some path => return (← loadConfigFrom files path).rootedAt (directoryOf path)
  | none => loadConfigOrDefault files none

/-- Write the default settings. -/
def runInit (files : Files m) : ExceptT Failure m Result := do
  if ← files.leadsSomewhere configFile then throw (.notice (configFile ++ " already exists"))
  orFail ("write " ++ configFile) (files.write configFile (Config.text {}))
  return { output := printed ["created " ++ configFile] }

/-- Print the view of the document, or the untouched document. -/
def runView (c : Config) (s : Session) (base : Bool) (format : Option Format) :
    ExceptT Failure m Result := do
  let v := if base then s.baseView else s.view
  return { output := ← (v.render (format.getD c.outputFormat) : Except Failure String) }

/-- Write the view of the document. -/
def runApply (files : Files m) (c : Config) (s : Session) (output : Option String) :
    ExceptT Failure m Result := do
  let path := output.getD c.output
  saveValue files path c.outputFormat s.view
  return { output := printed [s!"Wrote {path} ({s.working.tables.length} tables, "
    ++ s!"{s.changes.length} changes)"] }

/-- A change as the list of changes tells it. -/
def describe (c : Change) : String :=
  (if c.isRemoval then "Removed " else "Added ") ++
    match c with
    | .tableRemoved table | .tableAdded table => "table: " ++ table
    | .columnRemoved table column | .columnAdded table column =>
      "column: " ++ table ++ "." ++ column
    | .keyRemoved table key | .keyAdded table key => "foreign key: " ++ table ++ "." ++ key

/-- The lines of the list of changes. -/
def changeLines (changes : List Change) : List String :=
  if changes.isEmpty then ["No differences found. Working document matches the base."]
  else
    s!"Found {changes.length} change(s):" :: "" ::
      changes.zipIdx.map fun (c, i) => s!"{i + 1}. " ++ describe c

/-- A number in at least three columns. -/
def inThreeColumns (n : Nat) : String :=
  let ds := Decimal.digits n
  String.ofList (List.replicate (3 - ds.length) ' ' ++ ds)

/-- The line of a table in the list of tables. -/
def tableLine (position : Nat) (t : Table) : String :=
  inThreeColumns position ++ "  " ++ t.name
    ++ s!" ({t.columns.length} columns, {t.keys.length} foreign keys)"

/-- Print the list of tables, or those that a spec designates. -/
def runTables (s : Session) (select : Option String) : ExceptT Failure m Result := do
  let tables := s.working.tables
  let positions ← match select with
    | none => pure (List.range tables.length)
    | some spec =>
      match Index.Spec.parse spec with
      | .ok parsed => pure (parsed.positions tables.length)
      | .error reason => throw (.during ("invalid --select spec: " ++ spec) (.indexSpec reason))
  return { output := printed (positions.filterMap fun i => tables[i]?.map (tableLine i)) }

/-- Write the diagram where it is asked for, or print it. -/
def runMermaid (files : Files m) (c : Config) (s : Session) (direction : Option Direction)
    (output : Option String) : ExceptT Failure m Result := do
  let diagram : Diagram :=
    { direction := direction.getD c.diagram.direction, omitted := s.omitted }
  let text := diagram.text s.working ++ "\n"
  match output.or c.diagram.output with
  | none => return { output := text }
  | some path =>
    makeParent files "create directory: " path
    orFail ("write diagram: " ++ path) (files.write path text)
    return { output := printed ["Wrote " ++ path] }

/-- The line of a finding. -/
def findingLine (f : Finding) : String :=
  (if f.isError then "error: " else "warning: ") ++ f.message

/-- Print the findings; errors among them make the run fail. -/
def runCheck (s : Session) : Result :=
  let findings := s.working.check
  let errors := (findings.filter (·.isError)).length
  if findings.isEmpty then { output := printed ["No issues found."] }
  else
    { output := printed (findings.map findingLine)
      failure :=
        if errors == 0 then none else some (.notice s!"{errors} structural error(s) found") }

/-- Do a task with the settings and the session that they lead to. -/
def runTask (files : Files m) (c : Config) (s : Session) : Task → ExceptT Failure m Result
  | .view base format => runView c s base format
  | .apply output => runApply files c s output
  | .diff => pure { output := printed (changeLines s.changes) }
  | .tables select => runTables s select
  | .mermaid direction output => runMermaid files c s direction output
  | .check => pure (runCheck s)

/-- The result of a computation that may fail. -/
def settle (x : ExceptT Failure m Result) : m Result := do
  match ← x.run with
  | .ok result => pure result
  | .error failure => pure { failure := some failure }

/-- Run the program. -/
def run (files : Files m) (args : List String) : m Result :=
  match Request.of args with
  | .misuse => pure { misused := true }
  | .print text => pure { output := text }
  | .run _ .init => settle (runInit files)
  | .run config (.task t) => settle do
    let c ← settings files config
    runTask files c (← loadSession files c) t

end SchemaShaper.CommandLine
