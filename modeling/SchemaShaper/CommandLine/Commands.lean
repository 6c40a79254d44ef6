import SchemaShaper.CommandLine.Help
import SchemaShaper.Diagram
import SchemaShaper.Format

/-!
# The commands of the program

The options of the program and of its commands, and the requests that arguments make.
-/

namespace SchemaShaper.CommandLine

/-- The name of the program. -/
def programName : String := "relform"

/-- The version of the program. -/
def programVersion : String := "0.1.0"

/-- What a diagram's direction means. -/
def directionMeaning : Direction → String
  | .topDown => "Top to bottom"
  | .bottomUp => "Bottom to top"
  | .leftRight => "Left to right"
  | .rightLeft => "Right to left"

/-- The option that names the file of the settings. -/
def configSwitch : Switch :=
  { long := "config", short := some 'c'
    about := "Path to relform.json (defaults to ./relform.json, or built-in defaults when absent)"
    value := some ("CONFIG", .path) }

/-- The option that asks for log lines. -/
def verboseSwitch : Switch :=
  { long := "verbose", short := some 'v'
    about := "Log debug output (otherwise RELFORM_LOG or `warn`)" }

/-- The option that names the file that is written. -/
def outputSwitch : Switch :=
  { long := "output", short := some 'o', value := some ("OUTPUT", .path) }

/-- The option that asks for the untouched document. -/
def baseSwitch : Switch := { long := "base" }

/-- The option that chooses the format. -/
def formatSwitch : Switch :=
  { long := "format", short := some 'f'
    value := some ("FORMAT", .oneOf (Format.all.map fun f => { word := f.name })) }

/-- The option that chooses tables by position. -/
def selectSwitch : Switch :=
  { long := "select", short := some 's'
    about := "Index spec such as `[0,2:5]` or `-3:`"
    value := some ("SELECT", .anyText) }

/-- The option that chooses the direction of the diagram. -/
def directionSwitch : Switch :=
  { long := "direction", short := some 'd'
    value := some ("DIRECTION",
      .oneOf (Direction.all.map fun d => { word := d.name, meaning := directionMeaning d })) }

/-- The commands, with what they do. -/
def commandList : List (String × String) :=
  [("init", "Initialize relform.json with defaults"),
    ("show", "Print the transformed document (or the untouched base)"),
    ("apply", "Run the pipeline and write the result"),
    ("diff", "List what the pipeline removed or added"),
    ("tables", "List the tables of the transformed document"),
    ("mermaid", "Render the transformed document as a Mermaid ER diagram"),
    ("check", "Report structural problems of the transformed document"),
    ("help", "Print this message or the help of the given subcommand(s)")]

/-- The options of a command, in the order in which its page lists them. -/
def switchesOf (command : String) : List Switch :=
  match command with
  | "show" => [baseSwitch, configSwitch, formatSwitch, verboseSwitch]
  | "apply" => [configSwitch, outputSwitch, verboseSwitch]
  | "tables" => [configSwitch, selectSwitch, verboseSwitch]
  | "mermaid" => [configSwitch, directionSwitch, outputSwitch, verboseSwitch]
  | _ => [configSwitch, verboseSwitch]

/-- The level of the program. -/
def programLevel : Level :=
  { name := programName
    about := "CLI command for relform (show, apply, diff, tables, mermaid, check)"
    switches := [configSwitch, verboseSwitch]
    commands := commandList
    version := some programVersion }

/-- The level of a command. -/
def commandLevel (command : String) : Level :=
  { name := programName ++ " " ++ command
    about := (commandList.lookup command).getD ""
    switches := switchesOf command }

/-- The page about the command that shows pages. -/
def helpCommandPage : String :=
  Text.joinWith "\n"
    [(commandList.lookup "help").getD "", "", "Usage: " ++ programName ++ " help [COMMAND]...", "",
      "Arguments:", "  [COMMAND]...  Print help for the subcommand(s)"] ++ "\n"

/-- What can be done with the session that the settings lead to. -/
inductive Task where
  | view (base : Bool) (format : Option Format)
  | apply (output : Option String)
  | diff
  | tables (select : Option String)
  | mermaid (direction : Option Direction) (output : Option String)
  | check
  deriving DecidableEq, Repr

/-- A command writes the default settings or does a task. -/
inductive Command where
  | init
  | task (t : Task)
  deriving DecidableEq, Repr

/-- What the program is asked to do: print a text, or run a command with the file of the settings,
if one is given. -/
inductive Request where
  | print (text : String)
  | run (config : Option String) (command : Command)
  | misuse
  deriving DecidableEq, Repr

/-- The task of a name with its options. -/
def Task.of? (name : String) (settings : Settings) : Option Task :=
  let output := settings.lookup "output"
  match name with
  | "show" =>
    some (view (settings.lookup "base").isSome ((settings.lookup "format").bind Format.ofName?))
  | "apply" => some (apply output)
  | "diff" => some diff
  | "tables" => some (tables (settings.lookup "select"))
  | "mermaid" =>
    some (mermaid ((settings.lookup "direction").bind Direction.ofName?) output)
  | "check" => some check
  | _ => none

/-- The command of a name with its options. -/
def Command.of? (name : String) (settings : Settings) : Option Command :=
  if name == "init" then some init else (Task.of? name settings).map task

/-- What ends the reading of a level early. -/
def Level.stopped (l : Level) : Stop → Request
  | .help long => .print (l.helpPage long)
  | .version => .print (programName ++ " " ++ l.version.getD "" ++ "\n")
  | .misuse => .misuse

/-- The page that `help` shows for its arguments. -/
def helpFor (names : List String) : Request :=
  match names with
  | [] => .print (programLevel.helpPage true)
  | ["help"] => .print helpCommandPage
  | [name] =>
    if commandList.any (·.1 == name) then .print ((commandLevel name).helpPage true) else .misuse
  | _ => .misuse

/-- What a command with its arguments asks for. -/
def Request.ofCommand (name : String) (args : List String) : Request :=
  if name == "help" then helpFor args
  else
    let level := commandLevel name
    match level.readOptions args with
    | .error stop => level.stopped stop
    | .ok settings =>
      match Command.of? name settings with
      | none => .misuse
      | some command => .run (settings.lookup "config") command

/-- What a request becomes by the options in front of its command. A text is printed whatever is
held of them; the file of the settings that is named behind the command counts first. -/
def Request.behind (g : Given) : Request → Request
  | run config command =>
    match g.settle with
    | .error stop => programLevel.stopped stop
    | .ok settings => run (config.or (settings.lookup "config")) command
  | request => request

/-- What arguments ask for. -/
def Request.of (args : List String) : Request :=
  match programLevel.read args with
  | .error stop => programLevel.stopped stop
  | .ok r =>
    match r.command with
    | some (name, args) => (ofCommand name args).behind r.given
    | none =>
      match r.given.settle with
      | .error stop => programLevel.stopped stop
      | .ok _ => .print (programLevel.helpPage false)

end SchemaShaper.CommandLine
