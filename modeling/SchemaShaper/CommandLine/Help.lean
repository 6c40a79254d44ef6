import SchemaShaper.CommandLine.Options

/-!
# Help pages

The page of a level says what it does, how it is used, and lists its commands and options in two
columns. The long form of a page, where a chosen word has a meaning to tell, gives every option
lines of its own.
-/

namespace SchemaShaper.CommandLine

/-- The lines of two columns, the first as wide as its longest entry. -/
def columns (rows : List (String × String)) : List String :=
  let width := (rows.map (·.1.length)).foldl max 0
  rows.map fun (a, b) =>
    "  " ++ a ++ String.ofList (List.replicate (width - a.length) ' ') ++ "  " ++ b

namespace Switch

/-- How an option is written. -/
def form (s : Switch) : String :=
  let short := match s.short with
    | some c => "-" ++ c.toString ++ ", "
    | none => "    "
  let value := match s.value with
    | some (name, _) => " <" ++ name ++ ">"
    | none => ""
  short ++ "--" ++ s.long ++ value

/-- The words that can be chosen. -/
def choices (s : Switch) : List Choice :=
  match s.value with
  | some (_, .oneOf choices) => choices
  | _ => []

/-- Has a word that can be chosen a meaning to tell? -/
def isExplained (s : Switch) : Bool := s.choices.any (!·.meaning.isEmpty)

/-- What is told about the values of an option, in brackets. -/
def notes (s : Switch) : List String :=
  (match s.default with
    | some value => ["[default: " ++ value ++ "]"]
    | none => [])
  ++ match s.choices with
    | [] => []
    | choices => ["[possible values: " ++ Text.joinWith ", " (choices.map (·.word)) ++ "]"]

/-- What is told about an option on one line. -/
def summary (s : Switch) : String :=
  Text.joinWith " " ((if s.about.isEmpty then [] else [s.about]) ++ s.notes)

/-- What is told about an option on lines of its own. -/
def detail (s : Switch) : List String :=
  if s.isExplained then
    (if s.about.isEmpty then [] else [s.about, ""])
    ++ "Possible values:" :: s.choices.map fun c => "- " ++ c.word ++ ": " ++ c.meaning
  else
    match (if s.about.isEmpty then [] else [s.about]) ++ s.notes with
    | [] => [""]
    | [line] => [line]
    | line :: more => [line, "", Text.joinWith " " more]

end Switch

namespace Level

/-- Has the page a long form? -/
def hasLongHelp (l : Level) : Bool := l.switches.any Switch.isExplained

/-- The option that asks for the page, in its long form or not. -/
def helpSwitch (l : Level) (long : Bool) : Switch :=
  { long := "help", short := some 'h'
    about := if !l.hasLongHelp then "Print help"
      else if long then "Print help (see a summary with '-h')"
      else "Print help (see more with '--help')" }

/-- All options of a level, those that ask for the page and the version last. -/
def allSwitches (l : Level) (long : Bool) : List Switch :=
  l.switches ++ [l.helpSwitch long]
  ++ match l.version with
    | some _ => [{ long := "version", short := some 'V', about := "Print version" }]
    | none => []

/-- The lines about the options. -/
def optionLines (l : Level) (long : Bool) : List String :=
  let switches := l.allSwitches long
  if long then
    let blocks := switches.map fun s =>
      ("  " ++ s.form) :: s.detail.map fun line =>
        if line.isEmpty && !s.about.isEmpty then "" else "          " ++ line
    (blocks.intersperse [""]).flatten
  else columns (switches.map fun s => (s.form, s.summary))

/-- The page of a level. -/
def helpPage (l : Level) (long : Bool) : String :=
  let usage := "Usage: " ++ l.name ++ " [OPTIONS]"
    ++ if l.commands.isEmpty then "" else " [COMMAND]"
  let commands := if l.commands.isEmpty then [] else "Commands:" :: columns l.commands ++ [""]
  Text.joinWith "\n" ([l.about, "", usage, ""] ++ commands
    ++ "Options:" :: l.optionLines (long && l.hasLongHelp)) ++ "\n"

end Level

end SchemaShaper.CommandLine
