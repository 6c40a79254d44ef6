import SchemaShaper.Text.Split

/-!
# Reading arguments

Arguments are read from the left, one level at a time: the options of the program, then the name of
a command, then the options of that command. An option is given once at a level. The first argument
that asks for help or for the version ends the reading, and so does the first that breaks a rule.

A value that is an argument of its own is only held at first: it is checked when the next option is
met or the level ends. The arguments of a command are read before the level around it ends.
-/

namespace SchemaShaper.CommandLine

/-- A word that can be chosen as the value of an option, with what it means. -/
structure Choice where
  word : String
  meaning : String := ""

/-- The values that an option takes. -/
inductive ValueRule where
  /-- Any text, even one that looks like an option. -/
  | anyText
  /-- A text that is not empty. -/
  | path
  /-- One of the given words. -/
  | oneOf (choices : List Choice)

/-- Does the rule admit a value? -/
def ValueRule.admits : ValueRule → String → Bool
  | anyText, _ => true
  | path, value => !value.isEmpty
  | oneOf choices, value => choices.any (·.word == value)

/-- An option. One without a value is set by being there. -/
structure Switch where
  long : String
  short : Option Char := none
  about : String := ""
  /-- The name and the rule of its value. -/
  value : Option (String × ValueRule) := none
  /-- The value that it has when it is not given. -/
  default : Option String := none

/-- A level of reading: the program, or one of its commands. -/
structure Level where
  /-- The words that lead to it. -/
  name : String
  about : String
  switches : List Switch
  /-- The names of its commands, with what they do. -/
  commands : List (String × String) := []
  /-- The version that it tells. -/
  version : Option String := none

/-- Why reading ends early. -/
inductive Stop where
  | help (long : Bool)
  | version
  | misuse
  deriving DecidableEq, Repr

/-- The options that are given, by their long names, with their values. -/
abbrev Settings := List (String × String)

/-- The options of a level that are read so far. -/
structure Given where
  /-- The options that are checked. -/
  settings : Settings := []
  /-- An option with its value, which is still to be checked. -/
  held : Option (Switch × String) := none

namespace Given

/-- Check an option with its value and note it. -/
def note (s : Switch) (value : String) (settings : Settings) : Except Stop Settings :=
  let admitted := match s.value with
    | some (_, rule) => rule.admits value
    | none => true
  if admitted && (settings.lookup s.long).isNone then .ok (settings ++ [(s.long, value)])
  else .error .misuse

/-- Check what is held; gives all the options. -/
def settle (g : Given) : Except Stop Settings :=
  match g.held with
  | some (s, value) => note s value g.settings
  | none => .ok g.settings

/-- Add an option with its value, and check both. -/
def add (s : Switch) (value : String) (g : Given) : Except Stop Given := do
  return { settings := ← note s value (← g.settle) }

end Given

/-- What a level reads: its options, and the command with the arguments behind it. -/
structure Reading where
  given : Given
  command : Option (String × List String) := none

namespace Level

/-- May an argument be the value of an option? -/
def isValueOf (s : Switch) (arg : String) : Bool :=
  match s.value with
  | some (_, .anyText) => true
  | _ => arg == "-" || arg.toList.head? != some '-'

/-- What is read of a part of the arguments, and the option that waits for its value, if any. -/
abbrev Progress := Given × Option Switch

/-- Let an option wait for its value. -/
def await (s : Switch) (g : Given) : Except Stop Progress := do
  return ({ settings := ← g.settle }, some s)

/-- End the reading with a page or the version. -/
def stop (reason : Stop) (g : Given) : Except Stop Progress := do
  let _ ← g.settle
  .error reason

/-- Read an argument behind its `--`. -/
def readLong (l : Level) (arg : List Char) (g : Given) : Except Stop Progress :=
  let (name, value) := match Text.cutAt (· == '=') arg with
    | some (name, value) => (String.ofList name, some (String.ofList value))
    | none => (String.ofList arg, none)
  match l.switches.find? (·.long == name), value with
  | some s, some value => if s.value.isSome then (g.add s value).map (·, none) else .error .misuse
  | some s, none => if s.value.isSome then await s g else (g.add s "").map (·, none)
  | none, some _ => .error .misuse
  | none, none =>
    if name == "help" then stop (.help true) g
    else if name == "version" && l.version.isSome then stop .version g
    else .error .misuse

/-- Read the letters of an argument behind its `-`. A letter whose option has a value takes the rest
of the argument as the value, without a `=` in front. -/
def readShort (l : Level) : List Char → Given → Except Stop Progress
  | [], g => .ok (g, none)
  | c :: cs, g =>
    match l.switches.find? (·.short == some c) with
    | some s =>
      if s.value.isNone then (g.add s "").bind (readShort l cs)
      else
        match cs with
        | [] => await s g
        | '=' :: value => (g.add s (String.ofList value)).map (·, none)
        | value => (g.add s (String.ofList value)).map (·, none)
    | none =>
      if c == 'h' then stop (.help false) g
      else if c == 'V' && l.version.isSome then stop .version g
      else .error .misuse

/-- Read arguments on from what is read already. -/
def readFrom (l : Level) : Progress → List String → Except Stop Reading
  | (g, none), [] => .ok { given := g }
  | (_, some _), [] => .error .misuse
  | (g, some s), arg :: args =>
    if isValueOf s arg then l.readFrom ({ g with held := some (s, arg) }, none) args
    else .error .misuse
  | (g, none), arg :: args =>
    match arg.toList with
    | ['-', '-'] => if args.isEmpty then .ok { given := g } else .error .misuse
    | '-' :: '-' :: rest => do l.readFrom (← l.readLong rest g) args
    | '-' :: c :: rest => do l.readFrom (← l.readShort (c :: rest) g) args
    | _ =>
      if l.commands.any (·.1 == arg) then .ok { given := g, command := some (arg, args) }
      else .error .misuse

/-- Read the arguments of a level. -/
def read (l : Level) (args : List String) : Except Stop Reading := l.readFrom ({}, none) args

/-- Read the arguments of a level without commands: all its options, checked. -/
def readOptions (l : Level) (args : List String) : Except Stop Settings := do
  (← l.read args).given.settle

end Level

end SchemaShaper.CommandLine
