import SchemaShaper.JsonSchema.Run

/-!
# The program

Runs the command line on the files of the working directory. Under the name of the generator the
same program writes the schema files.
-/

namespace SchemaShaper.CommandLine

/-- The fault that an error of the file system stands for. -/
def faultOf : IO.Error → Fault
  | .inappropriateType (some _) 20 _ | .inappropriateType none 20 _ => .notDirectory
  | .inappropriateType .. => .isDirectory
  | .alreadyExists .. => .alreadyExists
  | .invalidArgument _ 36 _ => .nameTooLong
  | .invalidArgument .. => .unusablePath
  | _ => .notFound

/-- The outcome of an access, with its error as a fault. -/
def attempt {α : Type} (access : IO α) : IO (Except Fault α) := do
  try return .ok (← access)
  catch e => return .error (faultOf e)

/-- Does a path lead to a file or a directory? -/
def leadsSomewhere (path : String) : IO Bool := do
  try
    let _ ← IO.FS.Handle.mk path .read
    return true
  catch _ => return false

/-- The text of a file. -/
def readText (path : String) : IO (Except Fault String) := do
  match ← attempt (IO.FS.readBinFile path) with
  | .error fault => return .error fault
  | .ok bytes =>
    match String.fromUTF8? bytes with
    | some text => return .ok text
    | none => return .error .notText

/-- The files of the working directory. -/
def workingFiles : Files IO where
  read := readText
  leadsSomewhere := leadsSomewhere
  makeDirectories path := attempt (IO.FS.createDirAll path)
  write path text := attempt (IO.FS.writeFile path text)

/-- The wording of a cause from outside. -/
def outsideMessage : Outside → String
  | .file fault => fault.message
  | .yaml => "the YAML does not fit"
  | .json => "the JSON does not fit"

end SchemaShaper.CommandLine

open SchemaShaper CommandLine

/-- Run the command line, or the generator when the program has its name. -/
def main (args : List String) : IO UInt32 := do
  let name := (← IO.appPath).fileName.getD ""
  let program := if name == JsonSchema.programName then JsonSchema.run else CommandLine.run
  let result ← program workingFiles args
  IO.print result.output
  if result.misused then
    IO.eprintln "error: the arguments do not fit\n\nFor more information, try '--help'."
  match result.failure with
  | some failure => IO.eprintln ("Error: " ++ failure.report outsideMessage)
  | none => pure ()
  return UInt32.ofNat result.status
