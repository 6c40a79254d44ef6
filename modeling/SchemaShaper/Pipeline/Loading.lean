import SchemaShaper.Config.Json
import SchemaShaper.Document.Text
import SchemaShaper.Pipeline.Entries
import SchemaShaper.Session
import SchemaShaper.Value.Text

/-!
# Running the pipeline over files

The settings name the files: the document is loaded, then every file of statements is applied, then
every file of foreign keys, then the keys to leave out are registered. Each file is applied whole or
not at all, and the first failure ends the run. All of it works for any way of keeping files.
-/

namespace SchemaShaper

variable {m : Type → Type} [Monad m]

/-- Turn the fault of an access into a failure during an activity. -/
def orFail {α : Type} (activity : String) (access : m (Except Fault α)) : ExceptT Failure m α := do
  match ← access with
  | .ok a => pure a
  | .error fault => throw (.during activity (.outside (.file fault)))

/-- Add the activity to a failure. -/
def whileDoing {α : Type} (activity : String) (result : Except Failure α) :
    ExceptT Failure m α :=
  match result with
  | .ok a => pure a
  | .error failure => throw (.during activity failure)

/-- The format of a document file: JSON by its extension, else YAML. -/
def documentFormat (path : String) : Format :=
  if Path.extension? path == some "json" then .json else .yaml

/-- Load a document. -/
def loadDocument (files : Files m) (path : String) : ExceptT Failure m Document := do
  let text ← orFail ("read schema document: " ++ path) (files.read path)
  whileDoing ("parse schema document: " ++ path) (Document.parse (documentFormat path) text)

/-- Load the entries of a file. -/
def loadEntries (files : Files m) (kind : EntryKind) (path : String) :
    ExceptT Failure m (List String) := do
  let text ← orFail ("read spec file: " ++ path) (files.read path)
  Entries.parse kind path text

/-- The file of the settings. -/
def configFile : String := "relform.json"

/-- Read settings from a file that is there. -/
def readConfig (files : Files m) (path : String) : ExceptT Failure m Config := do
  let text ← orFail "read relform.json" (files.read path)
  match Config.parse? text with
  | some config => pure config
  | none => throw (.during "parse relform.json" (.outside .json))

/-- Load settings, or complain with a message when the path leads nowhere. -/
def loadConfigOr (files : Files m) (complaint path : String) : ExceptT Failure m Config := do
  if ← files.leadsSomewhere path then readConfig files path else throw (.notice complaint)

/-- Load the settings of the working directory. -/
def loadConfig (files : Files m) : ExceptT Failure m Config :=
  loadConfigOr files "relform.json not found. Run 'relform init' first." configFile

/-- Load the settings in a given file. -/
def loadConfigFrom (files : Files m) (path : String) : ExceptT Failure m Config :=
  loadConfigOr files ("relform.json not found at: " ++ path) path

/-- Load the settings of a directory, the working directory if none is given; the defaults where it
has none. -/
def loadConfigOrDefault (files : Files m) (root : Option String) : ExceptT Failure m Config := do
  let path := match root with
    | none => configFile
    | some root => Path.join root configFile
  if ← files.leadsSomewhere path then readConfig files path else pure {}

/-- The session that an edit of the entries of a file leaves, when it did not fail. -/
def edited (activity : String) (outcome : Session.Outcome) : ExceptT Failure m Session :=
  match outcome.failure with
  | none => pure outcome.session
  | some reason => throw (.during activity (.edit reason))

/-- Apply a file of statements. -/
def applyFile (files : Files m) (s : Session) (path : String) : ExceptT Failure m Session := do
  let entries ← loadEntries files .transforms path
  edited ("apply transformations: " ++ path) (s.transformWhole entries)

/-- Add the foreign keys of a file. -/
def addKeysOfFile (files : Files m) (s : Session) (path : String) : ExceptT Failure m Session := do
  let entries ← loadEntries files .foreignKeys path
  edited ("add foreign keys: " ++ path) (s.addKeysWhole entries)

/-- Leave out the keys of a file. -/
def omitKeysOfFile (files : Files m) (s : Session) (path : String) :
    ExceptT Failure m Session := do
  let entries ← loadEntries files .omitTags path
  return s.omitKeys entries

/-- Load the document of the settings and run the pipeline. -/
def loadSession (files : Files m) (c : Config) : ExceptT Failure m Session := do
  let base ← loadDocument files c.schema
  let s ← c.transforms.foldlM (applyFile files) (Session.start base)
  let s ← c.foreignKeys.foldlM (addKeysOfFile files) s
  c.omitTags.foldlM (omitKeysOfFile files) s

/-- Make the directory around a path. -/
def makeParent (files : Files m) (activity path : String) : ExceptT Failure m Unit :=
  match Path.parent? path with
  | none | some "" => pure ()
  | some parent => orFail (activity ++ parent) (files.makeDirectories parent)

/-- Write a value to a file. -/
def saveValue (files : Files m) (path : String) (format : Format) (v : Value) :
    ExceptT Failure m Unit := do
  makeParent files "create output directory: " path
  let text ← (v.render format : Except Failure String)
  orFail ("write document: " ++ path) (files.write path text)

end SchemaShaper
