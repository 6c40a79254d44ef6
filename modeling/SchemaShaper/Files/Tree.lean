import SchemaShaper.Files.Access
import SchemaShaper.Files.Path

/-!
# A tree of files

Files kept in memory, below a root, and the directory in which a program works, where paths that are
not absolute begin. A path is followed step by step, and every step but the last one has to lead to
a directory. The last one may lead to a file, or to a place where nothing stands yet; behind a slash
at the end of a path only a directory can stand.
-/

namespace SchemaShaper

/-- What stands at a place of a tree. -/
inductive FileEntry where
  | directory
  | file (content : ByteArray)

/-- A place of a tree: the names that lead there from the root. -/
abbrev Place := List String

/-- A tree of files. -/
structure FileTree where
  /-- The directory in which the program works. It and those around it are there. -/
  home : Place
  entries : List (Place × FileEntry)

namespace FileTree

/-- The tree that holds nothing but the directory in which the program works. -/
def empty (home : Place) : FileTree := { home, entries := [] }

/-- What stands at a place. -/
def at? (t : FileTree) (place : Place) : Option FileEntry :=
  if place.isPrefixOf t.home then some .directory else t.entries.lookup place

/-- Put an entry at a place, in front of what stood there. -/
def put (t : FileTree) (place : Place) (entry : FileEntry) : FileTree :=
  { t with entries := (place, entry) :: t.entries.filter (·.1 != place) }

/-- A place with a directory; a fault where none stands. -/
def directoryAt (t : FileTree) (place : Place) : Except Fault Place :=
  match t.at? place with
  | none => .error .notFound
  | some (.file _) => .error .notDirectory
  | some .directory => .ok place

/-- The most bytes of a name. -/
def maxNameBytes : Nat := 255

/-- The place that a step from a directory leads to. The root is around itself. -/
def step (place : Place) (name : String) : Except Fault Place :=
  if name == "." then .ok place
  else if name == ".." then .ok place.dropLast
  else if name.utf8ByteSize ≤ maxNameBytes then .ok (place ++ [name])
  else .error .nameTooLong

/-- The directory that steps from a place lead to. -/
def enter (t : FileTree) (place : Place) : List String → Except Fault Place
  | [] => t.directoryAt place
  | name :: names => do t.enter (← step (← t.directoryAt place) name) names

/-- The most bytes of a path. -/
def maxPathBytes : Nat := 4095

/-- The directory in which a path ends, and its last step there. The path of slashes alone stays at
the root. -/
def approach (t : FileTree) (path : String) : Except Fault (Place × String) := do
  if path.toList.contains '\x00' then .error .unusablePath
  else if path.isEmpty then .error .notFound
  else if maxPathBytes < path.utf8ByteSize then .error .nameTooLong
  else
    let start := if Path.isAbsolute path then [] else t.home
    let names := Path.steps path
    return (← t.enter start names.dropLast, names.getLast?.getD ".")

/-- What a path leads to. -/
def find (t : FileTree) (path : String) : Except Fault FileEntry := do
  let (directory, last) ← t.approach path
  match t.at? (← step directory last) with
  | none => .error .notFound
  | some (.file content) =>
    if Path.endsInSlash path then .error .notDirectory else .ok (.file content)
  | some .directory => .ok .directory

/-- The text of a file. -/
def read (t : FileTree) (path : String) : Except Fault String := do
  match ← t.find path with
  | .directory => .error .isDirectory
  | .file content =>
    match String.fromUTF8? content with
    | some text => .ok text
    | none => .error .notText

/-- Write a file, in place of what it held. -/
def write (t : FileTree) (path : String) (content : ByteArray) : Except Fault FileTree := do
  let (directory, last) ← t.approach path
  if Path.endsInSlash path then .error .isDirectory
  else
    let place ← step directory last
    match t.at? place with
    | some .directory => .error .isDirectory
    | _ => .ok (t.put place (.file content))

/-- Make a directory in a directory that is there. -/
def makeDirectory (t : FileTree) (path : String) : Except Fault FileTree := do
  let (directory, last) ← t.approach path
  let place ← step directory last
  match t.at? place with
  | none => .ok (t.put place .directory)
  | some _ => .error .alreadyExists

/-- Does the path lead to a directory? -/
def isDirectory (t : FileTree) (path : String) : Bool :=
  match t.find path with
  | .ok .directory => true
  | _ => false

/-- What becomes of a tree, and the fault if there was one. What was changed before a fault stays
changed. -/
abbrev Change := Except Fault Unit × FileTree

/-- Make a directory, unless one is there. -/
def ensureDirectory (t : FileTree) (path : String) : Change :=
  match t.makeDirectory path with
  | .ok t => (.ok (), t)
  | .error fault => (if t.isDirectory path then .ok () else .error fault, t)

/-- Make the directory of the first path, given the paths of those around it. Those are made only if
the directory cannot be made for want of them. -/
def ensureDirectories (t : FileTree) : List String → Change
  | [] => (.ok (), t)
  | path :: around =>
    match t.ensureDirectory path with
    | (.error .notFound, t) =>
      match t.ensureDirectories around with
      | (.ok (), t) => t.ensureDirectory path
      | failed => failed
    | made => made

/-- Make the directory of a path and those around it. -/
def makeDirectories (t : FileTree) (path : String) : Change :=
  t.ensureDirectories (Path.ancestors path)

/-- Keep the tree of a change that succeeded. -/
def change (f : FileTree → Except Fault FileTree) (t : FileTree) : Change :=
  match f t with
  | .ok t => (.ok (), t)
  | .error fault => (.error fault, t)

/-- Access to the files of a tree. -/
def access : Files (StateM FileTree) where
  read path := fun t => (t.read path, t)
  leadsSomewhere path := fun t => ((t.find path).toBool, t)
  makeDirectories path := fun t => t.makeDirectories path
  write path text := change (·.write path text.toUTF8)

end FileTree

end SchemaShaper
