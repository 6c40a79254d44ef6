import SchemaShaper.Text.Split

/-!
# Path texts

A path is a text of components between slashes. One that begins with a slash is absolute. Empty
components do not count, and where a path is taken apart a component `.` counts only in front.
Where it is followed, a `.` is a step that stays where it is.
-/

namespace SchemaShaper.Path

/-- Is the path absolute? -/
def isAbsolute (path : String) : Bool := path.toList.head? == some '/'

/-- The path as it is seen from `base`. An absolute path stays as it is. -/
def join (base path : String) : String :=
  if isAbsolute path || base.isEmpty then path
  else if base.toList.getLast? == some '/' then base ++ path
  else base ++ "/" ++ path

/-- Does the component not count? -/
def isIdle (component : List Char) : Bool := component.isEmpty || component == ['.']

/-- The components of a path without the idle ones at its end. The first one is never dropped: it
is the root, when it is empty, or the `.` in front. -/
def significant (path : String) : List (List Char) :=
  match Text.splitOn '/' path.toList with
  | [] => []
  | first :: rest => first :: (rest.reverse.dropWhile isIdle).reverse

/-- The steps that a path tells to take, in order: its components that are not empty. -/
def steps (path : String) : List String :=
  ((Text.splitOn '/' path.toList).filter (!·.isEmpty)).map String.ofList

/-- Does the path end with a slash? -/
def endsInSlash (path : String) : Bool := path.toList.getLast? == some '/'

/-- The path without its last component; none when it has no component. -/
def parent? (path : String) : Option String :=
  match significant path with
  | [] | [[]] => none
  | [_] => some ""
  | first :: rest =>
    let kept := first :: (rest.dropLast.reverse.dropWhile isIdle).reverse
    some (if kept == [[]] then "/" else Text.joinWith "/" (kept.map String.ofList))

/-- The paths that taking away the last component again and again leads to, as long as one is left,
beginning with the path itself. At most `fuel` of them are given. -/
def ancestorsUpTo (path : String) : Nat → List String
  | 0 => []
  | fuel + 1 =>
    if path.isEmpty then []
    else path :: match parent? path with
      | some parent => ancestorsUpTo parent fuel
      | none => []

/-- The path, its parent, the parent of that, and so on; the empty path is not among them. -/
def ancestors (path : String) : List String := ancestorsUpTo path (path.length + 1)

/-- The last component, when it is the name of a file. -/
def fileName? (path : String) : Option String :=
  match (significant path).getLast? with
  | some last => if isIdle last || last == ['.', '.'] then none else some (String.ofList last)
  | none => none

/-- The part of a name behind its last dot; none when no dot stands behind its first character. -/
def nameExtension? (name : List Char) : Option (List Char) :=
  match Text.cutAt (· == '.') name.reverse with
  | some (_, []) | none => none
  | some (extension, _ :: _) => some extension.reverse

/-- The extension of the file that a path names. -/
def extension? (path : String) : Option String :=
  (fileName? path).bind fun name => (nameExtension? name.toList).map String.ofList

end SchemaShaper.Path
