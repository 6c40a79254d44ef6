/-!
# Access to files

What a program may ask of files, for any way of keeping them: reading and writing texts, asking
whether a path leads somewhere, and making directories.
-/

namespace SchemaShaper

/-- Why an access fails. -/
inductive Fault where
  | notFound
  | notText
  | isDirectory
  | notDirectory
  | alreadyExists
  /-- A name has more than 255 bytes, or a path more than 4095. -/
  | nameTooLong
  /-- A path holds U+0000. -/
  | unusablePath
  deriving DecidableEq, Repr

/-- The wording of a fault. -/
def Fault.message : Fault → String
  | notFound => "No such file or directory (os error 2)"
  | notText => "stream did not contain valid UTF-8"
  | isDirectory => "Is a directory (os error 21)"
  | notDirectory => "Not a directory (os error 20)"
  | alreadyExists => "File exists (os error 17)"
  | nameTooLong => "File name too long (os error 36)"
  | unusablePath => "file name contained an unexpected NUL byte"

/-- A way of keeping files. -/
structure Files (m : Type → Type) where
  /-- The text of a file. -/
  read : String → m (Except Fault String)
  /-- Does the path lead to a file or a directory? -/
  leadsSomewhere : String → m Bool
  /-- Make a directory and those around it, unless they are there. -/
  makeDirectories : String → m (Except Fault Unit)
  /-- Write a text to a file, in place of what it held. -/
  write : String → String → m (Except Fault Unit)

end SchemaShaper
