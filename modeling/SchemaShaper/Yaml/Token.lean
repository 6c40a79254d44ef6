/-!
# Tokens of YAML

The tokens of a YAML text. Block collections are marked by tokens for their beginning and end, which
come from the indentation; a key that is not marked by `?` gets its `key` token when its `:` is met.
-/

namespace SchemaShaper.Yaml

/-- How a scalar is written. -/
inductive Style where
  | plain
  | singleQuoted
  | doubleQuoted
  | literal
  | folded
  deriving DecidableEq, Repr

/-- The text of a tag or of a part of one. A character that its escaped bytes do not write in UTF-8
is none. -/
abbrev TagText := List (Option Char)

/-- A token. -/
inductive Token where
  | version (major minor : Nat)
  | tagHandle (handle : String) (lead : TagText)
  | documentStart
  | documentEnd
  | streamEnd
  | blockSequence
  | blockMapping
  | blockEnd
  | flowSequence
  | flowSequenceEnd
  | flowMapping
  | flowMappingEnd
  | blockEntry
  | flowEntry
  | key
  | value
  | aliasOf (name : String)
  | anchor (name : String)
  | tag (handle : String) (suffix : TagText)
  | scalar (style : Style) (text : String)
  deriving DecidableEq, Repr

end SchemaShaper.Yaml
