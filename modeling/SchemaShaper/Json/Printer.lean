import SchemaShaper.Json.Basic
import SchemaShaper.Text.Split

/-!
# Writing JSON

The indented form of a JSON value: two blanks per level, one item or member a line, and empty
collections on one line.
-/

namespace SchemaShaper.Json

/-- A hexadecimal digit. -/
def hexDigit (n : Nat) : Char := Char.ofNat (if n < 10 then '0'.toNat + n else 'a'.toNat + n - 10)

/-- A character as it stands between quotes. -/
def escape (c : Char) : List Char :=
  match c with
  | '"' => ['\\', '"']
  | '\\' => ['\\', '\\']
  | '\x08' => ['\\', 'b']
  | '\x0c' => ['\\', 'f']
  | '\n' => ['\\', 'n']
  | '\r' => ['\\', 'r']
  | '\t' => ['\\', 't']
  | c =>
    if c.toNat < 0x20 then ['\\', 'u', '0', '0', hexDigit (c.toNat / 16), hexDigit (c.toNat % 16)]
    else [c]

/-- A text in quotes. -/
def quote (s : String) : String :=
  "\"" ++ String.ofList (s.toList.flatMap escape) ++ "\""

/-- A new line at a level of nesting. -/
def newLine (level : Nat) : String := "\n" ++ String.ofList (List.replicate (2 * level) ' ')

mutual

/-- The indented form of a value that stands at a level of nesting. -/
def prettyAt (level : Nat) : Json → String
  | null => "null"
  | bool b => if b then "true" else "false"
  | number literal => literal
  | text s => quote (s.getD "")
  | array [] => "[]"
  | array (v :: vs) =>
    "[" ++ newLine (level + 1) ++ prettyAt (level + 1) v ++ prettyItems (level + 1) vs
      ++ newLine level ++ "]"
  | object [] => "\x7b\x7d"
  | object ((k, v) :: rest) =>
    "\x7b" ++ newLine (level + 1) ++ quote (k.getD "") ++ ": " ++ prettyAt (level + 1) v
      ++ prettyMembers (level + 1) rest ++ newLine level ++ "\x7d"

/-- The items behind the first one. -/
def prettyItems (level : Nat) : List Json → String
  | [] => ""
  | v :: vs => "," ++ newLine level ++ prettyAt level v ++ prettyItems level vs

/-- The members behind the first one. -/
def prettyMembers (level : Nat) : List (Option String × Json) → String
  | [] => ""
  | (k, v) :: rest =>
    "," ++ newLine level ++ quote (k.getD "") ++ ": " ++ prettyAt level v
      ++ prettyMembers level rest

end

/-- The indented form of a value. -/
def pretty (v : Json) : String := prettyAt 0 v

end SchemaShaper.Json
