import SchemaShaper.Json.Parser
import SchemaShaper.Yaml.Cursor
import SchemaShaper.Yaml.Token

/-!
# Texts of anchors, tags and directives

An anchor has a name. A tag is a handle, which directives may redefine, and a suffix with the
characters of a URI, where `%` and two hexadecimal digits write one byte of a character. Escaped
bytes need the shape of UTF-8, but they may write a number that is no character, or a smaller one
than their count is for; such a character is kept as unreadable.
-/

namespace SchemaShaper.Yaml

/-- May the character stand in the suffix of a tag? Inside `<` and `>`, and in a directive, some of
the marks of flow collections may stand there too. -/
def isTagChar (inBrackets : Bool) (c : Char) : Bool :=
  isWordChar c || ";/?:@&=+$.!~*'()%".toList.contains c
    || (inBrackets && (c == ',' || c == '[' || c == ']'))

/-- The byte that `%` and two hexadecimal digits at the front write. -/
def escapedByte? : List Char → Option (Nat × List Char)
  | '%' :: a :: b :: cs => do return ((← Json.hexValue? a) * 16 + (← Json.hexValue? b), cs)
  | _ => none

/-- The continuation bytes of a character; `n` of them are to come. -/
def continuation? (acc : Nat) : Nat → List Char → Option (Nat × List Char)
  | 0, cs => some (acc, cs)
  | n + 1, cs => do
    let (byte, cs) ← escapedByte? cs
    if byte / 64 == 2 then continuation? (acc * 64 + byte % 64) n cs else none

/-- The number that escaped bytes at the front write, and the least number that so many bytes are
for. -/
def escapedNumber? (cs : List Char) : Option (Nat × Nat × List Char) := do
  let (byte, cs) ← escapedByte? cs
  if byte < 0x80 then return (byte, 0, cs)
  else if byte / 32 == 6 then return withLeast 0x80 (← continuation? (byte % 32) 1 cs)
  else if byte / 16 == 14 then return withLeast 0x800 (← continuation? (byte % 16) 2 cs)
  else if byte / 8 == 30 then return withLeast 0x10000 (← continuation? (byte % 8) 3 cs)
  else none
where
  /-- Put in the least number. -/
  withLeast (least : Nat) : Nat × List Char → Nat × Nat × List Char
    | (n, cs) => (n, least, cs)

/-- The character of a number that is written in as many bytes as `least` is the least number for;
none when it is unreadable. -/
def readable? (n least : Nat) : Option Char :=
  if least ≤ n ∧ n.isValidChar then some (Char.ofNat n) else none

/-- Replace the escapes in a suffix. At most `fuel` characters are looked at. -/
def unescape? (fuel : Nat) (cs : List Char) : Option TagText :=
  match fuel, cs with
  | _, [] => some []
  | 0, _ => none
  | fuel + 1, '%' :: rest => do
    let (n, least, rest) ← escapedNumber? ('%' :: rest)
    return readable? n least :: (← unescape? fuel rest)
  | fuel + 1, c :: rest => (unescape? fuel rest).map (some c :: ·)

/-- The characters in front of the first U+0000, which ends the text of a tag. -/
def upToNull (t : TagText) : TagText := t.takeWhile (· != some '\x00')

/-- The suffix of a tag that begins with `lead`. At least one character has to stand there unless
`mayBeEmpty` allows none. -/
def readSuffix? (inBrackets mayBeEmpty : Bool) (lead : List Char) (c : Cursor) :
    Option (TagText × Cursor) := do
  let (cs, c) := c.take (isTagChar inBrackets)
  let suffix := lead.map some ++ (← unescape? cs.length cs)
  if suffix.isEmpty && !mayBeEmpty then none else return (upToNull suffix, c)

/-- The handle of a tag: `!`, then characters of a word, then another `!` if one stands there. -/
def readHandle? (c : Cursor) : Option (List Char × Cursor) :=
  if c.sees '!' then
    let (word, c) := c.step.take isWordChar
    if c.sees '!' then some ('!' :: word ++ ['!'], c.step) else some ('!' :: word, c)
  else none

/-- The handle and the suffix of the tag ahead. -/
def readTag? (flow : Bool) (c : Cursor) : Option (String × TagText × Cursor) := do
  let (handle, suffix, c) ←
    if c.holds 1 (· == '<') then do
      let (suffix, c) ← readSuffix? true false [] (c.forward 2)
      if c.sees '>' then some ("", suffix, c.step) else none
    else do
      let (handle, c) ← readHandle? c
      if handle.length > 1 && handle.getLast? == some '!' then
        let (suffix, c) ← readSuffix? false false [] c
        some (String.ofList handle, suffix, c)
      else
        let (suffix, c) ← readSuffix? false true (handle.drop 1) c
        some (if suffix.isEmpty then ("", [some '!'], c) else ("!", suffix, c))
  if c.endsWord 0 || (flow && c.sees ',') then some (handle, suffix, c) else none

/-- The name behind `*` or `&`. -/
def readName? (c : Cursor) : Option (String × Cursor) :=
  let (name, c) := c.step.take isWordChar
  if !name.isEmpty && (c.endsWord 0 || c.holds 0 "?:,]\x7d%@`".toList.contains) then
    some (String.ofList name, c)
  else none

/-- A number of at most nine digits. -/
def readVersionNumber? (c : Cursor) : Option (Nat × Cursor) :=
  let (ds, c) := c.take Char.isDigit
  if 1 ≤ ds.length ∧ ds.length ≤ 9 then
    some (ds.foldl (fun n d => n * 10 + (d.toNat - '0'.toNat)) 0, c)
  else none

/-- The version of a `%YAML` directive. -/
def readVersion? (c : Cursor) : Option (Nat × Nat × Cursor) := do
  let (major, c) ← readVersionNumber? (c.skip isGap)
  if !c.sees '.' then none else
  let (minor, c) ← readVersionNumber? c.step
  return (major, minor, c)

/-- The handle of a `%TAG` directive and what it stands for. -/
def readTagHandle? (c : Cursor) : Option (String × TagText × Cursor) := do
  let (handle, c) ← readHandle? (c.skip isGap)
  if handle.getLast? != some '!' || !c.holds 0 isGap then none else
  let (lead, c) ← readSuffix? true false [] (c.skip isGap)
  if c.endsWord 0 then some (String.ofList handle, lead, c) else none

end SchemaShaper.Yaml
