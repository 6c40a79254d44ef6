import SchemaShaper.Yaml.Cursor
import SchemaShaper.Yaml.Scalar
import SchemaShaper.Yaml.Token

/-!
# Choosing the style of a scalar

Which styles can hold a text is decided by its characters and their neighbours; `Traits` collects
what they show. A text with a line feed is written literally, one that would be read as something
else than a text in single quotes, and any other plain; where the wanted style cannot hold the text,
quotes are used.
-/

namespace SchemaShaper.Yaml

/-- May the character be written as it is? Tabs, carriage returns, control characters and the byte
order mark are escaped. -/
def isPrintable (c : Char) : Bool :=
  let n := c.toNat
  n == 0x0A || (0x20 ≤ n && n ≤ 0x7E) || (0xA0 ≤ n && n ≤ 0xFFFD && n != 0xFEFF)
    || 0x10000 ≤ n

/-- Is it a blank, a line break or the end of the text? -/
def isSpacing (c : Option Char) : Bool :=
  match c with
  | some c => isGap c || isBreak c
  | none => true

/-- What the characters of a text show. -/
structure Traits where
  /-- It cannot be told from structure when it is plain. -/
  ambiguous : Bool
  multiline : Bool
  /-- It holds a character that must be escaped. -/
  special : Bool
  /-- It begins or ends with a space or a break. -/
  spacedEnds : Bool
  trailingSpace : Bool
  /-- A space follows a break. -/
  breakSpace : Bool
  /-- A break follows a space. -/
  spaceBreak : Bool

namespace Traits

/-- Does a character make a plain text ambiguous, given its neighbours? -/
def isIndicator (previous : Option Char) (c : Char) (next : Option Char) : Bool :=
  match previous with
  | none => "#,[]{}&*!|>'\"%@`".toList.contains c || ("?:-".toList.contains c && isSpacing next)
  | some p => (c == ':' && isSpacing next) || (c == '#' && (isGap p || isBreak p))

/-- Is there an indicator in a text that follows a character? -/
def hasIndicator (previous : Option Char) : List Char → Bool
  | [] => false
  | c :: cs => isIndicator previous c cs.head? || hasIndicator (some c) cs

/-- Do two characters of the given classes stand next to each other? -/
def hasPair (p q : Char → Bool) : List Char → Bool
  | a :: b :: cs => (p a && q b) || hasPair p q (b :: cs)
  | _ => false

/-- The traits of a text. -/
def of (cs : List Char) : Traits :=
  let isSpace c := c == ' '
  let spaced c := isSpace c || isBreak c
  { ambiguous := ['-', '-', '-'].isPrefixOf cs || ['.', '.', '.'].isPrefixOf cs
      || hasIndicator none cs
    multiline := cs.any isBreak
    special := cs.any (!isPrintable ·)
    spacedEnds := (cs.head?.map spaced).getD false || (cs.getLast?.map spaced).getD false
    trailingSpace := cs.getLast? == some ' '
    breakSpace := hasPair isBreak isSpace cs
    spaceBreak := hasPair isSpace isBreak cs }

/-- Can a plain scalar hold the text? -/
def allowsPlain (t : Traits) : Bool :=
  !(t.ambiguous || t.multiline || t.special || t.spacedEnds || t.breakSpace || t.spaceBreak)

/-- Can a scalar in single quotes hold the text? -/
def allowsSingleQuoted (t : Traits) : Bool := !(t.special || t.breakSpace || t.spaceBreak)

/-- Can a literal scalar hold the text? -/
def allowsLiteral (t : Traits) : Bool := !(t.special || t.trailingSpace || t.spaceBreak)

end Traits

/-- The style that a text asks for. -/
def wantedStyle (s : String) : Style :=
  if s.toList.contains '\n' then .literal
  else
    match plainValue? s with
    | some (.text _) => if hasLeadingZero s.toList then .singleQuoted else .plain
    | _ => .singleQuoted

/-- The style that a scalar gets when it asks for one. -/
def chooseStyle (wanted : Style) (cs : List Char) : Style :=
  let t := Traits.of cs
  let quoted := if t.allowsSingleQuoted then Style.singleQuoted else .doubleQuoted
  match wanted with
  | .plain => if t.allowsPlain then .plain else quoted
  | .singleQuoted => quoted
  | .literal => if t.allowsLiteral then .literal else .doubleQuoted
  | style => style

end SchemaShaper.Yaml
