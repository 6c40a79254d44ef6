/-!
# A place in a YAML text

A cursor holds the characters that are left, the bytes that they take in UTF-8, and where they
stand: the line and the column. A distance in a text is counted in bytes, a column in characters.
Lines end with a line feed, a carriage return, both in this order, or one of the characters U+0085,
U+2028 and U+2029.
-/

namespace SchemaShaper.Yaml

/-- Is the character a space or a tab? -/
def isGap (c : Char) : Bool := c == ' ' || c == '\t'

/-- Does the character end a line? -/
def isBreak (c : Char) : Bool :=
  c == '\n' || c == '\r' || c == '\u0085' || c == '\u2028' || c == '\u2029'

/-- May the character stand in a YAML text? -/
def isAllowed (c : Char) : Bool :=
  let n := c.toNat
  n == 0x09 || n == 0x0A || n == 0x0D || (0x20 ≤ n && n ≤ 0x7E) || n == 0x85
    || (0xA0 ≤ n && n ≤ 0xD7FF) || (0xE000 ≤ n && n ≤ 0xFFFD) || 0x10000 ≤ n

/-- Is the character a letter, a digit, `_` or `-`? Letters and digits are those of ASCII. -/
def isWordChar (c : Char) : Bool := c.isAlphanum || c == '_' || c == '-'

/-- The byte order mark. -/
def byteOrderMark : Char := '\uFEFF'

/-- The bytes that characters take in UTF-8. -/
def byteCount : List Char → Nat
  | [] => 0
  | c :: cs => c.utf8Size + byteCount cs

/-- A place in a text. -/
structure Cursor where
  rest : List Char
  /-- The number of bytes that are left. -/
  left : Nat
  line : Nat
  column : Nat
  deriving Repr

namespace Cursor

/-- The place before a text. -/
def start (cs : List Char) : Cursor := { rest := cs, left := byteCount cs, line := 0, column := 0 }

/-- Is no character left? -/
def atEnd (c : Cursor) : Bool := c.rest.isEmpty

/-- Is the character `k` places ahead of the class? The end of the text is of no class. -/
def holds (c : Cursor) (k : Nat) (p : Char → Bool) : Bool := (c.rest[k]?.map p).getD false

/-- Is this the character ahead? -/
def sees (c : Cursor) (x : Char) : Bool := c.holds 0 (· == x)

/-- Does a blank, a line break or the end of the text stand `k` places ahead? -/
def endsWord (c : Cursor) (k : Nat) : Bool :=
  (c.rest[k]?.map fun x => isGap x || isBreak x).getD true

/-- Does a line break or the end of the text stand ahead? -/
def endsLine (c : Cursor) : Bool := (c.rest.head?.map isBreak).getD true

/-- The number of bytes that are left behind `n` characters. -/
def leftBehind (c : Cursor) (n : Nat) : Nat := c.left - byteCount (c.rest.take n)

/-- The place `n` characters further on the same line. -/
def forward (c : Cursor) (n : Nat) : Cursor :=
  { c with rest := c.rest.drop n, left := c.leftBehind n, column := c.column + n }

/-- The place behind the next character. -/
def step (c : Cursor) : Cursor := c.forward 1

/-- The characters of a class that stand ahead on the line, and the place behind them. -/
def take (p : Char → Bool) (c : Cursor) : List Char × Cursor :=
  let cs := c.rest.takeWhile p
  (cs, c.forward cs.length)

/-- The place behind the characters of a class. -/
def skip (p : Char → Bool) (c : Cursor) : Cursor := (c.take p).2

/-- The place at the beginning of the next line, `n` characters further. -/
def nextLine (c : Cursor) (n : Nat) : Cursor :=
  { rest := c.rest.drop n, left := c.leftBehind n, line := c.line + 1, column := 0 }

/-- What a line break ahead reads as, and the place behind it. U+2028 and U+2029 stand for
themselves, any other break is one line feed; nothing is read where no break stands. -/
def takeBreak (c : Cursor) : List Char × Cursor :=
  match c.rest with
  | '\r' :: '\n' :: _ => (['\n'], c.nextLine 2)
  | x :: _ =>
    if x == '\u2028' || x == '\u2029' then ([x], c.nextLine 1)
    else if isBreak x then (['\n'], c.nextLine 1)
    else ([], c)
  | [] => ([], c)

/-- The place behind the line break ahead. -/
def skipBreak (c : Cursor) : Cursor := c.takeBreak.2

/-- The place behind the comment ahead, if one stands there. -/
def skipComment (c : Cursor) : Cursor := if c.sees '#' then c.skip (!isBreak ·) else c

/-- Does a mark of three equal characters stand alone at the beginning of the line? -/
def atMark (c : Cursor) (x : Char) : Bool :=
  c.column == 0 && [x, x, x].isPrefixOf c.rest && c.endsWord 3

/-- Does `---` or `...` stand alone at the beginning of the line? -/
def atDocumentMark (c : Cursor) : Bool := c.atMark '-' || c.atMark '.'

end Cursor

end SchemaShaper.Yaml
